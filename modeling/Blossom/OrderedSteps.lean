import Blossom.OrderedRecovery

/-!
# The steps of an ordered engine

Every call of the engine is a sequence of steps: the store binds the protocol scope or keeps a
batch, a reference becomes available, a position is finalized or applied, the application contract
or the committee changes.
-/

namespace Blossom

open CheckedSteps OrderedMap

variable {W : Type} [ProtocolCrypto W]
variable {r : BatchReference W} {cluster group hash : W}
  {entries references : List (W × BatchReference W)}

namespace DurableAdmissionStore

variable {s s' : DurableAdmissionStore W}

def bound (s : DurableAdmissionStore W) (scope : W × W) : DurableAdmissionStore W :=
  { s with protocolScope := some scope }

variable {io : Bool}

theorem bindProtocolScope_eq_ok :
    s.bindProtocolScope cluster group io = .ok s' ↔
      (∀ scope ∈ s.protocolScope, scope = (cluster, group)) ∧ io = true ∧
        s.bound (cluster, group) = s' := by
  rw [bindProtocolScope]
  simp only [↓guard_bind_eq_ok, reject_eq_ok, pure_eq_ok, transact, not_any_ne,
    Bool.not_eq_false]
  rfl

theorem persistOrderedDelta_eq_ok {delta : OrderedStateDelta W}
    {completion : Option (AppliedCompletion W)} :
    s.persistOrderedDelta delta completion io = .ok s' ↔
      io = true ∧ s.written delta completion = s' := by
  unfold persistOrderedDelta
  simp only [↓guard_bind_eq_ok, pure_eq_ok, transact, reject_eq_ok, Bool.not_eq_false]

theorem storeBatch_eq_ok {b : CommandBatch} :
    s.storeBatch r b io = .ok s' ↔
      r.verifyBatch b = .ok () ∧ ∃ hash, r.hash = .ok hash ∧
        (∀ scope ∈ s.protocolScope, scope = (r.clusterId, r.consensusGroupId)) ∧ io = true ∧
        { s.bound (r.clusterId, r.consensusGroupId) with
          batches := s.batches.insert hash b } = s' := by
  rw [storeBatch]
  simp only [↓guard_bind_eq_ok, bind_eq_ok, pure_eq_ok, bindProtocolScope_eq_ok]
  constructor
  · rintro ⟨hbatch, hash, hhash, _, ⟨hscope, hio, rfl⟩, rfl⟩
    exact ⟨hbatch, hash, hhash, hscope, hio, rfl⟩
  · rintro ⟨hbatch, hash, hhash, hscope, hio, rfl⟩
    exact ⟨hbatch, hash, hhash, _, ⟨hscope, hio, rfl⟩, rfl⟩

def withTransition (s : DurableAdmissionStore W) (metadata : DurableOrderedMetadata W)
    (c : CommitteeTransitionCertificate W) : DurableAdmissionStore W :=
  { s with
    committeeTransitions := s.committeeTransitions.insert c.statement.nextValidatorGeneration c
    orderedMetadata := some metadata }

theorem persistCommitteeTransition_eq_ok {metadata : DurableOrderedMetadata W}
    {c : CommitteeTransitionCertificate W} :
    s.persistCommitteeTransition metadata c io = .ok s' ↔
      (∀ d ∈ s.committeeTransitions[c.statement.nextValidatorGeneration]?, d = c) ∧ io = true ∧
        s.withTransition metadata c = s' := by
  rw [persistCommitteeTransition]
  simp only [↓guard_bind_eq_ok, reject_eq_ok, pure_eq_ok, transact, not_any_ne,
    Bool.not_eq_false]
  rfl

end DurableAdmissionStore

namespace GlobalOrderedEngine

variable {e e' : GlobalOrderedEngine W}

def HasPosition (e : GlobalOrderedEngine W) (hash : W) : Prop :=
  hash ∈ values e.finalReferenceByPosition

/-- A certificate under the rules of the engine's trust mode and its committee. -/
def Accepts (e : GlobalOrderedEngine W) (c : OrderCertificate W) : Prop :=
  e.orderTrustMode = .trusted ∧ c.verifyTrusted e.validatorGeneration = .ok () ∨
    e.orderTrustMode ≠ .trusted ∧ c.verify e.validatorGeneration e.validators = .ok ()

/-- What `mark_available` has checked of a certificate that it admits. -/
structure Offers (room : Prop) (e : GlobalOrderedEngine W) (hash : W)
    (a : AvailabilityCertificate W) : Prop where
  verified : a.verify e.holderMembership = .ok ()
  route : a.reference.routeGeneration = e.routeGeneration
  spec : a.reference.commandSpecVersion = e.commandSpecVersion
  generation : a.reference.validatorGeneration = e.validatorGeneration
  scope : e.store.protocolScope = some (a.reference.clusterId, a.reference.consensusGroupId)
  hash_eq : a.reference.hash = .ok hash
  unavailable : e.available.contains hash = false
  unordered : ¬e.HasPosition hash
  extension : e.checkOriginExtension a.reference = .ok ()
  sequence : room → ∀ tail, e.lastOriginReference[originKey a.reference]? = some tail →
    tail.2 < maxCounter

/-- What the three ways to finalize a position have checked of its certificate. The
reference is the available one or, in a trusted epoch, the one that the epoch carries. -/
structure Orders (fresh : Prop) (e : GlobalOrderedEngine W) (c : OrderCertificate W) : Prop where
  accepted : e.Accepts c
  position : c.statement.position = e.lastFinalizedPosition + 1
  previous : c.statement.previousOrderCertificateHash = e.lastOrderCertificateHash
  bound : e.lastFinalizedPosition < maxCounter
  available : e.available.contains c.statement.referenceHash = true
  predecessor : ∃ r : BatchReference W,
    (r.hash = .ok c.statement.referenceHash ∨
      ∃ a, e.available[c.statement.referenceHash]? = some a ∧ a.reference = r) ∧
    (r.previousOriginReferenceHash = default ∨ e.HasPosition r.previousOriginReferenceHash ∨
      e.finalizedReferenceHashes.contains r.previousOriginReferenceHash = true)
  unordered : fresh → ¬e.HasPosition c.statement.referenceHash

/-- What `apply_contiguous_to` has before it commits a completion. -/
structure Applies (fresh : Prop) (e : GlobalOrderedEngine W) (c : OrderCertificate W)
    (completion : AppliedCompletion W) : Prop where
  next : e.finalized[min (e.appliedWatermark + 1) maxCounter]? = some c
  available : e.available.contains c.statement.referenceHash = true
  referenceHash : completion.referenceHash = c.statement.referenceHash
  watermark : completion.watermark = c.statement.position
  valid : ∃ count, completion.validate (some count) = .ok ()
  room : fresh → e.appliedWatermark < maxCounter

section

variable (e : GlobalOrderedEngine W)

def touched : GlobalOrderedEngine W :=
  { e with store := e.store.written (.new e.durableMetadata) none }

def offered (hash : W) (a : AvailabilityCertificate W) : GlobalOrderedEngine W :=
  { e with
    lastOriginReference :=
      e.lastOriginReference.insert (originKey a.reference) (hash, a.reference.lastOriginSequence)
    available := e.available.insert hash a
    store := e.store.written { OrderedStateDelta.new e.durableMetadata with
      originTailUpserts := [(originKey a.reference, hash, a.reference.lastOriginSequence)]
      availableUpserts := [(hash, a)] } none }

def ordered (c : OrderCertificate W) : GlobalOrderedEngine W :=
  { e.withFinalized c with
    store := e.store.written { OrderedStateDelta.new (e.withFinalized c).durableMetadata with
      finalizedUpserts := [(c.statement.position, c)]
      positionUpserts := [(c.statement.position, c.statement.referenceHash)] } none }

def applied (c : OrderCertificate W) (completion : AppliedCompletion W) : GlobalOrderedEngine W :=
  { e.withApplied c.statement.position c.statement.referenceHash with
    store := e.store.written
      { OrderedStateDelta.new
          (e.withApplied c.statement.position c.statement.referenceHash).durableMetadata with
        availableRemovals := [c.statement.referenceHash] } (some completion) }

def contracted (route spec : ℕ) : GlobalOrderedEngine W :=
  { e with
    routeGeneration := route
    commandSpecVersion := spec
    store := e.store.written (.new { e.durableMetadata with
      routeGeneration := route
      commandSpecVersion := spec }) none }

def transitioned (c : CommitteeTransitionCertificate W) : GlobalOrderedEngine W :=
  { e.withCommittee c with
    store := e.store.withTransition { e.durableMetadata with
      holderMembershipEpoch := c.statement.nextHolderMembership.epoch
      validatorGeneration := c.statement.nextValidatorGeneration } c }

end

/-- One step of an engine. Under `fresh` no reference gets a second position and the
watermark can advance, under `room` the sequences of an origin do not overflow: the engine
checks neither. -/
inductive Step (fresh room : Prop) (e : GlobalOrderedEngine W) : GlobalOrderedEngine W → Prop where
  | bind (scope : W × W) (free : ∀ known ∈ e.store.protocolScope, known = scope) :
      Step fresh room e { e with store := e.store.bound scope }
  | keep (hash : W) (batch : CommandBatch) :
      Step fresh room e { e with store :=
        { e.store with batches := e.store.batches.insert hash batch } }
  | touch : Step fresh room e e.touched
  | offer (hash : W) (a : AvailabilityCertificate W) (offers : e.Offers room hash a) :
      Step fresh room e (e.offered hash a)
  | order (c : OrderCertificate W) (orders : e.Orders fresh c) : Step fresh room e (e.ordered c)
  | apply (c : OrderCertificate W) (completion : AppliedCompletion W)
      (applies : e.Applies fresh c completion) : Step fresh room e (e.applied c completion)
  | contract (route spec : ℕ) (check : e.checkApplicationContract route spec = .ok ()) :
      Step fresh room e (e.contracted route spec)
  | committee (c : CommitteeTransitionCertificate W)
      (check : e.checkCommitteeTransition c = .ok ())
      (known : ∀ d ∈ e.store.committeeTransitions[c.statement.nextValidatorGeneration]?, d = c) :
      Step fresh room e (e.transitioned c)

abbrev Steps (fresh room : Prop) : GlobalOrderedEngine W → GlobalOrderedEngine W → Prop :=
  Relation.ReflTransGen (Step fresh room)

variable {fresh room : Prop}

theorem Steps.commit {α : Type} {value : α} {next : GlobalOrderedEngine W}
    {persisted : Result (DurableAdmissionStore W)}
    (h : ∀ s, persisted = .ok s → Steps fresh room e { next with store := s }) :
    Steps fresh room e (e.commit next persisted value).2 := by
  unfold GlobalOrderedEngine.commit
  split
  · exact .refl
  · next s => exact h s rfl

theorem Steps.commitDelta {α : Type} {value : α} {next : GlobalOrderedEngine W} {io : Bool}
    {delta : OrderedStateDelta W} {completion : Option (AppliedCompletion W)}
    (h : Steps fresh room e { next with store := e.store.written delta completion }) :
    Steps fresh room e (e.commit next (e.store.persistOrderedDelta delta completion io) value).2 := by
  refine .commit fun s hs => ?_
  obtain ⟨-, rfl⟩ := DurableAdmissionStore.persistOrderedDelta_eq_ok.mp hs
  exact h

theorem activateApplicationContract_steps (route spec : ℕ) (io : Bool) :
    Steps fresh room e (e.activateApplicationContract route spec io).2 := by
  unfold activateApplicationContract
  split
  · exact .refl
  · next hcheck => exact .commitDelta (.single (.contract route spec hcheck))

theorem activateCommitteeTransition_steps (c : CommitteeTransitionCertificate W) (io : Bool) :
    Steps fresh room e (e.activateCommitteeTransition c io).2 := by
  unfold activateCommitteeTransition
  split
  · exact .refl
  · next hcheck =>
    refine .commit fun s hs => ?_
    rw [DurableAdmissionStore.persistCommitteeTransition_eq_ok] at hs
    obtain ⟨hknown, -, rfl⟩ := hs
    exact .single (.committee c hcheck hknown)

theorem storeBatch_steps (r : BatchReference W) (b : CommandBatch) (io : Bool) :
    Steps fresh room e (e.storeBatch r b io).2 := by
  refine .commit fun s hs => ?_
  rw [DurableAdmissionStore.storeBatch_eq_ok] at hs
  obtain ⟨-, hash, -, hscope, -, rfl⟩ := hs
  exact .head (.bind _ hscope) (.single (.keep hash b))

variable {a : AvailabilityCertificate W}

theorem checkAvailable_spec (h : e.checkAvailable a = .ok ()) :
    a.verify e.holderMembership = .ok () ∧ a.reference.routeGeneration = e.routeGeneration ∧
      a.reference.commandSpecVersion = e.commandSpecVersion := by
  rw [checkAvailable, guard_bind_eq_ok, reject_eq_ok, not_or, not_not, not_not] at h
  exact h

theorem currentReferenceHash_spec (h : e.currentReferenceHash r = .ok hash) :
    r.validatorGeneration = e.validatorGeneration ∧ r.hash = .ok hash := by
  rw [currentReferenceHash, guard_bind_eq_ok, reject_eq_ok, not_not] at h
  exact h

theorem admitAvailable_steps (io : Bool) (hcheck : e.checkAvailable a = .ok ())
    (hscope : e.store.protocolScope = some (a.reference.clusterId, a.reference.consensusGroupId))
    (hroom : room → ∀ tail, e.lastOriginReference[originKey a.reference]? = some tail →
      tail.2 < maxCounter) :
    Steps fresh room e (e.admitAvailable a io).2 := by
  dsimp only [admitAvailable]
  split
  · exact .refl
  · next hash hhash =>
    split_ifs with hknown
    · exact .refl
    · split
      · exact .refl
      · next hextn =>
        obtain ⟨hver, hroute, hspec⟩ := checkAvailable_spec hcheck
        obtain ⟨hgen, hhash⟩ := currentReferenceHash_spec hhash
        rw [not_or, Bool.not_eq_true] at hknown
        exact .commitDelta (.single (.offer hash a ⟨hver, hroute, hspec, hgen, hscope, hhash,
          hknown.1, hknown.2, hextn, hroom⟩))

theorem markAvailable_steps (a : AvailabilityCertificate W) (bindIo io : Bool)
    (hroom : room → ∀ tail, e.lastOriginReference[originKey a.reference]? = some tail →
      tail.2 < maxCounter) :
    Steps fresh room e (e.markAvailable a bindIo io).2 := by
  unfold markAvailable
  split
  · exact .refl
  · next hcheck =>
    split
    · exact .refl
    · next s hs =>
      rw [DurableAdmissionStore.bindProtocolScope_eq_ok] at hs
      obtain ⟨hfree, -, rfl⟩ := hs
      exact .head (.bind _ hfree) (admitAvailable_steps io hcheck rfl hroom)

theorem storeBatch_origins (r : BatchReference W) (b : CommandBatch) (io : Bool) :
    (e.storeBatch r b io).2.lastOriginReference = e.lastOriginReference := by
  unfold storeBatch GlobalOrderedEngine.commit
  split <;> rfl

theorem markAvailableWithBatch_steps (b : CommandBatch) (a : AvailabilityCertificate W)
    (storeIo bindIo io : Bool)
    (hroom : room → ∀ tail, e.lastOriginReference[originKey a.reference]? = some tail →
      tail.2 < maxCounter) :
    Steps fresh room e (e.markAvailableWithBatch b a storeIo bindIo io).2 := by
  have hstored : Steps fresh room e (e.storeBatch a.reference b storeIo).2 :=
    storeBatch_steps a.reference b storeIo
  have horig := storeBatch_origins (e := e) a.reference b storeIo
  unfold markAvailableWithBatch
  split
  · next heq =>
    rw [heq] at hstored
    exact hstored
  · next heq =>
    rw [heq] at hstored horig
    refine hstored.trans (markAvailable_steps a bindIo io ?_)
    rw [horig]
    exact hroom

variable {c : OrderCertificate W}

/-- What `finalize_validated` asks of a certificate for a new position. -/
theorem orders_of_checkFinalize (h : e.checkFinalize c.statement = .ok ()) (ha : e.Accepts c)
    (hf : fresh → c.statement.position = e.lastFinalizedPosition + 1 →
      ¬e.HasPosition c.statement.referenceHash) : e.Orders fresh c := by
  rw [checkFinalize] at h
  simp only [↓guard_bind_eq_ok, bind_eq_ok, reject_eq_ok, require_eq_ok] at h
  obtain ⟨hbound, hext, a, ha', -, hpred, -⟩ := h
  simp only [extendsChain, decide_eq_false_iff_not, not_not] at hext
  rw [ensureOriginPredecessorFinalized, reject_eq_ok, not_and, not_not] at hpred
  refine ⟨ha, hext.1, hext.2, not_le.mp hbound, contains_iff.mpr ⟨a, ha'⟩,
    ⟨a.reference, .inr ⟨a, ha', rfl⟩, ?_⟩, fun hfresh => hf hfresh hext.1⟩
  by_cases hfirst : a.reference.previousOriginReferenceHash = default
  · exact .inl hfirst
  · exact .inr (.inr (hpred hfirst))

theorem finalizeValidated_steps (io : Bool) (ha : e.Accepts c)
    (hf : fresh → c.statement.position = e.lastFinalizedPosition + 1 →
      ¬e.HasPosition c.statement.referenceHash) :
    Steps fresh room e (e.finalizeValidated c io).2 := by
  dsimp only [finalizeValidated]
  split
  · split_ifs <;> exact .refl
  · split
    · exact .refl
    · next hcheck =>
      exact .commitDelta (.single (.order c (orders_of_checkFinalize hcheck ha hf)))

theorem finalize_steps (c : OrderCertificate W) (io : Bool)
    (hf : fresh → c.statement.position = e.lastFinalizedPosition + 1 →
      ¬e.HasPosition c.statement.referenceHash) :
    Steps fresh room e (e.finalize c io).2 := by
  unfold finalize
  split_ifs with hmode
  · exact .refl
  · split
    · exact .refl
    · next hverify => exact finalizeValidated_steps io (.inr ⟨hmode, hverify⟩) hf

theorem finalizeTrusted_steps (s : OrderStatement W) (io : Bool)
    (hf : fresh → s.position = e.lastFinalizedPosition + 1 → ¬e.HasPosition s.referenceHash) :
    Steps fresh room e (e.finalizeTrusted s io).2 := by
  unfold finalizeTrusted
  split_ifs with hmode
  · exact .refl
  · split
    · exact .refl
    · next hverify => exact finalizeValidated_steps io (.inl ⟨not_not.mp hmode, hverify⟩) hf

theorem nextToApply_eq_some (h : e.nextToApply = .ok (some (c, a))) :
    e.finalized[min (e.appliedWatermark + 1) maxCounter]? = some c ∧
      e.available[c.statement.referenceHash]? = some a := by
  unfold nextToApply at h
  split at h
  · simp at h
  · next hc =>
    split at h
    · cases h
    · next ha =>
      cases h
      exact ⟨hc, ha⟩

omit [ProtocolCrypto W] in
theorem completionOf_spec {application : OrderedBatch W → Result (List (List UInt8))}
    {b : OrderedBatch W} {completion : AppliedCompletion W}
    (h : completionOf application b = .ok completion) :
    completion.referenceHash = b.referenceHash ∧ completion.watermark = b.watermark ∧
      completion.validate (some b.batch.commands.length) = .ok () := by
  rw [completionOf] at h
  simp only [bind_eq_ok, pure_eq_ok] at h
  obtain ⟨results, -, _, hvalid, rfl⟩ := h
  exact ⟨rfl, rfl, hvalid⟩

theorem applyContiguousTo_steps (application : OrderedBatch W → Result (List (List UInt8)))
    (io : Bool) (hf : fresh → e.appliedWatermark < maxCounter) :
    Steps fresh room e (e.applyContiguousTo application io).2 := by
  dsimp only [applyContiguousTo]
  split
  · exact .refl
  · exact .refl
  · next c a hnext =>
    obtain ⟨hc, ha⟩ := nextToApply_eq_some hnext
    split
    · exact .refl
    · exact .refl
    · split
      · exact .refl
      · next completion hcomp =>
        obtain ⟨hreference, hwm, hvalid⟩ := completionOf_spec hcomp
        exact .commitDelta (.single (.apply c completion ⟨hc, contains_iff.mpr ⟨a, ha⟩,
          hreference, hwm, ⟨_, hvalid⟩, hf⟩))

section TrustedEpoch

/-- The references of a trusted epoch, each available and with a predecessor that is known
when its turn comes. -/
def Listed (e : GlobalOrderedEngine W) : BTreeSet W → List (W × BatchReference W) → Prop
  | _, [] => True
  | known, (hash, r) :: rest =>
    r.hash = .ok hash ∧ e.available.contains hash = true ∧
      (r.previousOriginReferenceHash = default ∨
        known.contains r.previousOriginReferenceHash = true) ∧
      (∀ entry ∈ rest, entry.1 ≠ hash) ∧ Listed e (known.insert hash) rest

theorem validateOrderableReference_spec (h : e.validateOrderableReference r = .ok hash) :
    r.hash = .ok hash ∧ e.available.contains hash = true := by
  rw [validateOrderableReference] at h
  simp only [↓guard_bind_eq_ok, bind_eq_ok, reject_eq_ok, pure_eq_ok, not_not] at h
  obtain ⟨-, _, hhash, havail, rfl⟩ := h
  exact ⟨hhash, havail⟩

theorem listed_of_checkEpochReferences {references : List (BatchReference W)} {known : BTreeSet W}
    {checked : BTreeSet W × List (W × BatchReference W)}
    (h : references.foldlM e.checkEpochReference (known, entries) = .ok checked) :
    ∃ more, checked.2 = entries ++ more ∧ e.Listed known more ∧
      ∀ entry ∈ more, ∀ other ∈ entries, other.1 ≠ entry.1 := by
  induction references generalizing known entries with
  | nil =>
    rw [List.foldlM_nil, pure_eq_ok] at h
    subst h
    exact ⟨[], (List.append_nil _).symm, trivial, by simp⟩
  | cons r references ih =>
    rw [List.foldlM_cons, bind_eq_ok] at h
    obtain ⟨next, hnext, h⟩ := h
    rw [checkEpochReference] at hnext
    simp only [↓guard_bind_eq_ok, bind_eq_ok, reject_eq_ok, pure_eq_ok, not_and, not_not] at hnext
    obtain ⟨hash, horderable, hnew, hpred, rfl⟩ := hnext
    obtain ⟨more, hmore, hlisted, hdist⟩ := ih h
    obtain ⟨hhash, havail⟩ := validateOrderableReference_spec horderable
    refine ⟨(hash, r) :: more, ?_, ⟨hhash, havail, ?_, ?_, hlisted⟩, ?_⟩
    · rw [hmore, List.append_assoc, List.singleton_append]
    · by_cases hfirst : r.previousOriginReferenceHash = default
      · exact .inl hfirst
      · exact .inr (hpred hfirst)
    · intro entry hent heq
      exact hdist entry hent (hash, r) (by simp) heq.symm
    · intro entry hent other hother
      rcases List.mem_cons.mp hent with rfl | hent
      · intro heq
        exact hnew (List.any_eq_true.mpr ⟨other, hother, by simpa using heq⟩)
      · exact hdist entry hent other (List.mem_append_left _ hother)

theorem isSome_position : (e.finalizedPositionOf hash).isSome = true ↔ e.HasPosition hash := by
  rw [finalizedPositionOf, Option.isSome_map, List.getLast?_isSome, Ne, List.filter_eq_nil_iff]
  simp [HasPosition, values]

def NoLater (e : GlobalOrderedEngine W) : Prop :=
  ∀ p, e.lastFinalizedPosition < p → e.finalReferenceByPosition[p]? = none

theorem hasPosition_ordered {c : OrderCertificate W}
    (hnew : e.finalReferenceByPosition[c.statement.position]? = none) :
    (e.ordered c).HasPosition hash ↔
      hash = c.statement.referenceHash ∨ e.HasPosition hash := by
  unfold HasPosition
  change hash ∈ values (e.finalReferenceByPosition.insert c.statement.position
    c.statement.referenceHash) ↔ _
  simp only [mem_values, lookup_insert]
  constructor
  · rintro ⟨p, hp⟩
    split_ifs at hp with heq
    · cases hp
      exact .inl rfl
    · exact .inr ⟨p, hp⟩
  · rintro (rfl | ⟨p, hp⟩)
    · exact ⟨c.statement.position, if_pos rfl⟩
    · refine ⟨p, ?_⟩
      rw [if_neg]
      · exact hp
      · rintro rfl
        rw [hnew] at hp
        cases hp

theorem NoLater.ordered {c : OrderCertificate W} (h : e.NoLater)
    (hc : c.statement.position = e.lastFinalizedPosition + 1) : (e.ordered c).NoLater := by
  intro p hp
  have hp' : c.statement.position < p := hp
  change (e.finalReferenceByPosition.insert c.statement.position
    c.statement.referenceHash)[p]? = none
  rw [lookup_insert, if_neg (by omega)]
  exact h p (by omega)

/-- The receipts of an epoch are finalized one after the other, also by an engine that has
finalized some of the epoch already. -/
theorem epochReceipts_steps {epoch : Epoch W} {receipts : List (OrderCertificate W)}
    {known : BTreeSet W} (hmode : e.orderTrustMode = .trusted)
    (h : e.epochReceipts epoch references e'.lastFinalizedPosition e'.lastOrderCertificateHash = .ok receipts)
    (hlisted : e.Listed known references) (hnew : ∀ entry ∈ references, ¬e'.HasPosition entry.1)
    (hknown : ∀ hash, known.contains hash = true → e'.HasPosition hash) (hlater : e'.NoLater)
    (hsame : e'.available = e.available ∧ e'.orderTrustMode = e.orderTrustMode ∧
      e'.validatorGeneration = e.validatorGeneration) :
    Steps fresh room e' (receipts.foldl GlobalOrderedEngine.ordered e') := by
  induction references generalizing e' known receipts with
  | nil =>
    rw [epochReceipts, pure_eq_ok] at h
    subst h
    exact .refl
  | cons entry rest ih =>
    obtain ⟨hash, r⟩ := entry
    obtain ⟨hhash, havail, hpred, hdist, hlisted⟩ := hlisted
    rw [epochReceipts] at h
    simp only [↓guard_bind_eq_ok, bind_eq_ok, reject_eq_ok, pure_eq_ok] at h
    obtain ⟨hbound, hverify, later, hrest, rfl⟩ := h
    set receipt := e.epochReceipt epoch hash r (e'.lastFinalizedPosition + 1)
      e'.lastOrderCertificateHash with hrcpt
    have hfree : e'.finalReferenceByPosition[receipt.statement.position]? = none :=
      hlater _ (Nat.lt_succ_self _)
    have horders : e'.Orders fresh receipt := by
      refine ⟨.inl ⟨hsame.2.1.trans hmode, ?_⟩, rfl, rfl, not_le.mp hbound, ?_,
        ⟨r, .inl hhash, ?_⟩, fun _ => hnew _ List.mem_cons_self⟩
      · rw [hsame.2.2]
        exact hverify
      · rw [hsame.1]
        exact havail
      · rcases hpred with hfirst | hprev
        · exact .inl hfirst
        · exact .inr (.inl (hknown _ hprev))
    rw [List.foldl_cons]
    refine .head (.order receipt horders) (ih hrest hlisted ?_ ?_ (hlater.ordered rfl) hsame)
    · intro entry hent hpos
      rcases (hasPosition_ordered hfree).mp hpos with heq | hpos
      · exact hdist entry hent heq
      · exact hnew entry (List.mem_cons_of_mem _ hent) hpos
    · intro other hother
      rw [Std.ExtTreeSet.contains_insert, Bool.or_eq_true, beq_iff_eq, compare_eq_iff_eq] at hother
      rw [hasPosition_ordered hfree]
      exact hother.imp (fun heq => heq.symm) (hknown other)

theorem withReceipts_store (receipts : List (OrderCertificate W)) (e : GlobalOrderedEngine W)
    (s : DurableAdmissionStore W) :
    { e with store := s }.withReceipts receipts = { e.withReceipts receipts with store := s } := by
  induction receipts generalizing e with
  | nil => rfl
  | cons c receipts ih => exact ih (e.withFinalized c)

theorem foldl_ordered (receipts : List (OrderCertificate W)) (e : GlobalOrderedEngine W) :
    receipts.foldl GlobalOrderedEngine.ordered e.touched =
      { e.withReceipts receipts with
        store := e.store.written
          { OrderedStateDelta.new (e.withReceipts receipts).durableMetadata with
            finalizedUpserts := receipts.map fun r => (r.statement.position, r)
            positionUpserts :=
              receipts.map fun r => (r.statement.position, r.statement.referenceHash) } none } := by
  induction receipts generalizing e with
  | nil => rfl
  | cons c receipts ih =>
    refine (ih (e.ordered c)).trans ?_
    rw [ordered, withReceipts_store]
    rfl

theorem finalizeTrustedEpoch_steps [ReferenceCodec W] (epoch : Epoch W) (io : Bool)
    (hlater : e.NoLater) : Steps fresh room e (e.finalizeTrustedEpoch epoch io).2 := by
  dsimp only [finalizeTrustedEpoch]
  split
  · exact .refl
  · next references hcheck =>
    split_ifs with hrep
    · exact .refl
    · split
      · exact .refl
      · next receipts hreceipts =>
        rw [checkTrustedEpoch] at hcheck
        simp only [↓guard_bind_eq_ok, bind_eq_ok, reject_eq_ok, pure_eq_ok, not_not] at hcheck
        obtain ⟨hmode, _, -, -, checked, hchk, rfl⟩ := hcheck
        obtain ⟨more, hmore, hlisted, -⟩ := listed_of_checkEpochReferences hchk
        rw [List.nil_append] at hmore
        have hnew : ∀ entry ∈ checked.2, ¬e.HasPosition entry.1 := by
          intro entry hent hpos
          apply hrep
          rw [List.any_eq_true]
          exact ⟨entry, hent, isSome_position.mpr hpos⟩
        have hknown : ∀ hash, (Std.ExtTreeSet.ofList (values e.finalReferenceByPosition)
            compare).contains hash = true → e.touched.HasPosition hash := by
          intro hash hhash
          rw [Std.ExtTreeSet.contains_ofList, List.contains_iff_mem] at hhash
          exact hhash
        refine .commitDelta ?_
        rw [← foldl_ordered]
        exact .head .touch (epochReceipts_steps hmode hreceipts (hmore ▸ hlisted) hnew hknown hlater
          ⟨rfl, rfl, rfl⟩)

end TrustedEpoch

end GlobalOrderedEngine

end Blossom
