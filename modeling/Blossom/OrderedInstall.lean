import Blossom.OriginOrder

/-!
# Installing a certified position

A position that the validators have certified is installed by making its reference available
and finalizing it. The engine takes the first reference that it sees for a range of an origin
and never another one, whatever the validators agree on later. So a certified position can be
installed exactly when its reference is available already or continues the chain that this
engine has seen.
-/

namespace Blossom

open CheckedSteps OrderedMap OrderedImage BatchReference

variable {W : Type} [ProtocolCrypto W]

namespace GlobalOrderedEngine

variable {e : GlobalOrderedEngine W} {a : AvailabilityCertificate W} {c : OrderCertificate W}
  {hash : W} {log : List (OrderCertificate W)}

/-- `mark_available` and then `finalize`; every transaction is committed. -/
def install (e : GlobalOrderedEngine W) (a : AvailabilityCertificate W) (c : OrderCertificate W) :
    Outcome W (MilestoneEvent W) :=
  match e.markAvailable a true true with
  | (.error f, e) => (.error f, e)
  | (.ok _, e) => e.finalize c true

def Succeeds {α : Type} (outcome : Outcome W α) : Prop := ∃ value, outcome.1 = .ok value

instance {α : Type} (outcome : Outcome W α) : Decidable (Succeeds outcome) :=
  decidable_of_iff (outcome.1.isOk = true) (by
    unfold Succeeds
    cases outcome.1 <;> simp [Except.isOk, Except.toBool])

/-- A certificate for the position after the tail, and one for the availability of its
reference, both valid under the committee and the contract in force. -/
@[mk_iff]
structure CertifiesNext (e : GlobalOrderedEngine W) (a : AvailabilityCertificate W)
    (c : OrderCertificate W) : Prop where
  mode : e.orderTrustMode = .verified
  verified : c.verify e.validatorGeneration e.validators = .ok ()
  position : c.statement.position = e.lastFinalizedPosition + 1
  counter : c.statement.position ≤ maxCounter
  previous : c.statement.previousOrderCertificateHash = e.lastOrderCertificateHash
  available : a.verify e.holderMembership = .ok ()
  hash_eq : a.reference.hash = .ok c.statement.referenceHash
  route : a.reference.routeGeneration = e.routeGeneration
  spec : a.reference.commandSpecVersion = e.commandSpecVersion
  generation : a.reference.validatorGeneration = e.validatorGeneration
  predecessor : a.reference.previousOriginReferenceHash = default ∨
    e.finalizedReferenceHashes.contains a.reference.previousOriginReferenceHash = true

instance (e : GlobalOrderedEngine W) (a : AvailabilityCertificate W) (c : OrderCertificate W) :
    Decidable (e.CertifiesNext a c) :=
  decidable_of_iff' _ (certifiesNext_iff e a c)

/-- The reference continues the chain that the engine has seen of its origin. -/
structure Continues (e : GlobalOrderedEngine W) (r : BatchReference W) : Prop where
  room : e.available.size < maxPipelinedAvailabilityWindows * e.validators.size
  tail : (r.previousOriginReferenceHash, r.firstOriginSequence) =
    match e.lastOriginReference[originKey r]? with
    | some (last, sequence) => (last, min (sequence + 1) maxCounter)
    | none => (default, r.firstOriginSequence)
  disjoint : ∀ a ∈ values e.available, r.conflictsWith a.reference = false

/-- The certified reference belongs to the scope of the engine, and it is available or
has no position and continues the chain of its origin. -/
structure Installable (e : GlobalOrderedEngine W) (r : BatchReference W)
    (c : OrderCertificate W) : Prop where
  scope : ∀ scope ∈ e.store.protocolScope, scope = (r.clusterId, r.consensusGroupId)
  group : c.statement.consensusGroupId = r.consensusGroupId
  reference : e.available.contains c.statement.referenceHash = true ∨
    ¬e.HasPosition c.statement.referenceHash ∧ e.Continues r

theorem checkOriginExtension_eq_ok {r : BatchReference W} :
    e.checkOriginExtension r = .ok () ↔ e.Continues r := by
  constructor
  · intro hok
    obtain ⟨hroom, htail, hdisj⟩ := checkOriginExtension_spec hok
    exact ⟨hroom, htail, hdisj⟩
  · rintro ⟨hroom, htail, hdisj⟩
    rw [checkOriginExtension]
    simp only [↓guard_bind_eq_ok, reject_eq_ok, not_le, not_not]
    refine ⟨hroom, htail, fun hany => ?_⟩
    obtain ⟨b, hb, hconflict⟩ := List.any_eq_true.mp hany
    rw [hdisj b hb] at hconflict
    cases hconflict

theorem commit_persisted {α : Type} {value : α} {next : GlobalOrderedEngine W}
    (delta : OrderedStateDelta W) (completion : Option (AppliedCompletion W)) :
    e.commit next (e.store.persistOrderedDelta delta completion true) value =
      (.ok value, { next with store := e.store.written delta completion }) := by
  have hok : e.store.persistOrderedDelta delta completion true =
      .ok (e.store.written delta completion) :=
    DurableAdmissionStore.persistOrderedDelta_eq_ok.mpr ⟨rfl, rfl⟩
  rw [hok, GlobalOrderedEngine.commit]

/-! ### What the two calls do -/

theorem admitAvailable_known (hcur : e.currentReferenceHash a.reference = .ok hash)
    (hknown : e.available.contains hash = true ∨ e.HasPosition hash) :
    e.admitAvailable a true = (.ok (e.milestone hash .available none), e) := by
  dsimp only [admitAvailable]
  rw [hcur]
  exact if_pos hknown

theorem admitAvailable_new (hcur : e.currentReferenceHash a.reference = .ok hash)
    (hknown : ¬(e.available.contains hash = true ∨ e.HasPosition hash)) :
    e.admitAvailable a true = match e.checkOriginExtension a.reference with
      | .error f => (.error f, e)
      | .ok () => (.ok (e.milestone hash .available none), e.offered hash a) := by
  dsimp only [admitAvailable]
  rw [hcur]
  refine (if_neg hknown).trans ?_
  cases e.checkOriginExtension a.reference with
  | error f => rfl
  | ok u => exact commit_persisted _ none

theorem succeeds_finalize (hmode : e.orderTrustMode = .verified)
    (hver : c.verify e.validatorGeneration e.validators = .ok ())
    (hnew : e.finalized[c.statement.position]? = none) :
    Succeeds (e.finalize c true) ↔ e.checkFinalize c.statement = .ok () := by
  have hfinalize : e.finalize c true = e.finalizeValidated c true := by
    rw [finalize, hmode, hver]
    rfl
  rw [hfinalize]
  dsimp only [finalizeValidated]
  rw [hnew]
  dsimp only
  cases e.checkFinalize c.statement with
  | error f =>
    constructor
    · rintro ⟨_, h⟩
      cases h
    · intro h
      cases h
  | ok u =>
    refine ⟨fun _ => rfl, fun _ => ?_⟩
    exact ⟨_, congrArg Prod.fst (commit_persisted _ none)⟩

theorem checkFinalize_eq_ok {s : OrderStatement W} :
    e.checkFinalize s = .ok () ↔ e.lastFinalizedPosition < maxCounter ∧
      e.extendsChain s = true ∧ ∃ b, e.available[s.referenceHash]? = some b ∧
        (s.consensusGroupId = b.reference.consensusGroupId ∧
          s.validatorGeneration = b.reference.validatorGeneration) ∧
        (b.reference.previousOriginReferenceHash = default ∨
          e.finalizedReferenceHashes.contains b.reference.previousOriginReferenceHash = true) ∧
        ∀ existing ∈ e.finalReferenceByPosition[s.position]?, existing = s.referenceHash := by
  rw [checkFinalize]
  simp only [↓guard_bind_eq_ok, bind_eq_ok, require_eq_ok, reject_eq_ok, not_le, not_or, not_not,
    Bool.not_eq_false, ensureOriginPredecessorFinalized, not_and, not_any_ne]
  have hor (p q : Prop) [Decidable p] : (¬p → q) ↔ p ∨ q := by
    rw [or_iff_not_imp_left]
  simp only [hor, ne_eq]

/-- The certificate is finalized by an engine with the tail and the committee of `e` exactly if
a reference of its group is available there. -/
theorem CertifiesNext.succeeds_finalize (e' : GlobalOrderedEngine W) (h : e.CertifiesNext a c)
    (hlog : e.image.Represents log) (hfin : e'.finalized = e.finalized)
    (hpositions : e'.finalReferenceByPosition = e.finalReferenceByPosition)
    (hhashes : e'.finalizedReferenceHashes = e.finalizedReferenceHashes)
    (hlast : e'.lastFinalizedPosition = e.lastFinalizedPosition)
    (htail : e'.lastOrderCertificateHash = e.lastOrderCertificateHash)
    (hcommittee : e'.orderTrustMode = e.orderTrustMode ∧
      e'.validatorGeneration = e.validatorGeneration ∧ e'.validators = e.validators)
    (havail : ∀ b ∈ e'.available[c.statement.referenceHash]?, b.reference = a.reference) :
    Succeeds (e'.finalize c true) ↔
      e'.available.contains c.statement.referenceHash = true ∧
        c.statement.consensusGroupId = a.reference.consensusGroupId := by
  obtain ⟨hmode, hgen, hvals⟩ := hcommittee
  have hpos := h.position
  have hcounter := h.counter
  have hnone : e.finalReferenceByPosition[c.statement.position]? = none :=
    noLater_of_represents hlog _ (by omega)
  have hnew : e.finalized[c.statement.position]? = none := by
    have hlook := lookup_position hlog c.statement.position
    rw [hnone] at hlook
    exact Option.map_eq_none_iff.mp hlook.symm
  have hext : e'.extendsChain c.statement = true := by
    rw [extendsChain, decide_eq_true_eq, hlast, htail]
    exact ⟨h.position, h.previous⟩
  have hsig : c.statement.validatorGeneration = e.validatorGeneration := by
    have hver := h.verified
    rw [OrderCertificate.verify, guard_bind_eq_ok, reject_eq_ok, not_or, not_not] at hver
    exact hver.1.1
  rw [GlobalOrderedEngine.succeeds_finalize (hmode.trans h.mode)
    (by rw [hgen, hvals]; exact h.verified) (by rw [hfin]; exact hnew),
    checkFinalize_eq_ok, hlast, hhashes, hpositions, hnone, contains_iff]
  constructor
  · rintro ⟨-, -, b, hb, ⟨hgroup, -⟩, -⟩
    refine ⟨⟨b, hb⟩, ?_⟩
    rw [hgroup, havail b hb]
  · rintro ⟨⟨b, hb⟩, hgroup⟩
    refine ⟨by omega, hext, b, hb, ?_⟩
    rw [havail b hb]
    refine ⟨⟨hgroup, hsig.trans h.generation.symm⟩, h.predecessor, ?_⟩
    intro existing hex
    cases hex

def boundTo (e : GlobalOrderedEngine W) (r : BatchReference W) : GlobalOrderedEngine W :=
  { e with store := e.store.bound (r.clusterId, r.consensusGroupId) }

theorem install_eq (hcheck : e.checkAvailable a = .ok ()) (hscope : ∀ scope ∈ e.store.protocolScope,
      scope = (a.reference.clusterId, a.reference.consensusGroupId)) :
    e.install a c = match (e.boundTo a.reference).admitAvailable a true with
      | (.error f, e) => (.error f, e)
      | (.ok _, e) => e.finalize c true := by
  have hbind : e.store.bindProtocolScope a.reference.clusterId a.reference.consensusGroupId true =
      .ok (e.boundTo a.reference).store :=
    DurableAdmissionStore.bindProtocolScope_eq_ok.mpr ⟨hscope, rfl, rfl⟩
  have hmark : e.markAvailable a true true = (e.boundTo a.reference).admitAvailable a true := by
    rw [markAvailable, hcheck, hbind]
    rfl
  rw [install, hmark]

theorem scope_of_succeeds (h : Succeeds (e.install a c)) :
    ∀ scope ∈ e.store.protocolScope,
      scope = (a.reference.clusterId, a.reference.consensusGroupId) := by
  obtain ⟨value, h⟩ := h
  unfold install markAvailable at h
  cases hcheck : e.checkAvailable a with
  | error f =>
    rw [hcheck] at h
    cases h
  | ok u =>
    cases hbind : e.store.bindProtocolScope a.reference.clusterId
        a.reference.consensusGroupId true with
    | error f =>
      rw [hcheck, hbind] at h
      cases h
    | ok s => exact (DurableAdmissionStore.bindProtocolScope_eq_ok.mp hbind).1

/-- The engine installs what it holds or what continues the chain of its origin. -/
theorem CertifiesNext.succeeds_install (h : e.CertifiesNext a c) (hinj : HashInjective W)
    (hlog : e.image.Represents log)
    (hkeyed : ∀ (hash : W) b, e.available[hash]? = some b → b.reference.hash = .ok hash) :
    Succeeds (e.install a c) ↔ e.Installable a.reference c := by
  by_cases hscope : ∀ scope ∈ e.store.protocolScope,
      scope = (a.reference.clusterId, a.reference.consensusGroupId)
  case neg =>
    exact ⟨fun hs => absurd (scope_of_succeeds hs) hscope, fun hi => absurd hi.scope hscope⟩
  have hcheck : e.checkAvailable a = .ok () := by
    rw [checkAvailable, guard_bind_eq_ok, reject_eq_ok, not_or, not_not, not_not]
    exact ⟨h.available, h.route, h.spec⟩
  have hcur : (e.boundTo a.reference).currentReferenceHash a.reference =
      .ok c.statement.referenceHash := by
    rw [currentReferenceHash, guard_bind_eq_ok, reject_eq_ok, not_not]
    exact ⟨h.generation, h.hash_eq⟩
  have hheld : ∀ b ∈ e.available[c.statement.referenceHash]?, b.reference = a.reference :=
    fun b hb => eq_of_hash hinj (hkeyed _ b hb) h.hash_eq
  rw [install_eq hcheck hscope]
  by_cases hknown : e.available.contains c.statement.referenceHash = true ∨
      e.HasPosition c.statement.referenceHash
  · -- Nothing becomes available, so the reference has to be there already.
    rw [admitAvailable_known hcur hknown]
    refine (h.succeeds_finalize (e.boundTo a.reference) hlog rfl rfl rfl rfl rfl
      ⟨rfl, rfl, rfl⟩ hheld).trans ?_
    constructor
    · rintro ⟨havail, hgroup⟩
      exact ⟨hscope, hgroup, .inl havail⟩
    · rintro ⟨-, hgroup, havail | ⟨hnew, -⟩⟩
      · exact ⟨havail, hgroup⟩
      · exact ⟨hknown.resolve_right hnew, hgroup⟩
  · rw [admitAvailable_new hcur hknown]
    rw [not_or] at hknown
    cases hextn : (e.boundTo a.reference).checkOriginExtension a.reference with
    | error f =>
      constructor
      · rintro ⟨_, hs⟩
        cases hs
      · rintro ⟨-, -, havail | ⟨-, hcontinues⟩⟩
        · exact absurd havail hknown.1
        · have hok : e.checkOriginExtension a.reference = .ok () :=
            checkOriginExtension_eq_ok.mpr hcontinues
          have herror : e.checkOriginExtension a.reference = .error f := hextn
          rw [hok] at herror
          cases herror
    | ok u =>
      have hcontinues : e.Continues a.reference := checkOriginExtension_eq_ok.mp hextn
      have hlook : ((e.boundTo a.reference).offered c.statement.referenceHash
          a).available[c.statement.referenceHash]? = some a := by
        change (e.available.insert c.statement.referenceHash a)[c.statement.referenceHash]? = some a
        rw [lookup_insert, if_pos rfl]
      refine (h.succeeds_finalize
        ((e.boundTo a.reference).offered c.statement.referenceHash a) hlog rfl rfl rfl rfl rfl
        ⟨rfl, rfl, rfl⟩ ?_).trans ?_
      · intro b hb
        rw [hlook] at hb
        cases hb
        rfl
      · rw [contains_iff, hlook]
        constructor
        · rintro ⟨-, hgroup⟩
          exact ⟨hscope, hgroup, .inr ⟨hknown.2, hcontinues⟩⟩
        · rintro ⟨-, hgroup, -⟩
          exact ⟨⟨a, rfl⟩, hgroup⟩

end GlobalOrderedEngine

namespace OrderedNode

open GlobalOrderedEngine

variable [ReferenceCodec W] {allowed : GlobalOrderedEngine W → OrderedOperation W → Prop}
  {e : GlobalOrderedEngine W}

theorem Reaches.available_keyed (h : Reaches allowed (.running e)) (hash : W)
    (b : AvailabilityCertificate W) (hb : e.available[hash]? = some b) :
    b.reference.hash = .ok hash := by
  obtain ⟨⟨c, hstored⟩, hkeyed⟩ : (running e).Kept ∧ ∀ (hash : W) (b : AvailabilityCertificate W),
      e.store.availableReferences[hash]? = some b → b.reference.hash = .ok hash := by
    refine h.store_induct False False (Q := fun s => ∀ (hash : W) (b : AvailabilityCertificate W),
      s.availableReferences[hash]? = some b → b.reference.hash = .ok hash)
      (fun _ _ _ => ⟨False.elim, False.elim⟩) ?_ (fun _ hQ => hQ) ?_
    · intro holder site generation hash b hb
      simp [DurableAdmissionStore.openStore] at hb
    · intro c e₁ e₂ log hstep _ _ hstored₁ hstored₂ hQ hash b hb
      rw [hstored₁.available] at hQ
      rw [hstored₂.available] at hb
      cases hstep with
      | bind | keep | touch | order | contract | committee => exact hQ hash b hb
      | offer new d offers =>
        change (e₁.available.insert new d)[hash]? = some b at hb
        rw [lookup_insert] at hb
        split_ifs at hb with heq
        · cases hb
          exact heq ▸ offers.hash_eq
        · exact hQ hash b hb
      | apply d completion applies =>
        change (e₁.available.erase d.statement.referenceHash)[hash]? = some b at hb
        rw [lookup_erase] at hb
        split_ifs at hb
        exact hQ hash b hb
  rw [hstored.available] at hkeyed
  exact hkeyed hash b hb

/-- A reached engine installs a certified position exactly if the reference is the one that it
has, or continues the chain that it has, of the origin. -/
theorem install_iff_installable (hinj : HashInjective W) (h : Reaches (fun _ _ => True) (.running e))
    {a : AvailabilityCertificate W} {c : OrderCertificate W} (hnext : e.CertifiesNext a c) :
    Succeeds (e.install a c) ↔ e.Installable a.reference c := by
  obtain ⟨-, log, hlog⟩ := h.represents
  exact hnext.succeeds_install hinj hlog h.available_keyed

end OrderedNode

namespace OrderedSample

def otherBatch : CommandBatch :=
  ⟨batch.commands.map fun c => { c with command := { c.command with command := [10] } }⟩

def otherReference : BatchReference FreeWord :=
  referenceOf FreeWord.key 0 1 otherBatch default

def certified (r : BatchReference FreeWord) (position : ℕ) (tail : FreeWord) :
    OrderCertificate FreeWord :=
  signedBy FreeWord.key [12, 13, 14] (statement r position tail)

def offerFirst : List (OrderedOperation FreeWord) :=
  [.reopen (config .verified) fun _ => true,
    .markAvailableWithBatch batch (availability reference) true true true]

def applyFirst : List (OrderedOperation FreeWord) :=
  offerFirst ++ [.finalize (certified reference 1 default) true,
    .applyContiguousTo application true]

end OrderedSample

open OrderedSample OrderedNode GlobalOrderedEngine in
/-- An origin has issued two references for one sequence. An engine that has applied the first
one, and one that has only seen it, refuse the second one, which the validators have certified
for the next position. -/
theorem certified_not_installed :
    (∃ (e : GlobalOrderedEngine FreeWord) (a : AvailabilityCertificate FreeWord)
      (c : OrderCertificate FreeWord), Reaches (fun _ _ => True) (.running e) ∧
      e.available.isEmpty = true ∧ e.appliedWatermark = e.lastFinalizedPosition ∧
      e.CertifiesNext a c ∧ ¬Succeeds (e.install a c)) ∧
    ∃ (e : GlobalOrderedEngine FreeWord) (a : AvailabilityCertificate FreeWord)
      (c : OrderCertificate FreeWord), Reaches (fun _ _ => True) (.running e) ∧
      e.lastFinalizedPosition = 0 ∧ e.CertifiesNext a c ∧ ¬Succeeds (e.install a c) := by
  constructor
  · obtain ⟨e, hreach, h⟩ := exists_reaches (fun _ _ => True) applyFirst
      (fun e => e.available.isEmpty = true ∧ e.appliedWatermark = e.lastFinalizedPosition ∧
        e.CertifiesNext (availability otherReference)
          (certified otherReference 2 (certified reference 1 default).hash) ∧
        ¬Succeeds (e.install (availability otherReference)
          (certified otherReference 2 (certified reference 1 default).hash)))
      (.start (FreeWord.key 1) (site 1) 1) (by decide +kernel)
    rw [decide_eq_true_eq] at h
    exact ⟨e, _, _, hreach, h⟩
  · obtain ⟨e, hreach, h⟩ := exists_reaches (fun _ _ => True) offerFirst
      (fun e => e.lastFinalizedPosition = 0 ∧
        e.CertifiesNext (availability otherReference) (certified otherReference 1 default) ∧
        ¬Succeeds (e.install (availability otherReference)
          (certified otherReference 1 default)))
      (.start (FreeWord.key 1) (site 1) 1) (by decide +kernel)
    rw [decide_eq_true_eq] at h
    exact ⟨e, _, _, hreach, h⟩

open OrderedSample OrderedNode GlobalOrderedEngine in
theorem install_iff_installable_first :
    ∃ e : GlobalOrderedEngine FreeWord, Succeeds (e.install (availability reference)
        (certified reference 1 default)) ∧
      e.Installable reference (certified reference 1 default) := by
  obtain ⟨e, hreach, h⟩ := exists_reaches (fun _ _ => True) offerFirst
    (fun e => e.CertifiesNext (availability reference) (certified reference 1 default) ∧
      Succeeds (e.install (availability reference) (certified reference 1 default)))
    (.start (FreeWord.key 1) (site 1) 1) (by decide +kernel)
  rw [decide_eq_true_eq] at h
  exact ⟨e, h.2, (install_iff_installable FreeWord.hash_injective hreach h.1).mp h.2⟩

end Blossom
