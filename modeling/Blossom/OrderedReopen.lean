import Blossom.OrderedTail

/-!
# Reopening an ordered engine

An engine that is opened again with the genesis committee and with the contract in force is the
engine that was closed.
-/

namespace Blossom

open CheckedSteps OrderedMap OrderedImage GlobalOrderedEngine

variable {W : Type} [ProtocolCrypto W]
variable {count n p storeGeneration : ℕ} {metadata : DurableOrderedMetadata W}

/-- The committees that certificates install one after the other, from the first one. -/
inductive CommitteeHistory (scope : W × W) (c : OrderedEngineConfig W) : HolderMembership W → ℕ →
    BTreeSet W → List (ℕ × CommitteeTransitionCertificate W) → Prop where
  | genesis : CommitteeHistory scope c c.holderMembership c.validatorGeneration c.validators []
  | next {m : HolderMembership W} {g : ℕ} {v : BTreeSet W}
      {entries : List (ℕ × CommitteeTransitionCertificate W)}
      (earlier : CommitteeHistory scope c m g v entries)
      (certificate : CommitteeTransitionCertificate W)
      (verified : certificate.verify scope.1 scope.2 m g v = .ok ()) :
      CommitteeHistory scope c certificate.statement.nextHolderMembership
        certificate.statement.nextValidatorGeneration certificate.statement.nextValidators
        (entries ++ [(certificate.statement.nextValidatorGeneration, certificate)])

namespace CommitteeHistory

variable {scope : W × W} {c : OrderedEngineConfig W} {m : HolderMembership W} {g : ℕ}
  {v : BTreeSet W} {entries : List (ℕ × CommitteeTransitionCertificate W)}

theorem keys (h : CommitteeHistory scope c m g v entries) :
    ∀ entry ∈ entries, entry.2.statement.nextValidatorGeneration = entry.1 := by
  induction h with
  | genesis => simp
  | next _ certificate _ ih =>
    intro entry hent
    rw [List.mem_append, List.mem_singleton] at hent
    rcases hent with hent | rfl
    · exact ih entry hent
    · rfl

theorem restore (h : CommitteeHistory scope c m g v entries) (route spec : ℕ)
    (s : DurableAdmissionStore W) :
    entries.foldlM (restoreCommittee scope)
        ({ c with routeGeneration := route, commandSpecVersion := spec }.emptyEngine s) =
      .ok { { c with routeGeneration := route, commandSpecVersion := spec }.emptyEngine s with
        holderMembership := m
        validatorGeneration := g
        validators := v
        committeeTransitions := entries.foldl (fun acc entry => acc.insert entry.1 entry.2) ∅ } := by
  induction h with
  | genesis => rfl
  | next _ certificate verified ih =>
    rw [List.foldlM_append, bind_eq_ok]
    refine ⟨_, ih, ?_⟩
    rw [List.foldlM_cons, bind_eq_ok]
    refine ⟨_, ?_, rfl⟩
    rw [restoreCommittee]
    simp only [↓guard_bind_eq_ok, reject_eq_ok, pure_eq_ok, ne_eq, not_true_eq_false,
      not_false_eq_true, true_and]
    refine ⟨verified, ?_⟩
    rw [List.foldl_append]
    rfl

end CommitteeHistory

/-- The configuration of the first opening under the contract in force. -/
def OrderedEngineConfig.current (c : OrderedEngineConfig W) (e : GlobalOrderedEngine W) :
    OrderedEngineConfig W :=
  { c with routeGeneration := e.routeGeneration, commandSpecVersion := e.commandSpecVersion }

namespace GlobalOrderedEngine

variable {c : OrderedEngineConfig W} {e e' : GlobalOrderedEngine W} {fresh room : Prop}

structure OpenedWith (c : OrderedEngineConfig W) (e : GlobalOrderedEngine W) : Prop where
  mode : e.mode = c.mode
  holders : e.genesisHolderMembership = c.holderMembership
  generation : e.genesisValidatorGeneration = c.validatorGeneration
  validators : e.genesisValidators = c.validators
  trust : e.orderTrustMode = c.orderTrustMode
  authorized : authorizedIn e.store c.holderMembership = true

theorem Step.openedWith (hs : Step fresh room e e') (h : OpenedWith c e) : OpenedWith c e' := by
  cases hs <;> exact { h with }

/-- The store has everything that the engine has, or nothing was ever committed to it. -/
structure Stored (c : OrderedEngineConfig W) (e : GlobalOrderedEngine W) : Prop where
  available : e.store.availableReferences = e.available
  finalized : e.store.finalizedPositions = e.finalized
  positions : e.store.positionReferences = e.finalReferenceByPosition
  origins : e.store.originTails = e.lastOriginReference
  transitions : e.store.committeeTransitions = e.committeeTransitions
  hashes : e.finalizedReferenceHashes =
    Std.ExtTreeSet.ofList (values e.finalReferenceByPosition) compare
  metadata : e.store.orderedMetadata = some e.durableMetadata ∨
    e.store.orderedMetadata = none ∧ e = c.emptyEngine e.store

/-- The set of the references with one more position. -/
theorem ofList_values_insert {positions : BTreeMap ℕ W} (hash : W) (hnew : positions[p]? = none) :
    Std.ExtTreeSet.ofList (values (positions.insert p hash)) compare =
      (Std.ExtTreeSet.ofList (values positions) compare).insert hash := by
  apply Std.ExtTreeSet.ext_mem
  intro other
  rw [Std.ExtTreeSet.mem_insert, compare_eq_iff_eq, Std.ExtTreeSet.mem_ofList,
    Std.ExtTreeSet.mem_ofList, List.contains_iff_mem, List.contains_iff_mem, mem_values, mem_values]
  constructor
  · rintro ⟨q, hq⟩
    obtain ⟨-, rfl⟩ | ⟨-, hq⟩ := lookup_insert_eq_some.mp hq
    · exact .inl rfl
    · exact .inr ⟨q, hq⟩
  · rintro (rfl | ⟨q, hq⟩)
    · exact ⟨p, lookup_insert_eq_some.mpr (.inl ⟨rfl, rfl⟩)⟩
    · refine ⟨q, lookup_insert_eq_some.mpr (.inr ⟨?_, hq⟩)⟩
      rintro rfl
      simp [hnew] at hq

theorem Step.stored (hs : Step fresh room e e') (hlater : e.NoLater) (h : Stored c e) :
    Stored c e' := by
  obtain ⟨havail, hfin, hpositions, horig, htrans, hhashes, hmeta⟩ := h
  cases hs with
  | bind scope free =>
    refine ⟨havail, hfin, hpositions, horig, htrans, hhashes, ?_⟩
    exact hmeta.imp_right fun h =>
      ⟨h.1, congrArg (fun e => { e with store := e.store.bound scope }) h.2⟩
  | keep hash batch =>
    refine ⟨havail, hfin, hpositions, horig, htrans, hhashes, ?_⟩
    exact hmeta.imp_right fun h => ⟨h.1, congrArg (fun e => { e with store :=
      { e.store with batches := e.store.batches.insert hash batch } }) h.2⟩
  | touch | contract =>
    exact ⟨havail, hfin, hpositions, horig, htrans, hhashes, .inl rfl⟩
  | offer hash a offers =>
    exact ⟨congrArg (fun table => table.insert hash a) havail, hfin, hpositions,
      congrArg (fun table => table.insert (originKey a.reference)
        (hash, a.reference.lastOriginSequence)) horig, htrans, hhashes, .inl rfl⟩
  | order d orders =>
    refine ⟨havail, congrArg (fun table => table.insert d.statement.position d) hfin,
      congrArg (fun table => table.insert d.statement.position d.statement.referenceHash)
        hpositions, horig, htrans, ?_, .inl rfl⟩
    have hnew : e.finalReferenceByPosition[d.statement.position]? = none := by
      rw [orders.position]
      exact hlater _ (Nat.lt_succ_self _)
    refine Eq.trans ?_ (ofList_values_insert d.statement.referenceHash hnew).symm
    exact congrArg (fun hashes => hashes.insert d.statement.referenceHash) hhashes
  | apply d completion applies =>
    exact ⟨congrArg (fun table => table.erase d.statement.referenceHash) havail, hfin,
      hpositions, horig, htrans, hhashes, .inl rfl⟩
  | committee d check known =>
    exact ⟨havail, hfin, hpositions, horig,
      congrArg (fun table => table.insert d.statement.nextValidatorGeneration d) htrans,
      hhashes, .inl rfl⟩

/-- The certificates of the committees and the positions at which they took over. -/
structure Seated (c : OrderedEngineConfig W) (e : GlobalOrderedEngine W) : Prop where
  history : ∀ scope, e.store.protocolScope = some scope →
    CommitteeHistory scope c e.holderMembership e.validatorGeneration e.validators
      e.committeeTransitions.toList
  unbound : e.store.protocolScope = none → e.committeeTransitions = ∅ ∧
    e.holderMembership = c.holderMembership ∧ e.validatorGeneration = c.validatorGeneration ∧
    e.validators = c.validators
  boundaries : ∀ (g : ℕ) (t : CommitteeTransitionCertificate W),
    e.committeeTransitions[g]? = some t → t.statement.activatedAt ≤ e.appliedWatermark ∧
      e.boundaryHash t.statement.activatedAt = .ok t.statement.orderCertificateHash

/-- A step that leaves the scope, the committees and the earlier positions as they are. -/
theorem Seated.same (h : Seated c e) (hscope : e'.store.protocolScope = e.store.protocolScope)
    (hhold : e'.holderMembership = e.holderMembership)
    (hcommittee : SameCommittee e e') (happ : e.appliedWatermark ≤ e'.appliedWatermark)
    (hbnd : ∀ p, p ≤ e.appliedWatermark → e'.boundaryHash p = e.boundaryHash p) :
    Seated c e' := by
  refine ⟨?_, ?_, fun g t ht => ?_⟩
  · rw [hscope, hhold, hcommittee.generation, hcommittee.validators, hcommittee.transitions]
    exact h.history
  · rw [hscope, hhold, hcommittee.generation, hcommittee.validators, hcommittee.transitions]
    exact h.unbound
  · rw [hcommittee.transitions] at ht
    obtain ⟨hle, hhash⟩ := h.boundaries g t ht
    exact ⟨hle.trans happ, (hbnd _ hle).trans hhash⟩

theorem boundaryHash_ordered {d : OrderCertificate W} (hp : p < d.statement.position) :
    (e.ordered d).boundaryHash p = e.boundaryHash p := by
  unfold boundaryHash
  change (if p = 0 then _ else require ((e.store.finalizedPositions.insert d.statement.position
    d)[p]?.map OrderCertificate.hash) _) = _
  rw [lookup_insert, if_neg hp.ne']

variable {log : List (OrderCertificate W)}

theorem boundaryHash_last (hlog : e.image.Represents log)
    (hstored : e.store.finalizedPositions = e.finalized) :
    e.boundaryHash e.lastFinalizedPosition = .ok e.lastOrderCertificateHash := by
  have htail : e.lastOrderCertificateHash =
      (e.finalized[e.lastFinalizedPosition]?.map OrderCertificate.hash).getD default := hlog.tail_eq
  have hlast : e.lastFinalizedPosition = log.length := hlog.last
  unfold boundaryHash
  split_ifs with hzero
  · rw [pure_eq_ok, htail, hzero]
    have hnone : e.finalized[0]? = none := hlog.finalized.lookup_zero
    rw [hnone]
    rfl
  · rw [require_eq_ok, hstored, htail]
    obtain ⟨n, hn⟩ := Nat.exists_eq_succ_of_ne_zero hzero
    have hfound : e.finalized[e.lastFinalizedPosition]? = log[n]? := by
      rw [hn]
      exact hlog.finalized.lookup_succ n
    rw [hfound, List.getElem?_eq_getElem (by omega)]
    rfl

theorem quiescent_iff :
    e.quiescent = true ↔ e.available = ∅ ∧ e.appliedWatermark = e.lastFinalizedPosition := by
  rw [quiescent, decide_eq_true_eq, Std.ExtTreeMap.isEmpty_iff]

theorem Step.seated (hs : Step fresh room e e')
    (hlog : e.image.Represents log) (hcert : e.Certified) (hstored : Stored c e)
    (h : Seated c e) : Seated c e' := by
  have happ : e.appliedWatermark ≤ e.lastFinalizedPosition := hlog.applied_le_last
  cases hs with
  | bind scope free =>
    refine ⟨fun known hknown => ?_, fun hnone => ?_, h.boundaries⟩
    · cases hknown
      cases hscope : e.store.protocolScope with
      | none =>
        obtain ⟨htrans, hhold, hgen, hvals⟩ := h.unbound hscope
        dsimp only
        rw [htrans, hhold, hgen, hvals]
        exact .genesis
      | some known =>
        obtain rfl := free known hscope
        exact h.history known hscope
    · cases hnone
  | keep | touch | offer | contract =>
    exact h.same rfl rfl ⟨rfl, rfl, rfl, rfl, rfl, rfl⟩ le_rfl fun _ _ => rfl
  | order d orders =>
    refine h.same rfl rfl ⟨rfl, rfl, rfl, rfl, rfl, rfl⟩ le_rfl fun p hp => ?_
    exact boundaryHash_ordered (by rw [orders.position]; omega)
  | apply d completion applies =>
    exact h.same rfl rfl ⟨rfl, rfl, rfl, rfl, rfl, rfl⟩ (hlog.next_position applies.next).1
      fun _ _ => rfl
  | committee d check known =>
    obtain ⟨hquiet, ⟨scope, hscope, hverify⟩, hactivated, hhash⟩ :=
      checkCommitteeTransition_spec check
    have hnext := CommitteeTransitionCertificate.generation_of_verify hverify
    obtain ⟨-, hlast⟩ := quiescent_iff.mp hquiet
    have hbefore : ∀ (g : ℕ) (t : CommitteeTransitionCertificate W),
        e.committeeTransitions[g]? = some t → g < d.statement.nextValidatorGeneration := by
      intro g t ht
      have hle := hcert.known.known g t ht
      omega
    refine ⟨fun scope' hscope' => ?_, fun hnone => ?_, fun g t ht => ?_⟩
    · have hscope'' : e.store.protocolScope = some scope' := hscope'
      rw [hscope] at hscope''
      cases hscope''
      change CommitteeHistory scope c _ _ _
        (e.committeeTransitions.insert d.statement.nextValidatorGeneration d).toList
      rw [toList_insert_last hbefore]
      exact .next (h.history scope hscope) d hverify
    · have hnone' : e.store.protocolScope = none := hnone
      rw [hscope] at hnone'
      cases hnone'
    · change t.statement.activatedAt ≤ e.appliedWatermark ∧
        e.boundaryHash t.statement.activatedAt = .ok t.statement.orderCertificateHash
      obtain ⟨-, rfl⟩ | ⟨-, ht⟩ := lookup_insert_eq_some.mp ht
      · rw [hactivated, hhash, hlast]
        exact ⟨le_rfl, boundaryHash_last hlog hstored.finalized⟩
      · exact h.boundaries g t ht

structure Holds (e : GlobalOrderedEngine W) (hash : W) (a : AvailabilityCertificate W) : Prop where
  verified : a.verify e.holderMembership = .ok ()
  hash_eq : a.reference.hash = .ok hash
  route : a.reference.routeGeneration = e.routeGeneration
  spec : a.reference.commandSpecVersion = e.commandSpecVersion
  scope : e.store.protocolScope = some (a.reference.clusterId, a.reference.consensusGroupId)

def HoldsAvailable (e : GlobalOrderedEngine W) : Prop :=
  ∀ (hash : W) (a : AvailabilityCertificate W), e.available[hash]? = some a → e.Holds hash a

theorem holdsAvailable_of_empty (h : e.available = ∅) : e.HoldsAvailable := by
  intro hash a ha
  simp [h] at ha

theorem Step.holdsAvailable (hs : Step fresh room e e') (h : e.HoldsAvailable) :
    e'.HoldsAvailable := by
  cases hs with
  | bind scope free =>
    exact fun hash a ha => { h hash a ha with
      scope := congrArg some (free _ (h hash a ha).scope).symm }
  | keep | touch | order => exact fun hash a ha => { h hash a ha with }
  | offer new b offers =>
    intro hash a ha
    obtain ⟨rfl, rfl⟩ | ⟨-, ha⟩ := lookup_insert_eq_some.mp ha
    · exact ⟨offers.verified, offers.hash_eq, offers.route, offers.spec, offers.scope⟩
    · exact { h hash a ha with }
  | apply d completion applies =>
    exact fun hash a ha => { h hash a (lookup_erase_eq_some.mp ha).2 with }
  | contract route spec check =>
    rw [checkApplicationContract] at check
    simp only [↓guard_bind_eq_ok, reject_eq_ok, Bool.not_eq_false] at check
    exact holdsAvailable_of_empty (quiescent_iff.mp check.2.2.1).1
  | committee d check known =>
    exact holdsAvailable_of_empty (quiescent_iff.mp (checkCommitteeTransition_spec check).1).1

def Completed (e : GlobalOrderedEngine W) : Prop :=
  ∀ (p : ℕ) (hash : W), p ≤ e.appliedWatermark → e.finalReferenceByPosition[p]? = some hash →
    e.checkCompletion p hash = .ok ()

theorem checkCompletion_eq_ok {hash : W} :
    e.checkCompletion p hash = .ok () ↔ ∃ completion,
      e.store.appliedCompletions[hash]? = some completion ∧ completion.validate none = .ok () ∧
        completion.referenceHash = hash ∧ completion.watermark = p := by
  rw [checkCompletion]
  simp only [↓guard_bind_eq_ok, bind_eq_ok, require_eq_ok, reject_eq_ok, not_not]

omit [ProtocolCrypto W] in
theorem validate_none_of_some {completion : AppliedCompletion W}
    (h : completion.validate (some count) = .ok ()) : completion.validate none = .ok () := by
  rw [AppliedCompletion.validate] at h ⊢
  simp only [↓guard_bind_eq_ok, reject_eq_ok, not_or] at h ⊢
  exact ⟨⟨h.1.1, by simp⟩, h.2⟩

theorem lookup_position (hlog : e.image.Represents log) (p : ℕ) :
    e.finalReferenceByPosition[p]? =
      e.finalized[p]?.map fun c => c.statement.referenceHash := by
  have hfin : e.finalized[p]? = if p = 0 then none else log[p - 1]? := hlog.finalized p
  have hpositions : e.finalReferenceByPosition[p]? =
      if p = 0 then none else (orderedReferences log)[p - 1]? := hlog.positions p
  rw [hfin, hpositions, orderedReferences]
  split_ifs <;> simp

theorem orderedOnce_of_ordered {d : OrderCertificate W}
    (hlog : e.image.Represents log) (hd : d.statement.position = e.lastFinalizedPosition + 1)
    (h : (e.ordered d).OrderedOnce) : e.OrderedOnce := by
  have hlast : e.lastFinalizedPosition = log.length := hlog.last
  have hkept {p : ℕ} {c : OrderCertificate W} (hc : e.finalized[p]? = some c) :
      (e.ordered d).finalized[p]? = some c := by
    obtain ⟨i, rfl, hi⟩ := hlog.finalized.eq_some hc
    have hlt := (List.getElem?_eq_some_iff.mp hi).1
    change (e.finalized.insert d.statement.position d)[i + 1]? = some c
    rw [lookup_insert, if_neg (by omega)]
    exact hc
  intro p q c d' hc hd'
  exact h p q c d' (hkept hc) (hkept hd')

theorem Step.completed (hs : Step fresh room e e')
    (hlog : e.image.Represents log) (h : e.OrderedOnce → e.Completed) :
    e'.OrderedOnce → e'.Completed := by
  cases hs with
  | bind | keep | touch | offer | contract | committee => exact h
  | order d orders =>
    intro honce p hash hp hhash
    have happ : e.appliedWatermark ≤ e.lastFinalizedPosition := hlog.applied_le_last
    have hp' : p ≤ e.appliedWatermark := hp
    refine h (orderedOnce_of_ordered hlog orders.position honce) p hash hp ?_
    obtain ⟨heq, -⟩ | ⟨-, hhash⟩ := lookup_insert_eq_some.mp hhash
    · rw [orders.position] at heq
      omega
    · exact hhash
  | apply d completion applies =>
    intro honce p hash hp hhash
    have honce' : e.OrderedOnce := honce
    change p ≤ d.statement.position at hp
    change e.finalReferenceByPosition[p]? = some hash at hhash
    obtain ⟨-, hnext, hfound⟩ : _ ∧ d.statement.position ≤ e.appliedWatermark + 1 ∧
      e.finalized[d.statement.position]? = some d := hlog.next_position applies.next
    obtain ⟨count, hvalid⟩ := applies.valid
    rw [checkCompletion_eq_ok]
    by_cases heq : completion.referenceHash = hash
    · -- the completion that is written now; its reference has no other position
      refine ⟨completion, lookup_insert_eq_some.mpr (.inl ⟨heq, rfl⟩), validate_none_of_some hvalid,
        heq, ?_⟩
      rw [lookup_position hlog, Option.map_eq_some_iff] at hhash
      obtain ⟨c, hc, rfl⟩ := hhash
      rw [applies.watermark]
      exact honce' _ _ d c hfound hc (applies.referenceHash.symm.trans heq)
    · have hle : p ≤ e.appliedWatermark := by
        by_contra hgt
        obtain rfl : p = d.statement.position := by omega
        rw [lookup_position hlog, hfound, Option.map_some, Option.some.injEq] at hhash
        exact heq (applies.referenceHash.trans hhash)
      obtain ⟨found, hlook, hrest⟩ := checkCompletion_eq_ok.mp (h honce' p hash hle hhash)
      exact ⟨found, lookup_insert_eq_some.mpr (.inr ⟨heq, hlook⟩), hrest⟩

/-- All that the constructor checks of the durable state of an engine. -/
structure Restorable (c : OrderedEngineConfig W) (e : GlobalOrderedEngine W) : Prop where
  valid : (c.current e).validate = .ok ()
  openedWith : OpenedWith c e
  stored : Stored c e
  seated : Seated c e
  available : e.HoldsAvailable
  durable : e.Durable
  log : ∃ log, e.image.Represents log
  certified : e.Certified
  completed : e.OrderedOnce → e.Completed

theorem Step.valid (hs : Step fresh room e e') (h : (c.current e).validate = .ok ()) :
    (c.current e').validate = .ok () := by
  cases hs with
  | bind | keep | touch | offer | order | apply | committee => exact h
  | contract route spec check =>
    rw [checkApplicationContract] at check
    rw [OrderedEngineConfig.validate] at h ⊢
    simp only [↓guard_bind_eq_ok] at check h ⊢
    obtain ⟨hmode, hhold, hnonempty, hsize, -, -⟩ := h
    exact ⟨hmode, hhold, hnonempty, hsize, check.1, check.2.1⟩

theorem Step.restorable (hs : Step fresh room e e') (h : Restorable c e) : Restorable c e' := by
  obtain ⟨log, hlog⟩ := h.log
  have heffect := hs.effect h.durable
  exact
    { valid := hs.valid h.valid
      openedWith := hs.openedWith h.openedWith
      stored := hs.stored (noLater_of_represents hlog) h.stored
      seated := hs.seated hlog h.certified h.stored h.seated
      available := hs.holdsAvailable h.available
      durable := heffect.durable
      log := heffect.advances.represents hlog
      certified := hs.certified h.certified
      completed := hs.completed hlog h.completed }

theorem Steps.restorable (hs : Steps fresh room e e') (h : Restorable c e) : Restorable c e' := by
  induction hs with
  | refl => exact h
  | tail _ hstep ih => exact hstep.restorable ih

def blank (e : GlobalOrderedEngine W) : GlobalOrderedEngine W :=
  { e with
    available := ∅
    finalized := ∅
    finalReferenceByPosition := ∅
    finalizedReferenceHashes := ∅
    lastOriginReference := ∅
    lastFinalizedPosition := 0
    lastOrderCertificateHash := default
    appliedWatermark := 0 }

theorem loadMetadata_of_restorable (h : Restorable c e) :
    loadMetadata e.store (c.current e) = .ok e.store.orderedMetadata := by
  rw [loadMetadata, guard_bind_eq_ok]
  refine ⟨h.valid, ?_⟩
  rw [DurableAdmissionStore.loadOrderedState]
  cases hmeta : e.store.orderedMetadata with
  | none => rfl
  | some metadata =>
    simp only [↓guard_bind_eq_ok, DurableAdmissionStore.loadAvailable,
      DurableAdmissionStore.loadCommitteeTransitions, List.forM_eq_forM, forM_eq_ok]
    constructor
    · intro entry hent
      rw [h.stored.available, Std.ExtTreeMap.mem_toList_iff_getElem?_eq_some (k := entry.1)] at hent
      rw [bind_eq_ok]
      exact ⟨entry.1, (h.available _ _ hent).hash_eq, by simp⟩
    · rw [h.stored.transitions]
      refine ⟨fun entry hent => ?_, rfl⟩
      rw [reject_eq_ok, not_not]
      cases hscope : e.store.protocolScope with
      | none =>
        rw [Std.ExtTreeMap.toList_eq_nil_iff.mpr (h.seated.unbound hscope).1] at hent
        cases hent
      | some scope => exact (h.seated.history scope hscope).keys entry hent

theorem restoreCommitteeHistory_eq (h : Restorable c e) :
    ((c.current e).emptyEngine e.store).restoreCommitteeHistory = .ok e.blank := by
  have hbase : { (c.current e).emptyEngine e.store with
      holderMembership := e.holderMembership
      validatorGeneration := e.validatorGeneration
      validators := e.validators
      committeeTransitions := e.committeeTransitions } = e.blank := by
    obtain ⟨hmode, hhold, hgen, hvals, htrust, -⟩ := h.openedWith
    unfold OrderedEngineConfig.emptyEngine OrderedEngineConfig.current blank
    rw [hmode, hhold, hgen, hvals, htrust]
  rw [restoreCommitteeHistory]
  change (if e.store.committeeTransitions.isEmpty then _ else _) = _
  rw [h.stored.transitions]
  cases hscope : e.store.protocolScope with
  | none =>
    obtain ⟨htrans, hhold, hgen, hvals⟩ := h.seated.unbound hscope
    rw [htrans, if_pos Std.ExtTreeMap.isEmpty_empty, pure_eq_ok, ← hbase, htrans,
      hhold, hgen, hvals]
    rfl
  | some scope =>
    have hfold := (h.seated.history scope hscope).restore e.routeGeneration e.commandSpecVersion
      e.store
    rw [foldl_insert_toList] at hfold
    split_ifs with hempty
    · rw [Std.ExtTreeMap.isEmpty_iff] at hempty
      rw [Std.ExtTreeMap.toList_eq_nil_iff.mpr hempty, List.foldlM_nil, pure_eq_ok] at hfold
      rw [pure_eq_ok, ← hbase]
      exact hfold
    · rw [bind_eq_ok]
      refine ⟨scope, require_eq_ok.mpr hscope, ?_⟩
      change e.store.committeeTransitions.toList.foldlM _ _ = _
      rw [h.stored.transitions, ← hbase]
      exact hfold

theorem checkDurableParameters_of_restorable (h : Restorable c e) :
    e.checkDurableParameters e.durableMetadata = .ok () := by
  obtain ⟨log, hlog⟩ := h.log
  have hlast : e.lastFinalizedPosition = log.length := hlog.last
  have hfin : e.finalized.size = log.length := hlog.finalized.size
  have hpositions : e.finalReferenceByPosition.size = (orderedReferences log).length :=
    hlog.positions.size
  rw [orderedReferences, List.length_map] at hpositions
  have hvalid := h.valid
  rw [OrderedEngineConfig.validate] at hvalid
  simp only [↓guard_bind_eq_ok] at hvalid
  obtain ⟨-, -, -, -, hroute, hspec⟩ := hvalid
  rw [checkDurableParameters]
  simp only [↓guard_bind_eq_ok, reject_eq_ok, not_or, not_not, not_lt, h.stored.finalized,
    h.stored.positions]
  refine ⟨hroute, hspec, ⟨rfl, rfl, rfl, rfl, rfl, hlog.applied_le_last⟩, ?_, ?_⟩
  · exact hfin.trans hlast.symm
  · omega

/-- The scope is bound already, so the loop over the availability changes nothing. -/
theorem bindDurableAvailability_of_holds
    (hcontract : metadata.routeGeneration = e.routeGeneration ∧ metadata.commandSpecVersion = e.commandSpecVersion)
    (entries : List (W × AvailabilityCertificate W))
    (h : ∀ entry ∈ entries, e.Holds entry.1 entry.2) :
    e.bindDurableAvailability metadata (fun _ => true) entries e.store = (.ok (), e.store) := by
  induction entries with
  | nil => rfl
  | cons entry rest ih =>
    obtain ⟨hver, hhash, hroute, hspec, hscope⟩ := h entry List.mem_cons_self
    have hcheck : e.checkDurableAvailability metadata entry = .ok () := by
      rw [checkDurableAvailability]
      simp only [↓guard_bind_eq_ok, bind_eq_ok, reject_eq_ok, not_or, not_not]
      exact ⟨hver, entry.1, hhash, rfl, hroute.trans hcontract.1.symm,
        hspec.trans hcontract.2.symm⟩
    have hbind : e.store.bindProtocolScope entry.2.reference.clusterId
        entry.2.reference.consensusGroupId true = .ok e.store := by
      rw [DurableAdmissionStore.bindProtocolScope_eq_ok, hscope]
      refine ⟨by simp, rfl, ?_⟩
      rw [DurableAdmissionStore.bound, ← hscope]
    rw [bindDurableAvailability, hcheck]
    dsimp only
    rw [hbind]
    exact ih fun entry hent => h entry (List.mem_cons_of_mem _ hent)

theorem foldlM_checkDurablePosition (h : Restorable c e) (honce : e.OrderedOnce)
    (hlog : e.image.Represents log) (hn : n ≤ log.length) :
    (List.range' 1 n).foldlM (e.checkDurablePosition e.durableMetadata) default =
      .ok (orderTail (log.take n)) := by
  induction n with
  | zero => rfl
  | succ n ih =>
    obtain ⟨d, hd⟩ : ∃ d, log[n]? = some d := ⟨_, List.getElem?_eq_getElem (by omega)⟩
    have hfound : e.finalized[n + 1]? = some d := (hlog.finalized.lookup_succ n).trans hd
    have hreference : e.finalReferenceByPosition[n + 1]? = some d.statement.referenceHash := by
      rw [lookup_position hlog, hfound]
      rfl
    rw [List.range'_1_concat, List.foldlM_append, bind_eq_ok]
    refine ⟨_, ih (by omega), ?_⟩
    rw [List.foldlM_cons, bind_eq_ok]
    refine ⟨d.hash, ?_, ?_⟩
    · rw [checkDurablePosition]
      simp only [↓guard_bind_eq_ok, bind_eq_ok, require_eq_ok, reject_eq_ok, not_or, not_not,
        h.stored.finalized, h.stored.positions]
      refine ⟨d, (Nat.add_comm 1 n).symm ▸ hfound, h.certified.log _ d hfound,
        ⟨?_, (hlog.chain.entry hd).2, (Nat.add_comm 1 n).symm ▸ hreference⟩, ?_⟩
      · rw [(hlog.chain.entry hd).1]
        omega
      · rw [Nat.add_comm 1 n]
        change (if n + 1 ≤ e.appliedWatermark then _ else _) = _
        split_ifs with hle
        · rw [h.completed honce _ _ hle hreference]
          rfl
        · rfl
    · rw [List.foldlM_nil, pure_eq_ok, List.take_add_one, hd, Option.toList_some, orderTail_snoc]

theorem checkDurableChain_of_restorable (h : Restorable c e) (honce : e.OrderedOnce) :
    e.checkDurableChain e.durableMetadata = .ok () := by
  obtain ⟨log, hlog⟩ := h.log
  rw [checkDurableChain]
  simp only [↓guard_bind_eq_ok, bind_eq_ok, List.forM_eq_forM, forM_eq_ok, reject_eq_ok, not_not]
  refine ⟨fun t ht => ?_, orderTail log, ?_, ?_⟩
  · rw [h.stored.transitions, mem_values] at ht
    obtain ⟨g, hg⟩ := ht
    obtain ⟨hle, hhash⟩ := h.seated.boundaries g t hg
    rw [checkCommitteeBoundary]
    simp only [↓guard_bind_eq_ok, bind_eq_ok, reject_eq_ok, not_not, not_lt]
    exact ⟨hle, _, hhash, rfl⟩
  · have hfold := foldlM_checkDurablePosition h honce hlog le_rfl
    rw [List.take_length, ← hlog.last] at hfold
    exact hfold
  · exact hlog.tail.symm

theorem installDurableState_blank (h : Stored c e) :
    e.blank.installDurableState e.durableMetadata = e := by
  obtain ⟨havail, hfin, hpositions, horig, htrans, hhashes, -⟩ := h
  unfold installDurableState blank
  dsimp only
  rw [havail, hfin, hpositions, horig, htrans, ← hhashes]
  rfl

theorem authorize_of_openedWith (h : OpenedWith c e) : e.authorize = (.ok e, e.store) := by
  have hauth : e.localStoreWasAuthorized = true := by
    rw [localStoreWasAuthorized, decide_eq_true_eq]
    exact .inl (h.holders ▸ h.authorized)
  rw [authorize, if_pos hauth]

theorem reopen_of_restorable (h : Restorable c e) (honce : e.OrderedOnce) :
    newWithApplicationContract e.store (c.current e) (fun _ => true) = (.ok e, e.store) := by
  rw [newWithApplicationContract, loadMetadata_of_restorable h]
  rcases h.stored.metadata with hmeta | ⟨hmeta, hempty⟩
  · have hentries : ∀ entry ∈ e.store.availableReferences.toList, e.blank.Holds entry.1 entry.2 := by
      intro entry hent
      rw [h.stored.available, Std.ExtTreeMap.mem_toList_iff_getElem?_eq_some (k := entry.1)] at hent
      exact { h.available _ _ hent with }
    have hbind : e.blank.bindDurableAvailability e.durableMetadata (fun _ => true)
        e.blank.store.availableReferences.toList e.blank.store = (.ok (), e.store) :=
      bindDurableAvailability_of_holds ⟨rfl, rfl⟩ _ hentries
    rw [hmeta]
    dsimp only
    rw [restoreCommitteeHistory_eq h]
    dsimp only
    -- the checks read the store and the committees, which the blank engine has already
    have hpar : e.blank.checkDurableParameters e.durableMetadata = .ok () :=
      checkDurableParameters_of_restorable h
    have hchain : { e.blank with store := e.store }.checkDurableChain e.durableMetadata = .ok () :=
      checkDurableChain_of_restorable h honce
    rw [restore, hpar]
    dsimp only
    rw [hbind]
    dsimp only
    rw [hchain]
    dsimp only
    have hinst : { e.blank with store := e.store }.installDurableState e.durableMetadata = e :=
      installDurableState_blank h.stored
    rw [hinst]
    exact authorize_of_openedWith h.openedWith
  · rw [hmeta]
    dsimp only
    have hcur : (c.current e).emptyEngine e.store = e := by
      have hroute : e.routeGeneration = c.routeGeneration :=
        congrArg routeGeneration hempty
      have hspec : e.commandSpecVersion = c.commandSpecVersion :=
        congrArg commandSpecVersion hempty
      rw [OrderedEngineConfig.current, hroute, hspec]
      exact hempty.symm
    rw [hcur]
    exact authorize_of_openedWith h.openedWith

theorem restorable_start {holder : W} {site : SiteId} {bindIo : W → Bool}
    (h : (newWithApplicationContract (.openStore holder site storeGeneration) c bindIo).1 = .ok e) :
    Restorable c e := by
  set s : DurableAdmissionStore W := .openStore holder site storeGeneration with hs
  rw [newWithApplicationContract] at h
  cases hload : loadMetadata s c with
  | error f =>
    rw [hload] at h
    cases h
  | ok metadata =>
    have hnone : metadata = none := (loadMetadata_spec hload).symm
    subst hnone
    rw [hload] at h
    dsimp only at h
    rw [loadMetadata, guard_bind_eq_ok] at hload
    have hauth : (c.emptyEngine s).localStoreWasAuthorized = true := by
      by_contra hnot
      rw [authorize, if_neg hnot] at h
      cases h
    obtain rfl := (authorize_spec _).2 e h
    rw [localStoreWasAuthorized, decide_eq_true_eq] at hauth
    have hlog : (c.emptyEngine s).image.Represents [] := .empty rfl rfl rfl rfl rfl
    refine ⟨hload.1, ⟨rfl, rfl, rfl, rfl, rfl, ?_⟩, ⟨rfl, rfl, rfl, rfl, rfl, ?_, .inr ⟨rfl, rfl⟩⟩,
      ⟨by rintro _ ⟨⟩, fun _ => ⟨rfl, rfl, rfl, rfl⟩, ?_⟩, holdsAvailable_of_empty rfl,
      ⟨rfl, fun _ => rfl⟩, ⟨[], hlog⟩,
      ⟨emptyEngine_known c s, ?_⟩, fun _ => ?_⟩
    · refine hauth.resolve_right fun hany => ?_
      simp [OrderedEngineConfig.emptyEngine, values] at hany
    · apply Std.ExtTreeSet.ext_mem
      intro hash
      simp [OrderedEngineConfig.emptyEngine, values]
    · intro g t ht
      simp [OrderedEngineConfig.emptyEngine] at ht
    · intro p d hd
      simp [OrderedEngineConfig.emptyEngine] at hd
    · intro p hash hp hhash
      simp [OrderedEngineConfig.emptyEngine] at hhash

end GlobalOrderedEngine

/-- A store to which nothing was committed has empty tables. -/
def DurableAdmissionStore.Clean (s : DurableAdmissionStore W) : Prop :=
  s.orderedMetadata = none → s.availableReferences = ∅ ∧ s.finalizedPositions = ∅ ∧
    s.positionReferences = ∅ ∧ s.originTails = ∅ ∧ s.committeeTransitions = ∅

namespace GlobalOrderedEngine

variable {e : GlobalOrderedEngine W} {c : OrderedEngineConfig W} {s : DurableAdmissionStore W}

theorem Stored.clean (h : Stored c e) : e.store.Clean := by
  intro hnone
  rcases h.metadata with hsome | ⟨-, hempty⟩
  · rw [hnone] at hsome
    cases hsome
  · rw [h.available, h.finalized, h.positions, h.origins, h.transitions, hempty]
    exact ⟨rfl, rfl, rfl, rfl, rfl⟩

/-- What the parameters of a store that is taken over have to be. -/
theorem metadata_of_checkDurableParameters (h : e.checkDurableParameters metadata = .ok ()) :
    metadata = (e.installDurableState metadata).durableMetadata := by
  rw [checkDurableParameters] at h
  simp only [↓guard_bind_eq_ok, reject_eq_ok, not_or, not_not] at h
  obtain ⟨-, -, ⟨hversion, hhold, hgen, -⟩, -⟩ := h
  obtain ⟨version, holders, generation, route, spec, last, tail, applied⟩ := metadata
  dsimp only at hversion hhold hgen
  subst hversion hhold hgen
  rfl

/-- An opened engine has what its store has. -/
theorem Opens.stored (hs : s.Clean) (h : Opens s c e) : Stored c e := by
  cases h with
  | empty hnone =>
    obtain ⟨havail, hfin, hpositions, horig, htrans⟩ := hs hnone
    refine ⟨havail, hfin, hpositions, horig, htrans, ?_, .inr ⟨hnone, rfl⟩⟩
    apply Std.ExtTreeSet.ext_mem
    intro hash
    simp [OrderedEngineConfig.emptyEngine, values]
  | restored scope hsome _ hparameters =>
    have hmeta := metadata_of_checkDurableParameters hparameters
    exact ⟨rfl, rfl, rfl, rfl, rfl, rfl, .inl (hsome.trans (congrArg some hmeta))⟩

end GlobalOrderedEngine

inductive Grown [ReferenceCodec W] (c : OrderedEngineConfig W) : GlobalOrderedEngine W → Prop where
  | opened {holder : W} {site : SiteId} {storeGeneration : ℕ} {bindIo : W → Bool}
      {e : GlobalOrderedEngine W}
      (h : (GlobalOrderedEngine.newWithApplicationContract
        (.openStore holder site storeGeneration) c bindIo).1 = .ok e) : Grown c e
  | call {e : GlobalOrderedEngine W} (grown : Grown c e) (op : OrderedOperation W) :
      Grown c (op.call e)

variable [ReferenceCodec W] {c : OrderedEngineConfig W} {e : GlobalOrderedEngine W}

theorem Grown.restorable (h : Grown c e) : GlobalOrderedEngine.Restorable c e := by
  induction h with
  | opened h => exact restorable_start h
  | call grown op ih =>
    obtain ⟨log, hlog⟩ := ih.log
    have hsteps := op.call_steps (noLater_of_represents hlog) False.elim
      False.elim
    exact hsteps.restorable ih

/-- Opening the store of an engine again, with the genesis committee and the contract in
force, gives the engine back, if no reference has two positions. -/
theorem reopen_eq_self (h : Grown c e) (honce : e.OrderedOnce) :
    GlobalOrderedEngine.newWithApplicationContract e.store (c.current e) (fun _ => true) =
      (.ok e, e.store) :=
  GlobalOrderedEngine.reopen_of_restorable h.restorable honce

theorem Grown.calls (h : Grown c e) (ops : List (OrderedOperation W)) :
    Grown c (ops.foldl (fun e op => op.call e) e) := by
  induction ops generalizing e with
  | nil => exact h
  | cons op ops ih => exact ih (h.call op)

theorem exists_grown (c : OrderedEngineConfig W) (holder : W) (site : SiteId)
    (storeGeneration : ℕ) (bindIo : W → Bool) (ops : List (OrderedOperation W))
    (P : GlobalOrderedEngine W → Bool) (h : ((newWithApplicationContract
      (.openStore holder site storeGeneration) c bindIo).1.toOption.map
        (ops.foldl fun e op => op.call e)).any P = true) :
    ∃ e, Grown c e ∧ P e = true := by
  rw [Option.any_map, Option.any_eq_true] at h
  obtain ⟨e, he, hP⟩ := h
  cases hopened : (newWithApplicationContract
      (.openStore holder site storeGeneration) c bindIo).1 with
  | error f =>
    rw [hopened] at he
    cases he
  | ok e₀ =>
    rw [hopened] at he
    cases he
    exact ⟨_, Grown.calls (.opened hopened) ops, hP⟩

open OrderedSample in
theorem reopen_eq_self_applied :
    ∃ e : GlobalOrderedEngine FreeWord, e.appliedWatermark = 1 ∧
      GlobalOrderedEngine.newWithApplicationContract e.store ((config .verified).current e)
        (fun _ => true) = (.ok e, e.store) := by
  obtain ⟨e, hgrown, h⟩ := exists_grown (config .verified) (FreeWord.key 1) (site 1) 1
    (fun _ => true)
    [.markAvailableWithBatch batch (availability reference) true true true,
      .finalize (certificate [11, 12, 13]) true, .applyContiguousTo application true]
    (fun e => e.appliedWatermark = 1 ∧ e.finalized =
      (∅ : BTreeMap ℕ (OrderCertificate FreeWord)).insert 1 (certificate [11, 12, 13]))
    (by decide +kernel)
  rw [decide_eq_true_eq] at h
  refine ⟨e, h.1, reopen_eq_self hgrown ?_⟩
  intro p q c d hc hd _
  rw [h.2, lookup_insert] at hc hd
  split_ifs at hc hd with hp hq
  · exact hp.symm.trans hq
  all_goals simp_all

end Blossom
