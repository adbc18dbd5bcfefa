import Blossom.OrderedFinality

/-!
# The tail of the order

Every certificate of a reachable engine verifies under the committee of its generation, so the
engine can always sign its tail.
-/

namespace Blossom

open CheckedSteps OrderedMap OrderedImage GlobalOrderedEngine

variable {W : Type} [ProtocolCrypto W]
variable {log log' : List (OrderCertificate W)} {s : DurableAdmissionStore W}

theorem CommitteeTransitionCertificate.generation_of_verify
    {c : CommitteeTransitionCertificate W} {cluster group : W} {m : HolderMembership W} {g : ℕ}
    {v : BTreeSet W} (h : c.verify cluster group m g v = .ok ()) :
    c.statement.nextValidatorGeneration = g + 1 := by
  rw [CommitteeTransitionCertificate.verify, CommitteeTransitionStatement.validate] at h
  simp only [↓guard_bind_eq_ok, reject_eq_ok, not_or, not_not] at h
  obtain ⟨⟨-, -, -, hnext, -⟩, ⟨-, -, -, hprev, -⟩, -⟩ := h
  rw [hnext, hprev]

namespace GlobalOrderedEngine

variable {e e' : GlobalOrderedEngine W}

/-- The committee in force is the one that the history has for its generation. -/
structure CommitteeKnown (e : GlobalOrderedEngine W) : Prop where
  genesis : e.genesisValidatorGeneration ≤ e.validatorGeneration
  known : ∀ (g : ℕ) (c : CommitteeTransitionCertificate W),
    e.committeeTransitions[g]? = some c → g ≤ e.validatorGeneration
  current : e.validatorsForGeneration e.validatorGeneration = .ok e.validators

/-- Every certificate of the log verifies under the committee of its generation. -/
def LogVerified (e : GlobalOrderedEngine W) : Prop :=
  ∀ (p : ℕ) (c : OrderCertificate W), e.finalized[p]? = some c → e.verifyFinalized c = .ok ()

structure SameCommittee (e e' : GlobalOrderedEngine W) : Prop where
  mode : e'.orderTrustMode = e.orderTrustMode
  genesisGeneration : e'.genesisValidatorGeneration = e.genesisValidatorGeneration
  genesisValidators : e'.genesisValidators = e.genesisValidators
  transitions : e'.committeeTransitions = e.committeeTransitions
  generation : e'.validatorGeneration = e.validatorGeneration
  validators : e'.validators = e.validators

theorem SameCommittee.validatorsForGeneration (h : SameCommittee e e') (g : ℕ) :
    e'.validatorsForGeneration g = e.validatorsForGeneration g := by
  rw [GlobalOrderedEngine.validatorsForGeneration, GlobalOrderedEngine.validatorsForGeneration,
    h.genesisGeneration, h.genesisValidators, h.transitions]

theorem SameCommittee.verifyFinalized (h : SameCommittee e e') (c : OrderCertificate W) :
    e'.verifyFinalized c = e.verifyFinalized c := by
  rw [GlobalOrderedEngine.verifyFinalized, GlobalOrderedEngine.verifyFinalized, h.mode,
    h.validatorsForGeneration]

theorem SameCommittee.known (h : SameCommittee e e') (hk : e.CommitteeKnown) :
    e'.CommitteeKnown := by
  refine ⟨?_, ?_, ?_⟩
  · rw [h.genesisGeneration, h.generation]
    exact hk.genesis
  · rw [h.transitions, h.generation]
    exact hk.known
  · rw [h.generation, h.validatorsForGeneration, h.validators]
    exact hk.current

structure Certified (e : GlobalOrderedEngine W) : Prop where
  known : e.CommitteeKnown
  log : e.LogVerified

theorem Certified.same (h : e.Certified) (hs : SameCommittee e e')
    (hf : ∀ (p : ℕ) (c : OrderCertificate W), e'.finalized[p]? = some c →
      e.finalized[p]? = some c ∨ e.verifyFinalized c = .ok ()) : e'.Certified := by
  refine ⟨hs.known h.known, fun p c hc => ?_⟩
  rw [hs.verifyFinalized]
  exact (hf p c hc).elim (h.log p c) id

theorem Accepts.verifyFinalized {c : OrderCertificate W} (ha : e.Accepts c)
    (h : e.CommitteeKnown) : e.verifyFinalized c = .ok () := by
  rcases ha with ⟨hmode, hverify⟩ | ⟨hmode, hverify⟩
  · have hgen : c.statement.validatorGeneration = e.validatorGeneration := by
      rw [OrderCertificate.verifyTrusted, reject_eq_ok] at hverify
      by_contra hne
      exact hverify (.inl hne)
    rw [GlobalOrderedEngine.verifyFinalized, if_pos hmode, hgen]
    exact hverify
  · have hgen : c.statement.validatorGeneration = e.validatorGeneration := by
      rw [OrderCertificate.verify, guard_bind_eq_ok, reject_eq_ok] at hverify
      by_contra hne
      exact hverify.1 (.inl hne)
    rw [GlobalOrderedEngine.verifyFinalized, if_neg hmode, hgen, bind_eq_ok]
    exact ⟨e.validators, h.current, hverify⟩

variable {c : CommitteeTransitionCertificate W}

theorem validatorsForGeneration_withCommittee (h : e.CommitteeKnown)
    (hc : c.statement.nextValidatorGeneration = e.validatorGeneration + 1) {g : ℕ} {v : BTreeSet W}
    (hv : e.validatorsForGeneration g = .ok v) :
    (e.withCommittee c).validatorsForGeneration g = .ok v := by
  unfold validatorsForGeneration at hv ⊢
  rw [withCommittee]
  dsimp only
  split_ifs at hv ⊢
  · exact hv
  · rw [require_eq_ok, Option.map_eq_some_iff] at hv ⊢
    obtain ⟨d, hd, hdv⟩ := hv
    have hle := h.known g d hd
    refine ⟨d, ?_, hdv⟩
    rw [lookup_insert, if_neg (by omega)]
    exact hd

theorem withCommittee_known (h : e.CommitteeKnown)
    (hc : c.statement.nextValidatorGeneration = e.validatorGeneration + 1) :
    (e.withCommittee c).CommitteeKnown := by
  have hgenesis := h.genesis
  refine ⟨?_, fun g d hd => ?_, ?_⟩
  · change e.genesisValidatorGeneration ≤ c.statement.nextValidatorGeneration
    omega
  · change g ≤ c.statement.nextValidatorGeneration
    obtain ⟨rfl, -⟩ | ⟨-, hd⟩ := lookup_insert_eq_some.mp hd
    · exact le_rfl
    · have hle := h.known g d hd
      omega
  · unfold validatorsForGeneration
    rw [withCommittee]
    dsimp only
    rw [if_neg (by omega), require_eq_ok, lookup_insert, if_pos rfl]
    rfl

theorem withCommittee_verified (h : e.CommitteeKnown) (hl : e.LogVerified)
    (hc : c.statement.nextValidatorGeneration = e.validatorGeneration + 1) :
    (e.withCommittee c).LogVerified := by
  intro p d hd
  have hver := hl p d hd
  unfold verifyFinalized at hver ⊢
  rw [withCommittee]
  dsimp only
  split_ifs at hver ⊢
  · exact hver
  · rw [bind_eq_ok] at hver ⊢
    obtain ⟨v, hv, hd⟩ := hver
    exact ⟨v, validatorsForGeneration_withCommittee h hc hv, hd⟩

theorem checkCommitteeTransition_spec (h : e.checkCommitteeTransition c = .ok ()) :
    e.quiescent = true ∧ (∃ scope, e.store.protocolScope = some scope ∧
      c.verify scope.1 scope.2 e.holderMembership e.validatorGeneration e.validators = .ok ()) ∧
      c.statement.activatedAt = e.appliedWatermark ∧
      c.statement.orderCertificateHash = e.lastOrderCertificateHash := by
  rw [checkCommitteeTransition] at h
  simp only [↓guard_bind_eq_ok, bind_eq_ok, require_eq_ok, reject_eq_ok, not_or, not_not,
    Bool.not_eq_false] at h
  obtain ⟨hquiet, scope, hscope, hverify, hbnd⟩ := h
  exact ⟨hquiet, ⟨scope, hscope, hverify⟩, hbnd⟩

theorem Step.certified {fresh room : Prop} (hs : Step fresh room e e') (h : e.Certified) :
    e'.Certified := by
  have hsame {e' : GlobalOrderedEngine W} (hc : SameCommittee e e')
      (hf : e'.finalized = e.finalized) : e'.Certified :=
    h.same hc fun p c hc => .inl (hf ▸ hc)
  cases hs with
  | bind | keep | touch | offer | apply | contract =>
    exact hsame ⟨rfl, rfl, rfl, rfl, rfl, rfl⟩ rfl
  | order c orders =>
    refine h.same ⟨rfl, rfl, rfl, rfl, rfl, rfl⟩ fun p d hd => ?_
    obtain ⟨-, rfl⟩ | ⟨-, hd⟩ := lookup_insert_eq_some.mp hd
    · exact .inr (orders.accepted.verifyFinalized h.known)
    · exact .inl hd
  | committee c check known =>
    obtain ⟨-, ⟨scope, -, hverify⟩, -⟩ := checkCommitteeTransition_spec check
    have hnext := CommitteeTransitionCertificate.generation_of_verify hverify
    exact ⟨{ withCommittee_known h.known hnext with },
      withCommittee_verified h.known h.log hnext⟩

theorem Steps.certified {fresh room : Prop} (hs : Steps fresh room e e') (h : e.Certified) :
    e'.Certified := by
  induction hs with
  | refl => exact h
  | tail _ hstep ih => exact hstep.certified ih

theorem emptyEngine_known (c : OrderedEngineConfig W) (s : DurableAdmissionStore W) :
    (c.emptyEngine s).CommitteeKnown := by
  refine ⟨le_rfl, fun g d hd => ?_, ?_⟩
  · simp [OrderedEngineConfig.emptyEngine] at hd
  · simp [validatorsForGeneration, OrderedEngineConfig.emptyEngine]

theorem restoreCommittee_spec {scope : W × W} {entry : ℕ × CommitteeTransitionCertificate W}
    (h : restoreCommittee scope e entry = .ok e') :
    entry.1 = entry.2.statement.nextValidatorGeneration ∧
      entry.2.statement.nextValidatorGeneration = e.validatorGeneration + 1 ∧
      e' = e.withCommittee entry.2 := by
  rw [restoreCommittee] at h
  simp only [↓guard_bind_eq_ok, reject_eq_ok, pure_eq_ok, not_not] at h
  obtain ⟨hkey, hverify, rfl⟩ := h
  exact ⟨hkey, CommitteeTransitionCertificate.generation_of_verify hverify, rfl⟩

theorem foldlM_restoreCommittee {scope : W × W}
    {entries : List (ℕ × CommitteeTransitionCertificate W)} (hk : e.CommitteeKnown)
    (h : entries.foldlM (restoreCommittee scope) e = .ok e') :
    e'.CommitteeKnown ∧ e'.committeeTransitions =
      entries.foldl (fun acc entry => acc.insert entry.1 entry.2) e.committeeTransitions := by
  induction entries generalizing e with
  | nil =>
    rw [List.foldlM_nil, pure_eq_ok] at h
    subst h
    exact ⟨hk, rfl⟩
  | cons entry entries ih =>
    rw [List.foldlM_cons, bind_eq_ok] at h
    obtain ⟨mid, hmid, h⟩ := h
    obtain ⟨hkey, hnext, rfl⟩ := restoreCommittee_spec hmid
    obtain ⟨hknown, htrans⟩ := ih (withCommittee_known hk hnext) h
    refine ⟨hknown, htrans.trans ?_⟩
    rw [List.foldl_cons, hkey]
    rfl

theorem restoreCommitteeHistory_known (c : OrderedEngineConfig W)
    (h : (c.emptyEngine s).restoreCommitteeHistory = .ok e') :
    e'.CommitteeKnown ∧ e'.committeeTransitions = s.committeeTransitions := by
  rw [restoreCommitteeHistory] at h
  split_ifs at h with hempty
  · rw [pure_eq_ok] at h
    subst h
    refine ⟨emptyEngine_known c s, ?_⟩
    exact (Std.ExtTreeMap.isEmpty_iff.mp hempty).symm
  · rw [bind_eq_ok] at h
    obtain ⟨scope, -, hfold⟩ := h
    obtain ⟨hknown, htrans⟩ := foldlM_restoreCommittee (emptyEngine_known c s) hfold
    exact ⟨hknown, htrans.trans (foldl_insert_toList _)⟩

theorem checkDurableChain_verified {metadata : DurableOrderedMetadata W}
    (h : e.checkDurableChain metadata = .ok ()) {p : ℕ} {c : OrderCertificate W}
    (hp : 1 ≤ p) (hle : p ≤ metadata.lastFinalizedPosition)
    (hc : e.store.finalizedPositions[p]? = some c) : e.verifyFinalized c = .ok () := by
  rw [checkDurableChain] at h
  simp only [↓guard_bind_eq_ok, bind_eq_ok] at h
  obtain ⟨-, tail, hchain, -⟩ := h
  have hmem : p ∈ List.range' 1 metadata.lastFinalizedPosition := by
    rw [List.mem_range'_1]
    omega
  obtain ⟨previous, next, hpos⟩ := exists_of_foldlM hchain hmem
  rw [checkDurablePosition] at hpos
  simp only [↓guard_bind_eq_ok, bind_eq_ok, require_eq_ok] at hpos
  obtain ⟨d, hd, hver, -⟩ := hpos
  rw [hc] at hd
  cases hd
  exact hver

theorem Opens.certified {c : OrderedEngineConfig W} (hs : s.image.Represents log)
    (h : Opens s c e) : e.Certified := by
  cases h with
  | empty =>
    refine ⟨emptyEngine_known c s, fun p d hd => ?_⟩
    simp [OrderedEngineConfig.emptyEngine] at hd
  | @restored metadata e₁ scope hmeta hrestored _ hchain =>
    obtain ⟨hknown, htrans⟩ := restoreCommitteeHistory_known c hrestored
    have hsame : SameCommittee e₁ ({ e₁ with
        store := { s with protocolScope := scope } }.installDurableState metadata) :=
      ⟨rfl, rfl, rfl, htrans.symm, rfl, rfl⟩
    refine ⟨hsame.known hknown, fun p c hc => ?_⟩
    have hlast : s.image.last = metadata.lastFinalizedPosition := by
      rw [DurableAdmissionStore.image, hmeta]
      rfl
    obtain ⟨q, rfl, hq⟩ := hs.finalized.eq_some hc
    have hle := hs.last
    have hlt := (List.getElem?_eq_some_iff.mp hq).1
    rw [hsame.verifyFinalized]
    exact checkDurableChain_verified hchain (by omega) (by omega) hc

end GlobalOrderedEngine

namespace OrderedOperation

theorem call_certified [ReferenceCodec W] {e : GlobalOrderedEngine W} (h : e.Certified)
    (hlater : e.NoLater) (op : OrderedOperation W) : (op.call e).Certified := by
  have hsteps : GlobalOrderedEngine.Steps False False e (op.call e) :=
    op.call_steps hlater False.elim False.elim
  exact hsteps.certified h

end OrderedOperation

namespace OrderedNode

variable [ReferenceCodec W] {allowed : GlobalOrderedEngine W → OrderedOperation W → Prop}

theorem Reaches.certified {n : OrderedNode W} (h : Reaches allowed n) :
    ∀ e, n = .running e → e.Certified := by
  induction h with
  | start holder site storeGeneration => exact nofun
  | @step n reached op admitted ih =>
    intro e he
    obtain ⟨hdur, log, hlog⟩ := reached.represents
    rcases perform_cases n op with ⟨config, bindIo, -, heq⟩ | ⟨e₁, rfl, heq⟩ | heq
    · rw [heq] at he
      rw [← hdur.mirrored] at hlog
      exact (opens_of_running he).certified hlog
    · rw [heq] at he
      cases he
      exact op.call_certified (ih e₁ rfl) (noLater_of_represents hlog)
    · exact ih e (heq.symm.trans he)

end OrderedNode

namespace GlobalOrderedEngine

variable {e e' : GlobalOrderedEngine W}

theorem validatedLocalOrderTail_eq (h : e.image.Represents log) (hc : e.Certified) :
    e.validatedLocalOrderTail = .ok (e.lastFinalizedPosition, e.lastOrderCertificateHash) := by
  have hlast : e.lastFinalizedPosition = log.length := h.last
  have htail : e.lastOrderCertificateHash = orderTail log := h.tail
  rcases List.eq_nil_or_concat log with rfl | ⟨front, c, rfl⟩
  · have hzero : e.lastFinalizedPosition = 0 := hlast
    rw [validatedLocalOrderTail, if_pos hzero, guard_bind_eq_ok, reject_eq_ok, pure_eq_ok,
      not_not, hzero, htail]
    exact ⟨rfl, rfl⟩
  · rw [List.concat_eq_append] at hlast htail h
    have hfin : e.finalized[e.lastFinalizedPosition]? = some c := by
      rw [hlast, List.length_append, List.length_singleton]
      refine (h.finalized.lookup_succ front.length).trans ?_
      rw [List.getElem?_concat_length]
    have hpos := (h.chain.entry (List.getElem?_concat_length (l := front) (a := c))).1
    have hne : e.lastFinalizedPosition ≠ 0 := by
      rw [hlast, List.length_append, List.length_singleton]
      omega
    rw [validatedLocalOrderTail, if_neg hne]
    simp only [↓guard_bind_eq_ok, bind_eq_ok, require_eq_ok, reject_eq_ok, pure_eq_ok, not_not]
    refine ⟨c, hfin, ?_, hc.log _ c hfin, ?_⟩
    · rw [htail, orderTail_snoc]
    · rw [hpos, hlast, List.length_append, List.length_singleton]

/-- The engines have one order tail, take the same certificates as the next ones of the order
and, under one scope and contract, sign the same read barriers. -/
structure AgreesOnTail (e e' : GlobalOrderedEngine W) : Prop where
  tail : e.lastOrderCertificateHash = e'.lastOrderCertificateHash
  next : ∀ s : OrderStatement W, e.extendsChain s = e'.extendsChain s
  barrier : e.store.protocolScope = e'.store.protocolScope →
    e.routeGeneration = e'.routeGeneration → e.commandSpecVersion = e'.commandSpecVersion →
    ∀ challenge, e.readBarrierStatement challenge = e'.readBarrierStatement challenge

theorem agreesOnTail_of_tail (h : e.image.Represents log) (hc : e.Certified)
    (h' : e'.image.Represents log') (hc' : e'.Certified)
    (hg : e.validatorGeneration = e'.validatorGeneration)
    (hl : e.lastFinalizedPosition = e'.lastFinalizedPosition)
    (ht : e.lastOrderCertificateHash = e'.lastOrderCertificateHash) : e.AgreesOnTail e' := by
  refine ⟨ht, fun s => ?_, fun hscope hroute hspec challenge => ?_⟩
  · rw [extendsChain, extendsChain, hl, ht]
  · rw [readBarrierStatement, readBarrierStatement, validatedLocalOrderTail_eq h hc,
      validatedLocalOrderTail_eq h' hc', hscope, hroute, hspec, hg, hl, ht]

end GlobalOrderedEngine

namespace OrderedNode

variable [ReferenceCodec W]

/-- Two engines with one order agree on its tail exactly when their last certificates carry
the same signatures. -/
theorem agreesOnTail_iff (hinj : HashInjective W) {e e' : GlobalOrderedEngine W}
    (h : Reaches (fun _ _ => True) (.running e)) (h' : Reaches (fun _ _ => True) (.running e'))
    (hg : e.validatorGeneration = e'.validatorGeneration)
    (hl : e.lastFinalizedPosition = e'.lastFinalizedPosition)
    (hs : ∀ p : ℕ, e.finalized[p]?.map OrderCertificate.statement =
      e'.finalized[p]?.map OrderCertificate.statement) :
    e.AgreesOnTail e' ↔ e.finalized[e.lastFinalizedPosition]?.map OrderCertificate.signatures =
      e'.finalized[e.lastFinalizedPosition]?.map OrderCertificate.signatures := by
  obtain ⟨-, log, hlog⟩ := h.represents
  obtain ⟨-, log', hlog'⟩ := h'.represents
  have hcertified := h.certified e rfl
  have hcertified' := h'.certified e' rfl
  have htail : e.lastOrderCertificateHash =
      (e.finalized[e.lastFinalizedPosition]?.map OrderCertificate.hash).getD default :=
    hlog.tail_eq
  have htail' : e'.lastOrderCertificateHash =
      (e'.finalized[e.lastFinalizedPosition]?.map OrderCertificate.hash).getD default := by
    rw [hl]
    exact hlog'.tail_eq
  have hagree := agreesOnTail_of_tail hlog hcertified hlog' hcertified' hg hl
  have hstatement := hs e.lastFinalizedPosition
  cases hc : e.finalized[e.lastFinalizedPosition]? with
  | none =>
    cases hd : e'.finalized[e.lastFinalizedPosition]? with
    | none =>
      rw [hc] at htail
      rw [hd] at htail'
      exact ⟨fun _ => rfl, fun _ => hagree (htail.trans htail'.symm)⟩
    | some d => simp [hc, hd] at hstatement
  | some c =>
    cases hd : e'.finalized[e.lastFinalizedPosition]? with
    | none => simp [hc, hd] at hstatement
    | some d =>
      rw [hc] at htail
      rw [hd] at htail'
      rw [hc, hd, Option.map_some, Option.map_some, Option.some.injEq] at hstatement
      rw [Option.map_some, Option.map_some, Option.some.injEq,
        ← OrderCertificate.hash_eq_iff hinj hstatement]
      constructor
      · intro h
        exact htail.symm.trans (h.tail.trans htail')
      · intro hhash
        exact hagree (htail.trans (hhash.trans htail'.symm))

end OrderedNode

namespace OrderedSample

def certificate (signers : List ℕ) : OrderCertificate FreeWord :=
  signedBy FreeWord.key signers (statement reference 1 default)

def install (signers : List ℕ) : List (OrderedOperation FreeWord) :=
  [.reopen (config .verified) fun _ => true,
    .markAvailableWithBatch batch (availability reference) true true true,
    .finalize (certificate signers) true]

structure Installed (signers : List ℕ) (e : GlobalOrderedEngine FreeWord) : Prop where
  mode : e.orderTrustMode = .verified
  generation : e.validatorGeneration = 0
  validators : e.validators = (config .verified).validators
  last : e.lastFinalizedPosition = 1
  finalized : e.finalized =
    (∅ : BTreeMap ℕ (OrderCertificate FreeWord)).insert 1 (certificate signers)
  tail : e.lastOrderCertificateHash = (certificate signers).hash
  scope : e.store.protocolScope = some (FreeWord.key 21, FreeWord.key 22)

def isInstalled (signers : List ℕ) (e : GlobalOrderedEngine FreeWord) : Bool :=
  e.orderTrustMode = .verified ∧ e.validatorGeneration = 0 ∧
    e.validators = (config .verified).validators ∧ e.lastFinalizedPosition = 1 ∧
    e.finalized = (∅ : BTreeMap ℕ (OrderCertificate FreeWord)).insert 1 (certificate signers) ∧
    e.lastOrderCertificateHash = (certificate signers).hash ∧
    e.store.protocolScope = some (FreeWord.key 21, FreeWord.key 22)

open OrderedNode in
theorem exists_installed (signers : List ℕ)
    (h : (play (fun _ _ => True) (install signers) (.stopped store)).any
      (runs (isInstalled signers)) = true) :
    ∃ e, Reaches (fun _ _ => True) (.running e) ∧ Installed signers e := by
  have hstart : Reaches (fun _ _ => True) (.stopped store) := .start (FreeWord.key 1) (site 1) 1
  obtain ⟨e, hreach, he⟩ :=
    exists_reaches (fun _ _ => True) (install signers) (isInstalled signers) hstart h
  rw [isInstalled, decide_eq_true_eq] at he
  obtain ⟨hmode, hgen, hvals, hlast, hfin, htail, hscope⟩ := he
  exact ⟨e, hreach, hmode, hgen, hvals, hlast, hfin, htail, hscope⟩

theorem Installed.statements {signers signers' : List ℕ} {e e' : GlobalOrderedEngine FreeWord}
    (h : Installed signers e) (h' : Installed signers' e') (p : ℕ) :
    e.finalized[p]?.map OrderCertificate.statement =
      e'.finalized[p]?.map OrderCertificate.statement := by
  rw [h.finalized, h'.finalized, lookup_insert, lookup_insert]
  split_ifs
  · rfl
  · simp

end OrderedSample

open OrderedSample OrderedNode in
/-- Two engines of one committee install certificates for one statement with the signatures of
different validators. They have different tails, so one takes a next certificate that the other
refuses, and they cannot sign one read barrier. -/
theorem tails_differ :
    ∃ e e' : GlobalOrderedEngine FreeWord, Reaches (fun _ _ => True) (.running e) ∧
      Reaches (fun _ _ => True) (.running e') ∧
      e.orderTrustMode = .verified ∧ e'.orderTrustMode = .verified ∧
      e.validatorGeneration = e'.validatorGeneration ∧ e.validators = e'.validators ∧
      (∀ p : ℕ, e.finalized[p]?.map OrderCertificate.statement =
        e'.finalized[p]?.map OrderCertificate.statement) ∧
      e.lastOrderCertificateHash ≠ e'.lastOrderCertificateHash ∧
      (∃ s, e.extendsChain s = true ∧ e'.extendsChain s = false) ∧
      ∃ b b', e.readBarrierStatement [] = .ok b ∧ e'.readBarrierStatement [] = .ok b' ∧ b ≠ b' := by
  obtain ⟨e, hreach, h⟩ := exists_installed [11, 12, 13] (by decide +kernel)
  obtain ⟨e', hreach', h'⟩ := exists_installed [12, 13, 14] (by decide +kernel)
  have hne : (certificate [11, 12, 13]).hash ≠ (certificate [12, 13, 14]).hash := by decide +kernel
  refine ⟨e, e', hreach, hreach', h.mode, h'.mode, h.generation.trans h'.generation.symm,
    h.validators.trans h'.validators.symm, h.statements h', ?_, ?_, ?_⟩
  · rw [h.tail, h'.tail]
    exact hne
  · refine ⟨statement reference 2 (certificate [11, 12, 13]).hash, ?_, ?_⟩
    · rw [extendsChain, h.last, h.tail]
      simp [statement]
    · rw [extendsChain, h'.last, h'.tail]
      simp [statement, hne]
  · obtain ⟨-, log, hlog⟩ := hreach.represents
    obtain ⟨-, log', hlog'⟩ := hreach'.represents
    rw [readBarrierStatement, readBarrierStatement,
      validatedLocalOrderTail_eq hlog (hreach.certified e rfl),
      validatedLocalOrderTail_eq hlog' (hreach'.certified e' rfl),
      h.scope, h'.scope]
    refine ⟨_, _, rfl, rfl, fun heq => ?_⟩
    have htails := congrArg ReadBarrierStatement.orderCertificateHash heq
    exact hne (h.tail.symm.trans (htails.trans h'.tail))

open OrderedSample OrderedNode in
theorem agreesOnTail_iff_installed :
    ∃ e e' : GlobalOrderedEngine FreeWord, e.lastFinalizedPosition = 1 ∧
      (e.AgreesOnTail e' ↔ e.finalized[1]?.map OrderCertificate.signatures =
        e'.finalized[1]?.map OrderCertificate.signatures) := by
  obtain ⟨e, hreach, h⟩ := exists_installed [11, 12, 13] (by decide +kernel)
  obtain ⟨e', hreach', h'⟩ := exists_installed [12, 13, 14] (by decide +kernel)
  have hiff := agreesOnTail_iff FreeWord.hash_injective hreach hreach'
    (h.generation.trans h'.generation.symm) (h.last.trans h'.last.symm) (h.statements h')
  rw [h.last] at hiff
  exact ⟨e, e', h.last, hiff⟩

end Blossom
