import Blossom.OriginOrder

/-!
# The committees behind an order

Every position of a verified engine is certified by the committee of its generation, and every
committee but the first one by the committee before it.
-/

namespace Blossom

open CheckedSteps OrderedMap OrderedImage

variable {W : Type} [ProtocolCrypto W]
variable {t : CommitteeTransitionCertificate W} {validators : BTreeSet W}

/-- The committee that the engines of a network start with. -/
structure Genesis (W : Type) [LinearOrder W] where
  generation : ℕ
  validators : BTreeSet W

variable {g : Genesis W}

def Genesis.committee (g : Genesis W)
    (transitions : BTreeMap ℕ (CommitteeTransitionCertificate W)) (n : ℕ) : Option (BTreeSet W) :=
  if n = g.generation then some g.validators
  else transitions[n]?.map fun c => c.statement.nextValidators

/-- The committees up to a generation and the positions up to the last one, each certified by
the committee in force. -/
structure Succession (g : Genesis W) (generation last : ℕ)
    (transitions : BTreeMap ℕ (CommitteeTransitionCertificate W))
    (finalized : BTreeMap ℕ (OrderCertificate W)) : Prop where
  genesis_le : g.generation ≤ generation
  known : ∀ (k : ℕ) t, transitions[k]? = some t → k ≤ generation
  ordered : ∀ (p : ℕ) c, finalized[p]? = some c → g.generation ≤ c.statement.validatorGeneration ∧
    c.statement.validatorGeneration ≤ generation ∧
    ∃ validators, g.committee transitions c.statement.validatorGeneration = some validators ∧
      verifySignatures c.signatures (OrderCertificate.signingBytes c.statement) validators = .ok ()
  replaced : ∀ (k : ℕ) t, transitions[k]? = some t → ∃ n, k = n + 1 ∧ g.generation ≤ n ∧
    t.statement.previousValidatorGeneration = n ∧
    ∃ validators, g.committee transitions n = some validators ∧
      verifySignatures t.signatures (CommitteeTransitionCertificate.signingBytes t.statement)
        validators = .ok ()
  passed : ∀ n, g.generation ≤ n → n < generation → ∃ t, transitions[n + 1]? = some t ∧
    t.statement.activatedAt ≤ last ∧
    ∀ (p : ℕ) c, finalized[p]? = some c → n < c.statement.validatorGeneration →
      t.statement.activatedAt < p

namespace Succession

variable {generation last : ℕ} {transitions : BTreeMap ℕ (CommitteeTransitionCertificate W)}
  {finalized : BTreeMap ℕ (OrderCertificate W)}

theorem start : Succession g g.generation 0 ∅ ∅ := by
  refine ⟨le_rfl, ?_, ?_, ?_, fun n hle hlt => absurd hlt (by omega)⟩ <;>
    · intro k t h
      simp at h

/-- One more position, certified by the committee in force. -/
theorem order (h : Succession g generation last transitions finalized) {c : OrderCertificate W}
    (hgen : c.statement.validatorGeneration = generation)
    (hcommittee : g.committee transitions generation = some validators)
    (hsig : verifySignatures c.signatures (OrderCertificate.signingBytes c.statement) validators = .ok ()) :
    Succession g generation (last + 1) transitions (finalized.insert (last + 1) c) :=
  { h with
    ordered := fun p d hd => by
      obtain ⟨-, rfl⟩ | ⟨-, hd⟩ := lookup_insert_eq_some.mp hd
      · rw [hgen]
        exact ⟨h.genesis_le, le_rfl, validators, hcommittee, hsig⟩
      · exact h.ordered p d hd
    passed := fun n hle hlt => by
      obtain ⟨t, ht, hbnd, hlater⟩ := h.passed n hle hlt
      refine ⟨t, ht, by omega, fun p d hd hn => ?_⟩
      obtain ⟨heq, -⟩ | ⟨-, hd⟩ := lookup_insert_eq_some.mp hd
      · omega
      · exact hlater p d hd hn }

theorem committee_insert {k n : ℕ} (hn : n < k) :
    g.committee (transitions.insert k t) n = g.committee transitions n := by
  have hlook : (transitions.insert k t)[n]? = transitions[n]? := by
    rw [lookup_insert, if_neg (by omega)]
  unfold Genesis.committee
  rw [hlook]

theorem replace (h : Succession g generation last transitions finalized)
    (hprev : t.statement.previousValidatorGeneration = generation)
    (hbnd : t.statement.activatedAt ≤ last)
    (hcommittee : g.committee transitions generation = some validators)
    (hsig : verifySignatures t.signatures (CommitteeTransitionCertificate.signingBytes t.statement)
      validators = .ok ()) :
    Succession g (generation + 1) last (transitions.insert (generation + 1) t) finalized where
  genesis_le := h.genesis_le.trans (Nat.le_succ _)
  known k d hd := by
    obtain ⟨heq, -⟩ | ⟨-, hd⟩ := lookup_insert_eq_some.mp hd
    · exact heq.ge
    · exact (h.known k d hd).trans (Nat.le_succ _)
  ordered p c hc := by
    obtain ⟨hle, hle', validators, hvals, hver⟩ := h.ordered p c hc
    refine ⟨hle, by omega, validators, ?_, hver⟩
    rw [committee_insert (by omega)]
    exact hvals
  replaced k d hd := by
    obtain ⟨heq, rfl⟩ | ⟨-, hd⟩ := lookup_insert_eq_some.mp hd
    · refine ⟨generation, heq.symm, h.genesis_le, hprev, validators, ?_, hsig⟩
      rw [committee_insert (by omega)]
      exact hcommittee
    · obtain ⟨n, rfl, hle, hprev, validators, hvals, hver⟩ := h.replaced k d hd
      refine ⟨n, rfl, hle, hprev, validators, ?_, hver⟩
      have hknown := h.known _ d hd
      rw [committee_insert (by omega)]
      exact hvals
  passed n hle hlt := by
    rcases Nat.lt_succ_iff_lt_or_eq.mp hlt with hlt | rfl
    · obtain ⟨d, hd, hrest⟩ := h.passed n hle hlt
      exact ⟨d, lookup_insert_eq_some.mpr (.inr ⟨by omega, hd⟩), hrest⟩
    · refine ⟨t, lookup_insert_eq_some.mpr (.inl ⟨rfl, rfl⟩), hbnd, fun p c hc hn => ?_⟩
      obtain ⟨-, hle', -⟩ := h.ordered p c hc
      omega

end Succession

def DurableAdmissionStore.generation (g : Genesis W) (s : DurableAdmissionStore W) : ℕ :=
  (s.orderedMetadata.map fun metadata => metadata.validatorGeneration).getD g.generation

def DurableAdmissionStore.Succeeds (g : Genesis W) (s : DurableAdmissionStore W) : Prop :=
  Succession g (s.generation g) s.image.last s.committeeTransitions s.finalizedPositions

namespace GlobalOrderedEngine

variable {e e' : GlobalOrderedEngine W} {c : OrderedEngineConfig W} {fresh room : Prop}

/-- A verified engine that started from the common committee. -/
structure Governed (g : Genesis W) (e : GlobalOrderedEngine W) : Prop where
  mode : e.orderTrustMode = .verified
  generation : e.genesisValidatorGeneration = g.generation
  validators : e.genesisValidators = g.validators

theorem Step.governed (hs : Step fresh room e e') (h : e.Governed g) : e'.Governed g := by
  cases hs <;> exact { h with }

theorem Steps.governed (hs : Steps fresh room e e') (h : e.Governed g) : e'.Governed g := by
  induction hs with
  | refl => exact h
  | tail _ hstep ih => exact hstep.governed ih

theorem Stored.generation_eq (h : Stored c e) (hg : e.Governed g) :
    e.store.generation g = e.validatorGeneration := by
  unfold DurableAdmissionStore.generation
  rcases h.metadata with hsome | ⟨hnone, hempty⟩
  · rw [hsome]
    rfl
  · have hgenesis := hg.generation
    rw [hnone, ← hgenesis]
    change e.genesisValidatorGeneration = e.validatorGeneration
    rw [hempty]
    rfl

theorem committee_eq_some (hg : e.Governed g) {n : ℕ}
    (h : e.validatorsForGeneration n = .ok validators) :
    g.committee e.committeeTransitions n = some validators := by
  unfold validatorsForGeneration at h
  unfold Genesis.committee
  rw [hg.generation, hg.validators] at h
  split_ifs at h ⊢
  · rw [pure_eq_ok] at h
    rw [h]
  · exact require_eq_ok.mp h

theorem succeeds_iff (h : Stored c e) (hd : e.Durable) (hg : e.Governed g) :
    e.store.Succeeds g ↔ Succession g e.validatorGeneration e.lastFinalizedPosition
      e.committeeTransitions e.finalized := by
  have hlast : e.store.image.last = e.lastFinalizedPosition :=
    congrArg OrderedImage.last hd.mirrored
  unfold DurableAdmissionStore.Succeeds
  rw [h.generation_eq hg, hlast, h.transitions, h.finalized]

theorem Step.succession (hs : Step fresh room e e') (hc : e.Certified) (hg : e.Governed g)
    (h : Succession g e.validatorGeneration e.lastFinalizedPosition e.committeeTransitions
      e.finalized) :
    Succession g e'.validatorGeneration e'.lastFinalizedPosition e'.committeeTransitions
      e'.finalized := by
  have hcur := committee_eq_some hg hc.known.current
  cases hs with
  | bind | keep | touch | offer | apply | contract => exact h
  | order d orders =>
    rcases orders.accepted with ⟨htrusted, -⟩ | ⟨-, hver⟩
    · rw [hg.mode] at htrusted
      cases htrusted
    · rw [OrderCertificate.verify, guard_bind_eq_ok, reject_eq_ok, not_or, not_not] at hver
      have hnext := h.order hver.1.1 hcur hver.2
      rw [← orders.position] at hnext
      exact hnext
  | committee t check known =>
    obtain ⟨hquiet, ⟨scope, -, hver⟩, hbnd, -⟩ := checkCommitteeTransition_spec check
    have hgen := CommitteeTransitionCertificate.generation_of_verify hver
    have happ := (quiescent_iff.mp hquiet).2
    rw [CommitteeTransitionCertificate.verify] at hver
    simp only [↓guard_bind_eq_ok, reject_eq_ok, not_or, not_not] at hver
    obtain ⟨-, ⟨-, -, -, hprev, -⟩, hsig⟩ := hver
    have hnext := h.replace hprev (by omega) hcur hsig
    rw [← hgen] at hnext
    exact hnext

theorem Opens.governed {s : DurableAdmissionStore W} (hmode : c.orderTrustMode = .verified)
    (hgen : c.validatorGeneration = g.generation) (hvals : c.validators = g.validators)
    (h : Opens s c e) : e.Governed g := by
  have hempty : (c.emptyEngine s).Governed g := ⟨hmode, hgen, hvals⟩
  cases h with
  | empty => exact hempty
  | @restored _ e₁ scope _ hrestored =>
    have hgov : e₁.Governed g := by
      rw [restoreCommitteeHistory] at hrestored
      split_ifs at hrestored
      · rw [pure_eq_ok] at hrestored
        exact hrestored ▸ hempty
      · simp only [bind_eq_ok] at hrestored
        obtain ⟨scope, -, hfold⟩ := hrestored
        refine foldlM_invariant (P := fun e' => e'.Governed g) ?_ hempty hfold
        intro acc entry next hacc hstep
        obtain ⟨-, -, rfl⟩ := restoreCommittee_spec hstep
        exact { hacc with }
    exact { hgov with }

end GlobalOrderedEngine

namespace OrderedNode

variable [ReferenceCodec W] {n : OrderedNode W} {op : OrderedOperation W}

/-- The store of every node that is reached is to its engine what it has to be. -/
theorem Reaches.kept {allowed : GlobalOrderedEngine W → OrderedOperation W → Prop}
    (h : Reaches allowed n) : n.Kept :=
  (h.store_induct False False (Q := fun _ => True) (fun _ _ _ => ⟨False.elim, False.elim⟩)
    (fun _ _ _ => trivial) (fun _ _ => trivial) fun _ _ _ _ _ _ => trivial).1

theorem perform_governed (hlog : ∃ log, n.image.Represents log)
    (h : ∀ e, n = .running e → e.Governed g)
    (hopen : ∀ config bindIo, op = .reopen config bindIo → config.orderTrustMode = .verified ∧
      config.validatorGeneration = g.generation ∧ config.validators = g.validators) :
    ∀ e, op.perform n = .running e → e.Governed g := by
  intro e he
  rcases perform_cases n op with ⟨config, bindIo, hop, heq⟩ | ⟨e₁, hn, heq⟩ | heq
  · rw [heq] at he
    obtain ⟨hmode, hgen, hvals⟩ := hopen config bindIo hop
    exact (opens_of_running he).governed hmode hgen hvals
  · rw [heq] at he
    cases he
    obtain ⟨log, hlog⟩ := hlog
    rw [hn] at hlog
    have hsteps : GlobalOrderedEngine.Steps False False e₁ (op.call e₁) :=
      op.call_steps (GlobalOrderedEngine.noLater_of_represents hlog) False.elim False.elim
    exact hsteps.governed (h e₁ hn)
  · rw [heq] at he
    exact h e he

theorem perform_finalized (hkept : n.Kept) (hkept' : (op.perform n).Kept)
    (hmode : ∀ e, n = .running e → e.orderTrustMode = .verified) {p : ℕ} {c : OrderCertificate W}
    (h : (op.perform n).store.finalizedPositions[p]? = some c) :
    n.store.finalizedPositions[p]? = some c ∨ ∃ io, op = .finalize c io := by
  rcases perform_cases n op with ⟨config, bindIo, -, heq⟩ | ⟨e, rfl, heq⟩ | heq
  · obtain ⟨-, scope, -, hstore⟩ := kept_opened hkept.clean config bindIo
    rw [heq, hstore] at h
    exact .inl h
  · obtain ⟨c₁, hstored⟩ := hkept
    rw [heq] at h hkept'
    obtain ⟨c₂, hstored'⟩ := hkept'
    change (op.call e).store.finalizedPositions[p]? = some c at h
    rw [hstored'.finalized] at h
    change e.store.finalizedPositions[p]? = some c ∨ _
    rw [hstored.finalized]
    exact OrderedOperation.call_finalized (hmode e rfl) h
  · rw [heq] at h
    exact .inl h

theorem perform_transitions (hkept : n.Kept) (hkept' : (op.perform n).Kept) {k : ℕ}
    (h : (op.perform n).store.committeeTransitions[k]? = some t) :
    n.store.committeeTransitions[k]? = some t ∨ ∃ io, op = .activateCommitteeTransition t io := by
  rcases perform_cases n op with ⟨config, bindIo, -, heq⟩ | ⟨e, rfl, heq⟩ | heq
  · obtain ⟨-, scope, -, hstore⟩ := kept_opened hkept.clean config bindIo
    rw [heq, hstore] at h
    exact .inl h
  · obtain ⟨c₁, hstored⟩ := hkept
    rw [heq] at h hkept'
    obtain ⟨c₂, hstored'⟩ := hkept'
    change (op.call e).store.committeeTransitions[k]? = some t at h
    rw [hstored'.transitions] at h
    change e.store.committeeTransitions[k]? = some t ∨ _
    rw [hstored.transitions]
    exact OrderedOperation.call_transitions h
  · rw [heq] at h
    exact .inl h

end OrderedNode

end Blossom
