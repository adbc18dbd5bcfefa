import Blossom.Epoch
import Blossom.Registry

/-!
# Trusted epochs

A trusted member builds the next epoch from the blocks of a confirmed candidate; a trusted log
checks an epoch before it appends it.
-/

namespace Blossom

open CheckedSteps OrderedMap

variable {W : Type} [ProtocolCrypto W]

section

variable (acceptsWriter : W → Bool) (lastEpoch : W) (nonce : ℕ) (failure : Failure)

/-- One block of a trusted epoch or candidate: for the given target, intact under its key,
and by a writer that has none before it. -/
def acceptTrustedBlock (writers : BTreeSet W) (entry : W × Block W) : Result (BTreeSet W) := do
  reject (entry.2.body.lastEpoch ≠ lastEpoch ∨ entry.2.body.nonce ≠ nonce ∨
    acceptsWriter entry.2.body.validator = false ∨
    writers.contains entry.2.body.validator = true) failure
  entry.2.verifyUnsignedIntegrityWithHash entry.1
  pure (writers.insert entry.2.body.validator)

def validateTrustedBlocks (blocks : BTreeMap W (Block W)) : Result (BTreeSet W) :=
  blocks.toList.foldlM (acceptTrustedBlock acceptsWriter lastEpoch nonce failure) ∅

end

/-- The blocks of a trusted candidate for a target: intact under their keys, by accepted
writers, and at most one by each. -/
structure TrustedCandidate (acceptsWriter : W → Bool) (lastEpoch : W) (nonce : ℕ)
    (blocks : BTreeMap W (Block W)) : Prop where
  target : ∀ (key : W) (block : Block W), blocks[key]? = some block →
    block.body.lastEpoch = lastEpoch ∧ block.body.nonce = nonce
  writer : ∀ (key : W) (block : Block W), blocks[key]? = some block →
    acceptsWriter block.body.validator = true
  intact : ∀ (key : W) (block : Block W), blocks[key]? = some block →
    block.verifyUnsignedIntegrityWithHash key = .ok ()
  distinct : ∀ (key key' : W) (block block' : Block W), blocks[key]? = some block →
    blocks[key']? = some block' → block.body.validator = block'.body.validator → key = key'

section Blocks

variable {acceptsWriter : W → Bool} {lastEpoch : W} {nonce : ℕ} {failure : Failure}

theorem acceptTrustedBlock_eq_ok {writers next : BTreeSet W} {entry : W × Block W} :
    acceptTrustedBlock acceptsWriter lastEpoch nonce failure writers entry = .ok next ↔
      (entry.2.body.lastEpoch = lastEpoch ∧ entry.2.body.nonce = nonce ∧
        acceptsWriter entry.2.body.validator = true ∧
        entry.2.verifyUnsignedIntegrityWithHash entry.1 = .ok ()) ∧
      entry.2.body.validator ∉ writers ∧ writers.insert entry.2.body.validator = next := by
  rw [acceptTrustedBlock]
  simp only [↓guard_bind_eq_ok, reject_eq_ok, pure_eq_ok, not_or, not_not, Bool.not_eq_false,
    Std.ExtTreeSet.contains_iff_mem]
  tauto

theorem acceptTrustedBlock_loop {entries : List (W × Block W)} {seen : BTreeSet W} :
    (∃ writers, entries.foldlM (acceptTrustedBlock acceptsWriter lastEpoch nonce failure) seen =
      .ok writers) ↔
    (∀ entry ∈ entries, (entry.2.body.lastEpoch = lastEpoch ∧ entry.2.body.nonce = nonce ∧
      acceptsWriter entry.2.body.validator = true ∧
      entry.2.verifyUnsignedIntegrityWithHash entry.1 = .ok ()) ∧
      entry.2.body.validator ∉ seen) ∧
      entries.Pairwise fun a b => a.2.body.validator ≠ b.2.body.validator := by
  induction entries generalizing seen with
  | nil => simp [pure, Except.pure]
  | cons entry entries ih =>
    have hstep : (∃ writers, (entry :: entries).foldlM
        (acceptTrustedBlock acceptsWriter lastEpoch nonce failure) seen = .ok writers) ↔
        ∃ next, acceptTrustedBlock acceptsWriter lastEpoch nonce failure seen entry = .ok next ∧
          ∃ writers, entries.foldlM
            (acceptTrustedBlock acceptsWriter lastEpoch nonce failure) next = .ok writers := by
      simp only [List.foldlM_cons, bind_eq_ok, ← exists_and_left]
      exact exists_comm
    rw [hstep]
    simp only [ih, acceptTrustedBlock_eq_ok, List.forall_mem_cons, List.pairwise_cons]
    constructor
    · rintro ⟨next, ⟨hent, hseen, rfl⟩, hall, hpair⟩
      refine ⟨⟨⟨hent, hseen⟩, fun e he => ⟨(hall e he).1, fun h => ?_⟩⟩, fun e he h => ?_, hpair⟩
      · exact (hall e he).2 (by simp [h])
      · exact (hall e he).2 (by simp [h])
    · rintro ⟨⟨⟨hent, hseen⟩, hall⟩, hne, hpair⟩
      refine ⟨_, ⟨hent, hseen, rfl⟩, fun e he => ⟨(hall e he).1, ?_⟩, hpair⟩
      have h₁ := (hall e he).2
      have h₂ := hne e he
      simp [h₁, h₂]

theorem validateTrustedBlocks_isOk (failure : Failure) {blocks : BTreeMap W (Block W)} :
    (∃ writers, validateTrustedBlocks acceptsWriter lastEpoch nonce failure blocks = .ok writers) ↔
      TrustedCandidate acceptsWriter lastEpoch nonce blocks := by
  have hmem {key : W} {block : Block W} : (key, block) ∈ blocks.toList ↔ blocks[key]? = some block :=
    Std.ExtTreeMap.mem_toList_iff_getElem?_eq_some
  rw [validateTrustedBlocks, acceptTrustedBlock_loop]
  constructor
  · rintro ⟨hall, hpair⟩
    have hent (key : W) (block : Block W) (h : blocks[key]? = some block) :=
      (hall (key, block) (hmem.mpr h)).1
    refine ⟨fun k b h => ⟨(hent k b h).1, (hent k b h).2.1⟩, fun k b h => (hent k b h).2.2.1,
      fun k b h => (hent k b h).2.2.2, fun k k' b b' h h' hv => ?_⟩
    by_contra hne
    have hsymm : Std.Symm fun a b : W × Block W => a.2.body.validator ≠ b.2.body.validator :=
      ⟨fun _ _ h => h.symm⟩
    exact hpair.forall (hmem.mpr h) (hmem.mpr h') (fun heq => hne (Prod.mk.inj heq).1) hv
  · intro h
    refine ⟨fun entry he => ⟨⟨?_, ?_, ?_, ?_⟩, by simp⟩, ?_⟩
    · exact (h.target _ _ (hmem.mp he)).1
    · exact (h.target _ _ (hmem.mp he)).2
    · exact h.writer _ _ (hmem.mp he)
    · exact h.intact _ _ (hmem.mp he)
    · exact (pairwise_toList_ne blocks).imp_of_mem fun ha hb hne hv =>
        hne (h.distinct _ _ _ _ (hmem.mp ha) (hmem.mp hb) hv)

end Blocks

variable [EpochCodec W]

/-- The epoch that `prepare_trusted_epoch` assembles from the confirmed blocks: the body is
the one of a verified epoch, and there is no certificate. -/
def buildTrustedEpoch (previous : Epoch W) (blocks : BTreeMap W (Block W))
    (removalPolicy : ConsensusNodeRemovalPolicy) : Epoch W :=
  (buildVerifiedEpoch previous blocks removalPolicy).setHash

def validateTrustedExtension (previous epoch : Epoch W)
    (removalPolicy : ConsensusNodeRemovalPolicy) : Result Unit := do
  reject (epoch.body.groupId ≠ previous.body.groupId ∨ epoch.body.lastEpoch ≠ previous.hash ∨
    epoch.body.previousNonce ≠ some previous.body.nonce ∨
    epoch.body.nonce ≠ previous.body.nonce + 1 ∨
    epoch.body.effectiveConsensusParameters ≠ previous.body.effectiveConsensusParameters ∨
    epoch.hash ≠ epoch.body.computeHash)
    (invalidConfiguration "trusted epoch does not extend the durable stable prefix")
  let _ ← validateTrustedBlocks (previous.body.verifiers.contains ·) previous.hash epoch.body.nonce
    (invalidConfiguration "trusted epoch contains a stale, unknown, or duplicate writer block")
    epoch.body.blocks
  reject (epoch.body.merkleRoot ≠ blockMerkleRoot epoch.body.blocks) (invalidConfiguration
    "trusted epoch Merkle root does not match its committed block set")
  let expectedVerifiers := applyEpochMembershipTransition previous.body.verifiers
    epoch.body.blocks previous.hash epoch.body.nonce removalPolicy
  reject (expectedVerifiers.keys ≠ epoch.body.verifiers.keys ∨
    values expectedVerifiers ≠ values epoch.body.verifiers) (invalidConfiguration
    "trusted epoch verifier transition does not match its committed block set")

section Production

variable {previous : Epoch W} {blocks : BTreeMap W (Block W)} {policy : ConsensusNodeRemovalPolicy}

omit [EpochCodec W] in
theorem applyEpochMembershipTransition_keyed {verifiers : Verifiers W}
    (hv : VerifiersKeyed verifiers) (blocks : BTreeMap W (Block W)) (lastEpoch : W) (nonce : ℕ)
    (policy : ConsensusNodeRemovalPolicy) :
    VerifiersKeyed (applyEpochMembershipTransition verifiers blocks lastEpoch nonce policy) := by
  have hremoval (plan : ConsensusNodeRemovalPlan W) :
      VerifiersKeyed (applyConsensusNodeRemovalPlan verifiers plan) := by
    apply List.foldlRecOn (motive := VerifiersKeyed) plan.decisions _ hv
    intro current hcur decision _ key identity hid
    rw [lookup_erase] at hid
    split at hid
    · cases hid
    · exact hcur key identity hid
  apply List.foldlRecOn (motive := VerifiersKeyed) _ _ (hremoval _)
  intro current hcur node _ key identity hid
  rw [lookup_insert] at hid
  split at hid
  · next hk =>
    cases hid
    exact hk
  · exact hcur key identity hid

/-- The epoch built from a trusted candidate passes the check of a trusted log exactly
when the registry keeps every verifier of the legacy transition. -/
theorem validateTrustedExtension_build_iff (hm : previous.body.members.WellKeyed)
    (hv : VerifiersKeyed previous.body.verifiers)
    (hb : TrustedCandidate (previous.body.verifiers.contains ·) previous.hash
      (previous.body.nonce + 1) blocks) :
    validateTrustedExtension previous (buildTrustedEpoch previous blocks policy) policy = .ok () ↔
      RegistryKeeps previous.body.members
        (applyEpochMembershipTransition previous.body.verifiers blocks previous.hash
          (previous.body.nonce + 1) policy) blocks previous.body.groupId previous.hash := by
  obtain ⟨writers, hw⟩ := (validateTrustedBlocks_isOk (invalidConfiguration
    "trusted epoch contains a stale, unknown, or duplicate writer block")).mpr hb
  have hkeeps := registryTransition_eq_legacy_iff hm
    (applyEpochMembershipTransition_keyed hv blocks previous.hash (previous.body.nonce + 1) policy)
    blocks previous.body.groupId previous.hash
  rw [← hkeeps, ← map_eq_iff_keys_values, validateTrustedExtension]
  refine Iff.trans ?_ (and_congr eq_comm eq_comm)
  simp only [↓guard_bind_eq_ok, bind_eq_ok, reject_eq_ok]
  simp [buildTrustedEpoch, Epoch.setHash, buildVerifiedEpoch, hw,
    EpochBody.effectiveConsensusParameters]

end Production

end Blossom
