import Blossom.Epoch

/-!
# What the epoch hash depends on

Two block sets with the same keys have the same bodies, and the membership transitions
read nothing else. The fair order reads the signatures as well, so the epoch hash
determines the complete blocks.
-/

namespace Blossom

open CheckedSteps OrderedMap

variable {W : Type} [ProtocolCrypto W]

def blockBodies (blocks : BTreeMap W (Block W)) : List (BlockBody W) :=
  (values blocks).map Block.body

/-- Every block passes its integrity check under its own key. -/
def BlocksIntact (blocks : BTreeMap W (Block W)) : Prop :=
  ∀ (key : W) (block : Block W), blocks[key]? = some block → block.verifyIntegrityWithHash key = .ok ()

theorem Block.hash_of_verifyIntegrity {b : Block W} {h : W}
    (hb : b.verifyIntegrityWithHash h = .ok ()) : b.hash = h ∧ b.body.bodyHash = h := by
  simp only [verifyIntegrityWithHash, verifyUnsignedIntegrityWithHash, guard_bind_eq_ok,
    reject_eq_ok, not_or, not_not] at hb
  exact hb.1.2.2.2.1

theorem map_bodyHash_of_intact {blocks : BTreeMap W (Block W)} (hb : BlocksIntact blocks) :
    (blockBodies blocks).map BlockBody.bodyHash = blocks.keys := by
  rw [← Std.ExtTreeMap.map_fst_toList_eq_keys, blockBodies, values, List.map_map, List.map_map]
  apply List.map_congr_left
  rintro ⟨key, block⟩ he
  rw [Std.ExtTreeMap.mem_toList_iff_getElem?_eq_some] at he
  exact (Block.hash_of_verifyIntegrity (hb key block he)).2

theorem blockBodies_eq_of_keys_eq (hinj : Function.Injective (BlockBody.bodyHash : _ → W))
    {first second : BTreeMap W (Block W)} (hf : BlocksIntact first) (hs : BlocksIntact second)
    (hk : first.keys = second.keys) : blockBodies first = blockBodies second := by
  apply List.map_injective_iff.mpr hinj
  rw [map_bodyHash_of_intact hf, map_bodyHash_of_intact hs, hk]

section Transitions

variable {first second : BTreeMap W (Block W)}

theorem applyEpochMembershipTransition_congr (h : blockBodies first = blockBodies second)
    (verifiers : Verifiers W) (lastEpoch : W) (nonce : ℕ) (policy : ConsensusNodeRemovalPolicy) :
    applyEpochMembershipTransition verifiers first lastEpoch nonce policy =
      applyEpochMembershipTransition verifiers second lastEpoch nonce policy := by
  unfold blockBodies at h
  simp only [applyEpochMembershipTransition, deriveConsensusNodeRemovalPlan, encounterEvidence,
    deriveConsensusNodeAdmissionPlan, admissionEvidence, h]

variable [EpochCodec W]

theorem applyCommittedMemberOperations_congr (h : blockBodies first = blockBodies second)
    (previous : MemberSet W) (groupId parentEpochHash : W) :
    applyCommittedMemberOperations previous first groupId parentEpochHash =
      applyCommittedMemberOperations previous second groupId parentEpochHash := by
  have hb (blocks : BTreeMap W (Block W)) :
      applyCommittedMemberOperations previous blocks groupId parentEpochHash =
        (blockBodies blocks).foldl
          (fun next body => body.txs.foldl (.applyTransaction groupId parentEpochHash) next)
          previous := by
    rw [applyCommittedMemberOperations, blockBodies, List.foldl_map]
  rw [hb, hb, h]

theorem applyEpochMemberRegistryTransition_congr (h : blockBodies first = blockBodies second)
    (previous : MemberSet W) (legacyVerifiers : Verifiers W) (groupId parentEpochHash : W) :
    applyEpochMemberRegistryTransition previous legacyVerifiers first groupId parentEpochHash =
      applyEpochMemberRegistryTransition previous legacyVerifiers second groupId
        parentEpochHash := by
  simp only [applyEpochMemberRegistryTransition, applyCommittedMemberOperations_congr h]

/-- Epochs over the same bodies and keys differ at most in their Merkle roots. -/
theorem computeHash_eq_iff_merkleRoot_eq (hinj : HashInjective W)
    (h : blockBodies first = blockBodies second) (hk : first.keys = second.keys)
    (previous : Epoch W) (policy : ConsensusNodeRemovalPolicy) :
    (buildVerifiedEpoch previous first policy).body.computeHash =
        (buildVerifiedEpoch previous second policy).body.computeHash ↔
      blockMerkleRoot first = blockMerkleRoot second := by
  simp only [EpochBody.computeHash, hinj.eq_iff, buildVerifiedEpoch, EpochBody.fields,
    applyEpochMembershipTransition_congr h, applyEpochMemberRegistryTransition_congr h, hk,
    List.append_cancel_right_eq, List.append_cancel_left_eq, List.append_assoc]
  simp

end Transitions

section FairOrder

variable {first second : BTreeMap W (Block W)}

def unsignedEntry (entry : W × Block W) : W × W × BlockBody W :=
  (entry.1, entry.2.hash, entry.2.body)

theorem map_unsignedEntry_eq (hf : BlocksIntact first) (hs : BlocksIntact second)
    (hk : first.keys = second.keys) (hb : blockBodies first = blockBodies second) :
    first.toList.map unsignedEntry = second.toList.map unsignedEntry := by
  have hmap (blocks : BTreeMap W (Block W)) (hi : BlocksIntact blocks) :
      blocks.toList.map unsignedEntry =
        blocks.keys.zipWith (fun key body => (key, key, body)) (blockBodies blocks) := by
    rw [← Std.ExtTreeMap.map_fst_toList_eq_keys, blockBodies, values, List.map_map,
      List.zipWith_map, List.zipWith_self]
    apply List.map_congr_left
    rintro ⟨key, block⟩ he
    rw [Std.ExtTreeMap.mem_toList_iff_getElem?_eq_some] at he
    simp [unsignedEntry, (Block.hash_of_verifyIntegrity (hi key block he)).1]
  rw [hmap first hf, hmap second hs, hk, hb]

/-- The seed's preimage determines the signatures of entries that share the rest. -/
theorem entries_eq_of_flatMap_eq {xs ys : List (W × Block W)}
    (hu : xs.map unsignedEntry = ys.map unsignedEntry)
    (h : xs.flatMap (fun e => .word e.1 :: e.2.fields) =
      ys.flatMap fun e => (.word e.1 :: e.2.fields : List (Field W))) : xs = ys := by
  induction xs generalizing ys with
  | nil =>
    cases ys with
    | nil => rfl
    | cons y ys => simp at hu
  | cons x xs ih =>
    cases ys with
    | nil => simp at hu
    | cons y ys =>
      obtain ⟨xk, xh, xs', xb⟩ := x
      obtain ⟨yk, yh, ys', yb⟩ := y
      simp only [List.map_cons, List.cons.injEq, unsignedEntry, Prod.mk.injEq] at hu
      obtain ⟨⟨rfl, rfl, rfl⟩, hu⟩ := hu
      rw [List.flatMap_cons, List.flatMap_cons] at h
      obtain ⟨hx, h⟩ := List.append_inj h (by simp [Block.fields, signatureFields])
      simp only [Block.fields, List.cons_append, List.cons.injEq, true_and] at hx
      obtain ⟨hs, -⟩ := signatureFields_prefixCode _ _ _ _ hx
      rw [hs, ih hu h]

/-- The third-party Merkle root has no collisions among leaf lists of one length. -/
def MerkleInjective (W : Type) [EpochCodec W] : Prop :=
  ∀ leaves leaves' : List W, leaves.length = leaves'.length →
    EpochCodec.merkleRoot leaves = EpochCodec.merkleRoot leaves' → leaves = leaves'

theorem length_fairOrderedBlockCommitments (blocks : BTreeMap W (Block W)) :
    (fairOrderedBlockCommitments blocks).length = blocks.size := by
  simp [fairOrderedBlockCommitments, fairOrder, Std.ExtTreeMap.length_toList]

theorem mem_fairOrderedBlockCommitments {blocks : BTreeMap W (Block W)} {leaf : W} :
    leaf ∈ fairOrderedBlockCommitments blocks ↔ ∃ (key : W) (block : Block W),
      blocks[key]? = some block ∧ fairBlockOrderKey (fairBlockOrderSeed blocks)
        (fairOrderTransactionCount blocks) key block = leaf := by
  simp [fairOrderedBlockCommitments, fairOrder, Std.ExtTreeMap.mem_toList_iff_getElem?_eq_some]

/-- One leaf of the Merkle tree gives the seed away. -/
theorem fairBlockOrderSeed_eq_of_commitments_eq (hinj : HashInjective W) (hne : first.size ≠ 0)
    (h : fairOrderedBlockCommitments first = fairOrderedBlockCommitments second) :
    fairBlockOrderSeed first = fairBlockOrderSeed second := by
  have hl : 0 < (fairOrderedBlockCommitments first).length := by
    rw [length_fairOrderedBlockCommitments]
    omega
  obtain ⟨leaf, hleaf⟩ := List.exists_mem_of_length_pos hl
  obtain ⟨key, block, -, hfirst⟩ := mem_fairOrderedBlockCommitments.mp hleaf
  obtain ⟨key', block', -, hsnd⟩ := mem_fairOrderedBlockCommitments.mp (h ▸ hleaf)
  have hp := hinj (hfirst.trans hsnd.symm)
  simp only [List.cons.injEq, Field.word.injEq] at hp
  exact hp.2.1

theorem blocks_eq_of_blockMerkleRoot_eq [EpochCodec W] (hinj : HashInjective W)
    (hmerkle : MerkleInjective W)
    (hu : first.toList.map unsignedEntry = second.toList.map unsignedEntry)
    (h : blockMerkleRoot first = blockMerkleRoot second) : first = second := by
  have hsize : first.size = second.size := by
    rw [← Std.ExtTreeMap.length_toList, ← Std.ExtTreeMap.length_toList]
    simpa using congrArg List.length hu
  apply Std.ExtTreeMap.toList_inj.mp
  by_cases hz : first.size = 0
  · have hnil : first.toList = [] := by
      rw [← List.length_eq_zero_iff, Std.ExtTreeMap.length_toList, hz]
    rw [hnil, List.map_nil, eq_comm, List.map_eq_nil_iff] at hu
    rw [hnil, hu]
  have hc := hmerkle _ _ (by simp only [length_fairOrderedBlockCommitments, hsize]) h
  have hseed := hinj (fairBlockOrderSeed_eq_of_commitments_eq hinj hz hc)
  simp only [List.cons_append, List.nil_append, List.cons.injEq] at hseed
  exact entries_eq_of_flatMap_eq hu hseed.2.2.2

end FairOrder

/-- Two block sets that pass the integrity check under the same keys give the same epoch
hash exactly when each key carries the same signature in both. -/
theorem buildVerifiedEpoch_hash_eq_iff [EpochCodec W] (hinj : HashInjective W)
    (hmerkle : MerkleInjective W) (previous : Epoch W) (policy : ConsensusNodeRemovalPolicy)
    (first second : BTreeMap W (Block W)) (hk : first.keys = second.keys)
    (hf : BlocksIntact first) (hs : BlocksIntact second) :
    (buildVerifiedEpoch previous first policy).setHash.hash =
        (buildVerifiedEpoch previous second policy).setHash.hash ↔
      ∀ key : W, first[key]?.map Block.signature = second[key]?.map Block.signature := by
  have hb := blockBodies_eq_of_keys_eq (BlockBody.bodyHash_injective hinj) hf hs hk
  have hu := map_unsignedEntry_eq hf hs hk hb
  have hroot := computeHash_eq_iff_merkleRoot_eq hinj hb hk previous policy
  constructor
  · intro h key
    rw [blocks_eq_of_blockMerkleRoot_eq hinj hmerkle hu (hroot.mp h)]
  · intro h
    suffices heq : first = second by rw [heq]
    apply Std.ExtTreeMap.ext_getElem?
    intro key
    have hkey := h key
    cases hfirst : first[key]? with
    | none =>
      rw [hfirst, Option.map_none, eq_comm, Option.map_eq_none_iff] at hkey
      exact hkey.symm
    | some block =>
      rw [hfirst, Option.map_some, eq_comm, Option.map_eq_some_iff] at hkey
      obtain ⟨block', hsecond, hsig⟩ := hkey
      obtain ⟨hhash, hbody⟩ := Block.hash_of_verifyIntegrity (hf key block hfirst)
      obtain ⟨hhash', hbody'⟩ := Block.hash_of_verifyIntegrity (hs key block' hsecond)
      have hbodies := BlockBody.bodyHash_injective hinj (hbody.trans hbody'.symm)
      rw [hsecond, Option.some_inj]
      cases block
      cases block'
      simp_all

/-! ### Epochs of a few writers -/

section Writers

variable (writers : List W)

def writersGenesis : Epoch W :=
  Epoch.setHash
    { hash := default
      signatures := ∅
      body :=
        { groupId := default
          members := ⟨∅⟩
          verifiers := writers.foldl
            (fun verifiers writer => verifiers.insert writer ⟨writer, [], [], 0, false⟩) ∅
          lastEpoch := default
          previousNonce := none
          nonce := 0
          merkleRoot := default
          blocks := ∅
          consensusParameters := some (.new .default) } }

/-- A writer's empty block for the epoch after the first, signed with a salt. -/
def writerBlock (salt : List (Field W)) (writer : W) : Block W :=
  let block := Block.sealUnsigned ⟨default, default,
    { BlockBody.empty 0 with lastEpoch := (writersGenesis writers).hash, nonce := 1 }⟩ writer
  { block with signature := ⟨writer, protocolHash (salt ++ [.word block.hash])⟩ }

end Writers

/-- The free words under a randomised signature scheme: each message has two signatures
of one key. -/
def SaltedWord : Type := FreeWord

namespace SaltedWord

instance : LinearOrder SaltedWord := inferInstanceAs (LinearOrder FreeWord)

def digest (fs : List (Field SaltedWord)) : SaltedWord := FreeWord.digest fs

instance : ProtocolCrypto SaltedWord where
  default := (default : FreeWord)
  hash := digest
  verify s msg k := s.first = k ∧ (s.second = digest msg ∨ s.second = digest (.num 1 :: msg))

instance : EpochCodec SaltedWord where
  merkleRoot := hashWords
  decodeMemberOperation _ := none

theorem hash_injective : HashInjective SaltedWord := FreeWord.hash_injective

theorem merkle_injective : MerkleInjective SaltedWord :=
  fun _ _ _ h => hashWords_injective hash_injective h

def writer : SaltedWord := FreeWord.key 0

def genesis : Epoch SaltedWord := writersGenesis [writer]

def signedBlock (salt : List (Field SaltedWord)) : Block SaltedWord :=
  writerBlock [writer] salt writer

def signedBlocks (salt : List (Field SaltedWord)) : BTreeMap SaltedWord (Block SaltedWord) :=
  (∅ : BTreeMap SaltedWord (Block SaltedWord)).insert (signedBlock salt).hash (signedBlock salt)

theorem signedBlocks_intact {salt : List (Field SaltedWord)}
    (h : (signedBlock salt).verifyIntegrityWithHash (signedBlock salt).hash = .ok ()) :
    BlocksIntact (signedBlocks salt) := by
  intro key block hb
  rw [signedBlocks, lookup_insert] at hb
  split at hb
  · next hk =>
    cases hb
    rw [← hk]
    exact h
  · simp at hb

end SaltedWord

/-- A writer that signs one block twice splits the epoch hash. -/
theorem epoch_hash_depends_on_signature :
    HashInjective SaltedWord ∧
      (SaltedWord.signedBlocks []).keys = (SaltedWord.signedBlocks [.num 1]).keys ∧
      BlocksIntact (SaltedWord.signedBlocks []) ∧ BlocksIntact (SaltedWord.signedBlocks [.num 1]) ∧
      (buildVerifiedEpoch SaltedWord.genesis (SaltedWord.signedBlocks []) .disabled).setHash.hash ≠
        (buildVerifiedEpoch SaltedWord.genesis
          (SaltedWord.signedBlocks [.num 1]) .disabled).setHash.hash :=
  ⟨SaltedWord.hash_injective, by decide +kernel,
    SaltedWord.signedBlocks_intact (by decide +kernel),
    SaltedWord.signedBlocks_intact (by decide +kernel), by decide +kernel⟩

theorem buildVerifiedEpoch_hash_eq_iff_signed :
    (buildVerifiedEpoch SaltedWord.genesis (SaltedWord.signedBlocks []) .disabled).setHash.hash =
        (buildVerifiedEpoch SaltedWord.genesis (SaltedWord.signedBlocks [.num 1])
          .disabled).setHash.hash ↔
      ∀ key : SaltedWord, (SaltedWord.signedBlocks [])[key]?.map Block.signature =
        (SaltedWord.signedBlocks [.num 1])[key]?.map Block.signature :=
  buildVerifiedEpoch_hash_eq_iff SaltedWord.hash_injective SaltedWord.merkle_injective
    SaltedWord.genesis .disabled _ _ (by decide +kernel)
    (SaltedWord.signedBlocks_intact (by decide +kernel))
    (SaltedWord.signedBlocks_intact (by decide +kernel))

end Blossom
