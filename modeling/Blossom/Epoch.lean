import Blossom.Membership

/-!
# Epochs

An epoch commits its members, its verifiers and its blocks. The block set enters the
epoch hash through its keys and through a Merkle root over the fair block order, whose
seed is computed over the complete blocks.
-/

namespace Blossom

open CheckedSteps OrderedMap MajorityQuorum

variable {W : Type}

def consensusParametersVersion : ℕ := 1

/-- The branching factor of the quorum overlay. -/
structure QuorumSize where
  get : ℕ
  valid : 3 ≤ get ∧ get % 3 = 0
  deriving DecidableEq

def QuorumSize.default : QuorumSize := ⟨6, by decide⟩

def QuorumSize.least : QuorumSize := ⟨3, by decide⟩

structure ConsensusParameters where
  version : ℕ
  quorumSize : QuorumSize
  deriving DecidableEq

def ConsensusParameters.new (quorumSize : QuorumSize) : ConsensusParameters :=
  ⟨consensusParametersVersion, quorumSize⟩

structure EpochBody (W : Type) [LinearOrder W] where
  groupId : W
  members : MemberSet W
  verifiers : Verifiers W
  lastEpoch : W
  previousNonce : Option ℕ
  nonce : ℕ
  merkleRoot : W
  blocks : BTreeMap W (Block W)
  consensusParameters : Option ConsensusParameters
  deriving DecidableEq

structure Epoch (W : Type) [LinearOrder W] where
  hash : W
  signatures : BTreeMap ℕ (Signature W)
  body : EpochBody W
  deriving DecidableEq

def MemberStatus.byte : MemberStatus → ℕ
  | .active => 0
  | .suspended => 1
  | .revoked => 2

def MemberRecord.fields (r : MemberRecord W) : List (Field W) :=
  [Field.word r.identity.publicKey] ++ strFields r.identity.protocol ++ strFields r.identity.host ++
    [Field.num r.identity.port, .num r.identity.shuffle.toNat] ++
    listFields (fun c => [.num c.rank]) r.capabilities.toList ++
    [Field.num r.generation, .num r.status.byte]

def EpochBody.effectiveConsensusParameters [LinearOrder W] (b : EpochBody W) :
    ConsensusParameters :=
  b.consensusParameters.getD (.new .default)

def MemberSet.fields [LinearOrder W] (m : MemberSet W) : List (Field W) :=
  listFields (fun entry => .word entry.1 :: entry.2.fields) m.records.toList

def EpochBody.fields [LinearOrder W] (b : EpochBody W) : List (Field W) :=
  [Field.word b.groupId, .tag .epochMembers] ++ b.members.fields ++ [Field.word b.lastEpoch] ++
    (match b.previousNonce with
      | some previousNonce => [Field.tag .epochPreviousNonce, .num previousNonce]
      | none => []) ++
    [Field.num b.nonce, .word b.merkleRoot] ++ b.verifiers.keys.map .word ++
    b.blocks.keys.map .word ++
    (match b.consensusParameters with
      | some parameters => [Field.tag .epochConsensusParameters, .num parameters.version,
          .num parameters.quorumSize.get]
      | none => [])

section Crypto

variable [ProtocolCrypto W]

def EpochBody.computeHash (b : EpochBody W) : W := protocolHash b.fields

def Epoch.setHash (e : Epoch W) : Epoch W := { e with hash := e.body.computeHash }

/-- The loop of `Epoch::verify_certificate` over one indexed share. -/
def Epoch.verifyShare (e : Epoch W) (verifiers : Verifiers W) (share : ℕ × Signature W) :
    Result Unit := do
  let publicKey ← require verifiers.keys[share.1]? (.error .unknownSender)
  checkSignature share.2 [.word e.hash] publicKey

def Epoch.verifyCertificate (e previous : Epoch W) : Result Unit := do
  let validatorCount := previous.body.verifiers.size
  reject (validatorCount = 0 ∨ e.signatures.size < supermajorityCount validatorCount)
    (.error .failedConsensus)
  e.signatures.toList.forM (e.verifyShare previous.body.verifiers)

/-- `Epoch::epoch_approved`: a supermajority of the epoch's own verifiers has signed its hash. -/
def Epoch.epochApproved (e : Epoch W) : Result Unit := do
  let verifierCount := e.body.verifiers.size
  reject (verifierCount = 0 ∨ e.signatures.size < supermajorityCount verifierCount)
    (.error .failedConsensus)
  e.signatures.toList.forM (e.verifyShare e.body.verifiers)

section

variable (blocks : BTreeMap W (Block W))

def fairOrderTransactionCount : ℕ :=
  ((values blocks).map fun block => block.body.txs.length).sum

/-- The seed hashes every block with its key in key order. The source puts in front of
each byte its index modulo the transaction count; those indices are determined by the
count and the position, which the preimage has. -/
def fairBlockOrderSeed (blocks : BTreeMap W (Block W)) : W :=
  protocolHash ([Field.tag .fairBlockOrderSeed, .num (fairOrderTransactionCount blocks),
    .num blocks.size] ++ blocks.toList.flatMap fun (blockHash, block) =>
      .word blockHash :: block.fields)

def fairBlockOrderKey (seed : W) (transactionCount : ℕ) (blockHash : W) (block : Block W) : W :=
  protocolHash [.tag .fairBlockOrderKey, .word seed, .num transactionCount, .word blockHash,
    .word block.hash, .word block.body.validator, .num block.body.txs.length]

def fairOrder : List (W × W × Block W) :=
  let seed := fairBlockOrderSeed blocks
  let transactionCount := fairOrderTransactionCount blocks
  (blocks.toList.map fun (blockHash, block) =>
    (fairBlockOrderKey seed transactionCount blockHash block, blockHash, block)).insertionSort
    fun a b => a.1 < b.1 ∨ a.1 = b.1 ∧ a.2.1 ≤ b.2.1

def fairOrderedBlocks : List (W × Block W) :=
  (fairOrder blocks).map Prod.snd

def fairOrderedBlockCommitments : List W :=
  (fairOrder blocks).map Prod.fst

end

variable [EpochCodec W]

def blockMerkleRoot (blocks : BTreeMap W (Block W)) : W :=
  EpochCodec.merkleRoot (fairOrderedBlockCommitments blocks)

def buildVerifiedEpoch (previous : Epoch W) (blocks : BTreeMap W (Block W))
    (removalPolicy : ConsensusNodeRemovalPolicy) : Epoch W :=
  let nonce := previous.body.nonce + 1
  let legacyVerifiers := applyEpochMembershipTransition previous.body.verifiers blocks
    previous.hash nonce removalPolicy
  let registry := applyEpochMemberRegistryTransition previous.body.members legacyVerifiers blocks
    previous.body.groupId previous.hash
  { hash := default
    signatures := ∅
    body :=
      { groupId := previous.body.groupId
        members := registry.1
        verifiers := registry.2
        lastEpoch := previous.hash
        previousNonce := some previous.body.nonce
        nonce := nonce
        merkleRoot := blockMerkleRoot blocks
        blocks := blocks
        consensusParameters := some previous.body.effectiveConsensusParameters } }

def validateCertifiedBlock (previous : Epoch W) (nonce : ℕ) (entry : W × Block W) :
    Result Unit := do
  reject (entry.2.body.lastEpoch ≠ previous.hash ∨ entry.2.body.nonce ≠ nonce ∨
    ¬previous.body.verifiers.contains entry.2.body.validator) (.error .unknownSender)
  entry.2.verifyIntegrityWithHash entry.1

/-- `validate_certified_extension`, with the hash of a body as a parameter. -/
def validateCertifiedExtensionBy (computeHash : EpochBody W → Result W) (previous epoch : Epoch W)
    (removalPolicy : ConsensusNodeRemovalPolicy) : Result Unit := do
  reject (epoch.body.groupId ≠ previous.body.groupId ∨ epoch.body.lastEpoch ≠ previous.hash ∨
    epoch.body.previousNonce ≠ some previous.body.nonce ∨
    epoch.body.nonce ≠ previous.body.nonce + 1 ∨
    epoch.body.effectiveConsensusParameters ≠ previous.body.effectiveConsensusParameters)
    (.error .invalidEpochNonce)
  epoch.body.blocks.toList.forM (validateCertifiedBlock previous epoch.body.nonce)
  reject (epoch.body.merkleRoot ≠ blockMerkleRoot epoch.body.blocks) (.error .invalidBlockHash)
  let expected := buildVerifiedEpoch previous epoch.body.blocks removalPolicy
  reject (epoch.body.members ≠ expected.body.members ∨
    epoch.body.verifiers ≠ expected.body.verifiers)
    (wireProtocol "certified epoch membership transition mismatch")
  let hash ← computeHash epoch.body
  reject (epoch.hash ≠ hash) (.error .invalidBlockHash)
  epoch.verifyCertificate previous

def validateCertifiedExtension (previous epoch : Epoch W)
    (removalPolicy : ConsensusNodeRemovalPolicy) : Result Unit :=
  validateCertifiedExtensionBy (fun body => pure body.computeHash) previous epoch removalPolicy

theorem applyEpochMemberRegistryTransition_snd (previous : MemberSet W) (legacy : Verifiers W)
    (blocks : BTreeMap W (Block W)) (groupId parentEpochHash : W) :
    (applyEpochMemberRegistryTransition previous legacy blocks groupId parentEpochHash).2 =
      (applyEpochMemberRegistryTransition previous legacy blocks groupId
        parentEpochHash).1.activeValidators := by
  unfold applyEpochMemberRegistryTransition
  dsimp only
  split <;> rfl

/-- An extension is linked to its predecessor, and its verifiers are the active validators among
its members. -/
theorem validateCertifiedExtensionBy_spec {computeHash : EpochBody W → Result W}
    {previous epoch : Epoch W} {policy : ConsensusNodeRemovalPolicy}
    (h : validateCertifiedExtensionBy computeHash previous epoch policy = .ok ()) :
    (epoch.body.groupId = previous.body.groupId ∧ epoch.body.lastEpoch = previous.hash ∧
      epoch.body.previousNonce = some previous.body.nonce ∧
      epoch.body.nonce = previous.body.nonce + 1 ∧
      epoch.body.effectiveConsensusParameters = previous.body.effectiveConsensusParameters) ∧
    computeHash epoch.body = .ok epoch.hash ∧
    epoch.body.verifiers = epoch.body.members.activeValidators := by
  simp only [validateCertifiedExtensionBy, ↓guard_bind_eq_ok, bind_eq_ok, reject_eq_ok, not_or,
    not_not] at h
  obtain ⟨-, hlinks, -, -, ⟨hmembers, hverifiers⟩, hash, hhash, rfl, -⟩ := h
  refine ⟨hlinks, hhash, ?_⟩
  rw [hverifiers, hmembers]
  exact applyEpochMemberRegistryTransition_snd ..

theorem validateCertifiedExtension_spec {previous epoch : Epoch W}
    {policy : ConsensusNodeRemovalPolicy}
    (h : validateCertifiedExtension previous epoch policy = .ok ()) :
    (epoch.body.groupId = previous.body.groupId ∧ epoch.body.lastEpoch = previous.hash ∧
      epoch.body.previousNonce = some previous.body.nonce ∧
      epoch.body.nonce = previous.body.nonce + 1 ∧
      epoch.body.effectiveConsensusParameters = previous.body.effectiveConsensusParameters) ∧
    epoch.hash = epoch.body.computeHash := by
  obtain ⟨hlinks, hhash, -⟩ := validateCertifiedExtensionBy_spec h
  exact ⟨hlinks, (pure_eq_ok.mp hhash).symm⟩

end Crypto

end Blossom
