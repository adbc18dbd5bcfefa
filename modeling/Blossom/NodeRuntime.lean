import Blossom.OrderedStore
import Blossom.TrustedLog

/-!
# The node runtime

A runtime has the local consensus state, the queue of its own blocks, the messages it keeps for a
later round and, in the trusted protocol, the durable log.
-/

namespace Blossom

open CheckedSteps OrderedMap MajorityQuorum StatefulSteps

variable {W : Type}

inductive RuntimeMode where
  | consensus | overlay
  deriving DecidableEq

def TrustMode.isTrusted (m : TrustMode) : Bool := decide (m = .trusted)

structure Signer (W : Type) where
  publicKey : W
  sign : W → Signature W

structure RuntimeConfig (W : Type) where
  groupId : W
  trustMode : TrustMode
  mode : RuntimeMode
  signer : Option (Signer W)
  blockService : Option W
  limits : RawDispatchLimits

/-- The open block that transactions are added to, the queue of a node's own blocks, and what its
next empty block carries. -/
structure LocalBlock (W : Type) where
  buildBlock : Block W
  blockDeque : List (Block W)
  blockCap : ℕ
  applicationState : List UInt8
  encounterRecords : List (EncounterRecord W)
  nodeAdmissions : List (NodeAdmission W)

structure NodeRuntime (W : Type) [LinearOrder W] where
  state : LocalState W
  localBlocks : LocalBlock W
  acceptedLocalBlocks : BTreeMap ℕ W
  futureRoundMessages : List (Msg W)
  epochStartedHints : BTreeMap W (EpochNonce W)
  trustedEpochLog : Option (TrustedEpochLog W)

namespace LocalBlock

/-- An empty queue. The creation time of the open block is not modelled. -/
def new [ProtocolCrypto W] (blockCap : ℕ) : LocalBlock W :=
  ⟨⟨default, default, BlockBody.empty 0⟩, [], blockCap, [], [], []⟩

def ensureEnqueueable (q : LocalBlock W) (block : Block W) : Result Unit := do
  reject (∃ queued ∈ q.blockDeque, queued.body.nonce = block.body.nonce) (.error .duplicateBlock)
  reject (q.blockCap ≤ q.blockDeque.length) (.error .blockQueueFull)

def enqueuePreverifiedBlock (q : LocalBlock W) (block : Block W) : Result (LocalBlock W) := do
  q.ensureEnqueueable block
  pure { q with blockDeque := q.blockDeque ++ [block] }

def reconcileDurablePendingBlock (q : LocalBlock W) (block : Option (Block W)) :
    Result (LocalBlock W) :=
  match block with
  | none => pure { q with blockDeque := [] }
  | some block => ({ q with blockDeque := [] } : LocalBlock W).enqueuePreverifiedBlock block

/-- The queue without the blocks before a nonce; the next block has to be for the target
and, if there is a block service, by it. -/
def dequeueBlock [DecidableEq W] (q : LocalBlock W) (validator : Option W)
    (target : EpochNonce W) : Result (Option (Block W)) × LocalBlock W :=
  match q.blockDeque.dropWhile fun block => decide (block.body.nonce < target.nonce) with
  | [] => (pure none, { q with blockDeque := [] })
  | block :: rest =>
    let stale : LocalBlock W := { q with blockDeque := block :: rest }
    if target.nonce < block.body.nonce then
      (.error (.error (.invalidBlockNonce target.nonce block.body.nonce)), stale)
    else if block.body.lastEpoch ≠ target.lastEpoch then
      (.error (.error .invalidBlockLastEpoch), stale)
    else if validator.any fun validator => decide (block.body.validator ≠ validator) then
      (.error (.error .unknownSender), stale)
    else (pure (some block), { q with blockDeque := rest })

end LocalBlock

/-- The header, kind and signed body of a message; two kinds of answers have none. -/
def Msg.signed [ProtocolCrypto W] : Msg W → Option (Header W × MsgKey × List (Field W))
  | .dispatch m => some (m.header, .dispatch, m.body.fields)
  | .echoResponse m => some (m.header, .echoResponse, m.body.fields)
  | .verification m => some (m.header, .verification, m.body.fields)
  | .proposal m => some (m.header, .proposal, m.body.fields)
  | .commit m => some (m.header, .commit, m.body.fields)
  | .epochStarted m => some (m.header, .epochStarted, [.num 0])
  | .echoRequest m => some (m.header, .echoRequest, hashSetFields m.requestedBlocks)
  | .echoReDispatch m => some (m.header, .echoReDispatch, m.fields)
  | .roundSkipVote m => some (m.header, .roundSkipVote, m.fields)
  | .roundSkipCertificate m => some (m.header, .roundSkipCertificate, m.fields)
  | .reconcileAppraisal m => some (m.header, .reconcileAppraisal, m.fields)
  | .reconcileRequest m => some (m.header, .reconcileRequest, m.fields)
  | .reconcileResponse m => some (m.header, .reconcileResponse, m.fields)
  | .reconcileCommit m => some (m.header, .reconcileCommit, m.fields)
  | .trustedAcknowledgement m => some (m.header, .trustedAcknowledgement, m.body.fields)
  | .ok => none
  | .fail => none

namespace NodeRuntime

abbrev Operation (W : Type) [LinearOrder W] (α : Type) := Action (NodeRuntime W) Failure α

abbrev StateOperation (W : Type) [LinearOrder W] (α : Type) := Action (LocalState W) Failure α

section Parts

variable [LinearOrder W]

def onState {α : Type} (m : StateOperation W α) : Operation W α := fun rt =>
  match m rt.state with
  | .ok a s => .ok a { rt with state := s }
  | .error e s => .error e { rt with state := s }

def ensureConsensusMode (c : RuntimeConfig W) (action : String) : Result Unit :=
  reject (c.mode = .overlay) (wireProtocol s!"{action} requires consensus runtime mode")

def nextEpochTarget (c : RuntimeConfig W) : StateOperation W (EpochNonce W) := do
  check (ensureConsensusMode c "select next epoch target")
  reading fun s => do
    let epoch ← require s.head? (.error .emptyEpochChain)
    pure epoch.target

/-- Errors that name an epoch or a group are kept without their words. -/
def ensureCurrentHeaderTarget (header : Header W) : StateOperation W Unit :=
  reading fun s => do
    let latest ← require s.head? (.error .emptyEpochChain)
    reject (∀ epoch ∈ s.epochchain, epoch.hash ≠ header.lastEpoch)
      (wireProtocol "unknown consensus epoch")
    reject (header.target ≠ latest.target) (wireProtocol "stale consensus target")

end Parts

section Checks

variable [ProtocolCrypto W]

section

variable (c : RuntimeConfig W)

def verifyMessageSignature (header : Header W) (kind : MsgKey)
    (body : List (Field W)) : StateOperation W Unit := do
  ensureCurrentHeaderTarget header
  check (if c.trustMode.isTrusted then pure () else header.verifySignature kind body)

def verifyBlock (hash : W) (block : Block W) : Result Unit :=
  if c.trustMode.isTrusted then block.verifyUnsignedIntegrityWithHash hash
  else block.verifyIntegrityWithHash hash

def verifyDispatchPayload (header : Header W) (body : DispatchBody W) : Result Unit := do
  body.validate
  body.blocks.toList.forM fun (hash, block) => do
    reject (block.body.lastEpoch ≠ header.lastEpoch) (.error .invalidBlockLastEpoch)
    reject (block.body.nonce ≠ header.nonce)
      (.error (.invalidBlockNonce header.nonce block.body.nonce))
    verifyBlock c hash block
  reject (c.trustMode.isTrusted = false ∧ signatureTreeVerify body.signatureTree = false)
    (wireProtocol "dispatch signature tree failed verification")

def verifyRedispatchedBlocks (blocks : BTreeMap W (Block W)) : Result Unit :=
  blocks.toList.forM fun (hash, block) => verifyBlock c hash block

/-- One entry of a verification proof: a member of the quorum that signed the verification. -/
def acceptVerifier (header : Header W) (body : VerificationBody W)
    (quorum : TempQuorum W) (distinct : BTreeSet W) (entry : W × Signature W) :
    Result (BTreeSet W) := do
  reject (entry.1 ∉ quorum.quorumNodes) (.error .unknownSender)
  if distinct.contains entry.1 ∨ c.trustMode.isTrusted then pure (distinct.insert entry.1)
  else do
    checkSignature entry.2 [.word (signatureHashForBody entry.1 header.lastEpoch header.nonce
      header.round .verification body.fields)] entry.1
    pure (distinct.insert entry.1)

def verifyProposalEvidence (header : Header W) (body : ProposalBody W)
    (quorum : TempQuorum W) : Result Unit :=
  if body.consensus = false then pure ()
  else do
    let approvedBlocks ← require body.approvedBlocks
      (wireProtocol "consensus proposal must include approved blocks")
    let approvedHash ← require body.approvedHash
      (wireProtocol "consensus proposal must include approved hash")
    reject (blockSetHash approvedBlocks ≠ approvedHash)
      (wireProtocol "consensus proposal approved-block hash mismatch")
    let proof ← require body.verif
      (wireProtocol "consensus proposal must include verification proof")
    let distinct ← proof.foldlM (acceptVerifier c header ⟨approvedHash, approvedBlocks⟩ quorum) ∅
    let count := distinct.size
    let needed := quorum.proposals.supermajority
    reject (count < needed) (wireProtocol ("consensus proposal verification proof has " ++
      s!"{count} distinct verifier signatures, need {needed}"))

def verifyProposalProof (header : Header W) (body : ProposalBody W)
    (quorum : TempQuorum W) : Result Unit := do
  verifyProposalEvidence c header body quorum
  reject (body.consensus = true ∧ (body.approvedBlocks ≠ some quorum.verifiedBlockSet ∨
    body.approvedHash ≠ quorum.verifiedBlocksHash))
    (wireProtocol "proposal references block set that has not been locally verified")

def signBody (selfKey : W) (target : EpochNonce W) (round : ℕ)
    (kind : MsgKey) (body : List (Field W)) : Result (Signature W) :=
  if c.trustMode.isTrusted then pure default
  else do
    let signer ← require c.signer (.error .missingSecretKey)
    pure (signer.sign
      (signatureHashForBody selfKey target.lastEpoch target.nonce round kind body))

def signedHeaderForBody (selfKey : W) (target : EpochNonce W) (round : ℕ)
    (kind : MsgKey) (body : List (Field W)) : Result (Header W) := do
  let signature ← signBody c selfKey target round kind body
  pure ⟨selfKey, target.lastEpoch, target.nonce, round, signature⟩

def emptyBlock (selfKey : W) (target : EpochNonce W) (created : ℕ)
    (localBlocks : LocalBlock W) : Result (Block W) :=
  let block : Block W := ⟨default, default, { BlockBody.empty created with
    lastEpoch := target.lastEpoch
    nonce := target.nonce
    applicationState := localBlocks.applicationState
    encounterRecords := localBlocks.encounterRecords
    nodeAdmissions := localBlocks.nodeAdmissions }⟩
  if c.trustMode.isTrusted then pure (block.sealUnsigned selfKey)
  else do
    let signer ← require c.signer (.error .missingSecretKey)
    let block := block.sealUnsigned signer.publicKey
    pure { block with signature := signer.sign block.hash }

end

variable [ShuffleSeed W]

/-- Whether a commit's sender may vote in its round, and how many true votes the round
needs: the last round asks all verifiers, an earlier one its quorum. -/
def commitSenderAndThreshold (header : Header W) : StateOperation W (Bool × ℕ) := do
  let s ← get
  let previous ← check (require s.head? (.error .emptyEpochChain))
  check (reject (previous.target ≠ header.target) (.error .invalidEpochNonce))
  LocalState.withConsensus header.target do
    let consensus ← get
    if consensus.peers.length = header.round + 1 then
      pure (previous.body.verifiers.contains header.sender,
        supermajorityCount previous.body.verifiers.size)
    else
      let roundPeers := consensus.peersWithUs header.round
      pure (roundPeers.contains header.sender, supermajorityCount roundPeers.length)

variable [EpochCodec W]

/-- A true commit of the last round carries a share for the epoch that the current blocks
make; no other commit carries one. -/
def validateCommitEpochShare (s : LocalState W) (message : Commit W) : Result Unit :=
  if message.body.consensus = false then
    reject (message.body.epochHash.isSome ∨ message.body.epochSignature.isSome)
      (wireProtocol "false commit cannot carry an epoch certificate share")
  else do
    match ← s.prepareVerifiedEpoch message.header.target message.header.round with
    | none =>
      reject (message.body.epochHash.isSome ∨ message.body.epochSignature.isSome)
        (wireProtocol "non-final commit cannot carry an epoch certificate share")
    | some epoch =>
      reject (message.body.epochHash ≠ some epoch.hash) (.error .invalidBlockHash)
      let signature ← require message.body.epochSignature (.error .failedConsensus)
      checkSignature signature [.word epoch.hash] message.header.sender

def advanceIfCommitted (target : EpochNonce W) (round : ℕ) : StateOperation W Unit := do
  let quorum ← LocalState.withQuorum target round get
  if quorum.commitSent then
    let _ ← LocalState.advanceEpoch target round
    pure ()
  else pure ()

end Checks

end NodeRuntime

end Blossom
