import Blossom.LocalState

/-!
# The trusted epoch log

A trusted member keeps its epochs, its own block for the next epoch and the candidates it has
confirmed in a durable log.
-/

namespace Blossom

open CheckedSteps OrderedMap

variable {W : Type}

structure TrustedRoundId (W : Type) where
  groupId : W
  previousEpochHash : W
  previousEpochNonce : ℕ
  nonce : ℕ
  round : ℕ
  deriving DecidableEq

instance [LinearOrder W] : LinearOrder (TrustedRoundId W) :=
  LinearOrder.lift' (fun id => toLex (id.groupId, toLex (id.previousEpochHash,
    toLex (id.previousEpochNonce, toLex (id.nonce, id.round))))) fun a b h => by
    cases a
    cases b
    cases h
    rfl

instance [ProtocolCrypto W] : Std.TransOrd (TrustedRoundId W) := inferInstance

structure TrustedRoundLock (W : Type) [LinearOrder W] where
  roundId : TrustedRoundId W
  verification : Verification W
  blocks : BTreeMap W (Block W)

structure TrustedLogManifest (W : Type) where
  groupId : W
  selfPublicKey : W
  genesisHash : W
  consensusParameters : ConsensusParameters
  consensusNodeRemovalPolicy : ConsensusNodeRemovalPolicy
  deriving DecidableEq

/-- The manifest and the durable tables: epochs by nonce, the head, the local blocks by
nonce and the confirmation locks. -/
structure TrustedEpochLog (W : Type) [LinearOrder W] where
  manifest : TrustedLogManifest W
  epochs : BTreeMap ℕ (Epoch W)
  head : ℕ × W
  localBlocks : BTreeMap ℕ (Block W)
  roundLocks : BTreeMap (TrustedRoundId W) (TrustedRoundLock W)

section Log

variable [ProtocolCrypto W]

def TrustedRoundLock.candidateHash (l : TrustedRoundLock W) : W := l.verification.body.blocksHash

def TrustedRoundLock.validate (l : TrustedRoundLock W) (selfPublicKey : W) : Result Unit := do
  reject (l.verification.header.sender ≠ selfPublicKey ∨
    l.verification.header.signature ≠ default ∨
    l.verification.header.lastEpoch ≠ l.roundId.previousEpochHash ∨
    l.verification.header.nonce ≠ l.roundId.nonce ∨
    l.verification.header.round ≠ l.roundId.round ∨
    l.roundId.nonce ≠ l.roundId.previousEpochNonce + 1) (invalidConfiguration
    "trusted confirmation lock does not match its round identity")
  reject (l.verification.body.blocks ≠ keySet l.blocks ∨
    l.verification.body.blocksHash ≠ blockSetHash (keySet l.blocks)) (invalidConfiguration
    "trusted confirmation lock does not bind its exact candidate block set")
  let _ ← validateTrustedBlocks (fun _ => true) l.roundId.previousEpochHash l.roundId.nonce
    (invalidConfiguration "trusted confirmation lock contains a stale or duplicate writer block")
    l.blocks

variable [EpochCodec W]

/-- Every epoch of a chain after its first extends the one before it. -/
def validateTrustedLinks (policy : ConsensusNodeRemovalPolicy) : List (Epoch W) → Result Unit
  | previous :: epoch :: rest => do
    validateTrustedExtension previous epoch policy
    validateTrustedLinks policy (epoch :: rest)
  | _ => pure ()

def validateTrustedChain (chain : List (Epoch W)) (policy : ConsensusNodeRemovalPolicy) :
    Result Unit := do
  let genesis ← require chain.head? (.error .emptyEpochChain)
  reject (genesis.body.previousNonce.isSome ∨ genesis.hash ≠ genesis.body.computeHash)
    (invalidConfiguration "trusted epoch log has an invalid genesis")
  let version := genesis.body.effectiveConsensusParameters.version
  reject (version ≠ consensusParametersVersion)
    (invalidConfiguration s!"unsupported consensus parameters version {version}")
  validateTrustedLinks policy chain

namespace TrustedEpochLog

def loadHeadEpoch (log : TrustedEpochLog W) : Result (Epoch W) := do
  let epoch ← require (log.epochs[log.head.1]?)
    (invalidConfiguration "trusted epoch log head record is missing")
  reject (epoch.hash ≠ log.head.2 ∨ epoch.body.nonce ≠ log.head.1)
    (invalidConfiguration "trusted epoch log head metadata conflicts with its record")
  pure epoch

def seed (manifest : TrustedLogManifest W) (chain : List (Epoch W)) :
    Result (TrustedEpochLog W) := do
  let head ← require chain.getLast? (.error .emptyEpochChain)
  pure
    { manifest := manifest
      epochs := .ofList (chain.map fun epoch => (epoch.body.nonce, epoch)) compare
      head := (head.body.nonce, head.hash)
      localBlocks := ∅
      roundLocks := ∅ }

def loadChain (log : TrustedEpochLog W) : Result (List (Epoch W)) := do
  let chain := values log.epochs
  validateTrustedChain chain log.manifest.consensusNodeRemovalPolicy
  let expected ← require chain.getLast? (.error .emptyEpochChain)
  reject (log.head ≠ (expected.body.nonce, expected.hash))
    (invalidConfiguration "trusted epoch log head does not match its final record")
  pure chain

/-- Whether two round identities are for the same target. -/
def sameTarget (a b : TrustedRoundId W) : Bool :=
  decide (a.groupId = b.groupId ∧ a.previousEpochHash = b.previousEpochHash ∧
    a.previousEpochNonce = b.previousEpochNonce ∧ a.nonce = b.nonce)

section

variable (log : TrustedEpochLog W)

/-- Lock a confirmation. The locks of a target have consecutive rounds, a later candidate
has all blocks of the earlier ones, and a round has one candidate. -/
def lockRound (lock : TrustedRoundLock W) : Result (TrustedEpochLog W) := do
  lock.validate log.manifest.selfPublicKey
  let head ← log.loadHeadEpoch
  reject (lock.roundId.groupId ≠ log.manifest.groupId ∨
    lock.roundId.previousEpochNonce ≠ head.body.nonce ∨
    lock.roundId.previousEpochHash ≠ head.hash ∨ lock.roundId.nonce ≠ head.body.nonce + 1)
    (invalidConfiguration "trusted confirmation lock does not target the durable log head")
  reject (∃ block ∈ values lock.blocks, ¬head.body.verifiers.contains block.body.validator)
    (.error .unknownSender)
  let existing := values log.roundLocks
  existing.forM fun other => do
    other.validate log.manifest.selfPublicKey
    reject (sameTarget other.roundId lock.roundId = false) (invalidConfiguration
      "trusted epoch log contains confirmation locks for different targets")
  reject (0 < lock.roundId.round ∧ ¬∃ other ∈ existing,
    other.roundId.round + 1 = lock.roundId.round ∧
      ∀ hash ∈ other.verification.body.blocks.toList, hash ∈ lock.verification.body.blocks)
    (invalidConfiguration
      "trusted confirmation locks must be contiguous and preserve the prior candidate")
  reject (∃ other ∈ existing, lock.roundId.round < other.roundId.round) (invalidConfiguration
    "trusted confirmation lock cannot be inserted below a persisted later round")
  match log.roundLocks[lock.roundId]? with
  | some other => do
    reject (other.candidateHash ≠ lock.candidateHash ∨
      other.verification.body.blocks ≠ lock.verification.body.blocks) (invalidConfiguration
      "trusted node refuses to confirm two candidates for one round")
    pure log
  | none => pure { log with roundLocks := log.roundLocks.insert lock.roundId lock }

/-- Keep the member's own block for the next epoch. -/
def persistLocalBlock (block : Block W) : Result (TrustedEpochLog W) := do
  reject (block.body.validator ≠ log.manifest.selfPublicKey) (.error .unknownSender)
  block.verifyUnsignedIntegrityWithHash block.hash
  let head ← log.loadHeadEpoch
  reject (¬head.body.verifiers.contains log.manifest.selfPublicKey) (.error .unknownSender)
  reject (block.body.lastEpoch ≠ head.hash ∨ block.body.nonce ≠ head.body.nonce + 1)
    (invalidConfiguration "trusted local block does not target the durable log head")
  match log.localBlocks[block.body.nonce]? with
  | some existing => do
    reject (existing.hash ≠ block.hash) (.error .duplicateBlock)
    pure log
  | none => pure { log with localBlocks := log.localBlocks.insert block.body.nonce block }

def pendingLocalBlock : Result (Option (Block W)) := do
  let head ← log.loadHeadEpoch
  match log.localBlocks[head.body.nonce + 1]? with
  | none => pure none
  | some block => do
    reject (block.body.validator ≠ log.manifest.selfPublicKey ∨
      block.body.lastEpoch ≠ head.hash ∨ block.body.nonce ≠ head.body.nonce + 1)
      (invalidConfiguration "trusted pending local block does not target the log head")
    block.verifyUnsignedIntegrityWithHash block.hash
    pure (some block)

def roundLock (roundId : TrustedRoundId W) : Result (Option (TrustedRoundLock W)) :=
  match log.roundLocks[roundId]? with
  | none => pure none
  | some lock => do
    lock.validate log.manifest.selfPublicKey
    reject (lock.roundId ≠ roundId)
      (invalidConfiguration "trusted epoch log round-lock key conflicts with its record")
    pure (some lock)

end

def writeEpochs (epochs : BTreeMap ℕ (Epoch W)) (appended : List (Epoch W)) :
    Result (BTreeMap ℕ (Epoch W)) :=
  appended.foldlM (fun epochs epoch =>
    match epochs[epoch.body.nonce]? with
    | some existing => do
      reject (existing.hash ≠ epoch.hash) (invalidConfiguration
        "trusted epoch log contains conflicting epochs at one nonce")
      pure epochs
    | none => pure (epochs.insert epoch.body.nonce epoch)) epochs

section

variable (log : TrustedEpochLog W)

/-- The member's own block for the epoch after `head`, if the appended epochs did not
commit it. -/
def retryBlock (block : Block W) (head : Epoch W) : Block W :=
  ({ block with
    body := { block.body with
      lastEpoch := head.hash
      nonce := head.body.nonce + 1
      dispatched := 0 } } : Block W).sealUnsigned log.manifest.selfPublicKey

/-- Release the local blocks up to the new head. One that was not committed is sealed again
for the epoch after it. -/
def releaseLocalBlocks (appended : List (Epoch W)) (head : Epoch W) :
    Result (BTreeMap ℕ (Block W)) := do
  let stale := log.localBlocks.toList.filter fun entry => decide (entry.1 ≤ head.body.nonce)
  reject (1 < stale.length) (invalidConfiguration
    "trusted epoch log contains multiple stale local writer blocks")
  let remaining := stale.foldl (fun table entry => table.erase entry.1) log.localBlocks
  match stale.find? fun (nonce, block) => ¬appended.any fun epoch =>
    decide (epoch.body.nonce = nonce) && epoch.body.blocks.contains block.hash with
  | none => pure remaining
  | some (_, block) =>
    let retry := log.retryBlock block head
    match remaining[retry.body.nonce]? with
    | some existing => do
      reject (existing.hash ≠ retry.hash) (.error .duplicateBlock)
      pure remaining
    | none => pure (remaining.insert retry.body.nonce retry)

/-- One durable lock against the first appended epoch: it is for the current head, and the
epoch has all its blocks. -/
def checkReleasedLock (first : Epoch W) (lock : TrustedRoundLock W) : Result Unit :=
  reject (lock.roundId.groupId ≠ log.manifest.groupId ∨
    lock.roundId.previousEpochHash ≠ log.head.2 ∨ lock.roundId.previousEpochNonce ≠ log.head.1 ∨
    lock.roundId.nonce ≠ first.body.nonce ∨
    ∃ hash ∈ lock.verification.body.blocks.toList, ¬first.body.blocks.contains hash)
    (invalidConfiguration "trusted epoch extension conflicts with a durable confirmation lock")

def checkFinalLock (first : Epoch W) (roundId : TrustedRoundId W) : Result Unit := do
  let final ← require (log.roundLocks[roundId]?) (invalidConfiguration
    "trusted epoch append is missing its durable final-round lock")
  reject (final.verification.body.blocks ≠ keySet first.body.blocks) (invalidConfiguration
    "trusted final epoch does not match its durable final-round confirmation")

def appendValidatedEpochs (appended : List (Epoch W))
    (roundId : Option (TrustedRoundId W)) : Result (TrustedEpochLog W) := do
  let head ← require appended.getLast? (invalidConfiguration "empty trusted log append")
  let first ← require appended.head? (.panicked "non-empty trusted epoch append")
  if log.head = (head.body.nonce, head.hash) then pure log
  else do
    reject (first.body.lastEpoch ≠ log.head.2 ∨ first.body.previousNonce ≠ some log.head.1)
      (invalidConfiguration "trusted epoch append raced with a different stable-prefix extension")
    let epochs ← writeEpochs log.epochs appended
    let localBlocks ← log.releaseLocalBlocks appended head
    (values log.roundLocks).forM (·.validate log.manifest.selfPublicKey)
    (values log.roundLocks).forM (log.checkReleasedLock first)
    roundId.forM (log.checkFinalLock first)
    pure { log with
      epochs := epochs
      head := (head.body.nonce, head.hash)
      localBlocks := localBlocks
      roundLocks := ∅ }

def appendEpoch (epoch : Epoch W) (roundId : Option (TrustedRoundId W)) :
    Result (TrustedEpochLog W) := do
  let previous ← log.loadHeadEpoch
  validateTrustedExtension previous epoch log.manifest.consensusNodeRemovalPolicy
  log.appendValidatedEpochs [epoch] roundId

def appendSuffix (epochs : List (Epoch W)) : Result (TrustedEpochLog W) :=
  if epochs = [] then pure log
  else do
    let head ← log.loadHeadEpoch
    validateTrustedLinks log.manifest.consensusNodeRemovalPolicy (head :: epochs)
    log.appendValidatedEpochs epochs none

end

end TrustedEpochLog

end Log

end Blossom
