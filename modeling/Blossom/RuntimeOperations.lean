import Blossom.RuntimeProduction

/-!
# Trusted rounds, recovery and the operations of a runtime

A trusted member acknowledges the blocks it has, locks the candidate that a supermajority
acknowledged in its durable log, confirms it, and completes the round when a supermajority confirmed
the same candidate.
-/

namespace Blossom.NodeRuntime

open CheckedSteps OrderedMap MajorityQuorum StatefulSteps LocalState

variable {W : Type} [ProtocolCrypto W] [ShuffleSeed W] [EpochCodec W]

section Trusted

section

variable (c : RuntimeConfig W) (round : ℕ)

def tryProduceTrustedAcknowledgement : StateOperation W (Option (TrustedAcknowledgement W)) := do
  check (ensureConsensusMode c "produce trusted acknowledgement")
  check (reject (c.trustMode.isTrusted = false)
    (invalidConfiguration "trusted acknowledgements are unavailable in verified mode"))
  let target ← nextEpochTarget c
  let s ← get
  seedPrefillDispatchesIntoQuorum target round
  let q ← withQuorum target round get
  if q.hasTrustedDispatchQuorum = false then pure none
  else
    let q ← withQuorum target round do
      modify (·.verifyTrusted)
      TempQuorum.activatePendingTrustedMessages
      get
    let body := VerificationBody.of q.verifiedBlockSet
    if q.lastTrustedAcknowledgementHash = some body.blocksHash ∧
      q.trustedAcknowledgementRetry ≠ some body.blocksHash then pure none
    else
      let header ← check (signedHeaderForBody c s.selfNode.publicKey target round
        .trustedAcknowledgement body.fields)
      withQuorum target round do
        let q ← get
        if q.lastTrustedAcknowledgementHash = some body.blocksHash then
          set { q with trustedAcknowledgementRetry := none }
        else
          let count ← check (TrustedAcknowledgementCount.record q.trustedAcknowledgements
            ⟨header, body⟩)
          set { q with
            trustedAcknowledgements := count
            lastTrustedAcknowledgementHash := some body.blocksHash
            trustedAcknowledgementRetry := none }
      pure (some ⟨header, body⟩)

def trustedCandidate (target : EpochNonce W) (round : ℕ) (lock : Option (TrustedRoundLock W)) :
    StateOperation W (Option (VerificationBody W × BTreeMap W (Block W))) :=
  withQuorum target round do
    match lock with
    | some lock =>
      modify (·.recordVerifiedDispatchBlocks lock.blocks)
      pure (some (lock.verification.body, lock.blocks))
    | none =>
      TempQuorum.activatePendingTrustedMessages
      let q ← get
      match TrustedAcknowledgementCount.consensusBody q.trustedAcknowledgements with
      | none => pure none
      | some body =>
        let blocks ← check (require (q.trustedCandidateBlocks body) (invalidConfiguration
          "trusted acknowledgement quorum references unavailable blocks"))
        pure (some (body, blocks))

def lockConfirmation (lock : TrustedRoundLock W) : Operation W Unit := do
  let rt ← get
  match rt.trustedEpochLog with
  | none => pure ()
  | some log =>
    let log ← check (log.lockRound lock)
    set { rt with trustedEpochLog := some log }

def confirmLocally (message : Verification W) : Action (TempQuorum W) Failure Unit := do
  let q ← get
  check (reject ((q.trustedCandidateBlocks message.body).isNone)
    (wireProtocol "trusted confirmation references unavailable local blocks"))
  let count ← check (TrustedConfirmationCount.record q.trustedConfirmations message)
  set { q with trustedConfirmations := count, verificationSent := true }

def persistedLock (rt : NodeRuntime W) (roundId : TrustedRoundId W) :
    Result (Option (TrustedRoundLock W)) :=
  match rt.trustedEpochLog with
  | none => pure none
  | some log => log.roundLock roundId

def tryProduceTrustedConfirmation (target : EpochNonce W) :
    Operation W (Option (Verification W)) := do
  let rt ← get
  let selfKey := rt.state.selfNode.publicKey
  let q ← onState (withQuorum target round get)
  match q.trustedConfirmationRetry with
  | some retryHash =>
    let own := (q.trustedConfirmations.tally.votes[selfKey]?).filter fun confirmation =>
      decide (confirmation.body.blocksHash = retryHash)
    let confirmation ← check (require own (invalidConfiguration
      "trusted confirmation retry is missing its immutable message"))
    onState (withQuorum target round (modify fun q => { q with trustedConfirmationRetry := none }))
    pure (some confirmation)
  | none =>
    let previous ← onState (reading fun s => require s.head? (.error .emptyEpochChain))
    let roundId : TrustedRoundId W :=
      ⟨c.groupId, target.lastEpoch, previous.body.nonce, target.nonce, round⟩
    let lock ← check (persistedLock rt roundId)
    onState (seedPrefillDispatchesIntoQuorum target round)
    let q ← onState (withQuorum target round get)
    if q.verificationSent then pure none
    else
      let candidate ← onState (trustedCandidate target round lock)
      match candidate with
      | none => pure none
      | some (body, blocks) =>
        let header ← check (signedHeaderForBody c selfKey target round .verification body.fields)
        lockConfirmation ⟨roundId, ⟨header, body⟩, blocks⟩
        onState (withQuorum target round (confirmLocally ⟨header, body⟩))
        pure (some ⟨header, body⟩)

def tryProduceVerification : Operation W (Option (Verification W)) := do
  check (ensureConsensusMode c "produce verification")
  let target ← onState (nextEpochTarget c)
  if c.trustMode.isTrusted then tryProduceTrustedConfirmation c round target
  else onState (tryProduceVerifiedVerification c round target)

/-- The candidate that a supermajority and the node itself have confirmed with a given
hash, once the own confirmation has been sent. -/
def confirmedBlocks (s : LocalState W) (q : TempQuorum W) (expectedBlocksHash : W) :
    Option (BTreeSet W) := do
  let own ← q.trustedConfirmations.tally.votes[s.selfNode.publicKey]?
  if q.verificationSent = true ∧ own.body.blocksHash = expectedBlocksHash ∧
      q.trustedConfirmations.consensusHash = some expectedBlocksHash then
    some own.body.blocks
  else none

/-- Append a finalised epoch to the durable log, if there is one, and take over the own
block it keeps for the next epoch. -/
def appendDurableEpoch (epoch : Epoch W) (roundId : TrustedRoundId W) : Operation W Unit := do
  let rt ← get
  match rt.trustedEpochLog with
  | none => pure ()
  | some log =>
    let log ← check (log.appendEpoch epoch (some roundId))
    set { rt with trustedEpochLog := some log }
    let pending ← check log.pendingLocalBlock
    let queue ← check (rt.localBlocks.reconcileDurablePendingBlock pending)
    set { rt with trustedEpochLog := some log, localBlocks := queue }

def completeTrustedVerification (expectedBlocksHash : W) : Operation W Bool := do
  check (ensureConsensusMode c "complete trusted verification")
  check (reject (c.trustMode.isTrusted = false)
    (invalidConfiguration "trusted verification completion requires trusted mode"))
  let target ← onState (nextEpochTarget c)
  let rt ← get
  let consensus ← check (require (rt.state.getConsensus target) (.error .failedConsensus))
  let q ← check (require (rt.state.getQuorum target round) (.error .failedConsensus))
  match confirmedBlocks rt.state q expectedBlocksHash with
  | none => pure false
  | some confirmed =>
    let previous ← check (require rt.state.head? (.error .emptyEpochChain))
    if round + 1 < consensus.peers.length then
      onState (advanceTrustedRound target round confirmed)
    else
      let epoch ← check (rt.state.prepareTrustedEpoch target round confirmed)
      appendDurableEpoch epoch
        ⟨c.groupId, target.lastEpoch, previous.body.nonce, target.nonce, round⟩
      if previous.hash = epoch.hash then pure false
      else
        onState (installTrustedEpoch epoch)
        pure true

def tryCompleteTrustedVerification : Operation W Bool := do
  if c.trustMode.isTrusted = false then pure false
  else
    let target ← onState (nextEpochTarget c)
    let rt ← get
    match (rt.state.getQuorum target round).bind fun q =>
      q.trustedConfirmations.tally.votes[rt.state.selfNode.publicKey]? with
    | none => pure false
    | some own => completeTrustedVerification c round own.body.blocksHash

end

end Trusted

section Receive

def receiveVerification (c : RuntimeConfig W) (message : Verification W) : Operation W String := do
  if c.trustMode.isTrusted then
    onState (receiveTrustedConfirmation c message)
    let _ ← tryCompleteTrustedVerification c message.header.round
    pure "verification"
  else onState (receiveVerifiedVerification c message)

/-- Buffered messages are kept in the order in which they came. -/
def bufferFutureRoundMessageIfNeeded (message : Msg W) : Operation W Bool := do
  let future ← onState (isFutureRoundMessage message)
  if future then modify fun rt =>
    { rt with futureRoundMessages := rt.futureRoundMessages ++ [message] }
  else pure ()
  pure future

def applyMessage (c : RuntimeConfig W) : Msg W → Operation W String
  | .dispatch m => onState (receiveDispatch c m)
  | .echoResponse m => onState (receiveEchoResponse c m)
  | .verification m => receiveVerification c m
  | .proposal m => onState (receiveProposal c m)
  | .commit m => onState (receiveCommit c m)
  | .epochStarted m => receiveEpochStarted c m
  | .echoRequest m => onState (receiveEchoRequest c m)
  | .echoReDispatch m => onState (receiveEchoRedispatch c m)
  | .roundSkipVote m => onState (receiveRoundSkipVote c m)
  | .roundSkipCertificate m => onState (receiveRoundSkipCertificate c m)
  | .reconcileAppraisal m => onState (receiveReconcileAppraisal c m)
  | .reconcileRequest m => onState (receiveReconcileRequest c m)
  | .reconcileResponse m => onState (receiveReconcileResponse c m)
  | .reconcileCommit m => onState (receiveReconcileCommit c m)
  | .trustedAcknowledgement m => onState (receiveTrustedAcknowledgement c m)
  | .ok => pure "ok"
  | .fail => pure "fail"

def receiveMessage (c : RuntimeConfig W) (message : Msg W) : Operation W String := do
  check (ensureConsensusMode c "receive consensus message")
  onState (verifyMessageEnvelope c message)
  let buffered ← bufferFutureRoundMessageIfNeeded message
  if buffered then pure "future_round_buffered" else applyMessage c message

def isReached (target : EpochNonce W) (round : ℕ) (message : Msg W) : Bool :=
  (message.signed.map fun (header, _) =>
    decide (header.target = target ∧ header.round ≤ round)).getD false

def bodyHash : Msg W → W
  | .dispatch m => m.body.blocksHash
  | .echoResponse m => m.body.blocksHash
  | .verification m => m.body.blocksHash
  | .proposal m => m.body.approvedHash.getD default
  | .commit m => m.body.epochHash.getD
      ((m.body.signatureTreeInsert.bind (·.keys.head?)).getD default)
  | .echoRequest m => blockSetHash m.requestedBlocks
  | .echoReDispatch m => blockSetHash (keySet m.redispatchedBlocks)
  | .roundSkipVote m => m.manifest.hash
  | .roundSkipCertificate m => m.certificate.manifestHash
  | .reconcileAppraisal m => m.blocksHash
  | .reconcileRequest m => m.blocksHash
  | .reconcileResponse m => m.blocksHash
  | .reconcileCommit m => m.blocksHash
  | .trustedAcknowledgement m => m.body.blocksHash
  | .epochStarted _ | .ok | .fail => default

/-- The place of a kept message among those of its target: by round, kind and body. -/
def bufferKey (message : Msg W) : ℕ ×ₗ ℕ ×ₗ W :=
  match message.signed with
  | some (header, kind, _) =>
    toLex (header.round, toLex (kind.signatureTag, bodyHash message))
  | none => toLex (0, toLex (0, default))

def drainBufferedCurrentRoundMessages (c : RuntimeConfig W) : Operation W (List (Msg W)) := do
  let target ← onState (nextEpochTarget c)
  let consensus ← onState (withConsensus target get)
  let rt ← get
  let (reached, kept) := rt.futureRoundMessages.partition (isReached target consensus.round)
  set { rt with futureRoundMessages := kept }
  pure (reached.insertionSort fun a b => bufferKey a ≤ bufferKey b)

end Receive

section Recovery

section

variable (c : RuntimeConfig W)

structure CertifiedEpochSuffix (W : Type) [LinearOrder W] where
  version : ℕ
  groupId : W
  anchorHash : W
  anchorNonce : ℕ
  epochs : List (Epoch W)

def certifiedEpochSuffixVersion : ℕ := 1

def certifiedEpochSuffix (s : LocalState W) (anchorHash : W)
    (anchorNonce maxEpochs : ℕ) : Result (CertifiedEpochSuffix W) := do
  reject (c.trustMode ≠ .verified)
    (invalidConfiguration "certified epoch suffixes require verified consensus mode")
  let anchorIndex ← require (s.epochchain.findIdx? fun epoch =>
    decide (epoch.hash = anchorHash ∧ epoch.body.nonce = anchorNonce)) (.error .invalidEpochNonce)
  pure ⟨certifiedEpochSuffixVersion, c.groupId, anchorHash, anchorNonce,
    (s.epochchain.drop (anchorIndex + 1)).take (min maxEpochs maxCertifiedEpochSuffix)⟩

def validateCertifiedLinks (policy : ConsensusNodeRemovalPolicy) :
    Epoch W → List (Epoch W) → Result Unit
  | _, [] => pure ()
  | previous, epoch :: rest => do
    validateCertifiedExtension previous epoch policy
    validateCertifiedLinks policy epoch rest

def CertifiedEpochSuffix.validateFrom (suffix : CertifiedEpochSuffix W) (anchor : Epoch W)
    (policy : ConsensusNodeRemovalPolicy) : Result Unit := do
  reject (suffix.version ≠ certifiedEpochSuffixVersion ∨
    suffix.groupId ≠ anchor.body.groupId ∨ suffix.anchorHash ≠ anchor.hash ∨
    suffix.anchorNonce ≠ anchor.body.nonce ∨
    maxCertifiedEpochSuffix < suffix.epochs.length) (.error .invalidEpochNonce)
  validateCertifiedLinks policy anchor suffix.epochs

/-- Install the certified epochs of another node after the own ones. The pruning of the
catch-up hints is not modelled. -/
def catchUpCertifiedSuffix (suffix : CertifiedEpochSuffix W) : StateOperation W Bool := do
  check (reject (c.trustMode ≠ .verified)
    (invalidConfiguration "certified epoch catch-up requires verified consensus mode"))
  let s ← get
  let localTip ← check (require s.head? (.error .emptyEpochChain))
  check (reject (suffix.anchorHash ≠ localTip.hash ∨ suffix.anchorNonce ≠ localTip.body.nonce)
    (.error .invalidEpochNonce))
  check (suffix.validateFrom localTip s.consensusNodeRemovalPolicy)
  if suffix.epochs = [] then pure false
  else
    set { s with epochchain := s.epochchain ++ suffix.epochs }
    let target ← nextEpochTarget c
    withQuorum target 0 (pure ())
    pure true

/-- The part of a remote chain after the local tip; the whole of it if the tip is not in
it. -/
def suffixAfter (tip : Epoch W) (chain : List (Epoch W)) : List (Epoch W) :=
  match chain.dropWhile fun epoch => decide (epoch.hash ≠ tip.hash) with
  | [] => chain
  | _ :: suffix => suffix

def catchUpTrustedEpochRange (remoteChain : List (Epoch W)) : Operation W Bool := do
  let rt ← get
  if remoteChain = [] then pure false
  else
    let localTip ← check (require rt.state.head? (.error .emptyEpochChain))
    let suffix := suffixAfter localTip remoteChain
    if suffix = [] then pure false
    else
      check (validateTrustedLinks rt.state.consensusNodeRemovalPolicy (localTip :: suffix))
      match rt.trustedEpochLog with
      | none =>
        set { rt with state := { rt.state with epochchain := rt.state.epochchain ++ suffix } }
      | some log =>
        let log ← check (log.appendSuffix suffix)
        set { rt with trustedEpochLog := some log }
        let pending ← check log.pendingLocalBlock
        let queue ← check (rt.localBlocks.reconcileDurablePendingBlock pending)
        set { rt with
          trustedEpochLog := some log
          localBlocks := queue
          state := { rt.state with epochchain := rt.state.epochchain ++ suffix } }
      pure true

def catchUpFromEpochStarted (remoteChain : List (Epoch W)) : Operation W Bool :=
  if c.trustMode.isTrusted then catchUpTrustedEpochRange remoteChain
  else throw (invalidConfiguration
    "verified catch-up requires (anchor hash, anchor nonce, certified suffix)")

end

end Recovery

section Start

def fresh (selfNode : NodeIdentity W) (policy : ConsensusNodeRemovalPolicy) (blockCap : ℕ)
    (epochchain : List (Epoch W)) : NodeRuntime W where
  state := ⟨selfNode, epochchain, ∅, ∅, policy⟩
  localBlocks := .new blockCap
  acceptedLocalBlocks := ∅
  futureRoundMessages := []
  epochStartedHints := ∅
  trustedEpochLog := none

end Start

end Blossom.NodeRuntime
