import Blossom.NodeRuntime

/-!
# The messages a runtime receives

Every message is authenticated and checked against the current target before it changes
the state. A message of a later round is kept until the node reaches that round.
-/

namespace Blossom.NodeRuntime

open CheckedSteps OrderedMap MajorityQuorum StatefulSteps LocalState

variable {W : Type} [ProtocolCrypto W]

def verifyMessageEnvelope (c : RuntimeConfig W) (message : Msg W) : StateOperation W Unit :=
  match message.signed with
  | none => pure ()
  | some (header, kind, body) =>
    -- an epoch start may announce a later target than the local one
    if kind = .epochStarted ∧ c.trustMode.isTrusted = false then
      check (header.verifySignature kind body)
    else verifyMessageSignature c header kind body

/-- The replica holders that a carried block needs. -/
def minReplicas (validatorCount : ℕ) : ℕ := byzantineFaultBound validatorCount + 1

section Dispatches

variable [ShuffleSeed W]

section

variable (c : RuntimeConfig W)

/-- Keep a dispatch of a sender. A replay is accepted without a change, a second dispatch
of a sender is refused. Errors that name a sender are kept without its key. -/
def acceptDispatch (identity : Signature W × W)
    (pending : PendingDispatch W) : Action (TempQuorum W) Failure Bool := do
  let q ← get
  let sender := pending.senderAndSignature.1
  match q.receivedDispatchIdentities[sender]? with
  | some recorded =>
    check (reject (recorded ≠ identity) (wireProtocol "conflicting dispatch"))
    pure false
  | none =>
    let q ← check (q.tryPushPendingDispatch pending c.limits)
    set { q with
      receivedDispatchIdentities := q.receivedDispatchIdentities.insert sender identity
      receivedDispatches := q.receivedDispatches ++ [sender] }
    pure true

def receiveDispatch (message : Dispatch W) : StateOperation W String := do
  verifyMessageSignature c message.header .dispatch message.body.fields
  verifyHeader message.header
  check (verifyDispatchPayload c message.header message.body)
  let _ ← withQuorum message.header.target message.header.round
    (acceptDispatch c (message.header.signature, message.body.blocksHash) (.decoded message))
  withQuorum message.header.target message.header.round do
    modify (·.recordVerifiedDispatchBlocks message.body.blocks)
    if c.trustMode.isTrusted then TempQuorum.activatePendingTrustedMessages else pure ()
  pure "dispatch"

def receiveEchoRequest (message : EchoRequest W) : StateOperation W String := do
  verifyMessageSignature c message.header .echoRequest (hashSetFields message.requestedBlocks)
  verifyHeader message.header
  pure "echo_request"

end

/-- The loop of `receive_echo_redispatch`; an entry for another target ends it and the
entries before it stay. -/
def recordRedispatched (target : EpochNonce W) :
    List (W × Block W) → Bool → Action (TempQuorum W) Failure Bool
  | [], inserted => pure inserted
  | (hash, block) :: rest, inserted => do
    check (reject (block.body.lastEpoch ≠ target.lastEpoch ∨ block.body.nonce ≠ target.nonce)
      (wireProtocol "echo redispatch block targets the wrong epoch or nonce"))
    let q ← get
    let (fresh, q) := q.recordVerifiedBlock hash block
    set q
    recordRedispatched target rest (inserted || fresh)

section

variable (c : RuntimeConfig W)

def receiveEchoRedispatch (message : EchoReDispatch W) : StateOperation W String := do
  verifyMessageSignature c message.header .echoReDispatch message.fields
  check (verifyRedispatchedBlocks c message.redispatchedBlocks)
  verifyHeader message.header
  withQuorum message.header.target message.header.round do
    let inserted ← recordRedispatched message.header.target message.redispatchedBlocks.toList false
    if inserted then modify (·.refreshBlocksHash) else pure ()
  pure "echo_redispatch"

def receiveReconcileResponse (message : ReconcileResponse W) : StateOperation W String := do
  verifyMessageSignature c message.header .reconcileResponse message.fields
  check (verifyRedispatchedBlocks c message.blocks)
  check (reject (blockSetHash (keySet message.blocks) ≠ message.blocksHash)
    (wireProtocol "reconcile response block hash set mismatch"))
  verifyHeader message.header
  withQuorum message.header.target message.header.round
    (modify (·.recordVerifiedDispatchBlocks message.blocks))
  pure "reconcile_response"

def receiveReconcileAppraisal (message : ReconcileAppraisal W) : StateOperation W String := do
  verifyMessageSignature c message.header .reconcileAppraisal message.fields
  check (reject (blockSetHash message.blocks ≠ message.blocksHash)
    (wireProtocol "reconcile appraisal block set hash mismatch"))
  verifyHeader message.header
  pure "reconcile_appraisal"

def receiveReconcileRequest (message : ReconcileRequest W) : StateOperation W String := do
  verifyMessageSignature c message.header .reconcileRequest message.fields
  verifyHeader message.header
  pure "reconcile_request"

/-- What an echo response says about the dispatch of a member goes to the message matrix,
which is not modelled. -/
def receiveEchoResponse (message : EchoResponse W) : StateOperation W String := do
  verifyMessageSignature c message.header .echoResponse message.body.fields
  verifyHeader message.header
  seedPrefillDispatchesIntoQuorum message.header.target message.header.round
  withQuorum message.header.target message.header.round do
    let q ← get
    check (reject (message.body.sender ∉ q.quorumNodes) (.error .unknownSender))
  pure "echo_response"

end

end Dispatches

section RoundSkips

variable [ShuffleSeed W]

def currentValidators (epoch : Epoch W) : BTreeSet W := keySet epoch.body.verifiers

/-- The votes of a skip and its manifest are stored for `try_round_skip_assist`, which is
not modelled. -/
def receiveRoundSkipVote (c : RuntimeConfig W) (message : RoundSkipVoteMessage W) :
    StateOperation W String := do
  verifyMessageSignature c message.header .roundSkipVote message.fields
  check (reject (message.header.sender ≠ message.vote.voter)
    (wireProtocol "round-skip vote message sender does not match vote voter"))
  check (reject (message.vote.manifestHash ≠ message.manifest.hash)
    (wireProtocol "round-skip vote does not bind the carried manifest"))
  check message.vote.verifySignature
  verifyHeader message.header
  let latest ← reading fun s => require s.head? (.error .emptyEpochChain)
  check (message.manifest.validateAvailability (currentValidators latest)
    (minReplicas (currentValidators latest).size))
  let target : EpochNonce W := ⟨message.vote.lastEpoch, message.vote.nonce⟩
  check (reject (target ≠ latest.target) (.error .invalidEpochNonce))
  withConsensus target (pure ())
  pure "round_skip_vote"

def receiveRoundSkipCertificate (c : RuntimeConfig W) (message : RoundSkipCertificateMessage W) :
    StateOperation W String := do
  verifyMessageSignature c message.header .roundSkipCertificate message.fields
  check (reject (message.certificate.manifestHash ≠ message.manifest.hash)
    (wireProtocol "round-skip certificate does not bind the carried manifest"))
  verifyHeader message.header
  let latest ← reading fun s => require s.head? (.error .emptyEpochChain)
  check (message.certificate.validateAgainstEpochAndManifest (currentValidators latest)
    latest.target.lastEpoch latest.target.nonce message.manifest
    (minReplicas (currentValidators latest).size))
  check (reject (message.certificate.fromRound = 0 ∧ message.manifest.droppedLocalBlocks ≠ ∅)
    (wireProtocol "round-0 skip certificate cannot certify private local blocks"))
  withConsensus latest.target (modify fun consensus =>
    if consensus.round < message.certificate.toRound then
      { consensus with round := message.certificate.toRound }
    else consensus)
  pure "round_skip_certificate"

end RoundSkips

section Votes

variable [ShuffleSeed W] [EpochCodec W]

def receiveVerifiedVerification (c : RuntimeConfig W) (message : Verification W) :
    StateOperation W String := do
  verifyMessageSignature c message.header .verification message.body.fields
  check message.body.validate
  let (_, requiredSignatures) ← commitSenderAndThreshold message.header
  verifyHeader message.header
  seedPrefillDispatchesIntoQuorum message.header.target message.header.round
  withQuorum message.header.target message.header.round do
    let q ← get
    check (reject (message.body.blocks ≠ q.verifiedBlockSet ∨
      message.body.blocksHash ≠ q.currentBlocksHash)
      (wireProtocol "verification references block set that has not been locally verified"))
    set { q with verifications := VerifCount.record q.verifications message }
    modify (·.activatePendingProposals)
    modify (·.activatePendingTrueCommits requiredSignatures)
  advanceIfCommitted message.header.target message.header.round
  pure "verification"

def recordTrustedConfirmation (message : Verification W) : Action (TempQuorum W) Failure Unit := do
  let q ← get
  let _ ← check (TrustedConfirmationCount.validateUpdate q.trustedConfirmations message)
  check (reject (∃ pending ∈ q.pendingTrustedConfirmations[message.header.sender]?,
    pending.body.blocksHash ≠ message.body.blocksHash ∨ pending.body.blocks ≠ message.body.blocks)
    (wireProtocol "trusted member confirmed two candidates for one round"))
  if (q.trustedCandidateBlocks message.body).isSome then
    let count ← check (TrustedConfirmationCount.record q.trustedConfirmations message)
    set { q with trustedConfirmations := count }
  else
    set { q with pendingTrustedConfirmations :=
      q.pendingTrustedConfirmations.insert message.header.sender message }

def verifyTrustedDispatches : Action (TempQuorum W) Failure Unit := do
  let q ← get
  if q.verificationSent = false ∧ q.hasTrustedDispatchQuorum = true then
    modify (·.verifyTrusted)
    TempQuorum.activatePendingTrustedMessages
  else pure ()

section

variable (c : RuntimeConfig W)

def receiveTrustedConfirmation (message : Verification W) : StateOperation W Unit := do
  verifyMessageSignature c message.header .verification message.body.fields
  check message.body.validate
  let _ ← commitSenderAndThreshold message.header
  verifyHeader message.header
  seedPrefillDispatchesIntoQuorum message.header.target message.header.round
  withQuorum message.header.target message.header.round do
    verifyTrustedDispatches
    recordTrustedConfirmation message

def receiveTrustedAcknowledgement (message : TrustedAcknowledgement W) :
    StateOperation W String := do
  check (reject (c.trustMode.isTrusted = false)
    (invalidConfiguration "verified mode does not accept trusted acknowledgements"))
  verifyMessageSignature c message.header .trustedAcknowledgement message.body.fields
  check message.body.validate
  verifyHeader message.header
  withQuorum message.header.target message.header.round do
    let q ← get
    let _ ← check (TrustedAcknowledgementCount.validateUpdate q.trustedAcknowledgements message)
    check (reject (∃ pending ∈ q.pendingTrustedAcknowledgements[message.header.sender]?,
      ∃ hash ∈ pending.body.blocks.toList, hash ∉ message.body.blocks)
      (wireProtocol "trusted acknowledgement masks may only grow"))
    if (q.trustedCandidateBlocks message.body).isSome then
      let count ← check (TrustedAcknowledgementCount.record q.trustedAcknowledgements message)
      set { q with trustedAcknowledgements := count }
    else
      set { q with pendingTrustedAcknowledgements :=
        q.pendingTrustedAcknowledgements.insert message.header.sender message }
  pure "trusted_acknowledgement"

/-- Record a proposal, or keep a consensus proposal until it matches the verified blocks.
The result says whether it was recorded. -/
def recordProposal (message : Proposal W) (requiredSignatures : ℕ) :
    Action (TempQuorum W) Failure Bool := do
  let q ← get
  check (verifyProposalEvidence c message.header message.body q)
  if message.body.consensus = true ∧ q.proposalMatchesVerifiedBlocks message = false then
    set { q with pendingProposals := q.pendingProposals.insert message.header.sender message }
    pure false
  else
    set { q with
      pendingProposals := q.pendingProposals.erase message.header.sender
      proposals := PropCount.record q.proposals message }
    modify (·.activatePendingTrueCommits requiredSignatures)
    pure true

def receiveProposal (message : Proposal W) : StateOperation W String := do
  check (reject (c.trustMode.isTrusted = true)
    (invalidConfiguration "trusted mode does not accept proposal votes"))
  verifyMessageSignature c message.header .proposal message.body.fields
  check message.body.validate
  let (_, requiredSignatures) ← commitSenderAndThreshold message.header
  verifyHeader message.header
  let recorded ← withQuorum message.header.target message.header.round
    (recordProposal c message requiredSignatures)
  if recorded then
    advanceIfCommitted message.header.target message.header.round
    pure "proposal"
  else pure "proposal_pending"

def receiveCommit (message : Commit W) : StateOperation W String := do
  check (reject (c.trustMode.isTrusted = true)
    (invalidConfiguration "trusted mode does not accept commit votes"))
  verifyMessageSignature c message.header .commit message.body.fields
  let (senderIsAuthorized, requiredSignatures) ← commitSenderAndThreshold message.header
  check (reject (senderIsAuthorized = false) (.error .unknownSender))
  reading (validateCommitEpochShare · message)
  withQuorum message.header.target message.header.round do
    let q ← get
    check (reject (message.body.consensus = true ∧ PropCount.consensus q.proposals ≠ some true)
      (.error .failedConsensus))
    set (q.recordCommitVote message requiredSignatures)
  advanceIfCommitted message.header.target message.header.round
  pure "commit"

end

/-- The loop of `receive_reconcile_commit` over the signatures: those of quorum members are
checked against the epoch and kept as certificate shares. -/
def collectShares (epochHash : W) : List (W × Signature W) → BTreeSet W →
    Action (TempQuorum W) Failure (BTreeSet W)
  | [], distinct => pure distinct
  | (signer, signature) :: rest, distinct => do
    let q ← get
    if signer ∉ q.quorumNodes ∨ signer ∈ distinct then collectShares epochHash rest distinct
    else
      check (checkSignature signature [.word epochHash] signer)
      set { q with epochSignatures := q.epochSignatures.insert signer signature }
      collectShares epochHash rest (distinct.insert signer)

def receiveReconcileCommit (c : RuntimeConfig W) (message : ReconcileCommit W) :
    StateOperation W String := do
  check (reject (c.trustMode.isTrusted = true)
    (invalidConfiguration "trusted mode does not accept verified reconcile commits"))
  verifyMessageSignature c message.header .reconcileCommit message.fields
  verifyHeader message.header
  let candidate ← reading (prepareVerifiedEpoch · message.header.target message.header.round)
  let candidate ← check (require candidate (.error .failedConsensus))
  check (reject (candidate.hash ≠ message.epochHash) (.error .invalidBlockHash))
  withQuorum message.header.target message.header.round do
    let q ← get
    check (reject (q.currentBlocksHash ≠ message.blocksHash)
      (wireProtocol "reconcile commit references a block set that is not locally verified"))
    let distinct ← collectShares message.epochHash message.signatures ∅
    let count := distinct.size
    let needed := q.proposals.supermajority
    check (reject (count < needed)
      (wireProtocol s!"reconcile commit has {count} distinct signatures, need {needed}"))
  let _ ← advanceEpoch message.header.target message.header.round
  pure "reconcile_commit"

end Votes

section Receive

variable [ShuffleSeed W]

/-- Whether a message is a commit whose sender may vote in its round. -/
def isFinalCommit (header : Header W) (kind : MsgKey) : StateOperation W Bool :=
  if kind = .commit then do
    let authorized ← attempt (commitSenderAndThreshold header)
    pure ((authorized.map Prod.fst).getD false)
  else pure false

/-- Whether a message is for a round that the node has not reached. A verification of the
blocks that the node already has is handled at once. -/
def isFutureRoundMessage (message : Msg W) : StateOperation W Bool :=
  match message.signed with
  | none => pure false
  | some (header, kind, _) =>
    if kind = .roundSkipVote ∨ kind = .roundSkipCertificate ∨ kind = .epochStarted then pure false
    else do
      let globalFinalCommit ← isFinalCommit header kind
      let (isPeer, round) ← withConsensus header.target do
        let consensus ← get
        pure (consensus.isPeerMemberOfRound header.sender header.round, consensus.round)
      if (globalFinalCommit = false ∧ isPeer = false) ∨ header.round ≤ round then pure false
      else
        match message with
        | .verification verification => do
          seedPrefillDispatchesIntoQuorum header.target header.round
          let q ← withQuorum header.target header.round get
          pure (decide (q.verifiedBlockSet = ∅ ∨ verification.body.blocks ≠ q.verifiedBlockSet ∨
            verification.body.blocksHash ≠ q.currentBlocksHash))
        | _ => pure true

def maxCertifiedEpochSuffix : ℕ := 4096

/-- The nodes that have announced the current target are recorded for telemetry only, and
left out here; a later target is kept as a hint to catch up. -/
def receiveEpochStarted (c : RuntimeConfig W) (message : EpochStarted W) : Operation W String := do
  onState (verifyMessageEnvelope c (.epochStarted message))
  let target := message.header.target
  let localTip ← onState (reading fun s => require s.head? (.error .emptyEpochChain))
  check (reject (target.nonce < localTip.target.nonce ∨
    localTip.target.nonce + maxCertifiedEpochSuffix < target.nonce) (.error .invalidEpochNonce))
  let senderIsRoundPeer ← onState
    (if target = localTip.target then withConsensus target do
      let consensus ← get
      pure (consensus.isPeerMemberOfRound message.header.sender message.header.round)
    else pure false)
  check (reject (¬localTip.body.verifiers.contains message.header.sender) (.error .unknownSender))
  check (reject (message.header.round ≠ 0 ∧ target = localTip.target ∧ senderIsRoundPeer = false)
    (.error .unknownSender))
  check (reject (message.header.round ≠ 0)
    (wireProtocol "epoch-start announcement must use round zero"))
  if target ≠ localTip.target then
    let rt ← get
    match rt.epochStartedHints[message.header.sender]? with
    | none => set { rt with
        epochStartedHints := rt.epochStartedHints.insert message.header.sender target }
    | some previous =>
      check (reject (previous.nonce = target.nonce ∧ previous.lastEpoch ≠ target.lastEpoch)
        (wireProtocol "validator announced conflicting epoch heads at one nonce"))
      if previous.nonce < target.nonce then set { rt with
        epochStartedHints := rt.epochStartedHints.insert message.header.sender target }
      else pure ()
    pure "epoch_started_catch_up"
  else if senderIsRoundPeer then
    onState (withQuorum target 0 (pure ()))
    pure "epoch_started"
  else pure "epoch_started_global"

end Receive

end Blossom.NodeRuntime
