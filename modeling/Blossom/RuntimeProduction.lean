import Blossom.RuntimeMessages

/-!
# What a runtime produces

A node dispatches its own block and then, round by round, votes about the blocks it has
collected: it verifies, proposes and commits in the verified protocol, and acknowledges
and confirms in the trusted one. A vote is recorded locally when it is produced.

Calls run one after another here. The source repeats some checks of a call after it has
signed, for the case that another thread has changed the state in between; what they would
check again has not changed, and they are left out.
-/

namespace Blossom.NodeRuntime

open CheckedSteps OrderedMap MajorityQuorum StatefulSteps LocalState

variable {W : Type}

structure AcceptedBlock (W : Type) where
  groupId : W
  hash : W
  nonce : ℕ
  applicationStateBytes : ℕ
  deriving DecidableEq

variable [ProtocolCrypto W]

section Blocks

def localDispatchIsSealed (s : LocalState W) (target : EpochNonce W) : Bool :=
  ((s.getConsensus target).map fun consensus => (values consensus.quorum).any fun q =>
    decide (q.dispatchStatus = some true) || q.localDispatch.isSome).getD false

/-- Keep the member's own block in the durable log, if there is one. -/
def persistLocalBlock (block : Block W) [EpochCodec W] : Operation W Unit := do
  let rt ← get
  match rt.trustedEpochLog with
  | none => pure ()
  | some log =>
    let log ← check (log.persistLocalBlock block)
    set { rt with trustedEpochLog := some log }

def submitBlock [EpochCodec W] (c : RuntimeConfig W) (block : Block W) :
    Operation W (AcceptedBlock W) := do
  let target ← onState (nextEpochTarget c)
  let rt ← get
  check (reject (localDispatchIsSealed rt.state target = true) (.error .duplicateBlock))
  check (reject (block.body.lastEpoch ≠ target.lastEpoch) (.error .invalidBlockLastEpoch))
  check (reject (block.body.nonce ≠ target.nonce)
    (.error (.invalidBlockNonce target.nonce block.body.nonce)))
  check (verifyBlock c block.hash block)
  check (reject (c.blockService.any fun service => decide (block.body.validator ≠ service))
    (.error .unknownSender))
  check (rt.localBlocks.ensureEnqueueable block)
  persistLocalBlock block
  let queue ← check (rt.localBlocks.enqueuePreverifiedBlock block)
  modify fun rt => { rt with
    localBlocks := queue
    acceptedLocalBlocks := (rt.acceptedLocalBlocks.filter fun nonce _ =>
      decide (target.nonce ≤ nonce)).insert target.nonce block.hash }
  pure ⟨c.groupId, block.hash, target.nonce, block.body.applicationState.length⟩

def checkAcceptedBlock (expected : Option W) (queued : Option (Block W)) : Result Unit :=
  match expected, queued with
  | some expected, some block => reject (block.hash ≠ expected)
      (invalidConfiguration "queued local block does not match accepted block")
  | some _, none => .error (invalidConfiguration "accepted local block is missing")
  | none, _ => pure ()

/-- Take the next block of the queue, or make an empty one, which takes the staged records
with it. The block store, if there is one, does not fail to write the block. -/
def nextLocalBlock (c : RuntimeConfig W) (created : ℕ) (target : EpochNonce W) :
    Operation W (Block W) := do
  let rt ← get
  let (next, queue) := rt.localBlocks.dequeueBlock c.blockService target
  set { rt with localBlocks := queue }
  let next ← check next
  if next.isNone then modify fun rt => { rt with localBlocks := { rt.localBlocks with
      encounterRecords := []
      nodeAdmissions := [] } }
  else pure ()
  check (checkAcceptedBlock (rt.acceptedLocalBlocks[target.nonce]?) next)
  match next with
  | some block => pure block
  | none => check (emptyBlock c rt.state.selfNode.publicKey target created queue)

variable [ShuffleSeed W]

def carriedBlocks (target : EpochNonce W) (round : ℕ) :
    StateOperation W (BTreeMap W (Block W)) :=
  if round = 0 then pure ∅
  else do
    seedPrefillDispatchesIntoQuorum target round
    let q ← withQuorum target round get
    pure q.canonicalVerifiedBlocks

/-- The blocks of a dispatch: the carried ones, and the own block unless its writer has one
among them. -/
def dispatchBlocks (carried : BTreeMap W (Block W)) (block : Block W) : BTreeMap W (Block W) :=
  if (values carried).any fun other => decide (other.body.validator = block.body.validator) then
    carried
  else carried.insert block.hash block

def sealDispatch (q : TempQuorum W) (dispatch : Dispatch W) : TempQuorum W :=
  { q.recordVerifiedDispatchBlocks dispatch.body.blocks with
    dispatchStatus := some true
    localDispatch := some dispatch
    dispatchRetry := false }

/-- The part of a dispatch after its block is chosen. -/
def sendBlock (c : RuntimeConfig W) (selfKey : W) (round : ℕ) (target : EpochNonce W)
    (block : Block W) : Operation W (Dispatch W) := do
  let carried ← onState (carriedBlocks target round)
  let blocks := dispatchBlocks carried block
  let body : DispatchBody W := ⟨blocks, blockSetHash (keySet blocks), ∅, treeHash ∅⟩
  let header ← check (signedHeaderForBody c selfKey target round .dispatch body.fields)
  onState (withQuorum target round (modify (sealDispatch · ⟨header, body⟩)))
  modify fun rt => { rt with acceptedLocalBlocks := rt.acceptedLocalBlocks.erase target.nonce }
  pure ⟨header, body⟩

def dispatchLocalBlock (c : RuntimeConfig W) (created round : ℕ) (target : EpochNonce W) :
    Operation W (Dispatch W) := do
  let rt ← get
  match (rt.state.getQuorum target round).bind (·.localDispatch) with
  | some dispatch => pure dispatch
  | none =>
    let selfKey := rt.state.selfNode.publicKey
    let block ← nextLocalBlock c created target
    sendBlock c selfKey round target block

def tryProduceDispatchForTarget (c : RuntimeConfig W) (created round : ℕ)
    (requiredTarget : Option (EpochNonce W)) : Operation W (Option (Dispatch W)) := do
  check (ensureConsensusMode c "produce dispatch")
  let target ← onState (nextEpochTarget c)
  if requiredTarget.any fun required => decide (required ≠ target) then pure none
  else
    let q ← onState (withQuorum target round get)
    if q.dispatchStatus = some true then
      if q.dispatchRetry then
        onState (withQuorum target round (modify fun q => { q with dispatchRetry := false }))
        let dispatch ← check (require q.localDispatch
          (invalidConfiguration "dispatch retry is missing its original message"))
        pure (some dispatch)
      else pure none
    else
      let dispatch ← dispatchLocalBlock c created round target
      pure (some dispatch)

def tryProduceDispatch (c : RuntimeConfig W) (created round : ℕ) :
    Operation W (Option (Dispatch W)) :=
  tryProduceDispatchForTarget c created round none

end Blocks

section Prefill

variable [ShuffleSeed W]

def quorumRoundCount (c : RuntimeConfig W) : StateOperation W ℕ := do
  check (ensureConsensusMode c "count quorum rounds")
  let target ← nextEpochTarget c
  reading fun s => do
    let epoch ← require s.head? (.error .emptyEpochChain)
    pure (selectQuorumsFromIndexTreeWithSize epoch.body.verifiers s.selfNode.publicKey
      target.lastEpoch s.selfNode.shuffle
      epoch.body.effectiveConsensusParameters.quorumSize).length

/-- Dispatch the own block of round zero ahead of the rounds, when there is more than one.
Which recipients have acknowledged it is not modelled. -/
def tryBroadcastPrefillDispatch (c : RuntimeConfig W) (created : ℕ) :
    Operation W (Option (Dispatch W)) := do
  let rounds ← onState (quorumRoundCount c)
  if rounds ≤ 1 then pure none
  else
    let target ← onState (nextEpochTarget c)
    let dispatch ← dispatchLocalBlock c created 0 target
    onState (recordPrefillDispatch dispatch)
    pure (some dispatch)

def expectedPrefillSenders (s : LocalState W) (epoch : Epoch W) (target : EpochNonce W) :
    List W :=
  ((values epoch.body.verifiers).filter fun sender =>
    decide (sender.publicKey = s.selfNode.publicKey) ||
    (selectPrefillRecipientsWithSize epoch.body.verifiers sender.publicKey target.lastEpoch
      sender.shuffle epoch.body.effectiveConsensusParameters.quorumSize).contains
        s.selfNode.publicKey).map (·.publicKey)

def prefillStageReady (target : EpochNonce W) : StateOperation W Bool := reading fun s => do
  let epoch ← require s.head? (.error .emptyEpochChain)
  let recorded := (s.prefillDispatches[target]?).getD ∅
  pure ((expectedPrefillSenders s epoch target).all recorded.contains)

def tryActivatePrefillRound (c : RuntimeConfig W) : StateOperation W Bool := do
  check (ensureConsensusMode c "activate prefill round")
  let rounds ← quorumRoundCount c
  if rounds ≤ 1 then pure true
  else
    let target ← nextEpochTarget c
    let ready ← prefillStageReady target
    if ready = false then pure false
    else
      withConsensus target (modify fun consensus =>
        if 1 < consensus.peers.length ∧ consensus.round = 0 then { consensus with round := 1 }
        else consensus)
      pure true

end Prefill

section Verified

variable [ShuffleSeed W]

def tryProduceVerifiedVerification (c : RuntimeConfig W) (round : ℕ) (target : EpochNonce W) :
    StateOperation W (Option (Verification W)) := do
  let s ← get
  let selfKey := s.selfNode.publicKey
  let q ← withQuorum target round get
  if q.verificationRetry then
    let verification ← check (require (q.verifications.tally.votes[selfKey]?)
      (invalidConfiguration "verification retry is missing its immutable message"))
    withQuorum target round (modify fun q => { q with verificationRetry := false })
    pure (some verification)
  else
    seedPrefillDispatchesIntoQuorum target round
    let q ← withQuorum target round get
    if q.verificationSent = true ∨ q.hasCompleteDispatchSet = false then pure none
    else
      let q ← withQuorum target round do
        modify (·.verify)
        get
      let body := VerificationBody.of q.verifiedBlockSet
      let header ← check (signedHeaderForBody c selfKey target round .verification body.fields)
      withQuorum target round (modify fun q => { q with
        verifications := VerifCount.record q.verifications ⟨header, body⟩
        verificationSent := true })
      pure (some ⟨header, body⟩)

/-- The body of the own proposal: the verified blocks, if a supermajority verified them,
with the signatures of the first ones that did. -/
def proposalBody (q : TempQuorum W) : Option (ProposalBody W) := do
  let approvedHash ← q.verifications.consensusHash
  let approvedBlocks := q.verifiedBlockSet
  let verif := ((q.verifications.tally.votes.toList.filter fun entry =>
    decide (entry.2.body.blocksHash = approvedHash)).map fun entry =>
      (entry.1, entry.2.header.signature)).take q.verifications.supermajority
  if blockSetHash approvedBlocks ≠ approvedHash ∨ verif.length < q.verifications.supermajority then
    none
  else some ⟨true, some approvedBlocks, some approvedHash, some verif, some approvedBlocks,
    some approvedHash⟩

def requireVerifiedMode (c : RuntimeConfig W) (action reason : String) : Result Unit := do
  ensureConsensusMode c action
  reject (c.trustMode.isTrusted = true) (invalidConfiguration reason)

def tryProduceProposal (c : RuntimeConfig W) (round : ℕ) :
    StateOperation W (Option (Proposal W)) := do
  check (requireVerifiedMode c "produce proposal"
    "trusted mode uses confirmation quorum finality, not proposals")
  let target ← nextEpochTarget c
  let s ← get
  let selfKey := s.selfNode.publicKey
  let q ← withQuorum target round get
  if q.proposalRetry then
    let proposal ← check (require (q.proposals.tally.votes[selfKey]?)
      (invalidConfiguration "proposal retry is missing its immutable message"))
    withQuorum target round (modify fun q => { q with proposalRetry := false })
    pure (some proposal)
  else
    seedPrefillDispatchesIntoQuorum target round
    let q ← withQuorum target round do
      modify (·.activatePendingProposals)
      get
    if q.proposalSent then pure none
    else
      match proposalBody q with
      | none => pure none
      | some body =>
        check body.validate
        let header ← check (signedHeaderForBody c selfKey target round .proposal body.fields)
        check (verifyProposalProof c header body q)
        withQuorum target round (modify fun q => { q with
          proposalSent := true
          proposals := PropCount.record q.proposals ⟨header, body⟩ })
        pure (some ⟨header, body⟩)

/-- Whether progress of the round is lost is read off the message matrix, which is not
modelled; `unrecoverable` is that answer. -/
def tryProduceFalseProposal (c : RuntimeConfig W) (round : ℕ) (unrecoverable : Bool) :
    StateOperation W (Option (Proposal W)) := do
  check (requireVerifiedMode c "produce false proposal"
    "trusted mode uses confirmation quorum finality, not proposals")
  let target ← nextEpochTarget c
  let s ← get
  let q ← withQuorum target round get
  if unrecoverable = false then pure none
  else
    let body : ProposalBody W := ⟨false, none, none, none, none, none⟩
    let header ← check (signedHeaderForBody c s.selfNode.publicKey target round .proposal
      body.fields)
    if q.proposalSent = true ∨ PropCount.consensus q.proposals = some true ∨
      VerifCount.consensusIsStillPossible q.verifications = true then pure none
    else
      withQuorum target round (modify fun q => { q with
        proposalSent := true
        proposals := PropCount.record q.proposals ⟨header, body⟩ })
      pure (some ⟨header, body⟩)

variable [EpochCodec W]

section

variable (c : RuntimeConfig W) (s : LocalState W) (target : EpochNonce W) (round : ℕ)

/-- The certificate share of a true commit: the candidate of the last round and the own
signature on it. -/
def epochShare : Result (Option (W × Signature W)) := do
  match ← s.prepareVerifiedEpoch target round with
  | none => pure none
  | some epoch =>
    let signer ← require c.signer (.error .missingSecretKey)
    pure (some (epoch.hash, signer.sign epoch.hash))

def commitBody : Result (Option (CommitBody W)) :=
  match s.getQuorum target round with
  | none => pure none
  | some q =>
    if s.selfNode.publicKey ∈ q.commitSenders then pure none
    else
      match PropCount.consensus q.proposals with
      | none => pure none
      | some false => pure (some ⟨false, none, none, none⟩)
      | some true => do
        let share ← epochShare c s target round
        pure (some ⟨true, none, share.map Prod.fst, share.map Prod.snd⟩)

end

def tryProduceCommit (c : RuntimeConfig W) (round : ℕ) : StateOperation W (Option (Commit W)) := do
  check (requireVerifiedMode c "produce commit"
    "trusted mode uses confirmation quorum finality, not commit votes")
  let target ← nextEpochTarget c
  let s ← get
  let body ← reading (commitBody c · target round)
  match body with
  | none => pure none
  | some body =>
    let header ← check (signedHeaderForBody c s.selfNode.publicKey target round .commit
      body.fields)
    let (senderIsAuthorized, requiredSignatures) ← commitSenderAndThreshold header
    check (reject (senderIsAuthorized = false) (.error .unknownSender))
    reading (validateCommitEpochShare · ⟨header, body⟩)
    withQuorum target round (modify fun q =>
      { q with localCommit := some ⟨header, body⟩ }.recordCommitVote ⟨header, body⟩
        requiredSignatures)
    advanceIfCommitted target round
    pure (some ⟨header, body⟩)

def retryFinalCommit (c : RuntimeConfig W) (round : ℕ) : StateOperation W (Option (Commit W)) := do
  check (requireVerifiedMode c "retry final commit"
    "trusted mode uses confirmation quorum finality, not commit votes")
  let target ← nextEpochTarget c
  let consensus ← withConsensus target get
  if consensus.peers.length ≠ round + 1 then pure none
  else reading fun s => pure ((s.getQuorum target round).bind (·.localCommit))

end Verified

section Retries

variable [ShuffleSeed W]

section

variable (c : RuntimeConfig W) (round : ℕ)

/-- Schedule the own message of a round again: an update of the flags of its quorum. -/
def scheduleRetry (update : W → TempQuorum W → TempQuorum W) : StateOperation W Unit := do
  let target ← nextEpochTarget c
  let s ← get
  withQuorum target round (modify (update s.selfNode.publicKey))

def scheduleDispatchRetry (blocksHash : W) : StateOperation W Unit :=
  scheduleRetry c round fun _ q =>
    if (q.localDispatch.map (·.body.blocksHash)) = some blocksHash then
      { q with dispatchRetry := true }
    else q

def scheduleVerificationRetry (blocksHash : W) : StateOperation W Unit :=
  if c.trustMode.isTrusted then pure ()
  else scheduleRetry c round fun selfKey q =>
    if (q.verifications.tally.votes[selfKey]?).map (·.body.blocksHash) = some blocksHash then
      { q with verificationRetry := true }
    else q

def scheduleProposalRetry (signature : Signature W) : StateOperation W Unit :=
  scheduleRetry c round fun selfKey q =>
    if (q.proposals.tally.votes[selfKey]?).map (·.header.signature) = some signature then
      { q with proposalRetry := true }
    else q

def scheduleTrustedAcknowledgementRetry (blocksHash : W) : StateOperation W Unit :=
  if c.trustMode.isTrusted then scheduleRetry c round fun _ q =>
    if q.lastTrustedAcknowledgementHash = some blocksHash then
      { q with trustedAcknowledgementRetry := some blocksHash }
    else q
  else pure ()

def scheduleTrustedConfirmationRetry (blocksHash : W) : StateOperation W Unit :=
  if c.trustMode.isTrusted then scheduleRetry c round fun selfKey q =>
    if (q.trustedConfirmations.tally.votes[selfKey]?).map (·.body.blocksHash) =
        some blocksHash then
      { q with trustedConfirmationRetry := some blocksHash }
    else q
  else pure ()

end

end Retries

end Blossom.NodeRuntime
