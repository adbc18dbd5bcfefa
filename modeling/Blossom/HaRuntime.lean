import Blossom.HaStore

/-!
# The high-availability runtime

The public operations of one member. An operation returns its result together with the
runtime it leaves behind: an error after a failed persist undoes what the operation
changed, and an operation of two persists can fail at the second.
-/

namespace Blossom

open CheckedSteps BitMask

variable {W : Type}

inductive HaMessage (W : Type) where
  | handshake (message : HaHandshake W)
  | membershipVote (message : HaMembershipVote W)
  | dispatch (message : HaDispatch W)
  | acknowledge (message : HaAcknowledge W)
  | confirm (message : HaConfirm W)
  deriving DecidableEq

inductive HaRuntimeEvent (W : Type) where
  | handshakeAccepted
  | dispatch (outcome : HaDispatchOutcome)
  | acknowledged
  | confirmed
  | finalized (epoch : HaEpoch W)
  | membershipVoteAccepted
  | membershipChanged (certificate : HaMembershipCertificate W)
  deriving DecidableEq

structure HighAvailabilityRuntime (W : Type) where
  store : Option (HaDurableStore W)
  state : HighAvailabilityRuntimeState W
  deriving DecidableEq

abbrev Outcome (W α : Type) := Result α × HighAvailabilityRuntime W

variable [ProtocolCrypto W]

namespace HighAvailabilityRuntimeState

section

variable (s : HighAvailabilityRuntimeState W)

def amendmentsForEpoch (nonce : ℕ) : List (AmendmentRecord W) :=
  (s.amendments.filter fun a => decide (a.targetEpochNonce = nonce)).insertionSort
    (fun a b => a.recordHash ≤ b.recordHash)

def logicalEpochRecordHashes (nonce : ℕ) : Result (List W) := do
  let epoch ← require (s.epochs.find? fun epoch => decide (epoch.nonce = nonce))
    (invalidConfiguration "unknown HA epoch nonce")
  let blocks ← epoch.orderedSlots.asSlice.mapM fun slot => do
    let i ← slotIndex slot
    pure (epoch.candidate.blockHashes i)
  let hashes := blocks ++ (s.amendmentsForEpoch nonce).map AmendmentRecord.recordHash
  pure (hashes.insertionSort (· ≤ ·))

def accumulateEpochs (accumulator : W) (epochs : List (HaEpoch W)) : Result W :=
  epochs.foldlM (fun acc epoch => do
    let hashes ← s.logicalEpochRecordHashes epoch.nonce
    pure (accumulateHistory acc hashes)) accumulator

def anchorAccumulator : W :=
  match s.checkpoint with
  | some checkpoint => checkpoint.historyAccumulator
  | none => default

/-- A checkpoint already accounts for the first retained epoch. -/
def unaccumulated (epochs : List (HaEpoch W)) : List (HaEpoch W) :=
  epochs.drop (if s.checkpoint.isSome then 1 else 0)

def revision : Result (StateRevision W) := do
  let accumulator ← s.accumulateEpochs s.anchorAccumulator (s.unaccumulated s.epochs)
  let head ← s.head
  let sealedNonce ← s.sealedNonce
  pure (.fromHistoryAccumulator head.nonce sealedNonce accumulator)

def validateProposedAmendment (amendment : AmendmentRecord W) (containingNonce : ℕ) :
    Result Unit := do
  reject (amendment.containingEpochNonce ≠ containingNonce ∨
      amendment.containingEpochNonce ≤ amendment.targetEpochNonce)
    (invalidConfiguration "HA amendment must name the later epoch that carries its bytes")
  reject ((s.members.member amendment.originSlot).isNone) (.error .unknownSender)
  let target ← require
    (s.epochs.find? fun epoch => decide (epoch.nonce = amendment.targetEpochNonce))
    (invalidConfiguration "HA amendment target epoch is not in the local chain")
  reject (target.hash ≠ amendment.targetEpochHash)
    (wireProtocol "HA amendment target hash mismatch")
  let head ← s.head
  let sealedNonce ← s.sealedNonce
  reject (epochLifecycle amendment.targetEpochNonce head.nonce s.parameters.mutableEpochDepth =
      .sealed)
    (.error (.epochSealed amendment.targetEpochNonce sealedNonce containingNonce))
  s.amendments.forM fun existing =>
    reject (existing.commandIdentity = amendment.commandIdentity ∧
        existing.recordHash ≠ amendment.recordHash)
      (invalidConfiguration "conflicting HA amendment bytes for one command identity")

end

section Amendments

variable [AmendmentCodec W]

def collectAmendment (s : HighAvailabilityRuntimeState W) (containingNonce : ℕ)
    (collected : List (AmendmentRecord W)) (transaction : Transaction W) :
    Result (List (AmendmentRecord W)) := do
  match ← decodeAmendmentTransaction transaction with
  | none => pure collected
  | some amendment =>
    s.validateProposedAmendment amendment containingNonce
    match collected.find? fun a => decide (a.commandIdentity = amendment.commandIdentity) with
    | some existing =>
      reject (existing.recordHash ≠ amendment.recordHash)
        (invalidConfiguration "conflicting HA amendments for one command identity")
      pure collected
    | none => pure (collected ++ [amendment])

def validateAmendmentTransactions (s : HighAvailabilityRuntimeState W)
    (transactions : List (Transaction W)) (containingNonce : ℕ) : Result Unit := do
  let _ ← transactions.foldlM (s.collectAmendment containingNonce) []

def committedAmendments (s : HighAvailabilityRuntimeState W) (finalized : HaFinalizedRound W) :
    Result (List (AmendmentRecord W)) :=
  finalized.orderedSlots.asSlice.foldlM (fun collected slot => do
    let i ← slotIndex slot
    let block ← require (s.round.blocks i)
      (wireProtocol "finalized HA amendment scan is missing a candidate block")
    block.body.txs.foldlM (s.collectAmendment finalized.roundId.nonce) collected) []

end Amendments

/-- Appends the amendments whose command identity is not present yet. -/
def pushAmendments (existing new : List (AmendmentRecord W)) : List (AmendmentRecord W) :=
  new.foldl (fun acc a =>
    if acc.any (fun e => decide (e.commandIdentity = a.commandIdentity)) then acc
    else acc ++ [a]) existing

def commitState [AmendmentCodec W] (s : HighAvailabilityRuntimeState W)
    (finalized : HaFinalizedRound W) : Result (HaEpoch W × HighAvailabilityRuntimeState W) := do
  let amendments ← s.committedAmendments finalized
  let epoch := HaEpoch.fromFinalized finalized s.round.blocks s.parameters
  let nextRound ← HaRoundState.new (s.nextRoundId epoch) s.members
  pure (epoch, { s with
    presence := s.presence.observeEpoch s.members epoch.presenceMask s.parameters
    epochs := s.epochs ++ [epoch]
    amendments := pushAmendments s.amendments amendments
    round := nextRound })

section

variable (s : HighAvailabilityRuntimeState W)

def requireEpochBoundaryForMembershipChange : Result Unit :=
  reject (s.round.receivedMask ≠ 0 ∨ (∃ i, s.round.acknowledgements i ≠ 0) ∨
      (∃ i, (s.round.confirmations i).isSome) ∨ s.round.confirmedCandidate.isSome ∨
      s.round.finalized.isSome)
    (invalidConfiguration "HA membership changes take effect only at an empty epoch boundary")

def nodeStatus (slot : ℕ) : NodeAvailabilityStatus :=
  s.presence.status slot

def validateMembershipProposal (proposal : HaMembershipProposal W) : Result Unit := do
  reject (proposal.digest ≠ proposal.computeDigest ∨ proposal.groupId ≠ s.groupId ∨
      proposal.membershipGeneration ≠ s.membershipGeneration ∨
      proposal.activeMask ≠ s.members.activeMask ∨
      proposal.parametersHash ≠ s.parameters.parametersHash ∨
      proposal.effectiveNonce ≠ s.round.roundId.nonce)
    (invalidConfiguration "HA membership proposal does not match the current epoch boundary")
  match proposal.action with
  | .suspend =>
    reject (s.nodeStatus proposal.slot ≠ .unresponsive)
      (invalidConfiguration "HA member is not yet unresponsive")
    let _ ← s.members.withSuspended proposal.slot
  | .reactivate caughtUpThrough checkpointHash stateRevision =>
    reject (s.members.isActive proposal.slot = true)
      (invalidConfiguration "HA member is already active")
    let head ← s.head
    let revision ← s.revision
    reject (caughtUpThrough ≠ head.nonce ∨ checkpointHash ≠ head.hash ∨
        stateRevision ≠ revision.revisionHash)
      (invalidConfiguration
        "HA reactivation is not bound to the current checkpoint hash and revision")
    let _ ← s.members.withReactivated proposal.slot

/-- The active slots recorded as voting for `proposal`. -/
def approvalMask (proposal : HaMembershipProposal W) : Mask :=
  collect 8 fun i : Fin 7 => decide (hasBit proposal.activeMask i) &&
    decide (s.membershipVotes i = some proposal.digest)

def retargetCurrentRound : Result (HighAvailabilityRuntimeState W) := do
  let head ← s.head
  let round ← HaRoundState.new (s.nextRoundId head) s.members
  pure { s with round := round }

def certificateState (certificate : HaMembershipCertificate W) : Result
    (HighAvailabilityRuntimeState W) := do
  let (members, presence) ← replayMembershipChange s.members s.presence certificate
  let generation ← nextGeneration s.membershipGeneration
  retargetCurrentRound { s with
    members := members
    presence := presence
    membershipGeneration := generation
    membershipChanges := s.membershipChanges ++ [certificate]
    membershipVoteLock := none
    membershipVotes := fun _ => none }

end

end HighAvailabilityRuntimeState

namespace HighAvailabilityRuntime

section

variable (rt : HighAvailabilityRuntime W)

def persist (rt : HighAvailabilityRuntime W) (io : Bool) : Result (HighAvailabilityRuntime W) :=
  match rt.store with
  | none => .ok rt
  | some store => do
    let store ← store.persist rt.state io
    pure { rt with store := some store }

def withState (state : HighAvailabilityRuntimeState W) : HighAvailabilityRuntime W :=
  { rt with state := state }

def withRound (round : HaRoundState W) : HighAvailabilityRuntime W :=
  { rt with state := { rt.state with round := round } }

def head (rt : HighAvailabilityRuntime W) : Result (HaEpoch W) := rt.state.head

def validateHandshake (handshake : HaHandshake W) : Result Unit := do
  reject (handshake.groupId ≠ rt.state.groupId ∨
      handshake.fixedMembershipHash ≠ rt.state.members.fixedIdentityHash ∨
      handshake.membershipGeneration ≠ rt.state.membershipGeneration ∨
      handshake.activeMask ≠ rt.state.members.activeMask ∨
      handshake.parametersHash ≠ rt.state.parameters.parametersHash)
    (invalidConfiguration "HA handshake consensus parameters or membership mismatch")
  let senderSlot ← require (rt.state.members.slotFor handshake.sender) (.error .unknownSender)
  reject (rt.state.members.isActive senderSlot = false) (.error .unknownSender)
  let head ← rt.head
  reject (handshake.headNonce = head.nonce ∧ handshake.headHash ≠ head.hash)
    (wireProtocol "HA handshake reports a conflicting hash at the local head nonce")

end

/-- `commit_finalized_round`. A failed persist puts the round, the presence counters, the
epochs and the amendments back. -/
def commitFinalizedRound [AmendmentCodec W] (rt : HighAvailabilityRuntime W) (io : Bool) :
    Outcome W (Option (HaEpoch W)) :=
  match rt.state.round.finalized with
  | none => (.ok none, rt)
  | some finalized =>
    match rt.state.commitState finalized with
    | .error e => (.error e, rt)
    | .ok (epoch, next) =>
      match (rt.withState next).persist io with
      | .ok rt => (.ok (some epoch), rt)
      | .error e => (.error e, rt.withState { next with
          round := rt.state.round
          presence := rt.state.presence
          epochs := next.epochs.take rt.state.epochs.length
          amendments := next.amendments.take rt.state.amendments.length })

section Rounds

variable [AmendmentCodec W]

section

variable (rt : HighAvailabilityRuntime W)

def ownBlock (member : NodeIdentity W)
    (transactions : List (Transaction W)) (created : ℕ) : Block W :=
  let body : BlockBody W := { (BlockBody.empty created : BlockBody W) with
    lastEpoch := rt.state.round.roundId.previousEpochHash
    nonce := rt.state.round.roundId.nonce
    txs := transactions }
  Block.sealUnsigned ⟨default, default, body⟩ member.publicKey

/-- `build_dispatch_with_created`. Nothing is persisted. -/
def buildDispatch (transactions : List (Transaction W)) (created : ℕ) : Outcome W (HaDispatch W) :=
  let attempt : Result (HaDispatch W × HaRoundState W) := do
    rt.state.validateAmendmentTransactions transactions rt.state.round.roundId.nonce
    let member ← require (rt.state.members.member rt.state.selfSlot) (.error .unknownSender)
    let block := rt.ownBlock member transactions created
    let dispatch : HaDispatch W :=
      ⟨rt.state.round.roundId, rt.state.selfSlot, block.hash, block⟩
    let (_, round) ← rt.state.round.receiveDispatch rt.state.members dispatch
    pure (dispatch, round)
  match attempt with
  | .ok (dispatch, round) => (.ok dispatch, rt.withRound round)
  | .error e => (.error e, rt)

def receiveDispatch (rt : HighAvailabilityRuntime W) (dispatch : HaDispatch W) :
    Outcome W (HaRuntimeEvent W) :=
  if dispatch.roundId ≠ rt.state.round.roundId then
    if dispatch.roundId.nonce < rt.state.round.roundId.nonce then
      (.ok (.dispatch (.late dispatch.roundId.nonce)), rt)
    else
      (.error (wireProtocol "future HA dispatch cannot be applied before catch-up"), rt)
  else
    let attempt : Result (HaDispatchOutcome × HaRoundState W) := do
      rt.state.validateAmendmentTransactions dispatch.block.body.txs rt.state.round.roundId.nonce
      rt.state.round.receiveDispatch rt.state.members dispatch
    match attempt with
    | .ok (outcome, round) => (.ok (.dispatch outcome), rt.withRound round)
    | .error e => (.error e, rt)

omit [AmendmentCodec W] in
/-- `acknowledge`. A failed persist puts the member's own receipt mask back. -/
def acknowledge (rt : HighAvailabilityRuntime W) (io : Bool) : Outcome W (HaAcknowledge W) :=
  let attempt : Result (Fin 7 × HaAcknowledge W × HaRoundState W) := do
    let sender ← slotIndex rt.state.selfSlot
    let (acknowledgement, round) ← rt.state.round.acknowledge rt.state.members rt.state.selfSlot
    pure (sender, acknowledgement, round)
  match attempt with
  | .error e => (.error e, rt)
  | .ok (sender, acknowledgement, round) =>
    match (rt.withRound round).persist io with
    | .ok rt => (.ok acknowledgement, rt)
    | .error e => (.error e, rt.withRound { round with
        acknowledgements :=
          Function.update round.acknowledgements sender
            (rt.state.round.acknowledgements sender) })

omit [AmendmentCodec W] in
def receiveAcknowledgement (rt : HighAvailabilityRuntime W) (acknowledgement : HaAcknowledge W) :
    Outcome W (HaRuntimeEvent W) :=
  if acknowledgement.roundId.nonce < rt.state.round.roundId.nonce then
    if rt.state.epochs.any (fun epoch => decide (epoch.nonce = acknowledgement.roundId.nonce)) then
      (.ok .acknowledged, rt)
    else (.error (wireProtocol "HA acknowledgement targets an unknown stale epoch"), rt)
  else
    match rt.state.round.receiveAcknowledgement rt.state.members acknowledgement with
    | .ok round => (.ok .acknowledged, rt.withRound round)
    | .error e => (.error e, rt)

/-- `confirm`. The lock is persisted first; a failure there puts the confirmations, the
lock and the finalized round back. The commit that may follow can fail on its own. -/
def confirm (rt : HighAvailabilityRuntime W) (io commitIo : Bool) :
    Outcome W (HaConfirm W × Option (HaEpoch W)) :=
  match rt.state.round.confirm rt.state.members rt.state.selfSlot with
  | .error e => (.error e, rt)
  | .ok (confirmation, round) =>
    match (rt.withRound round).persist io with
    | .error e => (.error e, rt.withRound { round with
        confirmations := rt.state.round.confirmations
        confirmedCandidate := rt.state.round.confirmedCandidate
        finalized := rt.state.round.finalized })
    | .ok rt =>
      match rt.commitFinalizedRound commitIo with
      | (.ok epoch, rt) => (.ok (confirmation, epoch), rt)
      | (.error e, rt) => (.error e, rt)

/-- `receive_confirmation`. The recorded confirmation itself is not persisted. -/
def receiveConfirmation (rt : HighAvailabilityRuntime W) (confirmation : HaConfirm W)
    (io : Bool) : Outcome W (HaRuntimeEvent W) :=
  if confirmation.roundId.nonce < rt.state.round.roundId.nonce then
    match rt.state.epochs.find?
        (fun epoch => decide (epoch.nonce = confirmation.roundId.nonce)) with
    | none => (.error (wireProtocol "HA confirmation targets an unknown stale epoch"), rt)
    | some epoch =>
      if epoch.candidate.digest ≠ confirmation.candidate.digest then
        (.error (wireProtocol "stale HA confirmation conflicts with finalized candidate"), rt)
      else (.ok .confirmed, rt)
  else
    match rt.state.round.receiveConfirmation rt.state.members confirmation with
    | .error e => (.error e, rt)
    | .ok (_, round) =>
      match (rt.withRound round).commitFinalizedRound io with
      | (.ok (some epoch), rt) => (.ok (.finalized epoch), rt)
      | (.ok none, rt) => (.ok .confirmed, rt)
      | (.error e, rt) => (.error e, rt)

end

end Rounds

end HighAvailabilityRuntime

end Blossom
