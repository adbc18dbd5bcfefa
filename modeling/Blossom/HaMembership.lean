import Blossom.HaRuntime

/-!
# Membership votes and amendments

A member votes for one membership change at a time; the vote is locked and persisted before it is
sent.
-/

namespace Blossom

open CheckedSteps

variable {W : Type} [ProtocolCrypto W]

namespace HighAvailabilityRuntime

section

variable (rt : HighAvailabilityRuntime W)

/-- `apply_membership_certificate`. Any failure puts every changed field back. -/
def applyMembershipCertificate (certificate : HaMembershipCertificate W) (io : Bool) :
    Outcome W Unit :=
  let attempt : Result (HighAvailabilityRuntimeState W) := do
    rt.state.validateMembershipProposal certificate.proposal
    rt.state.certificateState certificate
  match attempt with
  | .error e => (.error e, rt)
  | .ok next =>
    match (rt.withState next).persist io with
    | .ok rt => (.ok (), rt)
    | .error e => (.error e, rt.withState { next with
        members := rt.state.members
        membershipGeneration := rt.state.membershipGeneration
        membershipChanges := next.membershipChanges.take rt.state.membershipChanges.length
        membershipVoteLock := rt.state.membershipVoteLock
        membershipVotes := rt.state.membershipVotes
        presence := rt.state.presence
        round := rt.state.round })

def tryCommitMembershipProposal (proposal : HaMembershipProposal W) (io : Bool) :
    Outcome W (Option (HaMembershipCertificate W)) :=
  let approvalMask := rt.state.approvalMask proposal
  if BitMask.countOnes approvalMask < rt.state.members.majority then (.ok none, rt)
  else
    let certificate : HaMembershipCertificate W := ⟨proposal, approvalMask⟩
    match rt.applyMembershipCertificate certificate io with
    | (.ok _, rt) => (.ok (some certificate), rt)
    | (.error e, rt) => (.error e, rt)

def restoreVotes (previous : HighAvailabilityRuntimeState W) : HighAvailabilityRuntime W :=
  rt.withState { rt.state with
    membershipVoteLock := previous.membershipVoteLock
    membershipVotes := previous.membershipVotes }

/-- `cast_membership_vote`. The lock is durable before the vote may be sent. -/
def castMembershipVote (proposal : HaMembershipProposal W)
    (io : Bool) : Outcome W (HaMembershipVote W × Option (HaMembershipCertificate W)) :=
  let attempt : Result (Fin 7) := do
    rt.state.validateMembershipProposal proposal
    reject (rt.state.membershipVoteLock.any (fun locked => decide (locked ≠ proposal.digest)) = true)
      (wireProtocol "HA member already voted for a conflicting membership change")
    slotIndex rt.state.selfSlot
  match attempt with
  | .error e => (.error e, rt)
  | .ok sender =>
    let vote : HaMembershipVote W := ⟨proposal, rt.state.selfSlot⟩
    let voted := rt.withState { rt.state with
      membershipVoteLock := some proposal.digest
      membershipVotes := Function.update rt.state.membershipVotes sender (some proposal.digest) }
    match voted.tryCommitMembershipProposal proposal io with
    | (.error e, after) => (.error e, after.restoreVotes rt.state)
    | (.ok (some certificate), after) => (.ok (vote, some certificate), after)
    | (.ok none, after) =>
      match after.persist io with
      | .ok persisted => (.ok (vote, none), persisted)
      | .error e => (.error e, after.restoreVotes rt.state)

/-- The proposal a member makes about `slot` at the current boundary. -/
def ownProposal (slot : ℕ) (action : HaMembershipAction W) : HaMembershipProposal W :=
  .new rt.state.groupId rt.state.membershipGeneration rt.state.members.activeMask
    rt.state.parameters.parametersHash rt.state.round.roundId.nonce slot action

def voteToSuspend (slot : ℕ) (io : Bool) :
    Outcome W (HaMembershipVote W × Option (HaMembershipCertificate W)) :=
  match rt.state.requireEpochBoundaryForMembershipChange with
  | .error e => (.error e, rt)
  | .ok _ => rt.castMembershipVote (rt.ownProposal slot .suspend) io

def voteToReactivate (slot caughtUpThrough : ℕ) (io : Bool) :
    Outcome W (HaMembershipVote W × Option (HaMembershipCertificate W)) :=
  let attempt : Result (HaMembershipProposal W) := do
    rt.state.requireEpochBoundaryForMembershipChange
    let head ← rt.head
    reject (caughtUpThrough ≠ head.nonce)
      (invalidConfiguration "HA reactivation receipt must name the exact current checkpoint")
    let revision ← rt.state.revision
    pure (rt.ownProposal slot (.reactivate caughtUpThrough head.hash revision.revisionHash))
  match attempt with
  | .error e => (.error e, rt)
  | .ok proposal => rt.castMembershipVote proposal io

/-- `receive_membership_vote`. A peer's vote is recorded in memory only. -/
def receiveMembershipVote (vote : HaMembershipVote W) (io : Bool) : Outcome W (HaRuntimeEvent W) :=
  if vote.proposal.membershipGeneration < rt.state.membershipGeneration then
    match rt.state.membershipChanges.find?
        (fun certificate => decide (certificate.proposal.digest = vote.proposal.digest)) with
    | some certificate => (.ok (.membershipChanged certificate), rt)
    | none => (.error (wireProtocol "stale HA membership vote has no committed certificate"), rt)
  else
    let attempt : Result (Fin 7) := do
      rt.state.requireEpochBoundaryForMembershipChange
      rt.state.validateMembershipProposal vote.proposal
      let bit ← memberSlotBit vote.sender
      reject (vote.proposal.activeMask &&& bit = 0) (.error .unknownSender)
      slotIndex vote.sender
    match attempt with
    | .error e => (.error e, rt)
    | .ok sender =>
      match rt.state.membershipVotes sender with
      | some existing =>
        if existing = vote.proposal.digest then (.ok .membershipVoteAccepted, rt)
        else (.error (wireProtocol "HA member sent conflicting membership votes"), rt)
      | none =>
        let recorded := rt.withState { rt.state with
          membershipVotes :=
            Function.update rt.state.membershipVotes sender (some vote.proposal.digest) }
        match recorded.tryCommitMembershipProposal vote.proposal io with
        | (.error e, after) => (.error e, after.restoreVotes rt.state)
        | (.ok (some certificate), after) => (.ok (.membershipChanged certificate), after)
        | (.ok none, after) => (.ok .membershipVoteAccepted, after)

end

section Amendments

variable [AmendmentCodec W]

def epochTransactions (epoch : HaEpoch W) : List (Transaction W) :=
  epoch.orderedBlocks.flatMap fun entry => entry.2.body.txs

def carriesAmendment (transactions : List (Transaction W)) (amendment : AmendmentRecord W) :
    Result Bool :=
  transactions.foldlM (fun committed transaction => do
    let decoded ← decodeAmendmentTransaction transaction
    pure (committed ||
      decoded.any fun candidate => decide (candidate.recordHash = amendment.recordHash))) false

/-- `append_amendment`. An amendment already present is not appended again. -/
def appendAmendment (rt : HighAvailabilityRuntime W) (amendment : AmendmentRecord W)
    (io : Bool) : Outcome W (StateRevision W) :=
  let attempt : Result Unit := do
    rt.state.validateNewAmendment amendment
    let containing ← require (rt.state.epochs.find?
        fun epoch => decide (epoch.nonce = amendment.containingEpochNonce))
      (invalidConfiguration "HA amendment containing epoch is not committed")
    let committed ← carriesAmendment (epochTransactions containing) amendment
    reject (committed = false)
      (invalidConfiguration "HA amendment bytes are not committed by the containing epoch")
  match attempt with
  | .error e => (.error e, rt)
  | .ok _ =>
    match rt.state.amendments.find?
        (fun existing => decide (existing.commandIdentity = amendment.commandIdentity)) with
    | some existing =>
      if existing.recordHash = amendment.recordHash then (rt.state.revision, rt)
      else (.error (invalidConfiguration
        "conflicting HA amendment bytes for one command identity"), rt)
    | none =>
      let pushed := { rt.state with amendments := rt.state.amendments ++ [amendment] }
      match (rt.withState pushed).persist io with
      | .ok rt => (rt.state.revision, rt)
      | .error e => (.error e,
          rt.withState { pushed with amendments := pushed.amendments.dropLast })

end Amendments

end HighAvailabilityRuntime

end Blossom
