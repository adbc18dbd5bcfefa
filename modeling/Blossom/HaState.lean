import Blossom.HaStatus

/-!
# High-availability runtime state

The state one member holds, and its full validation: the epoch chain from its anchor,
the membership certificates and the presence counters replayed along it, and the
amendments. The persist check looks at the tip only.
-/

namespace Blossom

open CheckedSteps BitMask MajorityQuorum

variable {W : Type}

structure HighAvailabilityRuntimeState (W : Type) where
  groupId : W
  selfSlot : ℕ
  members : HaMemberSlots W
  membershipGeneration : ℕ
  parameters : HighAvailabilityParameters
  checkpoint : Option (HaHistoryCheckpoint W)
  epochs : List (HaEpoch W)
  round : HaRoundState W
  presence : HaPresenceTracker
  membershipVoteLock : Option W
  membershipVotes : PerSlot (Option W)
  membershipChanges : List (HaMembershipCertificate W)
  amendments : List (AmendmentRecord W)
  deriving DecidableEq

/-- What the replay of history carries along: the membership, the presence counters and
the membership generation. -/
structure HaReplay (W : Type) where
  members : HaMemberSlots W
  presence : HaPresenceTracker
  generation : ℕ
  deriving DecidableEq

/-- `u64::checked_add` of one on a membership generation. -/
def nextGeneration (generation : ℕ) : Result ℕ :=
  if generation + 1 < 2 ^ 64 then .ok (generation + 1)
  else .error (invalidConfiguration "HA membership generation overflow")

/-- The active mask after a certificate, as the certificate chain check computes it. -/
def certificateMask (activeMask : Mask) (proposal : HaMembershipProposal W) : Result Mask := do
  let bit ← memberSlotBit proposal.slot
  match proposal.action with
  | .suspend =>
    reject (activeMask &&& bit = 0 ∨ countOnes (activeMask &&& ~~~bit) < minHaNodes)
      (wireProtocol "invalid durable HA suspension certificate")
    pure (activeMask &&& ~~~bit)
  | .reactivate .. =>
    reject (activeMask &&& bit ≠ 0)
      (wireProtocol "invalid durable HA reactivation certificate")
    pure (activeMask ||| bit)

variable [ProtocolCrypto W]

def replayMembershipChange (members : HaMemberSlots W) (presence : HaPresenceTracker)
    (certificate : HaMembershipCertificate W) : Result (HaMemberSlots W × HaPresenceTracker) :=
  match certificate.proposal.action with
  | .suspend => do
    let next ← members.withSuspended certificate.proposal.slot
    pure (next, presence.markSuspended certificate.proposal.slot
      certificate.proposal.effectiveNonce)
  | .reactivate .. => do
    let next ← members.withReactivated certificate.proposal.slot
    pure (next, presence.markReactivated certificate.proposal.slot)

namespace HaReplay

def change (r : HaReplay W) (certificate : HaMembershipCertificate W) : Result (HaReplay W) := do
  let (members, presence) ← replayMembershipChange r.members r.presence certificate
  let generation ← nextGeneration r.generation
  pure ⟨members, presence, generation⟩

/-- Replays the certificates effective at `nonce` from the front of the list. -/
def changesAt (nonce : ℕ) (r : HaReplay W) :
    List (HaMembershipCertificate W) → Result (HaReplay W × List (HaMembershipCertificate W))
  | [] => pure (r, [])
  | certificate :: rest =>
    if certificate.proposal.effectiveNonce = nonce then do
      let r ← r.change certificate
      changesAt nonce r rest
    else pure (r, certificate :: rest)

def observe (r : HaReplay W) (parameters : HighAvailabilityParameters) (epoch : HaEpoch W) :
    HaReplay W :=
  { r with presence := r.presence.observeEpoch r.members epoch.presenceMask parameters }

def overEpochs (parameters : HighAvailabilityParameters) (r : HaReplay W)
    (changes : List (HaMembershipCertificate W)) :
    List (HaEpoch W) → Result (HaReplay W × List (HaMembershipCertificate W))
  | [] => pure (r, changes)
  | epoch :: rest => do
    let (r, changes) ← r.changesAt epoch.nonce changes
    reject (changes.head?.any (fun c => decide (c.proposal.effectiveNonce < epoch.nonce)) = true ∨
        epoch.membershipGeneration ≠ r.generation ∨ epoch.activeMask ≠ r.members.activeMask)
      (wireProtocol "HA epoch membership generation does not match its certificate chain")
    overEpochs parameters (r.observe parameters epoch) changes rest

def pending (nonce : ℕ) (r : HaReplay W) : List (HaMembershipCertificate W) → Result (HaReplay W)
  | [] => pure r
  | certificate :: rest => do
    reject (certificate.proposal.effectiveNonce ≠ nonce)
      (wireProtocol "HA membership certificate is not effective at an epoch boundary")
    let r ← r.change certificate
    pending nonce r rest

/-- The replay loop of `replay_checkpoint_state_through`, which checks no epoch. -/
def through (parameters : HighAvailabilityParameters) (r : HaReplay W)
    (changes : List (HaMembershipCertificate W)) : List (HaEpoch W) → Result (HaReplay W)
  | [] => pure r
  | epoch :: rest => do
    let (r, changes) ← r.changesAt epoch.nonce changes
    through parameters (r.observe parameters epoch) changes rest

end HaReplay

namespace HighAvailabilityRuntimeState

section

variable (s : HighAvailabilityRuntimeState W)

def head : Result (HaEpoch W) :=
  require s.epochs.getLast? (.panicked "HA runtime always has genesis")

def sealedNonce : Result ℕ := do
  let head ← s.head
  pure (head.nonce - s.parameters.mutableEpochDepth)

def genesisMembers : HaMemberSlots W :=
  { s.members with activeMask := lowBits 8 s.members.memberCount }

/-- Where the replay of the retained history starts. -/
def replayStart : HaReplay W :=
  match s.checkpoint with
  | some checkpoint => ⟨{ s.members with activeMask := checkpoint.activeMask },
      checkpoint.presence, checkpoint.membershipGeneration⟩
  | none => ⟨s.genesisMembers, .initial, 0⟩

def nextRoundId (previous : HaEpoch W) : HaRoundId W where
  groupId := s.groupId
  fixedMembershipHash := s.members.fixedIdentityHash
  membershipGeneration := s.membershipGeneration
  activeMask := s.members.activeMask
  parametersHash := s.parameters.parametersHash
  previousEpochHash := previous.hash
  previousEpochNonce := previous.nonce
  nonce := previous.nonce + 1
  round := 0

def validateAnchor : Result Unit := do
  match s.checkpoint with
  | some checkpoint =>
    checkpoint.validate s.members s.parameters
    reject (s.epochs.head? ≠ some checkpoint.throughEpoch)
      (wireProtocol "HA retained history does not begin at its certified checkpoint")
  | none =>
    reject (s.epochs.head? ≠ some (.genesis s.groupId s.genesisMembers s.parameters))
      (wireProtocol "HA genesis does not match the committed fixed membership")

/-- The part of an epoch that repeats the runtime's own envelope. -/
def MatchesEnvelope (epoch : HaEpoch W) : Prop :=
  epoch.groupId = s.groupId ∧ epoch.fixedMembershipHash = s.members.fixedIdentityHash ∧
    epoch.parameters = s.parameters ∧ epoch.parametersHash = s.parameters.parametersHash

end

instance (s : HighAvailabilityRuntimeState W) (epoch : HaEpoch W) :
    Decidable (s.MatchesEnvelope epoch) :=
  inferInstanceAs (Decidable (_ ∧ _))

def validateLink (s : HighAvailabilityRuntimeState W) (previous epoch : HaEpoch W) :
    Result Unit := do
  reject (epoch.previousEpochHash ≠ previous.hash ∨
      epoch.previousEpochNonce ≠ some previous.nonce ∨ epoch.nonce ≠ previous.nonce + 1)
    (wireProtocol "HA epoch chain linkage mismatch")
  epoch.validate s.members

/-- The loop over the retained epochs; `previous` is the epoch before the list. -/
def validateEpochs (s : HighAvailabilityRuntimeState W) (previous : Option (HaEpoch W)) :
    List (HaEpoch W) → Result Unit
  | [] => pure ()
  | epoch :: rest => do
    reject (¬s.MatchesEnvelope epoch)
      (invalidConfiguration "HA epoch parameters or group mismatch")
    reject (epoch.hash ≠ epoch.computeHash) (wireProtocol "HA epoch hash mismatch")
    match previous with
    | some previous => s.validateLink previous epoch
    | none => pure ()
    s.validateEpochs (some epoch) rest

def RoundExtends (s : HighAvailabilityRuntimeState W) (tip : HaEpoch W) : Prop :=
  s.round.roundId.groupId = s.groupId ∧
    s.round.roundId.fixedMembershipHash = s.members.fixedIdentityHash ∧
    s.round.roundId.membershipGeneration = s.membershipGeneration ∧
    s.round.roundId.activeMask = s.members.activeMask ∧
    s.round.roundId.parametersHash = s.parameters.parametersHash ∧
    s.round.roundId.previousEpochHash = tip.hash ∧
    s.round.roundId.previousEpochNonce = tip.nonce ∧ s.round.roundId.nonce = tip.nonce + 1

instance (s : HighAvailabilityRuntimeState W) (tip : HaEpoch W) :
    Decidable (s.RoundExtends tip) :=
  inferInstanceAs (Decidable (_ ∧ _))

section

variable (s : HighAvailabilityRuntimeState W)

def validateVotes : Result Unit := do
  (List.finRange 7).forM fun i =>
    reject (s.members.memberCount ≤ i.val ∧ (s.membershipVotes i).isSome)
      (wireProtocol "HA membership vote references an unassigned slot")
  match s.membershipVoteLock with
  | some locked => do
    let slot ← slotIndex s.selfSlot
    reject (s.membershipVotes slot ≠ some locked)
      (wireProtocol "HA durable membership vote lock is missing its local vote")
  | none => pure ()

def validateCertificate (expected : ℕ × Mask)
    (certificate : HaMembershipCertificate W) : Result (ℕ × Mask) := do
  let proposal := certificate.proposal
  reject (proposal.digest ≠ proposal.computeDigest ∨ proposal.groupId ≠ s.groupId ∨
      proposal.membershipGeneration ≠ expected.1 ∨ proposal.activeMask ≠ expected.2 ∨
      proposal.parametersHash ≠ s.parameters.parametersHash ∨
      certificate.approvalMask &&& ~~~expected.2 ≠ 0 ∨
      countOnes certificate.approvalMask < highAvailabilityMajority (countOnes expected.2))
    (wireProtocol "invalid durable HA membership certificate chain")
  let mask ← certificateMask expected.2 proposal
  let generation ← nextGeneration expected.1
  pure (generation, mask)

def validateCertificates : Result Unit := do
  let reached ← s.membershipChanges.foldlM s.validateCertificate
    (s.replayStart.generation, s.replayStart.members.activeMask)
  reject (reached ≠ (s.membershipGeneration, s.members.activeMask))
    (wireProtocol "HA membership certificates do not reconstruct current membership")

def validateReplay (tip : HaEpoch W) : Result Unit := do
  let (replayed, changes) ←
    s.replayStart.overEpochs s.parameters s.membershipChanges s.epochs.tail
  let final ← replayed.pending (tip.nonce + 1) changes
  reject (final.generation ≠ s.membershipGeneration ∨
      final.members.activeMask ≠ s.members.activeMask ∨ final.presence ≠ s.presence)
    (wireProtocol "HA recovered presence or membership state is not deterministic")

def validateAmendmentStructure (amendment : AmendmentRecord W) : Result Unit := do
  reject ((s.members.member amendment.originSlot).isNone) (.error .unknownSender)
  let target ← require
    (s.epochs.find? fun epoch => decide (epoch.nonce = amendment.targetEpochNonce))
    (invalidConfiguration "HA amendment target epoch is not in the local chain")
  reject (target.hash ≠ amendment.targetEpochHash)
    (wireProtocol "HA amendment target hash mismatch")
  reject ((s.epochs.any fun epoch => decide (epoch.nonce = amendment.containingEpochNonce)) =
      false ∨ amendment.containingEpochNonce ≤ amendment.targetEpochNonce)
    (invalidConfiguration "HA amendment must be carried by a later committed epoch")

def validate (s : HighAvailabilityRuntimeState W) : Result Unit := do
  s.parameters.validate
  s.members.validate
  reject ((s.members.member s.selfSlot).isNone) (.error .unknownSender)
  reject (s.epochs = []) (.error .emptyEpochChain)
  s.validateAnchor
  s.validateEpochs none s.epochs
  let tip ← s.head
  reject (s.checkpoint.any (fun checkpoint =>
      decide (tip.nonce - s.parameters.mutableEpochDepth < checkpoint.throughEpoch.nonce)) = true)
    (wireProtocol "HA checkpoint is newer than the sealed watermark")
  reject (¬s.RoundExtends tip) (wireProtocol "HA current round does not extend the epoch tip")
  s.validateVotes
  s.validateCertificates
  s.validateReplay tip
  s.amendments.forM s.validateAmendmentStructure

def validatePersistTip : Result Unit := do
  s.parameters.validate
  s.members.validate
  reject ((s.members.member s.selfSlot).isNone) (.error .unknownSender)
  let tip ← require s.epochs.getLast? (.error .emptyEpochChain)
  reject (¬(s.MatchesEnvelope tip ∧ tip.hash = tip.computeHash))
    (invalidConfiguration "HA durable tip does not match its runtime envelope")
  if 1 < s.epochs.length then tip.validate s.members
  reject (¬s.RoundExtends tip)
    (wireProtocol "HA current round does not extend the durable epoch tip")
  s.validateVotes

def validateNewAmendment (amendment : AmendmentRecord W) : Result Unit := do
  s.validateAmendmentStructure amendment
  let head ← s.head
  let sealedNonce ← s.sealedNonce
  reject (epochLifecycle amendment.targetEpochNonce head.nonce s.parameters.mutableEpochDepth =
      .sealed)
    (.error (.epochSealed amendment.targetEpochNonce sealedNonce s.round.roundId.nonce))

end

end HighAvailabilityRuntimeState

end Blossom
