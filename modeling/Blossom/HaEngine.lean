import Blossom.HaMembership

/-!
# Construction, compaction and recovery

A runtime is created from a genesis or reopened from its store. Sealed history can be
replaced by a certified checkpoint, and a recovery snapshot of a peer replaces the local
history if it extends it.
-/

namespace Blossom

open CheckedSteps BitMask

variable {W : Type} [ProtocolCrypto W]

namespace HighAvailabilityRuntime

def genesisState (groupId selfKey : W) (members : List (NodeIdentity W))
    (parameters : HighAvailabilityParameters) : Result (HighAvailabilityRuntimeState W) := do
  parameters.validate
  let members ← HaMemberSlots.new members
  let selfSlot ← require (members.slotFor selfKey) (.error .unknownSender)
  let genesis := HaEpoch.genesis groupId members parameters
  let roundId : HaRoundId W := {
    groupId := groupId
    fixedMembershipHash := members.fixedIdentityHash
    membershipGeneration := 0
    activeMask := members.activeMask
    parametersHash := parameters.parametersHash
    previousEpochHash := genesis.hash
    previousEpochNonce := genesis.nonce
    nonce := genesis.nonce + 1
    round := 0 }
  let round ← HaRoundState.new roundId members
  let state : HighAvailabilityRuntimeState W := {
    groupId := groupId
    selfSlot := selfSlot
    members := members
    membershipGeneration := 0
    parameters := parameters
    checkpoint := none
    epochs := [genesis]
    round := round
    presence := .initial
    membershipVoteLock := none
    membershipVotes := fun _ => none
    membershipChanges := []
    amendments := [] }
  state.validate
  pure state

def create (store : Option (HaDurableStore W)) (groupId selfKey : W)
    (members : List (NodeIdentity W)) (parameters : HighAvailabilityParameters) (io : Bool) :
    Result (HighAvailabilityRuntime W) := do
  let state ← genesisState groupId selfKey members parameters
  persist ⟨store, state⟩ io

/-- `open_store`: resumes from the persisted state, or creates a new one. -/
def openStore (store : HaDurableStore W) (groupId selfKey : W)
    (members : List (NodeIdentity W)) (parameters : HighAvailabilityParameters) (io : Bool) :
    Result (HighAvailabilityRuntime W) := do
  let (loaded, store) ← store.load
  match loaded with
  | none => create (some store) groupId selfKey members parameters io
  | some state =>
    let configured ← HaMemberSlots.new members
    reject (state.groupId ≠ groupId ∨ state.parameters ≠ parameters ∨
        state.members.sameFixedIdentities configured = false ∨
        (state.members.member state.selfSlot).all (fun m => decide (m.publicKey ≠ selfKey)) = true)
      (invalidConfiguration "durable HA runtime configuration mismatch")
    pure ⟨some store, state⟩

section

variable (rt : HighAvailabilityRuntime W)

def lifecycle (nonce : ℕ) : Result EpochLifecycle := do
  let head ← rt.head
  pure (epochLifecycle nonce head.nonce rt.state.parameters.mutableEpochDepth)

def replayCheckpointStateThrough (s : HighAvailabilityRuntimeState W) (targetIndex : ℕ) :
    Result (HaReplay W) :=
  s.replayStart.through s.parameters s.membershipChanges ((s.epochs.drop 1).take targetIndex)

def checkpointAt (s : HighAvailabilityRuntimeState W) (targetIndex : ℕ) (throughEpoch : HaEpoch W) :
    Result (HaHistoryCheckpoint W) := do
  let replayed ← replayCheckpointStateThrough s targetIndex
  let accumulator ← s.accumulateEpochs s.anchorAccumulator
    (s.unaccumulated (s.epochs.take (targetIndex + 1)))
  let checkpoint : HaHistoryCheckpoint W := {
    formatVersion := highAvailabilityHistoryCheckpointVersion
    groupId := s.groupId
    fixedMembershipHash := s.members.fixedIdentityHash
    parametersHash := s.parameters.parametersHash
    throughEpoch := throughEpoch
    membershipGeneration := replayed.generation
    activeMask := replayed.members.activeMask
    presence := replayed.presence
    historyAccumulator := accumulator
    approvalMask := throughEpoch.confirmationMask
    checkpointHash := default }
  let checkpoint := { checkpoint with checkpointHash := checkpoint.computeHash }
  checkpoint.validate s.members s.parameters
  pure checkpoint

/-- The state with the history before `through` replaced by a checkpoint. -/
def compactedState (s : HighAvailabilityRuntimeState W) (targetIndex through : ℕ)
    (checkpoint : HaHistoryCheckpoint W) : HighAvailabilityRuntimeState W :=
  { s with
    epochs := s.epochs.drop targetIndex
    membershipChanges := s.membershipChanges.filter
      fun certificate => decide (through < certificate.proposal.effectiveNonce)
    amendments := s.amendments.filter fun amendment => decide (through < amendment.targetEpochNonce)
    checkpoint := some checkpoint }

/-- `compact_history_through`. Any failure after the replacement puts the state back. -/
def compactHistoryThrough (through : ℕ) (io : Bool) : Outcome W (HaHistoryCheckpoint W) :=
  let attempt : Result (HaHistoryCheckpoint W × HighAvailabilityRuntime W) := do
    let lifecycle ← rt.lifecycle through
    reject (lifecycle ≠ .sealed)
      (invalidConfiguration "HA history can only compact through a sealed epoch")
    let targetIndex ← require
      (rt.state.epochs.findIdx? fun epoch => decide (epoch.nonce = through))
      (invalidConfiguration "HA checkpoint target is not in retained history")
    reject (targetIndex = 0)
      (invalidConfiguration "HA checkpoint target must advance the retained anchor")
    let revisionBefore ← rt.state.revision
    let throughEpoch ← require rt.state.epochs[targetIndex]? (.panicked "index out of bounds")
    let checkpoint ← checkpointAt rt.state targetIndex throughEpoch
    let next := compactedState rt.state targetIndex through checkpoint
    next.validate
    let revisionAfter ← next.revision
    reject (revisionAfter ≠ revisionBefore)
      (wireProtocol "HA compaction changed the state revision")
    let persisted ← (rt.withState next).persist io
    pure (checkpoint, persisted)
  match attempt with
  | .ok (checkpoint, rt) => (.ok checkpoint, rt)
  | .error e => (.error e, rt)

def recoverySnapshot : HaRecoverySnapshot W where
  formatVersion := highAvailabilityRecoverySnapshotVersion
  groupId := rt.state.groupId
  members := rt.state.members
  fixedMembershipHash := rt.state.members.fixedIdentityHash
  membershipGeneration := rt.state.membershipGeneration
  parameters := rt.state.parameters
  parametersHash := rt.state.parameters.parametersHash
  checkpoint := rt.state.checkpoint
  epochs := rt.state.epochs
  presence := rt.state.presence
  membershipChanges := rt.state.membershipChanges
  amendments := rt.state.amendments

def validateQuiescent (s : HighAvailabilityRuntimeState W) : Result Unit :=
  reject (s.round.receivedMask ≠ 0 ∨ (∃ i, s.round.acknowledgements i ≠ 0) ∨
      (∃ i, (s.round.confirmations i).isSome) ∨ s.round.confirmedCandidate.isSome ∨
      s.round.finalized.isSome ∨ s.membershipVoteLock.isSome ∨
      (∃ i, (s.membershipVotes i).isSome))
    (invalidConfiguration "HA recovery requires an empty local round with no durable vote lock")

/-- Whether the snapshot's checkpoint is at least as recent as the local head. -/
def checkpointCoversLocal (snapshot : HaRecoverySnapshot W) (localHead : HaEpoch W) : Bool :=
  snapshot.checkpoint.any fun checkpoint => decide (localHead.nonce ≤ checkpoint.throughEpoch.nonce)

def suffixContainsLocal (snapshot : HaRecoverySnapshot W) (localHead : HaEpoch W) : Bool :=
  snapshot.epochs.any fun epoch =>
    decide (epoch.nonce = localHead.nonce) && decide (epoch.hash = localHead.hash)

def validateSnapshotCheckpoint (snapshot : HaRecoverySnapshot W) : Result Unit :=
  match snapshot.checkpoint with
  | some checkpoint => checkpoint.validate snapshot.members snapshot.parameters
  | none => pure ()

def snapshotState (s : HighAvailabilityRuntimeState W) (snapshot : HaRecoverySnapshot W) :
    Result (HighAvailabilityRuntimeState W) := do
  snapshot.members.validate
  reject (snapshot.formatVersion ≠ highAvailabilityRecoverySnapshotVersion ∨
      snapshot.groupId ≠ s.groupId ∨ snapshot.parameters ≠ s.parameters ∨
      snapshot.parametersHash ≠ snapshot.parameters.parametersHash ∨
      snapshot.fixedMembershipHash ≠ snapshot.members.fixedIdentityHash ∨
      snapshot.members.sameFixedIdentities s.members = false)
    (invalidConfiguration "HA recovery snapshot configuration mismatch")
  validateSnapshotCheckpoint snapshot
  let localHead ← s.head
  let snapshotHead ← require snapshot.epochs.getLast? (.error .emptyEpochChain)
  reject (snapshotHead.nonce < localHead.nonce ∨
      (checkpointCoversLocal snapshot localHead = false ∧
        suffixContainsLocal snapshot localHead = false))
    (wireProtocol "HA recovery snapshot would roll back or replace finalized history")
  validateQuiescent s
  -- The local identities stay; only the active mask crosses the recovery boundary.
  let members := { s.members with activeMask := snapshot.members.activeMask }
  members.validate
  let replacement : HighAvailabilityRuntimeState W := {
    groupId := s.groupId
    selfSlot := s.selfSlot
    members := members
    membershipGeneration := snapshot.membershipGeneration
    parameters := s.parameters
    checkpoint := snapshot.checkpoint
    epochs := snapshot.epochs
    round := s.round
    presence := snapshot.presence
    membershipVoteLock := none
    membershipVotes := fun _ => none
    membershipChanges := snapshot.membershipChanges
    amendments := snapshot.amendments }
  let round ← HaRoundState.new (replacement.nextRoundId snapshotHead) members
  let replacement := { replacement with round := round }
  replacement.validate
  pure replacement

/-- `install_recovery_snapshot`. The replacement is persisted before it takes effect. -/
def installRecoverySnapshot (snapshot : HaRecoverySnapshot W)
    (io : Bool) : Outcome W (StateRevision W) :=
  let attempt : Result (HighAvailabilityRuntime W) := do
    let replacement ← snapshotState rt.state snapshot
    (rt.withState replacement).persist io
  match attempt with
  | .ok rt => (rt.state.revision, rt)
  | .error e => (.error e, rt)

end

variable [AmendmentCodec W]

def receiveMessage (rt : HighAvailabilityRuntime W) (message : HaMessage W) (io : Bool) :
    Outcome W (HaRuntimeEvent W) :=
  match message with
  | .handshake handshake =>
    match rt.validateHandshake handshake with
    | .ok _ => (.ok .handshakeAccepted, rt)
    | .error e => (.error e, rt)
  | .membershipVote vote => rt.receiveMembershipVote vote io
  | .dispatch dispatch => rt.receiveDispatch dispatch
  | .acknowledge acknowledgement => rt.receiveAcknowledgement acknowledgement
  | .confirm confirmation => rt.receiveConfirmation confirmation io

end HighAvailabilityRuntime

/-- The members with the public keys of `1` to `n`: a concrete group. -/
def numberedMembers {W : Type} (key : ℕ → W) (n : ℕ) : List (NodeIdentity W) :=
  (List.range' 1 n).map fun k => ⟨key k, [], [], 0, false⟩

end Blossom
