import Blossom.HaRound

/-!
# High-availability history records

Presence tracking, membership proposals and certificates, amendments, history
checkpoints and recovery snapshots, with the digests that bind them.
-/

namespace Blossom

open CheckedSteps BitMask MajorityQuorum

variable {W : Type}

def highAvailabilityRecoverySnapshotVersion : ℕ := 2
def highAvailabilityHistoryCheckpointVersion : ℕ := 1

inductive EpochLifecycle where
  | mutable (remainingSuccessors : ℕ)
  | sealed
  deriving DecidableEq

/-- `epoch_lifecycle`: an epoch is sealed once `mutableEpochDepth` successors follow it. -/
def epochLifecycle (epoch head mutableEpochDepth : ℕ) : EpochLifecycle :=
  if mutableEpochDepth ≤ head - epoch then .sealed
  else .mutable (mutableEpochDepth - (head - epoch))

inductive NodeAvailabilityStatus where
  | active
  | missing (consecutiveEpochs : ℕ)
  | unresponsive
  | suspended (since : ℕ)
  deriving DecidableEq

structure StateRevision (W : Type) where
  head : ℕ
  sealed : ℕ
  revisionHash : W
  deriving DecidableEq

structure HaHandshake (W : Type) where
  groupId : W
  sender : W
  fixedMembershipHash : W
  membershipGeneration : ℕ
  activeMask : Mask
  parametersHash : W
  headNonce : ℕ
  headHash : W
  deriving DecidableEq

structure HaPresenceTracker where
  missed : PerSlot ℕ
  statuses : PerSlot NodeAvailabilityStatus
  deriving DecidableEq

inductive HaMembershipAction (W : Type) where
  | suspend
  | reactivate (caughtUpThrough : ℕ) (checkpointHash stateRevision : W)
  deriving DecidableEq

structure HaMembershipProposal (W : Type) where
  groupId : W
  membershipGeneration : ℕ
  activeMask : Mask
  parametersHash : W
  effectiveNonce : ℕ
  slot : ℕ
  action : HaMembershipAction W
  digest : W
  deriving DecidableEq

structure HaMembershipVote (W : Type) where
  proposal : HaMembershipProposal W
  sender : ℕ
  deriving DecidableEq

structure HaMembershipCertificate (W : Type) where
  proposal : HaMembershipProposal W
  approvalMask : Mask
  deriving DecidableEq

structure CommandIdentity where
  clientId : ℕ
  clientEpoch : ℕ
  sequence : ℕ
  deriving DecidableEq

inductive AmendmentPayload (W : Type) where
  | lateBlock (blockHash : W) (blockBytes : List UInt8)
  | compensation (commandBytes : List UInt8)
  deriving DecidableEq

structure AmendmentRecord (W : Type) where
  targetEpochHash : W
  targetEpochNonce : ℕ
  containingEpochNonce : ℕ
  originSlot : ℕ
  commandIdentity : CommandIdentity
  supersedes : Option CommandIdentity
  payload : AmendmentPayload W
  deriving DecidableEq

structure HaHistoryCheckpoint (W : Type) where
  formatVersion : ℕ
  groupId : W
  fixedMembershipHash : W
  parametersHash : W
  throughEpoch : HaEpoch W
  membershipGeneration : ℕ
  activeMask : Mask
  presence : HaPresenceTracker
  historyAccumulator : W
  approvalMask : Mask
  checkpointHash : W
  deriving DecidableEq

structure HaRecoverySnapshot (W : Type) where
  formatVersion : ℕ
  groupId : W
  members : HaMemberSlots W
  fixedMembershipHash : W
  membershipGeneration : ℕ
  parameters : HighAvailabilityParameters
  parametersHash : W
  checkpoint : Option (HaHistoryCheckpoint W)
  epochs : List (HaEpoch W)
  presence : HaPresenceTracker
  membershipChanges : List (HaMembershipCertificate W)
  amendments : List (AmendmentRecord W)
  deriving DecidableEq

/-- The borsh codec of amendments inside transaction payloads. -/
class AmendmentCodec (W : Type) where
  encode : AmendmentRecord W → List UInt8
  decode : List UInt8 → Option (AmendmentRecord W)

/-- A codec with which no payload decodes. -/
instance : AmendmentCodec FreeWord := ⟨fun _ => [], fun _ => none⟩

namespace HaPresenceTracker

def maxMissed : ℕ := 2 ^ 32 - 1

def initial : HaPresenceTracker := ⟨fun _ => 0, fun _ => .active⟩

/-- The slots whose counters an epoch touches. -/
def observes (members : HaMemberSlots W) (i : Fin 7) : Bool :=
  decide (i.val < members.memberCount) && members.isActive i

section

variable (p : HaPresenceTracker)

def observeEpoch (members : HaMemberSlots W) (presenceMask : Mask)
    (parameters : HighAvailabilityParameters) : HaPresenceTracker where
  missed := fun i =>
    if observes members i then
      if hasBit presenceMask i then 0 else min (p.missed i + 1) maxMissed
    else p.missed i
  statuses := fun i =>
    if observes members i then
      if hasBit presenceMask i then .active
      else if parameters.unresponsiveEpochDepth ≤ min (p.missed i + 1) maxMissed then
        .unresponsive
      else .missing (min (p.missed i + 1) maxMissed)
    else p.statuses i

def status (slot : ℕ) : NodeAvailabilityStatus :=
  if h : slot < 7 then p.statuses ⟨slot, h⟩ else .unresponsive

def markSuspended (slot since : ℕ) : HaPresenceTracker :=
  if h : slot < 7 then
    { p with statuses := Function.update p.statuses ⟨slot, h⟩ (.suspended since) }
  else p

def markReactivated (slot : ℕ) : HaPresenceTracker :=
  if h : slot < 7 then
    { missed := Function.update p.missed ⟨slot, h⟩ 0
      statuses := Function.update p.statuses ⟨slot, h⟩ .active }
  else p

def statusFields : NodeAvailabilityStatus → List (Field W)
  | .active => [.num 0]
  | .missing n => [.num 1, .num n]
  | .unresponsive => [.num 2]
  | .suspended since => [.num 3, .num since]

def fields : List (Field W) :=
  (List.finRange 7).map (fun i => .num (p.missed i)) ++
    (List.finRange 7).flatMap (fun i => statusFields (p.statuses i))

end

end HaPresenceTracker

def CommandIdentity.fields (c : CommandIdentity) : List (Field W) :=
  [.num c.clientId, .num c.clientEpoch, .num c.sequence]

def AmendmentPayload.fields : AmendmentPayload W → List (Field W)
  | .lateBlock blockHash blockBytes =>
    [.num 0, .word blockHash, .num blockBytes.length, .bytes blockBytes]
  | .compensation commandBytes => [.num 1, .num commandBytes.length, .bytes commandBytes]

def HaMembershipAction.fields : HaMembershipAction W → List (Field W)
  | .suspend => [.num 0]
  | .reactivate caughtUpThrough checkpointHash stateRevision =>
    [.num 1, .num caughtUpThrough, .word checkpointHash, .word stateRevision]

variable [ProtocolCrypto W]

namespace HaMembershipProposal

def bodyFields (p : HaMembershipProposal W) : List (Field W) :=
  [Field.word p.groupId, .num p.membershipGeneration, .num p.activeMask.toNat,
    .word p.parametersHash, .num p.effectiveNonce, .num p.slot] ++ p.action.fields

def computeDigest (p : HaMembershipProposal W) : W :=
  protocolHash (.tag .haMembershipProposal :: p.bodyFields)

def new (groupId : W) (membershipGeneration : ℕ) (activeMask : Mask) (parametersHash : W)
    (effectiveNonce slot : ℕ) (action : HaMembershipAction W) : HaMembershipProposal W :=
  let proposal : HaMembershipProposal W := ⟨groupId, membershipGeneration, activeMask,
    parametersHash, effectiveNonce, slot, action, default⟩
  { proposal with digest := proposal.computeDigest }

end HaMembershipProposal

/-- The serialised certificate, as `hash_ha_record` hashes it. -/
def HaMembershipCertificate.fields (c : HaMembershipCertificate W) : List (Field W) :=
  c.proposal.bodyFields ++ [Field.word c.proposal.digest, .num c.approvalMask.toNat]

namespace AmendmentRecord

def fields (a : AmendmentRecord W) : List (Field W) :=
  [Field.word a.targetEpochHash, .num a.targetEpochNonce, .num a.containingEpochNonce,
    .num a.originSlot] ++ a.commandIdentity.fields ++
    optionFields CommandIdentity.fields a.supersedes ++ a.payload.fields

def recordHash (a : AmendmentRecord W) : W := protocolHash (.tag .haAmendment :: a.fields)

end AmendmentRecord

/-- The bytes of `BLOSSOM-HA-AMND1`. -/
def haAmendmentRecordPrefix : List UInt8 :=
  [66, 76, 79, 83, 83, 79, 77, 45, 72, 65, 45, 65, 77, 78, 68, 49]

def encodeAmendmentTransaction [AmendmentCodec W] (a : AmendmentRecord W) : Transaction W :=
  .new (haAmendmentRecordPrefix ++ AmendmentCodec.encode a)

def decodeAmendmentTransaction [AmendmentCodec W] (t : Transaction W) :
    Result (Option (AmendmentRecord W)) :=
  if haAmendmentRecordPrefix.isPrefixOf t.payload then do
    let amendment ← require (AmendmentCodec.decode (t.payload.drop haAmendmentRecordPrefix.length))
      (wireProtocol "decode HA amendment transaction")
    pure (some amendment)
  else pure none

def accumulateHistory (accumulator : W) (hashes : List W) : W :=
  hashes.foldl (fun acc h =>
    protocolHash [.tag .haHistoryAccumulator, .word acc, .word h]) accumulator

def StateRevision.fromHistoryAccumulator (head sealed : ℕ) (historyAccumulator : W) :
    StateRevision W where
  head := head
  sealed := sealed
  revisionHash := protocolHash
    [.tag .haRevision, .num head, .num sealed, .word historyAccumulator]

namespace HaHistoryCheckpoint

def computeHash (c : HaHistoryCheckpoint W) : W :=
  protocolHash ([Field.tag .haHistoryCheckpoint, .num c.formatVersion, .word c.groupId,
    .word c.fixedMembershipHash, .word c.parametersHash] ++ c.throughEpoch.fields ++
    [Field.num c.membershipGeneration, .num c.activeMask.toNat] ++ c.presence.fields ++
    [Field.word c.historyAccumulator, .num c.approvalMask.toNat, .word default])

def validate (c : HaHistoryCheckpoint W) (members : HaMemberSlots W)
    (parameters : HighAvailabilityParameters) : Result Unit := do
  reject (c.formatVersion ≠ highAvailabilityHistoryCheckpointVersion ∨
      c.groupId ≠ c.throughEpoch.groupId ∨
      c.fixedMembershipHash ≠ members.fixedIdentityHash ∨
      c.fixedMembershipHash ≠ c.throughEpoch.fixedMembershipHash ∨
      c.parametersHash ≠ parameters.parametersHash ∨
      c.parametersHash ≠ c.throughEpoch.parametersHash ∨
      c.membershipGeneration ≠ c.throughEpoch.membershipGeneration ∨
      c.activeMask ≠ c.throughEpoch.activeMask ∨
      c.approvalMask ≠ c.throughEpoch.confirmationMask ∨
      c.approvalMask &&& ~~~c.activeMask ≠ 0 ∨
      countOnes c.approvalMask < highAvailabilityMajority (countOnes c.activeMask) ∨
      c.checkpointHash ≠ c.computeHash)
    (wireProtocol "invalid certified HA history checkpoint")
  c.throughEpoch.validate members

end HaHistoryCheckpoint

end Blossom
