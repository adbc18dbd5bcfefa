import Blossom.HaParameters

/-!
# High-availability rounds

One round collects at most one block for each active slot, the slots' receipt masks and their
confirmations.
-/

namespace Blossom

open CheckedSteps BitMask MajorityQuorum

variable {W : Type}

/-- Array indexing by a slot number: an index outside the array panics. -/
def slotIndex (slot : ℕ) : Result (Fin 7) :=
  if h : slot < 7 then .ok ⟨slot, h⟩ else .error (.panicked "index out of bounds")

structure HaRoundId (W : Type) where
  groupId : W
  fixedMembershipHash : W
  membershipGeneration : ℕ
  activeMask : Mask
  parametersHash : W
  previousEpochHash : W
  previousEpochNonce : ℕ
  nonce : ℕ
  round : ℕ
  deriving DecidableEq

structure HaCandidate (W : Type) where
  includedMask : Mask
  presenceMask : Mask
  blockHashes : PerSlot W
  digest : W
  deriving DecidableEq

structure HaOrderedSlots where
  len : ℕ
  slots : PerSlot ℕ
  deriving DecidableEq

structure HaDispatch (W : Type) where
  roundId : HaRoundId W
  sender : ℕ
  blockHash : W
  block : Block W
  deriving DecidableEq

structure HaAcknowledge (W : Type) where
  roundId : HaRoundId W
  sender : ℕ
  receivedMask : Mask
  blockHashes : PerSlot W
  deriving DecidableEq

structure HaConfirm (W : Type) where
  roundId : HaRoundId W
  sender : ℕ
  candidate : HaCandidate W
  deriving DecidableEq

inductive HaDispatchOutcome where
  | accepted
  | duplicate
  | late (targetEpoch : ℕ)
  deriving DecidableEq

structure HaFinalizedRound (W : Type) where
  roundId : HaRoundId W
  candidate : HaCandidate W
  confirmationMask : Mask
  presenceMask : Mask
  orderedSlots : HaOrderedSlots
  deriving DecidableEq

structure HaEpoch (W : Type) where
  hash : W
  groupId : W
  fixedMembershipHash : W
  membershipGeneration : ℕ
  activeMask : Mask
  previousEpochHash : W
  previousEpochNonce : Option ℕ
  nonce : ℕ
  candidate : HaCandidate W
  confirmationMask : Mask
  presenceMask : Mask
  orderedSlots : HaOrderedSlots
  blocks : PerSlot (Option (Block W))
  parameters : HighAvailabilityParameters
  parametersHash : W
  deriving DecidableEq

structure HaRoundState (W : Type) where
  roundId : HaRoundId W
  blocks : PerSlot (Option (Block W))
  blockHashes : PerSlot W
  receivedMask : Mask
  acknowledgements : PerSlot Mask
  confirmations : PerSlot (Option W)
  confirmedCandidate : Option W
  finalized : Option (HaFinalizedRound W)
  deriving DecidableEq

namespace HaOrderedSlots

def asSlice (o : HaOrderedSlots) : List ℕ := ((List.finRange 7).map o.slots).take o.len

def ofList (xs : List ℕ) : HaOrderedSlots := ⟨xs.length, fun i => xs[i.val]?.getD 0⟩

def empty : HaOrderedSlots := ofList []

end HaOrderedSlots

def maskedHashes [Inhabited W] (mask : Mask) (hashes : PerSlot W) : PerSlot W :=
  fun i => if hasBit mask i then hashes i else default

variable [ProtocolCrypto W]

namespace HaRoundId

def validateFor (r : HaRoundId W) (members : HaMemberSlots W) : Result Unit := do
  reject (r.fixedMembershipHash ≠ members.fixedIdentityHash ∨ r.activeMask ≠ members.activeMask)
    (wireProtocol "HA message fixed membership or active membership mask mismatch")
  reject (r.nonce ≠ r.previousEpochNonce + 1) (.error .invalidEpochNonce)

def fields (r : HaRoundId W) : List (Field W) :=
  [.word r.groupId, .word r.fixedMembershipHash, .num r.membershipGeneration,
    .num r.activeMask.toNat, .word r.parametersHash, .word r.previousEpochHash,
    .num r.previousEpochNonce, .num r.nonce, .num r.round]

end HaRoundId

def includedFields (includedMask : Mask) (blockHashes : PerSlot W) : List (Field W) :=
  (List.finRange 7).flatMap fun i : Fin 7 =>
    if hasBit includedMask i then [.num i.val, .word (blockHashes i)] else []

def candidateDigest (roundId : HaRoundId W) (includedMask presenceMask : Mask)
    (blockHashes : PerSlot W) : W :=
  protocolHash (.tag .haCandidate :: roundId.fields ++
    [Field.num includedMask.toNat, .num presenceMask.toNat] ++
    includedFields includedMask blockHashes)

namespace HaCandidate

def fromRound (roundId : HaRoundId W) (includedMask presenceMask : Mask)
    (blockHashes : PerSlot W) : HaCandidate W :=
  ⟨includedMask, presenceMask, blockHashes,
    candidateDigest roundId includedMask presenceMask blockHashes⟩

def validate (c : HaCandidate W) (roundId : HaRoundId W) : Result Unit := do
  reject (c.includedMask = 0 ∨ c.includedMask &&& ~~~roundId.activeMask ≠ 0)
    (wireProtocol "HA candidate mask is empty or references an inactive slot")
  reject (c.presenceMask &&& ~~~roundId.activeMask ≠ 0 ∨
      c.presenceMask &&& c.includedMask ≠ c.includedMask)
    (wireProtocol
      "HA candidate presence must include every block origin and only active members")
  (List.finRange 7).forM fun i =>
    reject (¬hasBit c.includedMask i ∧ c.blockHashes i ≠ default)
      (wireProtocol "HA candidate contains a hash outside its included mask")
  reject (c.digest ≠ candidateDigest roundId c.includedMask c.presenceMask c.blockHashes)
    (wireProtocol "HA candidate digest mismatch")

/-- Insertion from the back: `slot` moves past every larger predecessor. The list holds
the slots placed so far, last one first. -/
def insertSlot (blockHashes : PerSlot W) (slot : Fin 7) : List (Fin 7) → List (Fin 7)
  | [] => [slot]
  | previous :: rest =>
    if blockHashes previous < blockHashes slot ∨
        (blockHashes slot = blockHashes previous ∧ previous ≤ slot) then
      slot :: previous :: rest
    else previous :: insertSlot blockHashes slot rest

def sortedSlots (c : HaCandidate W) : List (Fin 7) :=
  ((List.finRange 7).foldl (fun placed (slot : Fin 7) =>
    if hasBit c.includedMask slot then insertSlot c.blockHashes slot placed else placed) []).reverse

def orderedSlots (c : HaCandidate W) : HaOrderedSlots := .ofList (c.sortedSlots.map Fin.val)

def fields (c : HaCandidate W) : List (Field W) :=
  [Field.num c.includedMask.toNat, .num c.presenceMask.toNat] ++
    (List.finRange 7).map (fun i => .word (c.blockHashes i)) ++ [Field.word c.digest]

end HaCandidate

def HaOrderedSlots.fields (o : HaOrderedSlots) : List (Field W) :=
  .num o.len :: (List.finRange 7).map (fun i => .num (o.slots i))

namespace HaEpoch

def computeHash (e : HaEpoch W) : W :=
  protocolHash ([Field.tag .haEpoch, .word e.groupId, .word e.fixedMembershipHash,
    .num e.membershipGeneration, .num e.activeMask.toNat, .word e.previousEpochHash] ++
    optionFields (fun n => [.num n]) e.previousEpochNonce ++
    [Field.num e.nonce, .word e.candidate.digest, .num e.presenceMask.toNat,
      .word e.parametersHash])

def withHash (e : HaEpoch W) : HaEpoch W := { e with hash := e.computeHash }

def fromFinalized (f : HaFinalizedRound W) (blocks : PerSlot (Option (Block W)))
    (parameters : HighAvailabilityParameters) : HaEpoch W :=
  withHash {
    hash := default
    groupId := f.roundId.groupId
    fixedMembershipHash := f.roundId.fixedMembershipHash
    membershipGeneration := f.roundId.membershipGeneration
    activeMask := f.roundId.activeMask
    previousEpochHash := f.roundId.previousEpochHash
    previousEpochNonce := some f.roundId.previousEpochNonce
    nonce := f.roundId.nonce
    candidate := f.candidate
    confirmationMask := f.confirmationMask
    presenceMask := f.presenceMask
    orderedSlots := f.orderedSlots
    blocks := blocks
    parameters := parameters
    parametersHash := parameters.parametersHash }

def genesis (groupId : W) (members : HaMemberSlots W)
    (parameters : HighAvailabilityParameters) : HaEpoch W :=
  let roundId : HaRoundId W := {
    groupId := groupId
    fixedMembershipHash := members.fixedIdentityHash
    membershipGeneration := 0
    activeMask := members.activeMask
    parametersHash := parameters.parametersHash
    previousEpochHash := default
    previousEpochNonce := 0
    nonce := 0
    round := 0 }
  withHash {
    hash := default
    groupId := groupId
    fixedMembershipHash := members.fixedIdentityHash
    membershipGeneration := 0
    activeMask := members.activeMask
    previousEpochHash := default
    previousEpochNonce := none
    nonce := 0
    candidate := .fromRound roundId 1 1 (fun _ => default)
    confirmationMask := members.activeMask
    presenceMask := members.activeMask
    orderedSlots := .empty
    blocks := fun _ => none
    parameters := parameters
    parametersHash := parameters.parametersHash }

def roundId (e : HaEpoch W) : HaRoundId W where
  groupId := e.groupId
  fixedMembershipHash := e.fixedMembershipHash
  membershipGeneration := e.membershipGeneration
  activeMask := e.activeMask
  parametersHash := e.parametersHash
  previousEpochHash := e.previousEpochHash
  previousEpochNonce := e.previousEpochNonce.getD 0
  nonce := e.nonce
  round := 0

def validateBlock (e : HaEpoch W) (i : Fin 7) : Result Unit :=
  if hasBit e.candidate.includedMask i then do
    let block ← require (e.blocks i)
      (wireProtocol "HA epoch candidate references a missing block")
    block.verifyUnsignedIntegrityWithHash (e.candidate.blockHashes i)
  else
    reject ((e.blocks i).isSome)
      (wireProtocol "HA epoch stores a block outside its finalized candidate")

def validate (e : HaEpoch W) (members : HaMemberSlots W) : Result Unit := do
  e.parameters.validate
  reject (e.parametersHash ≠ e.parameters.parametersHash)
    (invalidConfiguration "HA epoch parameters hash mismatch")
  reject (e.fixedMembershipHash ≠ members.fixedIdentityHash)
    (invalidConfiguration "HA epoch fixed membership hash mismatch")
  reject (e.activeMask &&& ~~~lowBits 8 members.memberCount ≠ 0)
    (wireProtocol "HA epoch active mask references an unknown member")
  reject (e.previousEpochNonce.any (fun previous => decide (previous + 1 ≠ e.nonce)) = true)
    (.error .invalidEpochNonce)
  reject (e.hash ≠ e.computeHash) (.error .invalidBlockHash)
  e.candidate.validate e.roundId
  reject (e.confirmationMask &&& ~~~e.activeMask ≠ 0 ∨
      countOnes e.confirmationMask < highAvailabilityMajority (countOnes e.activeMask))
    (wireProtocol "HA epoch does not carry a strict-majority confirmation certificate")
  reject (e.presenceMask ≠ e.candidate.presenceMask ∨
      e.orderedSlots ≠ e.candidate.orderedSlots)
    (wireProtocol "HA epoch presence or fixed ordering disagrees with its candidate")
  (List.finRange 7).forM e.validateBlock

def orderedBlocks (e : HaEpoch W) : List (ℕ × Block W) :=
  e.orderedSlots.asSlice.filterMap fun slot => (slotGet e.blocks slot).map (fun b => (slot, b))

def fields (e : HaEpoch W) : List (Field W) :=
  [Field.word e.hash, .word e.groupId, .word e.fixedMembershipHash, .num e.membershipGeneration,
    .num e.activeMask.toNat, .word e.previousEpochHash] ++
    optionFields (fun n => [.num n]) e.previousEpochNonce ++ [Field.num e.nonce] ++
    e.candidate.fields ++ [Field.num e.confirmationMask.toNat, .num e.presenceMask.toNat] ++
    e.orderedSlots.fields ++
    (List.finRange 7).flatMap (fun i => optionFields Block.fields (e.blocks i)) ++
    e.parameters.fields ++ [Field.word e.parametersHash]

end HaEpoch

namespace HaRoundState

def emptyRound (roundId : HaRoundId W) : HaRoundState W where
  roundId := roundId
  blocks := fun _ => none
  blockHashes := fun _ => default
  receivedMask := 0
  acknowledgements := fun _ => 0
  confirmations := fun _ => none
  confirmedCandidate := none
  finalized := none

def new (roundId : HaRoundId W) (members : HaMemberSlots W) : Result (HaRoundState W) := do
  members.validate
  roundId.validateFor members
  pure (emptyRound roundId)

def validateSender (_ : HaRoundState W) (members : HaMemberSlots W) (sender : ℕ) : Result Unit :=
  reject (members.isActive sender = false) (.error .unknownSender)

section

variable (r : HaRoundState W)

section

variable (members : HaMemberSlots W)

def validateMessageScope (roundId : HaRoundId W) (sender : ℕ) : Result Unit := do
  reject (roundId ≠ r.roundId) (wireProtocol "HA message targets another epoch or round")
  roundId.validateFor members
  r.validateSender members sender

def receiveDispatch (d : HaDispatch W) : Result (HaDispatchOutcome × HaRoundState W) := do
  r.validateMessageScope members d.roundId d.sender
  let expectedMember ← require (members.member d.sender) (.error .unknownSender)
  reject (d.block.body.validator ≠ expectedMember.publicKey) (.error .unknownSender)
  reject (d.block.body.lastEpoch ≠ r.roundId.previousEpochHash) (.error .invalidBlockLastEpoch)
  reject (d.block.body.nonce ≠ r.roundId.nonce)
    (.error (.invalidBlockNonce r.roundId.nonce d.block.body.nonce))
  d.block.verifyUnsignedIntegrityWithHash d.blockHash
  let slot ← slotIndex d.sender
  match r.blocks slot with
  | some existing =>
    if r.blockHashes slot = d.blockHash ∧ existing.hash = d.block.hash then
      pure (.duplicate, r)
    else .error (wireProtocol s!"HA slot {d.sender} dispatched conflicting block bytes")
  | none =>
    if r.confirmedCandidate.isSome ∨ r.finalized.isSome then
      pure (.late r.roundId.nonce, r)
    else
      let bit ← memberSlotBit d.sender
      pure (.accepted, { r with
        blocks := Function.update r.blocks slot (some d.block)
        blockHashes := Function.update r.blockHashes slot d.blockHash
        receivedMask := r.receivedMask ||| bit })

/-- The receipt reported for one slot names the locally known block, or nothing. -/
def validateReceipt (a : HaAcknowledge W) (i : Fin 7) : Result Unit :=
  if hasBit a.receivedMask i then
    reject ((r.blocks i).isNone ∨ a.blockHashes i ≠ r.blockHashes i)
      (wireProtocol "HA acknowledgement references an unknown or conflicting block")
  else
    reject (a.blockHashes i ≠ default)
      (wireProtocol "HA acknowledgement contains a hash outside its receipt mask")

def receiveAcknowledgement (a : HaAcknowledge W) : Result (HaRoundState W) := do
  r.validateMessageScope members a.roundId a.sender
  reject (a.receivedMask &&& ~~~r.roundId.activeMask ≠ 0)
    (wireProtocol "HA acknowledgement references an inactive slot")
  (List.finRange 7).forM (r.validateReceipt a)
  let sender ← slotIndex a.sender
  reject (r.acknowledgements sender &&& ~~~a.receivedMask ≠ 0)
    (wireProtocol "HA acknowledgement attempted to retract a receipt")
  pure { r with acknowledgements := Function.update r.acknowledgements sender a.receivedMask }

def acknowledge (sender : ℕ) : Result (HaAcknowledge W × HaRoundState W) := do
  r.validateSender members sender
  let acknowledgement : HaAcknowledge W :=
    ⟨r.roundId, sender, r.receivedMask, maskedHashes r.receivedMask r.blockHashes⟩
  let next ← r.receiveAcknowledgement members acknowledgement
  pure (acknowledgement, next)

/-- The active slots whose receipts cover the block of slot `block`. -/
def acknowledgers (block : Fin 7) : List (Fin 7) :=
  (List.finRange 7).filter fun sender =>
    decide (hasBit r.roundId.activeMask sender) && decide (hasBit (r.acknowledgements sender) block)

def availableMask : Mask :=
  collect 8 fun block : Fin 7 => decide (hasBit r.receivedMask block) &&
    decide (members.majority ≤ (r.acknowledgers block).length)

def certifiedPresenceCandidateMask : Mask :=
  r.availableMask members ||| collect 8 fun i : Fin 7 =>
    decide (hasBit r.roundId.activeMask i) && decide (r.acknowledgements i ≠ 0)

/-- The active slots recorded as confirming `digest`. -/
def confirmationMask (digest : W) : Mask :=
  collect 8 fun i : Fin 7 =>
    decide (hasBit r.roundId.activeMask i) && decide (r.confirmations i = some digest)

def receiveConfirmation (c : HaConfirm W) :
    Result (Option (HaFinalizedRound W) × HaRoundState W) := do
  r.validateMessageScope members c.roundId c.sender
  c.candidate.validate r.roundId
  reject (c.candidate.includedMask ≠ r.receivedMask) (wireProtocol
    "HA confirmation does not contain every locally accepted pre-lock dispatch")
  reject (r.availableMask members &&& c.candidate.includedMask ≠ c.candidate.includedMask)
    (.error .failedConsensus)
  (List.finRange 7).forM fun i =>
    reject (hasBit c.candidate.includedMask i ∧ c.candidate.blockHashes i ≠ r.blockHashes i)
      (wireProtocol "HA confirmation block hash mismatch")
  let sender ← slotIndex c.sender
  match r.confirmations sender with
  | some existing =>
    if existing = c.candidate.digest then pure (r.finalized, r)
    else .error (wireProtocol "HA member confirmed conflicting candidates")
  | none =>
    reject (r.confirmedCandidate.any (fun locked => decide (locked ≠ c.candidate.digest)) = true)
      (wireProtocol "HA local confirmation lock conflicts with received candidate")
    let recorded := { r with
      confirmations := Function.update r.confirmations sender (some c.candidate.digest) }
    let mask := recorded.confirmationMask c.candidate.digest
    if members.majority ≤ countOnes mask then
      let finalized : HaFinalizedRound W := {
        roundId := r.roundId
        candidate := c.candidate
        confirmationMask := mask
        presenceMask := c.candidate.presenceMask
        orderedSlots := c.candidate.orderedSlots }
      pure (some finalized, { recorded with
        confirmedCandidate := some c.candidate.digest
        finalized := some finalized })
    else pure (none, recorded)

/-- The candidate a member confirms: every block it accepted before the lock. -/
def ownCandidate : HaCandidate W :=
  .fromRound r.roundId r.receivedMask (r.certifiedPresenceCandidateMask members)
    (maskedHashes r.receivedMask r.blockHashes)

def confirm (sender : ℕ) : Result (HaConfirm W × HaRoundState W) := do
  r.validateSender members sender
  reject (r.receivedMask = 0 ∨
    r.availableMask members &&& r.receivedMask ≠ r.receivedMask) (.error .failedConsensus)
  let candidate := r.ownCandidate members
  let senderIndex ← slotIndex sender
  let confirmation : HaConfirm W := ⟨r.roundId, sender, candidate⟩
  match r.confirmations senderIndex with
  | some existing =>
    if existing ≠ candidate.digest ∨ r.confirmedCandidate ≠ some candidate.digest then
      .error (wireProtocol
        "HA durable confirmation lock does not match recoverable round state")
    else pure (confirmation, r)
  | none =>
    let (_, next) ← r.receiveConfirmation members confirmation
    pure (confirmation, { next with confirmedCandidate := some candidate.digest })

end

end

end HaRoundState

end Blossom
