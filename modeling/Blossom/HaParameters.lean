import Blossom.BitMask
import Blossom.Block
import Blossom.MajorityQuorum
import Mathlib.Data.Fintype.Pi
import Mathlib.Data.List.Sort

/-!
# High-availability parameters and member slots

The fixed members of a group are sorted by public key into at most seven slots. The
active mask selects the slots that vote; a membership change sets or clears one bit of
it and leaves the identities alone.
-/

namespace Blossom

open CheckedSteps BitMask MajorityQuorum

def minHaNodes : ℕ := 2
def maxHaNodes : ℕ := 7
def highAvailabilityParametersVersion : ℕ := 1

/-- A set of member slots. -/
abbrev Mask := BitVec 8

abbrev PerSlot (α : Type) := Fin 7 → α

/-- `1u8 << slot`. -/
abbrev slotBit (slot : ℕ) : Mask := BitVec.twoPow 8 slot

/-- The test `mask & (1u8 << slot) != 0`. -/
def hasBit (mask : Mask) (slot : ℕ) : Prop := mask &&& slotBit slot ≠ 0

instance (mask : Mask) (slot : ℕ) : Decidable (hasBit mask slot) :=
  inferInstanceAs (Decidable (_ ≠ _))

@[simp] theorem hasBit_iff {mask : Mask} {slot : ℕ} : hasBit mask slot ↔ slot ∈ bits mask :=
  and_twoPow_ne_zero_iff

def slotGet {α : Type} (table : PerSlot (Option α)) (slot : ℕ) : Option α :=
  if h : slot < 7 then table ⟨slot, h⟩ else none

def highAvailabilityMajority (memberCount : ℕ) : ℕ := majority memberCount

structure HighAvailabilityParameters where
  version : ℕ
  mutableEpochDepth : ℕ
  unresponsiveEpochDepth : ℕ
  deriving DecidableEq

structure HaMemberSlots (W : Type) where
  memberCount : ℕ
  activeMask : Mask
  fixedIdentityHash : W
  members : PerSlot (Option (NodeIdentity W))
  deriving DecidableEq

namespace HighAvailabilityParameters

def new (mutableEpochDepth unresponsiveEpochDepth : ℕ) : HighAvailabilityParameters :=
  ⟨highAvailabilityParametersVersion, mutableEpochDepth, unresponsiveEpochDepth⟩

def validate (p : HighAvailabilityParameters) : Result Unit := do
  reject (p.version ≠ highAvailabilityParametersVersion) (invalidConfiguration
    s!"unsupported high-availability parameters version {p.version}")
  reject (p.mutableEpochDepth = 0) (invalidConfiguration "mutable epoch depth must be positive")
  reject (p.unresponsiveEpochDepth = 0)
    (invalidConfiguration "unresponsive epoch depth must be positive")

def fields {W : Type} (p : HighAvailabilityParameters) : List (Field W) :=
  [.num p.version, .num p.mutableEpochDepth, .num p.unresponsiveEpochDepth]

def parametersHash {W : Type} [ProtocolCrypto W] (p : HighAvailabilityParameters) : W :=
  protocolHash (.tag .haParameters :: p.fields)

end HighAvailabilityParameters

/-- `HaMemberSlot::bit`. -/
def memberSlotBit (slot : ℕ) : Result Mask :=
  if maxHaNodes ≤ slot then
    .error (invalidConfiguration s!"HA member slot {slot} exceeds maximum slot {maxHaNodes - 1}")
  else .ok (slotBit slot)

namespace HaMemberSlots

variable {W : Type}

def activeCount (m : HaMemberSlots W) : ℕ :=
  countOnes (m.activeMask &&& lowBits 8 m.memberCount)

def majority (m : HaMemberSlots W) : ℕ := highAvailabilityMajority m.activeCount

def member (m : HaMemberSlots W) (slot : ℕ) : Option (NodeIdentity W) := slotGet m.members slot

def isActive (m : HaMemberSlots W) (slot : ℕ) : Bool :=
  match memberSlotBit slot with
  | .ok bit => decide (m.activeMask &&& bit ≠ 0) && (m.member slot).isSome
  | .error _ => false

variable [ProtocolCrypto W]

def computeFixedIdentityHash (memberCount : ℕ) (members : PerSlot (Option (NodeIdentity W))) :
    Result W := do
  let keys ← ((List.finRange 7).take memberCount).mapM fun i => do
    let member ← require (members i)
      (.panicked "validated HA membership is densely assigned")
    pure member.publicKey
  pure (protocolHash (.tag .haMembership :: .num memberCount :: keys.map .word))

section

variable (m : HaMemberSlots W)

/-- One iteration of the density and ordering loop of `HaMemberSlots::validate`. -/
def validateSlot (index : ℕ) : Result Unit := do
  reject ((m.member index).isSome ≠ decide (index < m.memberCount))
    (invalidConfiguration "HA membership slots must be densely assigned")
  if 0 < index ∧ index < m.memberCount then
    let left ← require (m.member (index - 1)) (.panicked "validated dense member")
    let right ← require (m.member index) (.panicked "validated dense member")
    reject (right.publicKey ≤ left.publicKey)
      (invalidConfiguration "HA membership slots must be ordered by public key")

def validate : Result Unit := do
  reject (¬(minHaNodes ≤ m.memberCount ∧ m.memberCount ≤ maxHaNodes))
    (.error (.invalidHighAvailabilityNodeCount m.memberCount))
  reject (m.activeMask &&& ~~~lowBits 8 m.memberCount ≠ 0)
    (invalidConfiguration "HA active mask references an unassigned slot")
  let expected ← computeFixedIdentityHash m.memberCount m.members
  reject (m.fixedIdentityHash ≠ expected)
    (invalidConfiguration "HA fixed membership hash does not match its public-key slots")
  reject (m.activeCount < minHaNodes)
    (invalidConfiguration "HA requires at least two active members")
  (List.range maxHaNodes).forM m.validateSlot

/-- Two neighbours of the sorted member list with one public key. -/
def hasDuplicateNeighbours : List (NodeIdentity W) → Bool
  | a :: b :: rest => decide (a.publicKey = b.publicKey) || hasDuplicateNeighbours (b :: rest)
  | _ => false

def new (members : List (NodeIdentity W)) : Result (HaMemberSlots W) := do
  reject (¬(minHaNodes ≤ members.length ∧ members.length ≤ maxHaNodes))
    (.error (.invalidHighAvailabilityNodeCount members.length))
  let sorted := members.insertionSort (fun a b => a.publicKey ≤ b.publicKey)
  reject (hasDuplicateNeighbours sorted = true)
    (invalidConfiguration "high-availability membership contains duplicate public keys")
  let slots : PerSlot (Option (NodeIdentity W)) := fun i => sorted[i.val]?
  let fixedIdentityHash ← computeFixedIdentityHash members.length slots
  let result : HaMemberSlots W :=
    ⟨members.length, lowBits 8 members.length, fixedIdentityHash, slots⟩
  result.validate
  pure result

def slotFor (publicKey : W) : Option ℕ :=
  (List.range (min m.memberCount maxHaNodes)).find? fun i =>
    (m.member i).any fun member => decide (member.publicKey = publicKey)

def sameFixedIdentities (m other : HaMemberSlots W) : Bool :=
  decide (m.memberCount = other.memberCount) &&
    (List.range m.memberCount).all fun i =>
      match m.member i, other.member i with
      | some left, some right => decide (left.publicKey = right.publicKey)
      | _, _ => false

def withSuspended (slot : ℕ) : Result (HaMemberSlots W) := do
  reject (m.isActive slot = false) (invalidConfiguration "cannot suspend an inactive HA member")
  let bit ← memberSlotBit slot
  let nextMask := m.activeMask &&& ~~~bit
  reject (countOnes nextMask < minHaNodes) (invalidConfiguration
    "cannot suspend enough HA members to leave fewer than two active")
  let next := { m with activeMask := nextMask }
  next.validate
  pure next

def withReactivated (slot : ℕ) : Result (HaMemberSlots W) := do
  reject ((m.member slot).isNone) (.error .unknownSender)
  let bit ← memberSlotBit slot
  let next := { m with activeMask := m.activeMask ||| bit }
  next.validate
  pure next

end

end HaMemberSlots

end Blossom
