import Blossom.ByteCodec
import Blossom.Failure

/-!
# Requests for groups

A request for a group carries another request. Reading it and looking into it take one nested call
for each group, and nothing but the size of a frame bounds the groups.
-/

namespace Blossom.WireCodec

open CheckedSteps ByteCodec

def defaultMaxFrameSize : ℕ := 32 * 1024 * 1024

abbrev HashBytes := { bytes : List UInt8 // bytes.length = 32 }

/-- The contents of the requests and how they are read, by borsh and from a hot payload. -/
structure WireFormat where
  NodePing : Type
  ApplicationRequest : Type
  ServiceRegistration : Type
  Block : Type
  Dispatch : Type
  Msg : Type
  nodePing : Codec NodePing
  applicationRequest : Codec ApplicationRequest
  serviceRegistration : Codec ServiceRegistration
  block : Codec Block
  dispatch : Codec Dispatch
  msg : Codec Msg
  msgDispatch : Dispatch → Msg
  takeBlock : List UInt8 → Result (Block × List UInt8)
  takeDispatch : List UInt8 → Result (Dispatch × List UInt8)

inductive WireRequest (F : WireFormat) where
  | health
  | ping (ping : F.NodePing)
  | application (request : F.ApplicationRequest)
  | state
  | epochChain
  | certifiedEpochSuffix (anchorHash : HashBytes) (anchorNonce maxEpochs : ℕ)
  | addressBook
  | registerService (registration : F.ServiceRegistration)
  | group (groupId : HashBytes) (request : WireRequest F)
  | nextNonce
  | submitBlock (block : F.Block)
  | dispatch (round : ℕ)
  | prefillDispatch (dispatch : F.Dispatch)
  | message (message : F.Msg)
  | sendNonce (nonce : ℕ)
  | blockNonce (nonce : ℕ)
  | getBlock (nonce : ℕ)
  | getBlocksByHash (hashes : List HashBytes)
  | sendBlock (block : F.Block)

def borshError : Failure := wireProtocol "borsh"

section Decoding

variable {F : WireFormat}

def readAs {α : Type} (c : Codec α) (build : α → WireRequest F) (bytes : List UInt8) :
    Option (WireRequest F × List UInt8) :=
  (c.decode bytes).map fun r => (build r.1, r.2)

open Codec in
/-- The variants other than `Group`, by their discriminants under the default features. -/
def deserializeVariant : UInt8 → List UInt8 → Option (WireRequest F × List UInt8)
  | 0 => readAs unit fun _ => .health
  | 1 => readAs F.nodePing .ping
  | 2 => readAs F.applicationRequest .application
  | 3 => readAs unit fun _ => .state
  | 4 => readAs unit fun _ => .epochChain
  | 5 => readAs ((fixed 32).pair ((number 8).pair (number 4))) fun r =>
      .certifiedEpochSuffix r.1 r.2.1 r.2.2
  | 6 => readAs unit fun _ => .addressBook
  | 7 => readAs F.serviceRegistration .registerService
  | 9 => readAs unit fun _ => .nextNonce
  | 10 => readAs F.block .submitBlock
  | 11 => readAs (number 1) .dispatch
  | 12 => readAs F.dispatch .prefillDispatch
  | 13 => readAs F.msg .message
  | 14 => readAs (number 8) .sendNonce
  | 15 => readAs (number 8) .blockNonce
  | 16 => readAs (number 8) .getBlock
  | 17 => readAs (list (fixed 32)) .getBlocksByHash
  | 18 => readAs F.block .sendBlock
  | _ => fun _ => none

theorem length_of_fixed {bytes : List UInt8} {r : HashBytes × List UInt8}
    (h : (Codec.fixed 32).decode bytes = some r) : r.2.length + 32 = bytes.length := by
  simp only [Codec.fixed] at h
  split at h
  · next hlen =>
    cases h
    rw [List.length_take] at hlen
    rw [List.length_drop]
    omega
  · cases h

/-- The derived decoder, with the number of its calls that are under way at once: a boxed request is
read by a call of its own. -/
def deserialize (bytes : List UInt8) : ℕ × Option (WireRequest F × List UInt8) :=
  match bytes with
  | [] => (1, none)
  | tag :: bytes =>
    if tag = 8 then
      match h : (Codec.fixed 32).decode bytes with
      | none => (1, none)
      | some group =>
        ((deserialize group.2).1 + 1,
          (deserialize group.2).2.map fun r => (.group group.1 r.1, r.2))
    else (1, deserializeVariant tag bytes)
termination_by bytes.length
decreasing_by all_goals
  have hlen := length_of_fixed h
  rw [List.length_cons]
  omega

def hotWireMagic : List UInt8 := [66, 76, 83, 77]

def hotWireVersion : UInt8 := 1

def hotWirePayload (bytes : List UInt8) : Result (Option (UInt8 × List UInt8)) :=
  if hotWireMagic.isPrefixOf bytes then
    match bytes.drop hotWireMagic.length with
    | version :: kind :: payload => do
      reject (version ≠ hotWireVersion)
        (wireProtocol s!"unsupported blossom hot wire version {version}")
      pure (some (kind, payload))
    | _ => .error (wireProtocol "truncated blossom hot wire payload")
  else pure none

def takeHot {α : Type} (take : List UInt8 → Result (α × List UInt8)) (build : α → WireRequest F)
    (payload : List UInt8) : Result (WireRequest F) := do
  let (a, rest) ← take payload
  reject (rest ≠ []) (wireProtocol s!"hot request has {rest.length} trailing bytes")
  pure (build a)

/-- The requests of the hot codec, none of which is for a group. -/
def decodeHotRequest : UInt8 → List UInt8 → Result (WireRequest F)
  | 1 => takeHot F.takeBlock .submitBlock
  | 2 => takeHot F.takeDispatch fun dispatch => .message (F.msgDispatch dispatch)
  | 3 => takeHot F.takeBlock .sendBlock
  | 4 => takeHot F.takeDispatch .prefillDispatch
  | other => fun _ => .error (wireProtocol s!"unknown blossom hot request kind {other}")

/-- A request that is read, with the nested calls of the decoder. -/
def decodeWireRequestPayload (bytes : List UInt8) : ℕ × Result (WireRequest F) :=
  match hotWirePayload bytes with
  | .error failure => (0, .error failure)
  | .ok (some (kind, payload)) => (0, decodeHotRequest kind payload)
  | .ok none =>
    ((deserialize (F := F) bytes).1, match (deserialize bytes).2 with
      | some (request, []) => .ok request
      | _ => .error borshError)

/-- Whether a request calls for the driver, with the nested calls that it takes to tell. -/
def requestDrivesConsensus : WireRequest F → ℕ × Bool
  | .group _ request => ((requestDrivesConsensus request).1 + 1, (requestDrivesConsensus request).2)
  | .registerService _ | .submitBlock _ | .prefillDispatch _ | .message _ | .sendNonce _
  | .blockNonce _ | .sendBlock _ => (1, true)
  | _ => (1, false)

/-- The nested calls before the request of a payload is handled or rejected. -/
def nestedCalls (F : WireFormat) (bytes : List UInt8) : ℕ :=
  match (decodeWireRequestPayload (F := F) bytes) with
  | (calls, .ok request) => max calls (requestDrivesConsensus request).1
  | (calls, .error _) => calls

/-! ### The groups of a frame -/

variable {bytes rest : List UInt8} {request : WireRequest F}

theorem calls_of_variant {tag : UInt8} (h : deserializeVariant tag bytes = some (request, rest)) :
    (requestDrivesConsensus request).1 = 1 := by
  unfold deserializeVariant readAs at h
  split at h
  all_goals
    first
    | obtain ⟨r, -, heq⟩ := Option.map_eq_some_iff.mp h
      cases heq
      rfl
    | cases h

theorem calls_of_hot {kind : UInt8} (h : decodeHotRequest kind bytes = .ok request) :
    (requestDrivesConsensus request).1 = 1 := by
  unfold decodeHotRequest at h
  split at h
  all_goals
    first
    | cases h
    | simp only [takeHot, bind_eq_ok, pure_eq_ok] at h
      obtain ⟨r, -, _, -, rfl⟩ := h
      rfl

/-- A group takes a call and 33 bytes. -/
theorem calls_deserialize (bytes : List UInt8) :
    (deserialize (F := F) bytes).1 ≤ bytes.length / 33 + 1 ∧
      ∀ r, (deserialize (F := F) bytes).2 = some r →
        (requestDrivesConsensus r.1).1 ≤ (deserialize (F := F) bytes).1 := by
  fun_induction deserialize (F := F) bytes with
  | case1 => exact ⟨Nat.le_add_left 1 _, nofun⟩
  | case2 bytes hnone => exact ⟨Nat.le_add_left 1 _, nofun⟩
  | case3 bytes group hgroup ih =>
    have hlen := length_of_fixed hgroup
    refine ⟨?_, fun r hr => ?_⟩
    · rw [List.length_cons]
      omega
    · obtain ⟨inner, hinner, rfl⟩ := Option.map_eq_some_iff.mp hr
      exact Nat.succ_le_succ (ih.2 inner hinner)
  | case4 tag bytes hne =>
    exact ⟨Nat.le_add_left 1 _, fun r hr => (calls_of_variant hr).le⟩

theorem nestedCalls_le (bytes : List UInt8) : nestedCalls F bytes ≤ bytes.length / 33 + 1 := by
  unfold nestedCalls decodeWireRequestPayload
  split
  next calls request heq =>
    split at heq
    · cases heq
    · obtain ⟨rfl, hhot⟩ := Prod.mk.inj heq
      rw [calls_of_hot hhot]
      exact Nat.le_add_left 1 _
    · obtain ⟨hcalls, hread⟩ := calls_deserialize (F := F) bytes
      obtain ⟨rfl, hok⟩ := Prod.mk.inj heq
      split at hok
      · next hsome =>
        cases hok
        exact max_le hcalls ((hread _ hsome).trans hcalls)
      · cases hok
  next calls failure heq =>
    split at heq
    · cases heq
      exact Nat.zero_le _
    · cases (Prod.mk.inj heq).1
      exact Nat.zero_le _
    · cases (Prod.mk.inj heq).1
      exact (calls_deserialize bytes).1

/-- The payload that opens a group again and again. -/
def nestedGroups : ℕ → List UInt8
  | 0 => []
  | n + 1 => 8 :: (List.replicate 32 0 ++ nestedGroups n)

theorem length_nestedGroups (n : ℕ) : (nestedGroups n).length = 33 * n := by
  induction n with
  | zero => rfl
  | succ n ih =>
    rw [nestedGroups, List.length_cons, List.length_append, List.length_replicate, ih]
    omega

theorem nestedCalls_nestedGroups (n : ℕ) : nestedCalls F (nestedGroups n) = n + 1 := by
  have hcalls : deserialize (F := F) (nestedGroups n) = (n + 1, none) := by
    induction n with
    | zero =>
      rw [nestedGroups, deserialize]
    | succ n ih =>
      have hgroup := (Codec.fixed 32).decode_encode (a := ⟨List.replicate 32 0, rfl⟩)
        (nestedGroups n) rfl
      rw [nestedGroups, deserialize, if_pos rfl]
      split
      · next hnone => cases hgroup.symm.trans hnone
      · next hsome =>
        cases hgroup.symm.trans hsome
        rw [ih]
        rfl
  have hplain : hotWirePayload (nestedGroups n) = .ok none := by
    cases n <;> rfl
  rw [nestedCalls, decodeWireRequestPayload, hplain, hcalls]

/-- The numbers of nested calls that no frame of at most `limit` bytes exceeds. -/
theorem nested_calls_bounded_iff (F : WireFormat) (limit levels : ℕ) :
    (∀ payload : List UInt8, payload.length ≤ limit → nestedCalls F payload ≤ levels) ↔
      limit / 33 < levels := by
  constructor
  · intro h
    have hle := h (nestedGroups (limit / 33)) (by rw [length_nestedGroups]; omega)
    rw [nestedCalls_nestedGroups] at hle
    exact hle
  · intro hlt payload hlen
    have hle := nestedCalls_le (F := F) payload
    have hdiv := Nat.div_le_div_right (c := 33) hlen
    omega

end Decoding

/-- A frame of about a quarter of the default size takes more calls than a stack of two mebibytes
has room for return addresses of eight bytes. -/
theorem nested_frame_exceeds_stack :
    (nestedGroups (2 * 1024 * 1024 / 8)).length ≤ defaultMaxFrameSize ∧ ∀ F : WireFormat,
      2 * 1024 * 1024 / 8 < nestedCalls F (nestedGroups (2 * 1024 * 1024 / 8)) := by
  refine ⟨?_, fun F => ?_⟩
  · rw [length_nestedGroups]
    decide
  · rw [nestedCalls_nestedGroups]
    exact Nat.lt_succ_self _

end Blossom.WireCodec
