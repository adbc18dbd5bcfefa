import Blossom.Epoch
import Mathlib.Data.Prod.Lex

/-!
# Command batches and references

A batch carries the contiguous commands of one origin.
-/

namespace Blossom

open CheckedSteps OrderedMap

variable {W : Type}

def maxApplicationCommandBytes : ℕ := 64 * 2 ^ 20
def defaultMaxBatchCommands : ℕ := 4096
def defaultMaxBatchBytes : ℕ := 64 * 2 ^ 20
def maxActiveActiveShardIdBytes : ℕ := 256

/-- An opaque command with the identity that deduplicates it. -/
structure ApplicationCommandEnvelope where
  clientId : List UInt8
  clientEpoch : ℕ
  sequence : ℕ
  command : List UInt8
  deriving DecidableEq

structure AdmittedCommand where
  originSequence : ℕ
  command : ApplicationCommandEnvelope
  deriving DecidableEq

structure CommandBatch where
  commands : List AdmittedCommand
  deriving DecidableEq

def ApplicationCommandEnvelope.validate (c : ApplicationCommandEnvelope) : Result Unit := do
  reject (c.sequence = 0) (invalidConfiguration "client command sequences start at one")
  reject (c.command.length = 0 ∨ maxApplicationCommandBytes < c.command.length)
    (invalidConfiguration s!"application command must contain 1..={maxApplicationCommandBytes} bytes")

namespace CommandBatch

def validateCommand (expected : ℕ) (admitted : AdmittedCommand) : Result ℕ := do
  admitted.command.validate
  reject (admitted.originSequence ≠ expected)
    (invalidConfiguration "batch origin sequences are not contiguous")
  reject (maxCounter ≤ expected) (invalidConfiguration "origin sequence overflow")
  pure (expected + 1)

def validateCommands (b : CommandBatch) : Result Unit := do
  let first ← require b.commands.head? (invalidConfiguration "command batch cannot be empty")
  reject (defaultMaxBatchCommands < b.commands.length) (invalidConfiguration
    s!"batch command count {b.commands.length} exceeds maximum {defaultMaxBatchCommands}")
  reject (first.originSequence = 0) (invalidConfiguration "origin sequences start at one")
  let _ ← b.commands.foldlM validateCommand first.originSequence

/-- The length of the canonical encoding: a command has 44 bytes besides its payload. -/
def encodedLength (b : CommandBatch) : ℕ :=
  4 + (b.commands.map fun admitted => 44 + admitted.command.command.length).sum

def validate (b : CommandBatch) : Result Unit := do
  b.validateCommands
  reject (defaultMaxBatchBytes < b.encodedLength) (invalidConfiguration
    s!"batch encoded size {b.encodedLength} exceeds maximum {defaultMaxBatchBytes}")

end CommandBatch

def AdmittedCommand.fields (c : AdmittedCommand) : List (Field W) :=
  [Field.num c.originSequence, .bytes c.command.clientId, .num c.command.clientEpoch,
    .num c.command.sequence] ++ strFields c.command.command

theorem AdmittedCommand.fields_injective :
    Function.Injective (AdmittedCommand.fields : AdmittedCommand → List (Field W)) := by
  rintro ⟨n, ⟨client, epoch, sequence, command⟩⟩ ⟨n', ⟨client', epoch', sequence', command'⟩⟩ h
  simp only [AdmittedCommand.fields, List.cons_append, List.nil_append, List.cons.injEq,
    Field.num.injEq, Field.bytes.injEq] at h
  obtain ⟨rfl, rfl, rfl, rfl, hcommand⟩ := h
  obtain ⟨rfl, -⟩ := strFields_prefixCode command command' [] [] (by rw [hcommand])
  rfl

section Merkle

variable [ProtocolCrypto W]

/-- One level of the tree: neighbours are paired, and a last odd node with itself. -/
def merkleLevel : List W → List W
  | left :: right :: rest =>
    protocolHash [.tag .commandMerkleNode, .word left, .word right] :: merkleLevel rest
  | [left] => [protocolHash [.tag .commandMerkleNode, .word left, .word left]]
  | [] => []

/-- The levels up to the root; a tree has no more levels than leaves. -/
def merkleClimb : ℕ → List W → Option W
  | _, [root] => some root
  | fuel + 1, level => merkleClimb fuel (merkleLevel level)
  | 0, _ => none

def CommandBatch.merkleRoot (b : CommandBatch) : Result W := do
  b.validate
  let leaves := b.commands.map fun c => protocolHash (.tag .commandMerkleLeaf :: c.fields)
  require (merkleClimb leaves.length leaves) (.panicked "index out of bounds")

variable {xs ys : List W}

theorem length_merkleLevel : (merkleLevel xs).length = (xs.length + 1) / 2 := by
  fun_induction merkleLevel xs with
  | case1 left right rest ih =>
    simp only [List.length_cons, ih]
    omega
  | case2 left => simp
  | case3 => simp

/-- Two levels of one width come from the same nodes, also where the last one is paired with
itself. -/
theorem merkleLevel_injective (hinj : HashInjective W) (hlen : xs.length = ys.length)
    (h : merkleLevel xs = merkleLevel ys) : xs = ys := by
  fun_induction merkleLevel xs generalizing ys with
  | case1 left right rest ih =>
    match ys, hlen with
    | left' :: right' :: rest', hlen =>
      obtain ⟨hnode, hrest⟩ := List.cons.inj h
      have hpair := hinj hnode
      simp only [List.cons.injEq, Field.word.injEq, and_true, true_and] at hpair
      rw [hpair.1, hpair.2, ih (by simpa using hlen) hrest]
  | case2 left =>
    match ys, hlen with
    | [left'], _ =>
      have hpair := hinj (List.cons.inj h).1
      simp only [List.cons.injEq, Field.word.injEq, and_true, true_and, and_self] at hpair
      rw [hpair]
  | case3 => exact (List.length_eq_zero_iff.mp hlen.symm).symm

theorem merkleClimb_injective (hinj : HashInjective W) {fuel : ℕ} {root : W}
    (hlen : xs.length = ys.length) (hxs : merkleClimb fuel xs = some root)
    (hys : merkleClimb fuel ys = some root) : xs = ys := by
  fun_induction merkleClimb fuel xs generalizing ys with
  | case1 fuel leaf =>
    obtain ⟨leaf', rfl⟩ := List.length_eq_one_iff.mp hlen.symm
    rw [merkleClimb] at hys
    rw [Option.some.inj hxs, Option.some.inj hys]
  | case2 fuel level hnot ih =>
    have hnot' : ∀ leaf, ys ≠ [leaf] := by
      rintro leaf rfl
      obtain ⟨leaf', rfl⟩ := List.length_eq_one_iff.mp hlen
      exact hnot leaf' rfl
    rw [merkleClimb.eq_2 _ _ hnot'] at hys
    refine merkleLevel_injective hinj hlen (ih ?_ hxs hys)
    rw [length_merkleLevel, length_merkleLevel, hlen]
  | case3 level hnot => cases hxs

end Merkle

structure BatchReference (W : Type) where
  formatVersion : ℕ
  codecVersion : ℕ
  clusterId : W
  consensusGroupId : W
  shard : List UInt8
  routeGeneration : ℕ
  commandSpecVersion : ℕ
  origin : W
  originIncarnation : ℕ
  originKeyGeneration : ℕ
  firstOriginSequence : ℕ
  lastOriginSequence : ℕ
  commandCount : ℕ
  byteLength : ℕ
  merkleRoot : W
  dataHolderMembershipEpoch : ℕ
  validatorGeneration : ℕ
  previousOriginReferenceHash : W
  deriving DecidableEq

def validateRouteGeneration (generation : ℕ) : Result Unit :=
  reject (generation = 0) (invalidConfiguration "route generations start at one")

def validateCommandSpecVersion (version : ℕ) : Result Unit :=
  reject (version = 0) (invalidConfiguration "application command-spec versions start at one")

def rangesOverlap (firstA lastA firstB lastB : ℕ) : Bool := firstA ≤ lastB ∧ firstB ≤ lastA

namespace BatchReference

def supportedFormatVersion : ℕ := 2
def supportedCodecVersion : ℕ := 2

def validate (r : BatchReference W) : Result Unit := do
  reject (r.formatVersion ≠ supportedFormatVersion ∨ r.codecVersion ≠ supportedCodecVersion)
    (invalidConfiguration "unsupported active-active reference format or codec")
  validateRouteGeneration r.routeGeneration
  validateCommandSpecVersion r.commandSpecVersion
  reject (r.shard.length = 0 ∨ maxActiveActiveShardIdBytes < r.shard.length) (invalidConfiguration
    s!"active-active shard id must contain 1..={maxActiveActiveShardIdBytes} bytes")
  reject (r.commandCount = 0 ∨ r.firstOriginSequence = 0 ∨
    r.lastOriginSequence < r.firstOriginSequence)
    (invalidConfiguration "invalid command range in batch reference")
  reject (r.lastOriginSequence - r.firstOriginSequence + 1 ≠ r.commandCount ∨ r.byteLength = 0)
    (invalidConfiguration "batch range, count, or byte length mismatch")

def fields (r : BatchReference W) : List (Field W) :=
  [Field.num r.formatVersion, .num r.codecVersion, .word r.clusterId, .word r.consensusGroupId] ++
    strFields r.shard ++
    [Field.num r.routeGeneration, .num r.commandSpecVersion, .word r.origin,
      .num r.originIncarnation, .num r.originKeyGeneration, .num r.firstOriginSequence, .num r.lastOriginSequence,
      .num r.commandCount, .num r.byteLength, .word r.merkleRoot,
      .num r.dataHolderMembershipEpoch, .num r.validatorGeneration,
      .word r.previousOriginReferenceHash]

variable [ProtocolCrypto W]

def hash (r : BatchReference W) : Result W := do
  r.validate
  pure (protocolHash (.tag .batchReference :: r.fields))

def verifyBatch (r : BatchReference W) (b : CommandBatch) : Result Unit := do
  b.validate
  let root ← b.merkleRoot
  reject (b.commands.head?.map AdmittedCommand.originSequence ≠ some r.firstOriginSequence ∨
    b.commands.getLast?.map AdmittedCommand.originSequence ≠ some r.lastOriginSequence ∨
    r.commandCount ≠ b.commands.length ∨ r.byteLength ≠ b.encodedLength ∨ r.merkleRoot ≠ root)
    (invalidConfiguration "batch bytes do not match finalized reference")

/-- A reference determines the batch that it is for. -/
theorem batch_unique (hinj : HashInjective W) (r : BatchReference W) {b b' : CommandBatch}
    (h : r.verifyBatch b = .ok ()) (h' : r.verifyBatch b' = .ok ()) : b = b' := by
  simp only [verifyBatch, CommandBatch.merkleRoot, ↓guard_bind_eq_ok, bind_eq_ok, require_eq_ok,
    reject_eq_ok, not_or, not_not] at h h'
  obtain ⟨_, -, root, ⟨-, hroot⟩, -, -, hcount, -, hsame⟩ := h
  obtain ⟨_, -, root', ⟨-, hroot'⟩, -, -, hcount', -, hsame'⟩ := h'
  have hlen : b.commands.length = b'.commands.length := hcount.symm.trans hcount'
  rw [List.length_map, ← hsame] at hroot
  rw [List.length_map, ← hsame', ← hlen] at hroot'
  have hleaves := merkleClimb_injective hinj (by simpa using hlen) hroot hroot'
  have hleaf : Function.Injective fun c : AdmittedCommand =>
      (protocolHash (.tag .commandMerkleLeaf :: c.fields) : W) := fun c c' heq =>
    AdmittedCommand.fields_injective (List.cons.inj (hinj heq)).2
  exact congrArg CommandBatch.mk (List.map_injective_iff.mpr hleaf hleaves)

def conflictsWith (r other : BatchReference W) : Bool :=
  r.origin = other.origin ∧ r.originIncarnation = other.originIncarnation ∧
    r.originKeyGeneration = other.originKeyGeneration ∧
    rangesOverlap r.firstOriginSequence r.lastOriginSequence other.firstOriginSequence
      other.lastOriginSequence ∧
    r.hash.toOption ≠ other.hash.toOption

end BatchReference

def referenceTransactionDomain : List UInt8 :=
  "blossom/active-active/reference-transaction/v2".toUTF8.toList

class ReferenceCodec (W : Type) where
  decodeReference : List UInt8 → Result (BatchReference W)

def BatchReference.fromTransaction [ReferenceCodec W] (t : Transaction W) :
    Result (Option (BatchReference W)) :=
  if referenceTransactionDomain.isPrefixOf t.payload then do
    let reference ← ReferenceCodec.decodeReference
      (t.payload.drop referenceTransactionDomain.length)
    reference.validate
    pure (some reference)
  else pure none

def blockReferences [ReferenceCodec W] (groupId : W) [DecidableEq W] (block : Block W) :
    Result (List (BatchReference W)) :=
  block.body.txs.foldlM (fun references transaction => do
    match ← BatchReference.fromTransaction transaction with
    | none => pure references
    | some reference =>
      reject (reference.consensusGroupId ≠ groupId) (invalidConfiguration
        "batch reference group does not match its finalized Blossom epoch")
      pure (references ++ [reference])) []

def orderedBatchReferencesTrusted [ProtocolCrypto W] [ReferenceCodec W] (epoch : Epoch W) :
    Result (List (BatchReference W)) := do
  reject (epoch.hash ≠ epoch.body.computeHash) (.error .invalidBlockHash)
  let blocks ← (fairOrderedBlocks epoch.body.blocks).mapM fun entry => do
    entry.2.verifyUnsignedIntegrityWithHash entry.2.hash
    blockReferences epoch.body.groupId entry.2
  pure blocks.flatten

/-- `ordered_batch_references`: the references of an approved epoch with signed blocks. -/
def orderedBatchReferences [ProtocolCrypto W] [ReferenceCodec W] (epoch : Epoch W) :
    Result (List (BatchReference W)) := do
  reject (epoch.hash ≠ epoch.body.computeHash) (.error .invalidBlockHash)
  epoch.epochApproved
  let blocks ← (fairOrderedBlocks epoch.body.blocks).mapM fun entry => do
    entry.2.verifyIntegrityWithHash entry.2.hash
    blockReferences epoch.body.groupId entry.2
  pure blocks.flatten

end Blossom
