import Blossom.ByteCodec
import Blossom.Membership

/-!
# The durable log store

The store keeps tables of bytes in memory and writes every transaction to a log of records: the body
in chunks, then a commit record with its hash.
-/

namespace Blossom

open CheckedSteps OrderedMap ByteCodec

def blossomLogStoreFormatVersion : ℕ := 1

def defaultMaxValueBytes : ℕ := 64 * 1024 * 1024

def maxTableNameBytes : ℕ := 128

def maxKeyBytes : ℕ := 4 * 1024

def maxGroupChunks : ℕ := 65536

abbrev Table := BTreeMap ByteString (List UInt8)

abbrev Tables := BTreeMap ByteString Table

structure BlossomLogStoreIdentity where
  formatVersion : ℕ
  storeKind : ByteString
  publicScope : List UInt8
  generation : ℕ
  deriving DecidableEq

def BlossomLogStoreIdentity.validate (i : BlossomLogStoreIdentity) : Result Unit :=
  reject (i.formatVersion ≠ blossomLogStoreFormatVersion ∨ i.storeKind.bytes = [] ∨
    maxTableNameBytes < i.storeKind.bytes.length ∨ i.publicScope = [] ∨
    defaultMaxValueBytes < i.publicScope.length)
    (invalidConfiguration "invalid Blossom LogStore identity")

structure BlossomLogStoreConfig where
  targetPackBytes : ℕ
  maxChunkBytes : ℕ
  maxValueBytes : ℕ
  maxTransactionBytes : ℕ
  maxCheckpointBytes : ℕ
  checkpointAfterTransactions : ℕ
  checkpointAfterBytes : ℕ

def BlossomLogStoreConfig.validate (c : BlossomLogStoreConfig) : Result Unit :=
  reject (c.targetPackBytes = 0 ∨ c.maxChunkBytes = 0 ∨ c.maxValueBytes = 0 ∨
    c.maxTransactionBytes < c.maxValueBytes ∨ c.maxCheckpointBytes < c.maxValueBytes ∨
    c.checkpointAfterTransactions = 0 ∨ c.checkpointAfterBytes = 0)
    (invalidConfiguration "invalid Blossom LogStore configuration")

def storageError : Failure := .error (.io "Blossom LogStore storage")

def encodeError : Failure := wireProtocol "Blossom LogStore encoding"

/-! ### Tables and operations -/

/-- Letters, digits, the underscore, the hyphen and the dot. -/
def isNameByte (b : UInt8) : Bool :=
  (48 ≤ b && b ≤ 57) || (65 ≤ b && b ≤ 90) || (97 ≤ b && b ≤ 122) || b == 95 || b == 45 || b == 46

def validateTableName (table : ByteString) : Result Unit :=
  reject (table.bytes = [] ∨ maxTableNameBytes < table.bytes.length ∨
    table.bytes.all isNameByte = false)
    (invalidConfiguration "invalid Blossom LogStore table name")

def validateKey (key : ByteString) : Result Unit :=
  reject (key.bytes = [] ∨ maxKeyBytes < key.bytes.length)
    (invalidConfiguration "invalid Blossom LogStore key length")

def inRange (key start : ByteString) (stop : Option ByteString) : Bool :=
  start ≤ key && stop.all fun stop => key < stop

def validateRange (table start : ByteString) (stop : Option ByteString) : Result Unit := do
  validateTableName table
  validateKey start
  match stop with
  | none => pure ()
  | some stop => do
    validateKey stop
    reject (stop ≤ start)
      (invalidConfiguration "Blossom LogStore range end must follow its start")

inductive LogOperation where
  | insert (table key : ByteString) (value : List UInt8)
  | remove (table key : ByteString)
  | removeRange (table start : ByteString) (stop : Option ByteString)
  | clear (table : ByteString)
  deriving DecidableEq

def LogOperation.check (maxValueBytes : ℕ) : LogOperation → Result Unit
  | insert table key value => do
    validateTableName table
    validateKey key
    reject (maxValueBytes < value.length)
      (invalidConfiguration "Blossom LogStore value exceeds its bytes")
  | remove table key => do
    validateTableName table
    validateKey key
  | removeRange table start stop => validateRange table start stop
  | clear table => validateTableName table

def LogOperation.validate (maxValueBytes : ℕ) : LogOperation → Result Unit
  | insert table key value => do
    validateTableName table
    validateKey key
    reject (maxValueBytes < value.length)
      (invalidConfiguration "Blossom LogStore value exceeds the supported bound")
  | remove table key => do
    validateTableName table
    validateKey key
  | removeRange table start stop => do
    validateTableName table
    validateKey start
    match stop with
    | none => pure ()
    | some stop => validateKey stop
  | clear table => validateTableName table

def validateOperations (operations : List LogOperation) (maxValueBytes : ℕ) : Result Unit :=
  operations.forM (LogOperation.validate maxValueBytes)

def LogOperation.apply (tables : Tables) : LogOperation → Tables
  | insert table key value => tables.insert table ((tables[table]?.getD ∅).insert key value)
  | remove table key =>
    match tables[table]? with
    | none => tables
    | some entries => tables.insert table (entries.erase key)
  | removeRange table start stop =>
    match tables[table]? with
    | none => tables
    | some entries => tables.insert table (entries.filter fun key _ => !inRange key start stop)
  | clear table => tables.erase table

def applyOperations (tables : Tables) (operations : List LogOperation) : Tables :=
  operations.foldl LogOperation.apply tables

def LogOperation.applyToTable (name : ByteString) (entries : Table) : LogOperation → Table
  | insert table key value => if table = name then entries.insert key value else entries
  | remove table key => if table = name then entries.erase key else entries
  | removeRange table start stop =>
    if table = name then entries.filter fun key _ => !inRange key start stop else entries
  | clear table => if table = name then ∅ else entries

theorem modify_table (tables : Tables) (table name : ByteString) {f : Table → Table}
    (hf : f ∅ = ∅) :
    (match tables[table]? with
      | none => tables
      | some entries => tables.insert table (f entries))[name]?.getD ∅ =
      if table = name then f (tables[name]?.getD ∅) else tables[name]?.getD ∅ := by
  split_ifs with h
  · subst h
    cases htable : tables[table]? with
    | none => simp [htable, hf]
    | some entries => simp
  · cases tables[table]? with
    | none => rfl
    | some entries => rw [lookup_insert, if_neg h]

theorem LogOperation.apply_table (tables : Tables) (operation : LogOperation) (name : ByteString) :
    (operation.apply tables)[name]?.getD ∅ = operation.applyToTable name (tables[name]?.getD ∅) := by
  cases operation with
  | insert table key value =>
    rw [apply, applyToTable, lookup_insert]
    split_ifs with h
    · rw [h, Option.getD_some]
    · rfl
  | remove table key => exact modify_table tables table name rfl
  | removeRange table start stop => exact modify_table tables table name rfl
  | clear table =>
    rw [apply, applyToTable, lookup_erase]
    split_ifs
    · rfl
    · rfl

theorem applyOperations_table (tables : Tables) (operations : List LogOperation)
    (name : ByteString) : (applyOperations tables operations)[name]?.getD ∅ =
      operations.foldl (LogOperation.applyToTable name) (tables[name]?.getD ∅) := by
  induction operations generalizing tables with
  | nil => rfl
  | cons operation operations ih =>
    rw [applyOperations, List.foldl_cons, List.foldl_cons, ← operation.apply_table]
    exact ih _

structure MaterializedState where
  revision : ℕ
  tables : Tables
  deriving DecidableEq

def MaterializedState.empty : MaterializedState := ⟨0, ∅⟩

structure BlossomLogTransaction (config : BlossomLogStoreConfig) where
  base : MaterializedState
  operations : List LogOperation
  checked : ∀ operation ∈ operations, operation.check config.maxValueBytes = .ok ()

namespace BlossomLogTransaction

variable {config : BlossomLogStoreConfig}

def start (base : MaterializedState) : BlossomLogTransaction config :=
  ⟨base, [], fun _ h => nomatch h⟩

section

variable (t : BlossomLogTransaction config)

def stage (operation : LogOperation) : Result (BlossomLogTransaction config) :=
  match h : operation.check config.maxValueBytes with
  | .error f => .error f
  | .ok () => .ok ⟨t.base, t.operations ++ [operation], fun op hop => by
      rcases List.mem_append.mp hop with hold | hnew
      · exact t.checked op hold
      · rw [List.mem_singleton.mp hnew]
        exact h⟩

def insert (t : BlossomLogTransaction config) (table key : ByteString) (value : List UInt8) :
    Result (BlossomLogTransaction config) :=
  t.stage (.insert table key value)

def remove (t : BlossomLogTransaction config) (table key : ByteString) :
    Result (BlossomLogTransaction config) :=
  t.stage (.remove table key)

def removeRange (t : BlossomLogTransaction config) (table start : ByteString)
    (stop : Option ByteString) : Result (BlossomLogTransaction config) :=
  t.stage (.removeRange table start stop)

def clear (t : BlossomLogTransaction config) (table : ByteString) :
    Result (BlossomLogTransaction config) :=
  t.stage (.clear table)

end

/-- The entry that an operation leaves at a key, if it touches the key. -/
def stagedValue (table key : ByteString) : LogOperation → Option (Option (List UInt8))
  | .insert t k value => if t = table ∧ k = key then some (some value) else none
  | .remove t k => if t = table ∧ k = key then some none else none
  | .removeRange t start stop => if t = table ∧ inRange key start stop then some none else none
  | .clear t => if t = table then some none else none

def get (t : BlossomLogTransaction config) (table key : ByteString) :
    Result (Option (List UInt8)) := do
  validateTableName table
  validateKey key
  pure ((t.operations.reverse.findSome? (stagedValue table key)).getD
    (t.base.tables[table]?.bind fun entries => entries[key]?))

def scan (t : BlossomLogTransaction config) (table : ByteString) :
    Result (List (ByteString × List UInt8)) := do
  validateTableName table
  pure (t.operations.foldl (LogOperation.applyToTable table) (t.base.tables[table]?.getD ∅)).toList

def scanRange (t : BlossomLogTransaction config) (table start : ByteString)
    (stop : Option ByteString) : Result (List (ByteString × List UInt8)) := do
  validateRange table start stop
  let entries ← t.scan table
  pure (entries.filter fun entry => inRange entry.1 start stop)

theorem lookup_applyToTable (table key : ByteString) (entries : Table) (operation : LogOperation) :
    (operation.applyToTable table entries)[key]? =
      (stagedValue table key operation).getD entries[key]? := by
  cases operation with
  | insert t k value => grind [LogOperation.applyToTable, stagedValue, lookup_insert]
  | remove t k => grind [LogOperation.applyToTable, stagedValue, lookup_erase]
  | removeRange t start stop =>
    grind [LogOperation.applyToTable, stagedValue, Std.ExtTreeMap.getElem?_filter]
  | clear t => grind [LogOperation.applyToTable, stagedValue]

theorem lookup_foldl_applyToTable (table key : ByteString) (entries : Table)
    (operations : List LogOperation) :
    (operations.foldl (LogOperation.applyToTable table) entries)[key]? =
      (operations.reverse.findSome? (stagedValue table key)).getD entries[key]? := by
  induction operations generalizing entries with
  | nil => rfl
  | cons operation operations ih =>
    rw [List.foldl_cons, ih, lookup_applyToTable, List.reverse_cons, List.findSome?_append,
      List.findSome?_singleton]
    cases operations.reverse.findSome? (stagedValue table key) with
    | none => rfl
    | some value => rfl

end BlossomLogTransaction

/-! ### Records -/

structure TransactionBody where
  baseRevision : ℕ
  revision : ℕ
  operations : List LogOperation
  deriving DecidableEq

structure CheckpointBody where
  identity : BlossomLogStoreIdentity
  revision : ℕ
  tables : Tables
  deriving DecidableEq

inductive GroupKind where
  | transaction | checkpoint
  deriving DecidableEq

abbrev Digest := { bytes : List UInt8 // bytes.length = 32 }

inductive PersistedRecord where
  | chunk (formatVersion : ℕ) (kind : GroupKind) (groupId index count : ℕ) (bodyHash : Digest)
      (bytes : List UInt8)
  | commit (formatVersion : ℕ) (kind : GroupKind) (groupId count : ℕ) (bodyHash : Digest)
  | abort (formatVersion : ℕ) (kind : GroupKind) (groupId count : ℕ) (bodyHash : Digest)
  deriving DecidableEq

section Codecs

open Codec

def LogOperation.codec : Codec LogOperation :=
  tagged (fun
    | insert .. => 0
    | remove .. => 1
    | removeRange .. => 2
    | clear .. => 3) fun
    | 0 => (string.pair (string.pair bytes)).prism (fun r => insert r.1 r.2.1 r.2.2)
        (fun | insert table key value => some (table, key, value) | _ => none)
        (by rintro (_ | _ | _ | _) b h <;> cases h; rfl)
    | 1 => (string.pair string).prism (fun r => remove r.1 r.2)
        (fun | remove table key => some (table, key) | _ => none)
        (by rintro (_ | _ | _ | _) b h <;> cases h; rfl)
    | 2 => (string.pair (string.pair (option string))).prism (fun r => removeRange r.1 r.2.1 r.2.2)
        (fun | removeRange table start stop => some (table, start, stop) | _ => none)
        (by rintro (_ | _ | _ | _) b h <;> cases h; rfl)
    | 3 => string.prism clear (fun | clear table => some table | _ => none)
        (by rintro (_ | _ | _ | _) b h <;> cases h; rfl)
    | _ => fail

def BlossomLogStoreIdentity.codec : Codec BlossomLogStoreIdentity :=
  ((number 2).pair (string.pair (bytes.pair (number 8)))).iso
    (fun r => ⟨r.1, r.2.1, r.2.2.1, r.2.2.2⟩)
    (fun i => (i.formatVersion, i.storeKind, i.publicScope, i.generation)) fun _ => rfl

def TransactionBody.codec : Codec TransactionBody :=
  ((number 8).pair ((number 8).pair (list LogOperation.codec))).iso
    (fun r => ⟨r.1, r.2.1, r.2.2⟩) (fun t => (t.baseRevision, t.revision, t.operations)) fun _ => rfl

def CheckpointBody.codec : Codec CheckpointBody :=
  (BlossomLogStoreIdentity.codec.pair ((number 8).pair (map string (map string bytes)))).iso
    (fun r => ⟨r.1, r.2.1, r.2.2⟩) (fun c => (c.identity, c.revision, c.tables)) fun _ => rfl

def GroupKind.codec : Codec GroupKind :=
  tagged (fun | transaction => 0 | checkpoint => 1) fun
    | 0 => unit.prism (fun _ => transaction) (fun | transaction => some () | _ => none)
        (by rintro (_ | _) b h <;> cases h; rfl)
    | 1 => unit.prism (fun _ => checkpoint) (fun | checkpoint => some () | _ => none)
        (by rintro (_ | _) b h <;> cases h; rfl)
    | _ => fail

def PersistedRecord.codec : Codec PersistedRecord :=
  tagged (fun | chunk .. => 0 | commit .. => 1 | abort .. => 2) fun
    | 0 => ((number 2).pair (GroupKind.codec.pair ((number 8).pair ((number 4).pair ((number 4).pair
          ((fixed 32).pair bytes)))))).prism
        (fun r => chunk r.1 r.2.1 r.2.2.1 r.2.2.2.1 r.2.2.2.2.1 r.2.2.2.2.2.1 r.2.2.2.2.2.2)
        (fun
          | chunk version kind groupId index count hash bytes =>
            some (version, kind, groupId, index, count, hash, bytes)
          | _ => none)
        (by rintro (_ | _ | _) b h <;> cases h; rfl)
    | 1 => ((number 2).pair (GroupKind.codec.pair ((number 8).pair ((number 4).pair
          (fixed 32))))).prism
        (fun r => commit r.1 r.2.1 r.2.2.1 r.2.2.2.1 r.2.2.2.2)
        (fun
          | commit version kind groupId count hash => some (version, kind, groupId, count, hash)
          | _ => none)
        (by rintro (_ | _ | _) b h <;> cases h; rfl)
    | 2 => ((number 2).pair (GroupKind.codec.pair ((number 8).pair ((number 4).pair
          (fixed 32))))).prism
        (fun r => abort r.1 r.2.1 r.2.2.1 r.2.2.2.1 r.2.2.2.2)
        (fun
          | abort version kind groupId count hash => some (version, kind, groupId, count, hash)
          | _ => none)
        (by rintro (_ | _ | _) b h <;> cases h; rfl)
    | _ => fail

end Codecs

class BodyHash where
  hashBytes : List UInt8 → Digest

/-! ### The log -/

/-- All records that were appended, by their sequence numbers, the number of the first one that
is still there, and how many there were when the ones before it were deleted. -/
structure ShardLog where
  first : ℕ
  records : List (List UInt8)
  settled : ℕ

/-- Whether an append succeeds, and how many of its records are left if it does not. -/
structure AppendIo where
  ok : Bool
  written : ℕ

/-- Whether a deletion succeeds, and whether it has happened if it does not. -/
structure CompactIo where
  ok : Bool
  removed : Bool

structure CheckpointIo where
  sealed : Bool
  append : AppendIo
  compact : CompactIo

structure OpenIo where
  opened : Bool
  abort : AppendIo
  checkpoint : CheckpointIo

namespace ShardLog

def empty : ShardLog := ⟨0, [], 0⟩

def nextSequence (log : ShardLog) : ℕ := log.records.length

/-- The records that can still be read. -/
def retained (log : ShardLog) : List (List UInt8) := log.records.drop log.first

def appendGroup (log : ShardLog) (sequence : ℕ) (payloads : List (List UInt8)) (io : AppendIo) :
    Result ℕ × ShardLog :=
  if sequence ≠ log.nextSequence then (.error storageError, log)
  else if io.ok then
    (.ok (sequence + payloads.length - 1), { log with records := log.records ++ payloads })
  else
    (.error storageError, { log with records := log.records ++ payloads.take io.written })

def compactBefore (log : ShardLog) (sequence : ℕ) (io : CompactIo) : Result Unit × ShardLog :=
  let compacted := { log with first := sequence, settled := log.nextSequence }
  if io.ok then (.ok (), compacted)
  else (.error storageError, if io.removed then compacted else log)

/-- The log after a crash that leaves the given number of records. -/
def crash (log : ShardLog) (kept : ℕ) : ShardLog := { log with records := log.records.take kept }

end ShardLog

/-! ### Recovery -/

structure PendingGroup where
  kind : GroupKind
  groupId : ℕ
  count : ℕ
  bodyHash : Digest
  chunks : List (Option (List UInt8))
  deriving DecidableEq

/-- What a recovery has read so far. -/
structure Recovery where
  state : MaterializedState
  replayedTransactions : ℕ
  initialized : Bool
  pending : Option PendingGroup
  deriving DecidableEq

def Recovery.start : Recovery := ⟨.empty, 0, false, none⟩

def validateRecordVersion (version : ℕ) : Result Unit :=
  reject (version ≠ blossomLogStoreFormatVersion)
    (invalidConfiguration "unsupported Blossom LogStore record version")

def validateCheckpointTables (tables : Tables) (maxValueBytes : ℕ) : Result Unit :=
  tables.toList.forM fun (name, entries) => do
    validateTableName name
    entries.toList.forM fun (key, value) => do
      validateKey key
      reject (maxValueBytes < value.length)
        (invalidConfiguration "Blossom LogStore checkpoint value exceeds the supported bound")

section Store

variable (config : BlossomLogStoreConfig) (identity : BlossomLogStoreIdentity)

def replayChunk (r : Recovery) (kind : GroupKind) (groupId index count : ℕ) (bodyHash : Digest)
    (bytes : List UInt8) : Result Recovery := do
  reject (count = 0 ∨ maxGroupChunks < count ∨ count ≤ index ∨ config.maxChunkBytes < bytes.length)
    (invalidConfiguration "Blossom LogStore chunk metadata is invalid")
  match r.pending with
  | none => pure { r with pending := some ⟨kind, groupId, count, bodyHash,
      (List.replicate count none).set index (some bytes)⟩ }
  | some group => do
    reject (group.kind ≠ kind ∨ group.groupId ≠ groupId ∨ group.count ≠ count ∨
      group.bodyHash ≠ bodyHash)
      (invalidConfiguration "Blossom LogStore contains interleaved transaction groups")
    reject (group.chunks[index]?.join.isSome)
      (invalidConfiguration "Blossom LogStore group contains a duplicate chunk")
    pure { r with pending := some { group with chunks := group.chunks.set index (some bytes) } }

def replayTransaction (r : Recovery) (body : List UInt8) : Result Recovery := do
  reject (r.initialized = false)
    (invalidConfiguration "Blossom LogStore transaction precedes its identity checkpoint")
  let transaction ← require (TransactionBody.codec.fromSlice body) encodeError
  reject (transaction.baseRevision ≠ r.state.revision)
    (invalidConfiguration "Blossom LogStore transaction revision is not consecutive")
  reject (maxCounter < r.state.revision + 1)
    (invalidConfiguration "Blossom LogStore revision overflow")
  reject (transaction.revision ≠ r.state.revision + 1)
    (invalidConfiguration "Blossom LogStore transaction revision is not consecutive")
  validateOperations transaction.operations config.maxValueBytes
  reject (config.maxTransactionBytes < body.length)
    (invalidConfiguration "Blossom LogStore transaction exceeds the configured recovery bound")
  pure ⟨⟨transaction.revision, applyOperations r.state.tables transaction.operations⟩,
    min (r.replayedTransactions + 1) maxCounter, r.initialized, none⟩

def replayCheckpoint (r : Recovery) (body : List UInt8) : Result Recovery := do
  let checkpoint ← require (CheckpointBody.codec.fromSlice body) encodeError
  checkpoint.identity.validate
  reject (checkpoint.identity ≠ identity)
    (invalidConfiguration "Blossom LogStore identity does not match its directory")
  validateCheckpointTables checkpoint.tables config.maxValueBytes
  reject (config.maxCheckpointBytes < body.length)
    (invalidConfiguration "Blossom LogStore checkpoint exceeds the configured recovery bound")
  pure ⟨⟨checkpoint.revision, checkpoint.tables⟩, r.replayedTransactions, true, none⟩

def maximumBodyBytes : GroupKind → ℕ
  | .transaction => config.maxTransactionBytes
  | .checkpoint => config.maxCheckpointBytes

def replayBody (r : Recovery) (kind : GroupKind) (body : List UInt8) : Result Recovery :=
  match kind with
  | .transaction => replayTransaction config r body
  | .checkpoint => replayCheckpoint config identity r body

variable [BodyHash]

section

variable (r : Recovery) (kind : GroupKind) (groupId count : ℕ) (bodyHash : Digest)

def replayCommit : Result Recovery := do
  let group ← require r.pending
    (invalidConfiguration "Blossom LogStore commit has no transaction chunks")
  reject (group.kind ≠ kind ∨ group.groupId ≠ groupId ∨ group.count ≠ count ∨
    group.bodyHash ≠ bodyHash ∨ group.chunks.any Option.isNone)
    (invalidConfiguration "Blossom LogStore commit does not match its chunks")
  let body := (group.chunks.filterMap id).flatten
  reject (maximumBodyBytes config kind < body.length)
    (invalidConfiguration "Blossom LogStore group exceeds its configured recovery bound")
  reject (BodyHash.hashBytes body ≠ bodyHash)
    (invalidConfiguration "Blossom LogStore transaction hash mismatch")
  replayBody config identity r kind body

omit [BodyHash] in
def replayAbort : Result Recovery := do
  let group ← require r.pending
    (invalidConfiguration "Blossom LogStore abort has no pending transaction chunks")
  reject (group.kind ≠ kind ∨ group.groupId ≠ groupId ∨ group.count ≠ count ∨
    group.bodyHash ≠ bodyHash)
    (invalidConfiguration "Blossom LogStore abort does not match its pending chunks")
  pure { r with pending := none }

end

def replayRecord (r : Recovery) (record : PersistedRecord) : Result Recovery :=
  match record with
  | .chunk version kind groupId index count bodyHash bytes => do
    validateRecordVersion version
    replayChunk config r kind groupId index count bodyHash bytes
  | .commit version kind groupId count bodyHash => do
    validateRecordVersion version
    replayCommit config identity r kind groupId count bodyHash
  | .abort version kind groupId count bodyHash => do
    validateRecordVersion version
    replayAbort r kind groupId count bodyHash

def replayPayload (r : Recovery) (payload : List UInt8) : Result Recovery := do
  let record ← require (PersistedRecord.codec.fromSlice payload)
    (wireProtocol "decode LogStore record")
  replayRecord config identity r record

def recover (log : ShardLog) : Result Recovery :=
  log.retained.foldlM (replayPayload config identity) .start

section

omit [BodyHash]

def abortRecord (pending : PendingGroup) : PersistedRecord :=
  .abort blossomLogStoreFormatVersion pending.kind pending.groupId pending.count pending.bodyHash

def abortPendingGroup (log : ShardLog) (sequence : ℕ) (pending : PendingGroup) (io : AppendIo) :
    Result ℕ × ShardLog :=
  match PersistedRecord.codec.encode (abortRecord pending) with
  | none => (.error encodeError, log)
  | some payload =>
    match log.appendGroup sequence [payload] io with
    | (.error f, log) => (.error f, log)
    | (.ok _, log) => (.ok (sequence + 1), log)

def abortTail (log : ShardLog) (r : Recovery) (io : AppendIo) : Result ℕ × ShardLog :=
  match r.pending with
  | none => (.ok log.nextSequence, log)
  | some pending => abortPendingGroup log log.nextSequence pending io

end

/-! ### Writing -/

structure BlossomLogCommitReceipt where
  revision : ℕ
  firstSequence : ℕ
  lastSequence : ℕ
  payloadBytes : ℕ

structure BlossomLogCheckpointReceipt where
  revision : ℕ
  firstSequence : ℕ
  lastSequence : ℕ
  stateHash : Digest

structure BlossomLogSnapshot where
  identity : BlossomLogStoreIdentity
  revision : ℕ
  tables : Tables

namespace BlossomLogSnapshot

def get (s : BlossomLogSnapshot) (table key : ByteString) : Option (List UInt8) :=
  s.tables[table]?.bind fun entries => entries[key]?

def scan (s : BlossomLogSnapshot) (table : ByteString) : List (ByteString × List UInt8) :=
  (s.tables[table]?.map fun entries => entries.toList).getD []

def scanRange (s : BlossomLogSnapshot) (table start : ByteString) (stop : Option ByteString) :
    Result (List (ByteString × List UInt8)) := do
  validateRange table start stop
  pure ((s.tables[table]?.map fun entries =>
    entries.toList.filter fun entry => inRange entry.1 start stop).getD [])

end BlossomLogSnapshot

omit [BodyHash] in
/-- A transaction reads what a snapshot of the tables with its operations applied reads; only names
and keys that no operation accepts are refused. -/
theorem BlossomLogTransaction.reads_applied {config : BlossomLogStoreConfig}
    (t : BlossomLogTransaction config) (identity : BlossomLogStoreIdentity) (revision : ℕ)
    (table : ByteString) :
    let s : BlossomLogSnapshot := ⟨identity, revision, applyOperations t.base.tables t.operations⟩
    (∀ key, t.get table key =
      (do validateTableName table; validateKey key; pure (s.get table key))) ∧
    (t.scan table = (do validateTableName table; pure (s.scan table))) ∧
    ∀ start stop, t.scanRange table start stop = s.scanRange table start stop := by
  intro s
  have hscan : t.scan table = (do validateTableName table; pure (s.scan table)) := by
    rw [scan, ← applyOperations_table, BlossomLogSnapshot.scan]
    cases (applyOperations t.base.tables t.operations)[table]? with
    | none => rfl
    | some entries => rfl
  refine ⟨fun key => ?_, hscan, fun start stop => ?_⟩
  · have hentries (tables : Tables) :
        (tables[table]?.bind fun entries => entries[key]?) = (tables[table]?.getD ∅)[key]? := by
      cases tables[table]? with
      | none => simp
      | some entries => rfl
    rw [get, BlossomLogSnapshot.get, hentries, hentries, applyOperations_table,
      lookup_foldl_applyToTable]
  · rw [scanRange, hscan, BlossomLogSnapshot.scanRange]
    cases hrange : validateRange table start stop with
    | error f => rfl
    | ok _ =>
      simp only [validateRange, bind_eq_ok] at hrange
      obtain ⟨_, htable, -⟩ := hrange
      rw [htable, BlossomLogSnapshot.scan]
      cases s.tables[table]? with
      | none => rfl
      | some entries => rfl

structure StoreWriter where
  store : ShardLog
  nextSequence : ℕ
  transactionsSinceCheckpoint : ℕ
  bytesSinceCheckpoint : ℕ

structure BlossomLogStore (config : BlossomLogStoreConfig) (identity : BlossomLogStoreIdentity) where
  state : MaterializedState
  writer : StoreWriter
  closed : Bool
  poisoned : Bool

omit [BodyHash] in
def chunkRecords (kind : GroupKind) (groupId : ℕ) (bodyHash : Digest)
    (parts : List (List UInt8)) : List PersistedRecord :=
  parts.mapIdx fun index bytes =>
    .chunk blossomLogStoreFormatVersion kind groupId index parts.length bodyHash bytes

def groupPayloads (kind : GroupKind) (groupId : ℕ) (body : List UInt8) :
    Result (List (List UInt8)) := do
  let bodyHash := BodyHash.hashBytes body
  let parts := chunks config.maxChunkBytes body
  reject (parts.length = 0 ∨ maxGroupChunks < parts.length)
    (invalidConfiguration "Blossom LogStore transaction has an invalid chunk count")
  let records := chunkRecords kind groupId bodyHash parts ++
    [.commit blossomLogStoreFormatVersion kind groupId parts.length bodyHash]
  records.mapM fun record => require (PersistedRecord.codec.encode record) encodeError

section

omit [BodyHash]

def checkpointEntry (estimated : ℕ) (entry : ByteString × List UInt8) : Result ℕ := do
  validateKey entry.1
  reject (config.maxValueBytes < entry.2.length)
    (invalidConfiguration "Blossom LogStore checkpoint value exceeds the supported bound")
  let estimated := estimated + entry.1.bytes.length + entry.2.length + 16
  reject (config.maxCheckpointBytes < estimated)
    (invalidConfiguration "Blossom LogStore checkpoint exceeds its bytes")
  pure estimated

def checkpointTable (estimated : ℕ) (table : ByteString × Table) : Result ℕ := do
  validateTableName table.1
  table.2.toList.foldlM (checkpointEntry config) (estimated + table.1.bytes.length + 16)

def validateMaterializedCheckpoint (tables : Tables) : Result Unit := do
  let _ ← tables.toList.foldlM (checkpointTable config) 128
  pure ()

def checkpointBytes (revision : ℕ) (tables : Tables) : Result (List UInt8) := do
  validateMaterializedCheckpoint config tables
  let encoded ← require (CheckpointBody.codec.encode ⟨identity, revision, tables⟩) encodeError
  reject (config.maxCheckpointBytes < encoded.length)
    (invalidConfiguration "Blossom LogStore checkpoint exceeds its bytes")
  pure encoded

def transactionBytes (base : MaterializedState) (operations : List LogOperation) :
    Result (List UInt8) := do
  reject (maxCounter < base.revision + 1)
    (invalidConfiguration "Blossom LogStore revision overflow")
  let encoded ← require
    (TransactionBody.codec.encode ⟨base.revision, base.revision + 1, operations⟩) encodeError
  reject (config.maxTransactionBytes < encoded.length)
    (invalidConfiguration "Blossom LogStore transaction exceeds its bytes")
  pure encoded

end

namespace BlossomLogStore

variable {config identity}

section

omit [BodyHash]

section

variable (s : BlossomLogStore config identity)

def ensureWritable : Result Unit := do
  reject (s.closed = true) (.error (.io "Blossom LogStore is closed"))
  reject (s.poisoned = true) (.error (.io
    "Blossom LogStore is poisoned after a persistence failure; reopen it before writing"))

def poison : BlossomLogStore config identity :=
  { s with poisoned := true }

def withLog (log : ShardLog) : BlossomLogStore config identity :=
  { s with writer := { s.writer with store := log } }

end

end

section

variable (s : BlossomLogStore config identity)

def persistGroupLocked (kind : GroupKind) (groupId : ℕ) (body : List UInt8) (io : AppendIo) :
    Result BlossomLogCommitReceipt × BlossomLogStore config identity :=
  match groupPayloads config kind groupId body with
  | .error f => (.error f, s)
  | .ok payloads =>
    match s.writer.store.appendGroup s.writer.nextSequence payloads io with
    | (.error f, log) => (.error f, (s.withLog log).poison)
    | (.ok lastSequence, log) =>
      (.ok ⟨groupId, s.writer.nextSequence, lastSequence,
          min (payloads.map List.length).sum maxCounter⟩,
        { s with writer := { s.writer with store := log, nextSequence := lastSequence + 1 } })

def writeCheckpointLocked (revision : ℕ) (tables : Tables)
    (io : CheckpointIo) : Result BlossomLogCheckpointReceipt × BlossomLogStore config identity :=
  match checkpointBytes config identity revision tables with
  | .error f => (.error f, s)
  | .ok encoded =>
    if io.sealed = false then (.error storageError, s.poison)
    else match s.persistGroupLocked .checkpoint revision encoded io.append with
      | (.error f, s) => (.error f, s.poison)
      | (.ok persisted, s) =>
        match s.writer.store.compactBefore persisted.firstSequence io.compact with
        | (.error f, log) => (.error f, (s.withLog log).poison)
        | (.ok (), log) =>
          (.ok ⟨revision, persisted.firstSequence, persisted.lastSequence,
              BodyHash.hashBytes encoded⟩,
            { s with writer := ⟨log, s.writer.nextSequence, 0, 0⟩ })

def checkpointLocked (io : CheckpointIo) :
    Result BlossomLogCheckpointReceipt × BlossomLogStore config identity :=
  s.writeCheckpointLocked s.state.revision s.state.tables io

def checkpoint (io : CheckpointIo) :
    Result BlossomLogCheckpointReceipt × BlossomLogStore config identity :=
  match s.ensureWritable with
  | .error f => (.error f, s)
  | .ok () => s.checkpointLocked io

/-- A checkpoint after enough transactions. If it fails the store has to be opened again. -/
def maybeCheckpointLocked (io : CheckpointIo) : BlossomLogStore config identity :=
  if config.checkpointAfterTransactions ≤ s.writer.transactionsSinceCheckpoint ∨
      config.checkpointAfterBytes ≤ s.writer.bytesSinceCheckpoint then
    match s.checkpointLocked io with
    | (.error _, s) => s.poison
    | (.ok _, s) => s
  else s

def transaction (s : BlossomLogStore config identity)
    (operation : BlossomLogTransaction config → Result (BlossomLogTransaction config))
    (io : AppendIo) (maintenance : CheckpointIo) :
    Result (Option BlossomLogCommitReceipt) × BlossomLogStore config identity :=
  match s.ensureWritable with
  | .error f => (.error f, s)
  | .ok () =>
    match operation (.start s.state) with
    | .error f => (.error f, s)
    | .ok t =>
      if t.operations.isEmpty then (.ok none, s)
      else match transactionBytes config s.state t.operations with
        | .error f => (.error f, s)
        | .ok encoded =>
          match s.persistGroupLocked .transaction (s.state.revision + 1) encoded io with
          | (.error f, s) => (.error f, s)
          | (.ok persisted, s) =>
            let s : BlossomLogStore config identity :=
              { s with
                state := ⟨s.state.revision + 1, applyOperations s.state.tables t.operations⟩
                writer := { s.writer with
                  transactionsSinceCheckpoint :=
                    min (s.writer.transactionsSinceCheckpoint + 1) maxCounter
                  bytesSinceCheckpoint :=
                    min (s.writer.bytesSinceCheckpoint + persisted.payloadBytes) maxCounter } }
            (.ok (some persisted), s.maybeCheckpointLocked maintenance)

def replaceFromCheckpoint (snapshot : BlossomLogSnapshot)
    (io : CheckpointIo) : Result BlossomLogCheckpointReceipt × BlossomLogStore config identity :=
  match (do
    s.ensureWritable
    reject (snapshot.identity ≠ identity) (invalidConfiguration
      "Blossom LogStore checkpoint identity does not match its destination")
    validateMaterializedCheckpoint config snapshot.tables : Result Unit) with
  | .error f => (.error f, s)
  | .ok () =>
    match s.writeCheckpointLocked snapshot.revision snapshot.tables io with
    | (.error f, s) => (.error f, s)
    | (.ok receipt, s) => (.ok receipt, { s with state := ⟨snapshot.revision, snapshot.tables⟩ })

omit [BodyHash] in
def shutdown (synced : Bool) : Result Unit × BlossomLogStore config identity :=
  if s.closed then (.ok (), s)
  else if synced then (.ok (), { s with closed := true })
  else (.error storageError, { s with closed := true, poisoned := true })

end

end BlossomLogStore

def checkedRecovery (log : ShardLog) (opened : Bool) : Result Recovery := do
  config.validate
  identity.validate
  reject (maxCounter < config.maxChunkBytes + 1024 * 1024)
    (invalidConfiguration "Blossom LogStore frame limit overflow")
  reject (opened = false) storageError
  recover config identity log

/-- The store over a log. A group at the end that is not complete is aborted, and a log without a
checkpoint gets one. The second result is the log, also if the store does not open. -/
def openStore (log : ShardLog) (io : OpenIo) :
    Result (BlossomLogStore config identity) × ShardLog :=
  match checkedRecovery config identity log io.opened with
  | .error f => (.error f, log)
  | .ok r =>
    match abortTail log r io.abort with
    | (.error f, log) => (.error f, log)
    | (.ok nextSequence, log) =>
      let s : BlossomLogStore config identity := ⟨r.state, ⟨log, nextSequence, 0, 0⟩, false, false⟩
      if r.initialized then (.ok s, log)
      else match s.checkpoint io.checkpoint with
        | (.error f, s) => (.error f, s.writer.store)
        | (.ok _, s) => (.ok s, s.writer.store)

end Store

end Blossom
