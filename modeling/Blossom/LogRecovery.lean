import Blossom.LogStore

/-!
# What a recovery reads

The records of a group are read back one by one. Before the commit record the state does not change;
the commit record applies the body, if it is one that the store has written.
-/

namespace Blossom

open CheckedSteps OrderedMap ByteCodec

variable {config : BlossomLogStoreConfig} {identity : BlossomLogStoreIdentity}
variable {j maxValueBytes n revision : ℕ} {encoded payload : List UInt8} {parts : List (List UInt8)}

/-! ### Chunks of a group -/

/-- The chunks of a group of which some have been read. -/
def filled (parts : List (List UInt8)) (n : ℕ) : List (Option (List UInt8)) :=
  (parts.take n).map some ++ List.replicate (parts.length - n) none

theorem filled_zero (parts : List (List UInt8)) :
    filled parts 0 = List.replicate parts.length none := by
  simp [filled]

theorem filled_length (parts : List (List UInt8)) :
    filled parts parts.length = parts.map some := by
  simp [filled]

theorem filled_get (h : n < parts.length) : (filled parts n)[n]? = some none := by
  rw [filled, List.getElem?_append_right (by simp), List.length_map, List.length_take,
    min_eq_left h.le, Nat.sub_self, List.getElem?_replicate, if_pos (by omega)]

theorem filled_succ (h : n < parts.length) :
    (filled parts n).set n (some parts[n]) = filled parts (n + 1) := by
  have htake : ((parts.take n).map some).length = n := by
    rw [List.length_map, List.length_take, min_eq_left h.le]
  have hrest : parts.length - n = parts.length - (n + 1) + 1 := by omega
  rw [filled, filled, List.set_append_right _ _ htake.le, htake, Nat.sub_self, hrest,
    List.replicate_succ, List.set_cons_zero, List.take_succ_eq_append_getElem h, List.map_append,
    List.append_assoc]
  rfl

def Recovery.reading (r : Recovery) (kind : GroupKind) (groupId : ℕ) (bodyHash : Digest)
    (parts : List (List UInt8)) (n : ℕ) : Recovery :=
  if n = 0 then r
  else { r with pending := some ⟨kind, groupId, parts.length, bodyHash, filled parts n⟩ }

variable {r : Recovery} {kind : GroupKind} {groupId : ℕ} {bodyHash : Digest}
  {parts : List (List UInt8)}

theorem replayChunk_reading (hpend : r.pending = none) (hcount : parts.length ≤ maxGroupChunks)
    (hbytes : ∀ part ∈ parts, part.length ≤ config.maxChunkBytes) (hn : n < parts.length) :
    replayChunk config (r.reading kind groupId bodyHash parts n) kind groupId n parts.length bodyHash
      parts[n] = .ok (r.reading kind groupId bodyHash parts (n + 1)) := by
  have hpart := hbytes _ (List.getElem_mem hn)
  have hvalid : ¬(parts.length = 0 ∨ maxGroupChunks < parts.length ∨ parts.length ≤ n ∨
      config.maxChunkBytes < parts[n].length) := by omega
  rw [replayChunk, guard_bind_eq_ok, reject_eq_ok]
  refine ⟨hvalid, ?_⟩
  rcases Nat.eq_zero_or_pos n with rfl | hpos
  · have hreading : r.reading kind groupId bodyHash parts 0 = r := if_pos rfl
    rw [hreading, hpend]
    dsimp only
    rw [← filled_zero, filled_succ hn]
    rfl
  · have hreading : (r.reading kind groupId bodyHash parts n).pending =
        some ⟨kind, groupId, parts.length, bodyHash, filled parts n⟩ := by
      rw [Recovery.reading, if_neg hpos.ne']
    rw [hreading]
    dsimp only
    simp only [↓guard_bind_eq_ok, reject_eq_ok, pure_eq_ok]
    refine ⟨by simp, by simp [filled_get hn], ?_⟩
    rw [filled_succ hn, Recovery.reading, Recovery.reading, if_neg hpos.ne',
      if_neg n.succ_ne_zero]

theorem length_chunkRecords :
    (chunkRecords kind groupId bodyHash parts).length = parts.length :=
  List.length_mapIdx

variable [BodyHash]

theorem replay_chunks (hpend : r.pending = none) (hcount : parts.length ≤ maxGroupChunks)
    (hbytes : ∀ part ∈ parts, part.length ≤ config.maxChunkBytes) (hn : n ≤ parts.length) :
    ((chunkRecords kind groupId bodyHash parts).take n).foldlM (replayRecord config identity) r =
      .ok (r.reading kind groupId bodyHash parts n) := by
  induction n with
  | zero => rfl
  | succ n ih =>
    have hlen : n < (chunkRecords kind groupId bodyHash parts).length := by
      rw [length_chunkRecords]
      exact hn
    rw [List.take_succ_eq_append_getElem hlen, List.foldlM_append, ih (by omega)]
    change [_].foldlM (replayRecord config identity) _ = _
    rw [List.foldlM_cons, bind_eq_ok]
    refine ⟨_, ?_, rfl⟩
    have hrec : (chunkRecords kind groupId bodyHash parts)[n] =
        .chunk blossomLogStoreFormatVersion kind groupId n parts.length bodyHash parts[n] := by
      simp [chunkRecords]
    rw [hrec, replayRecord, guard_bind_eq_ok]
    exact ⟨by simp [validateRecordVersion], replayChunk_reading hpend hcount hbytes hn⟩

theorem replayCommit_reading (hpos : parts.length ≠ 0)
    (hsize : parts.flatten.length ≤ maximumBodyBytes config kind)
    (hhash : BodyHash.hashBytes parts.flatten = bodyHash) :
    replayCommit config identity (r.reading kind groupId bodyHash parts parts.length) kind groupId
      parts.length bodyHash = replayBody config identity r kind parts.flatten := by
  have hreading : (r.reading kind groupId bodyHash parts parts.length).pending =
      some ⟨kind, groupId, parts.length, bodyHash, parts.map some⟩ := by
    rw [Recovery.reading, if_neg hpos, filled_length]
  have hbody : replayBody config identity (r.reading kind groupId bodyHash parts parts.length) kind
      parts.flatten = replayBody config identity r kind parts.flatten := by
    rw [Recovery.reading, if_neg hpos]
    cases kind <;> rfl
  unfold replayCommit
  rw [hreading]
  have hparts : (parts.map some).filterMap id = parts := by
    simp
  have hfull : (parts.map some).any Option.isNone = false := by
    simp
  simp only [require, bind, Except.bind, hparts, hfull, hhash, ne_eq, not_true_eq_false,
    Bool.false_eq_true, or_self, reject, if_false, if_neg hsize.not_gt, hbody]

variable {payloads : List (List UInt8)}

omit [BodyHash] in
theorem forall₂_replay {records : List PersistedRecord}
    [BodyHash] (h : List.Forall₂ (fun record payload =>
      PersistedRecord.codec.encode record = some payload) records payloads) :
    payloads.foldlM (replayPayload config identity) r =
      records.foldlM (replayRecord config identity) r := by
  induction h generalizing r with
  | nil => rfl
  | cons hencode _ ih =>
    rw [List.foldlM_cons, List.foldlM_cons, replayPayload,
      PersistedRecord.codec.fromSlice_encode hencode]
    change (replayRecord config identity r _ >>= _) = _
    exact congrArg _ (funext fun r => ih)

variable {body : List UInt8}

theorem groupPayloads_spec (h : groupPayloads config kind groupId body = .ok payloads) :
    (chunks config.maxChunkBytes body).length ≠ 0 ∧
      (chunks config.maxChunkBytes body).length ≤ maxGroupChunks ∧
      List.Forall₂ (fun record payload => PersistedRecord.codec.encode record = some payload)
        (chunkRecords kind groupId (BodyHash.hashBytes body) (chunks config.maxChunkBytes body) ++
          [.commit blossomLogStoreFormatVersion kind groupId (chunks config.maxChunkBytes body).length
            (BodyHash.hashBytes body)]) payloads := by
  unfold groupPayloads at h
  simp only [↓guard_bind_eq_ok, reject_eq_ok, not_or, not_lt, mapM_eq_ok, require_eq_ok] at h
  exact ⟨h.1.1, h.1.2, h.2⟩

theorem length_groupPayloads (h : groupPayloads config kind groupId body = .ok payloads) :
    payloads.length = (chunks config.maxChunkBytes body).length + 1 := by
  obtain ⟨-, -, hpayloads⟩ := groupPayloads_spec h
  rw [← hpayloads.length_eq, List.length_append, length_chunkRecords]
  rfl

/-- The first records of a group: before the last one the state does not change. -/
theorem replay_group (hchunk : config.maxChunkBytes ≠ 0) (hpend : r.pending = none)
    (hsize : body.length ≤ maximumBodyBytes config kind)
    (h : groupPayloads config kind groupId body = .ok payloads) (hj : j ≤ payloads.length) :
    (payloads.take j).foldlM (replayPayload config identity) r =
      if j = payloads.length then replayBody config identity r kind body
      else .ok (r.reading kind groupId (BodyHash.hashBytes body)
        (chunks config.maxChunkBytes body) j) := by
  obtain ⟨hpos, hcount, hpayloads⟩ := groupPayloads_spec h
  have hlen := length_groupPayloads h
  have hflatten := flatten_chunks (Nat.pos_of_ne_zero hchunk) body
  have hbytes : ∀ part ∈ chunks config.maxChunkBytes body, part.length ≤ config.maxChunkBytes :=
    fun part hpart => length_le_of_mem_chunks hpart
  generalize hparts : chunks config.maxChunkBytes body = parts at *
  rw [forall₂_replay (List.forall₂_take j hpayloads)]
  split_ifs with heq
  · rw [heq, hlen, List.take_of_length_le (by simp [length_chunkRecords]), List.foldlM_append]
    have hall : ((chunkRecords kind groupId (BodyHash.hashBytes body) parts).take
        parts.length).foldlM (replayRecord config identity) r =
        .ok (r.reading kind groupId (BodyHash.hashBytes body) parts parts.length) :=
      replay_chunks hpend hcount hbytes le_rfl
    rw [List.take_of_length_le length_chunkRecords.le] at hall
    rw [hall]
    change [_].foldlM (replayRecord config identity) _ = _
    rw [List.foldlM_cons, replayRecord]
    have hversion : validateRecordVersion blossomLogStoreFormatVersion = .ok () := by
      simp [validateRecordVersion]
    rw [hversion]
    change (replayCommit config identity _ kind groupId parts.length _ >>= pure) = _
    rw [bind_pure, replayCommit_reading hpos (hflatten.symm ▸ hsize) (hflatten.symm ▸ rfl), hflatten]
  · have hle : j ≤ parts.length := by omega
    rw [List.take_append_of_le_length (by rw [length_chunkRecords]; exact hle)]
    exact replay_chunks hpend hcount hbytes hle

theorem replay_abort {group : PendingGroup} (hpend : r.pending = some group)
    (h : PersistedRecord.codec.encode (abortRecord group) = some payload) :
    replayPayload config identity r payload = .ok { r with pending := none } := by
  rw [replayPayload, PersistedRecord.codec.fromSlice_encode h]
  change replayRecord config identity r (abortRecord group) = _
  rw [abortRecord, replayRecord, guard_bind_eq_ok]
  refine ⟨by simp [validateRecordVersion], ?_⟩
  rw [replayAbort, hpend]
  simp [require, reject, bind, Except.bind, pure, Except.pure]

omit [BodyHash] in
theorem encode_abort {group : PendingGroup}
    (h : PersistedRecord.codec.encode (.commit blossomLogStoreFormatVersion group.kind group.groupId
      group.count group.bodyHash) = some payload) :
    ∃ payload', PersistedRecord.codec.encode (abortRecord group) = some payload' := by
  obtain ⟨bytes, hbytes, -⟩ := Option.map_eq_some_iff.mp h
  exact ⟨2 :: bytes, Option.map_eq_some_iff.mpr ⟨bytes, hbytes, rfl⟩⟩

/-- The group of which a part has been written can be aborted. -/
theorem exists_abort (h : groupPayloads config kind groupId body = .ok payloads)
    (hpend : r.pending = none) :
    ∀ group ∈ (r.reading kind groupId (BodyHash.hashBytes body)
      (chunks config.maxChunkBytes body) j).pending,
      ∃ payload, PersistedRecord.codec.encode (abortRecord group) = some payload := by
  obtain ⟨-, -, hpayloads⟩ := groupPayloads_spec h
  intro group hgroup
  unfold Recovery.reading at hgroup
  split_ifs at hgroup
  · rw [hpend] at hgroup
    cases hgroup
  · cases hgroup
    have hlast := List.forall₂_drop (chunks config.maxChunkBytes body).length hpayloads
    rw [List.drop_left' length_chunkRecords] at hlast
    obtain ⟨payload, -, hcommit, -, -⟩ := List.forall₂_cons_left_iff.mp hlast
    exact encode_abort hcommit

/-! ### Bodies that the store has written -/

section

omit [BodyHash]

theorem validate_of_check {operation : LogOperation} (h : operation.check maxValueBytes = .ok ()) :
    operation.validate maxValueBytes = .ok () := by
  cases operation with
  | insert table key value =>
    simp only [LogOperation.check, ↓guard_bind_eq_ok, reject_eq_ok] at h
    simp only [LogOperation.validate, ↓guard_bind_eq_ok, reject_eq_ok]
    exact h
  | remove table key => exact h
  | removeRange table start stop =>
    simp only [LogOperation.check, validateRange, ↓guard_bind_eq_ok] at h
    simp only [LogOperation.validate, ↓guard_bind_eq_ok]
    refine ⟨h.1, h.2.1, ?_⟩
    cases stop with
    | none => rfl
    | some stop => exact (guard_bind_eq_ok.mp h.2.2).1
  | clear table => exact h

theorem replay_transaction {operations : List LogOperation}
    (h : transactionBytes config r.state operations = .ok encoded)
    (hchk : ∀ operation ∈ operations, operation.check config.maxValueBytes = .ok ())
    (hinit : r.initialized = true) :
    replayBody config identity r .transaction encoded =
        .ok ⟨⟨r.state.revision + 1, applyOperations r.state.tables operations⟩,
          min (r.replayedTransactions + 1) maxCounter, true, none⟩ ∧
      encoded.length ≤ config.maxTransactionBytes := by
  simp only [transactionBytes, ↓guard_bind_eq_ok, bind_eq_ok, reject_eq_ok, require_eq_ok,
    pure_eq_ok, not_lt] at h
  obtain ⟨-, hrevn, bytes, hencode, hsize, rfl⟩ := h
  refine ⟨?_, hsize⟩
  change replayTransaction config r bytes = _
  rw [replayTransaction, TransactionBody.codec.fromSlice_encode hencode]
  have hoperations : validateOperations operations config.maxValueBytes = .ok () := by
    rw [validateOperations, List.forM_eq_forM, forM_eq_ok]
    exact fun operation hop => validate_of_check (hchk operation hop)
  simp only [↓guard_bind_eq_ok, bind_eq_ok, reject_eq_ok, require_eq_ok, pure_eq_ok, not_lt,
    Option.some.injEq, Bool.not_eq_false, not_not]
  exact ⟨hinit, _, rfl, rfl, hrevn, rfl, hoperations, hsize, by rw [hinit]⟩

theorem validate_of_materialized {tables : Tables}
    (h : validateMaterializedCheckpoint config tables = .ok ()) :
    validateCheckpointTables tables config.maxValueBytes = .ok () := by
  simp only [validateMaterializedCheckpoint, bind_eq_ok] at h
  obtain ⟨estimated, hfold, -⟩ := h
  rw [validateCheckpointTables, List.forM_eq_forM, forM_eq_ok]
  rintro ⟨name, entries⟩ hmem
  obtain ⟨before, after, htable⟩ := exists_of_foldlM hfold hmem
  rw [checkpointTable, guard_bind_eq_ok] at htable
  rw [guard_bind_eq_ok, List.forM_eq_forM, forM_eq_ok]
  refine ⟨htable.1, ?_⟩
  rintro ⟨key, value⟩ hent
  obtain ⟨before', after', hkey⟩ := exists_of_foldlM htable.2 hent
  simp only [checkpointEntry, ↓guard_bind_eq_ok, reject_eq_ok] at hkey
  rw [guard_bind_eq_ok, reject_eq_ok]
  exact ⟨hkey.1, hkey.2.1⟩

/-- A checkpoint that was written is replayed, whatever was before it. -/
theorem replay_checkpoint {tables : Tables}
    (h : checkpointBytes config identity revision tables = .ok encoded)
    (hid : identity.validate = .ok ()) :
    replayBody config identity r .checkpoint encoded =
        .ok ⟨⟨revision, tables⟩, r.replayedTransactions, true, none⟩ ∧
      encoded.length ≤ config.maxCheckpointBytes := by
  simp only [checkpointBytes, ↓guard_bind_eq_ok, bind_eq_ok, reject_eq_ok, require_eq_ok,
    pure_eq_ok, not_lt] at h
  obtain ⟨_, htables, bytes, hencode, hsize, rfl⟩ := h
  refine ⟨?_, hsize⟩
  change replayCheckpoint config identity r bytes = _
  rw [replayCheckpoint, CheckpointBody.codec.fromSlice_encode hencode]
  simp only [↓guard_bind_eq_ok, bind_eq_ok, reject_eq_ok, require_eq_ok, pure_eq_ok, not_lt,
    Option.some.injEq, not_not]
  exact ⟨_, rfl, hid, rfl, validate_of_materialized htables, hsize, rfl⟩

end

/-! ### Logs without a checkpoint -/

theorem recover_empty {log : ShardLog} (h : recover config identity log = .ok r)
    (hinitialized : r.initialized = false) : r.state = .empty := by
  refine foldlM_invariant (P := fun r => r.initialized = false → r.state = .empty) ?_
    (fun _ => rfl) h hinitialized
  intro acc payload next hacc hstep hnext
  simp only [replayPayload, bind_eq_ok, require_eq_ok] at hstep
  obtain ⟨record, -, hstep⟩ := hstep
  cases record with
  | chunk version kind groupId index count bodyHash bytes =>
    simp only [replayRecord, ↓guard_bind_eq_ok, replayChunk] at hstep
    obtain ⟨-, -, hstep⟩ := hstep
    split at hstep
    · cases hstep
      exact hacc hnext
    · simp only [↓guard_bind_eq_ok, pure_eq_ok] at hstep
      obtain ⟨-, -, rfl⟩ := hstep
      exact hacc hnext
  | commit version kind groupId count bodyHash =>
    simp only [replayRecord, ↓guard_bind_eq_ok, replayCommit, bind_eq_ok] at hstep
    obtain ⟨-, -, group, -, -, -, -, hbody⟩ := hstep
    cases kind with
    | transaction =>
      simp only [replayBody, replayTransaction, ↓guard_bind_eq_ok, bind_eq_ok, reject_eq_ok,
        pure_eq_ok, Bool.not_eq_false] at hbody
      obtain ⟨-, hinit, t, -, -, -, -, -, -, rfl⟩ := hbody
      rw [hinit] at hnext
      cases hnext
    | checkpoint =>
      simp only [replayBody, replayCheckpoint, ↓guard_bind_eq_ok, bind_eq_ok, pure_eq_ok] at hbody
      obtain ⟨c, -, -, -, -, -, rfl⟩ := hbody
      cases hnext
  | abort version kind groupId count bodyHash =>
    simp only [replayRecord, ↓guard_bind_eq_ok, replayAbort, bind_eq_ok, pure_eq_ok] at hstep
    obtain ⟨-, -, group, -, -, rfl⟩ := hstep
    exact hacc hnext

end Blossom
