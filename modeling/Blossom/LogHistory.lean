import Blossom.LogRecovery

/-!
# Histories of a log store

A store is opened, runs transactions, checkpoints and replacements, and crashes at any record. Its
history are the changes whose commit records are in the log.
-/

namespace Blossom

open CheckedSteps OrderedMap ByteCodec ShardLog

/-- What a group of records does to the tables. -/
inductive LogChange where
  | operations (staged : List LogOperation)
  | replacement (revision : ℕ) (tables : Tables)

def LogChange.apply (s : MaterializedState) : LogChange → MaterializedState
  | .operations staged => ⟨s.revision + 1, applyOperations s.tables staged⟩
  | .replacement revision tables => ⟨revision, tables⟩

/-- The tables after a list of changes. Each change has the number of its commit record. -/
def contents (history : List (ℕ × LogChange)) : MaterializedState :=
  history.foldl (fun s entry => entry.2.apply s) .empty

/-- The changes whose commit records are among the first records. -/
def durable (history : List (ℕ × LogChange)) (k : ℕ) : List (ℕ × LogChange) :=
  history.filter fun entry => entry.1 < k

variable {history entries : List (ℕ × LogChange)} {k : ℕ}
variable {body encoded : List UInt8} {groupId j revision : ℕ}

theorem durable_eq_self (h : ∀ entry ∈ history, entry.1 < k) : durable history k = history := by
  simpa [durable] using h

theorem durable_append :
    durable (history ++ entries) k = durable history k ++ durable entries k :=
  List.filter_append ..

theorem durable_eq_nil (h : ∀ entry ∈ history, k ≤ entry.1) : durable history k = [] := by
  simpa [durable] using h

theorem durable_durable (h : j ≤ k) : durable (durable history k) j = durable history j := by
  unfold durable
  rw [List.filter_filter]
  refine List.filter_congr fun entry _ => ?_
  rw [← Bool.decide_and]
  exact decide_eq_decide.mpr ⟨fun h => h.1, fun hj => ⟨hj, hj.trans_le h⟩⟩

/-! ### Logs that can be recovered -/

namespace ShardLog

def append (log : ShardLog) (payloads : List (List UInt8)) : ShardLog :=
  { log with records := log.records ++ payloads }

variable {log : ShardLog} {payloads : List (List UInt8)}

theorem append_nextSequence : (log.append payloads).nextSequence = log.nextSequence + payloads.length :=
  List.length_append

theorem crash_append_of_le (h : k ≤ log.nextSequence) :
    (log.append payloads).crash k = log.crash k := by
  unfold crash append
  rw [List.take_append_of_le_length h]

theorem crash_append_add (i : ℕ) :
    (log.append payloads).crash (log.nextSequence + i) = log.append (payloads.take i) := by
  unfold crash append nextSequence
  rw [List.take_append, List.take_of_length_le (Nat.le_add_right ..), Nat.add_sub_cancel_left]

theorem crash_crash (h : j ≤ k) : (log.crash k).crash j = log.crash j := by
  unfold crash
  rw [List.take_take, min_eq_left h]

theorem crash_eq_self (h : log.nextSequence ≤ k) : log.crash k = log := by
  unfold crash
  rw [List.take_of_length_le h]

theorem crash_nextSequence : (log.crash k).nextSequence = min k log.nextSequence :=
  List.length_take

end ShardLog

variable {config : BlossomLogStoreConfig} {identity : BlossomLogStoreIdentity} [BodyHash]
  {log : ShardLog} {r : Recovery} {payloads : List (List UInt8)}

theorem recover_append (h : log.first ≤ log.nextSequence)
    (hr : recover config identity log = .ok r) :
    recover config identity (log.append payloads) =
      payloads.foldlM (replayPayload config identity) r := by
  unfold recover retained append
  rw [List.drop_append_of_le_length h, List.foldlM_append]
  unfold recover retained at hr
  rw [hr]
  rfl

/-- The group at the end of what was read can be aborted. -/
def Recovery.Abortable (r : Recovery) : Prop :=
  ∀ group ∈ r.pending, ∃ payload, PersistedRecord.codec.encode (abortRecord group) = some payload

structure Recoverable (config : BlossomLogStoreConfig) (identity : BlossomLogStoreIdentity)
    (log : ShardLog) (history : List (ℕ × LogChange)) : Prop where
  first_le : log.first ≤ log.settled
  settled_le : log.settled ≤ log.nextSequence
  recent : ∀ entry ∈ history, entry.1 < log.nextSequence
  recovers : ∀ k, log.settled ≤ k → k ≤ log.nextSequence →
    ∃ r, recover config identity (log.crash k) = .ok r ∧ r.state = contents (durable history k) ∧
      r.Abortable

namespace Recoverable

theorem empty : Recoverable config identity .empty [] where
  first_le := le_rfl
  settled_le := le_rfl
  recent _ h := nomatch h
  recovers k _ hk := by
    obtain rfl := Nat.le_zero.mp hk
    exact ⟨.start, rfl, rfl, fun _ h => nomatch h⟩

section

variable (h : Recoverable config identity log history)

include h

theorem crash (hk : log.settled ≤ k) :
    Recoverable config identity (log.crash k) (durable history k) where
  first_le := h.first_le
  settled_le := by
    rw [crash_nextSequence]
    exact le_min hk h.settled_le
  recent entry hent := by
    rw [crash_nextSequence]
    obtain ⟨hold, hlt⟩ := List.mem_filter.mp hent
    exact lt_min (of_decide_eq_true hlt) (h.recent entry hold)
  recovers j hj hle := by
    rw [crash_nextSequence] at hle
    rw [crash_crash (hle.trans (min_le_left ..)), durable_durable (hle.trans (min_le_left ..))]
    exact h.recovers j hj (hle.trans (min_le_right ..))

/-- Only changes that have been written are in the history. -/
theorem self : Recoverable config identity log (durable history log.nextSequence) := by
  rw [durable_eq_self h.recent]
  exact h

theorem unwritten (hge : ∀ entry ∈ entries, log.nextSequence ≤ entry.1) :
    Recoverable config identity log (durable (history ++ entries) log.nextSequence) := by
  rw [durable_append, durable_eq_nil hge, List.append_nil]
  exact h.self

theorem crash_self (hk : log.settled ≤ k) :
    Recoverable config identity (log.crash k) (durable history (log.crash k).nextSequence) := by
  have hkept : (log.crash k).nextSequence ≤ k := by
    rw [crash_nextSequence]
    exact min_le_left ..
  rw [← durable_durable hkept]
  exact (h.crash hk).self

theorem whole :
    ∃ r, recover config identity log = .ok r ∧ r.state = contents history ∧ r.Abortable := by
  obtain ⟨r, hr, hstate, habort⟩ := h.recovers log.nextSequence h.settled_le le_rfl
  rw [crash_eq_self le_rfl] at hr
  rw [durable_eq_self h.recent] at hstate
  exact ⟨r, hr, hstate, habort⟩

theorem recovered (hr : recover config identity log = .ok r) :
    r.state = contents history ∧ r.Abortable := by
  obtain ⟨r', hr', hspec⟩ := h.whole
  rw [hr] at hr'
  cases hr'
  exact hspec

theorem append (hr : recover config identity log = .ok r)
    (hentries : ∀ entry ∈ entries, log.nextSequence ≤ entry.1 ∧
      entry.1 < log.nextSequence + payloads.length) (hstep : ∀ i, 0 < i → i ≤ payloads.length →
      ∃ r', (payloads.take i).foldlM (replayPayload config identity) r = .ok r' ∧
        r'.state = contents (durable (history ++ entries) (log.nextSequence + i)) ∧ r'.Abortable) :
    Recoverable config identity (log.append payloads) (history ++ entries) where
  first_le := h.first_le
  settled_le := by
    rw [append_nextSequence]
    exact h.settled_le.trans (Nat.le_add_right ..)
  recent entry hent := by
    rw [append_nextSequence]
    rcases List.mem_append.mp hent with hold | hnew
    · exact (h.recent entry hold).trans_le (Nat.le_add_right ..)
    · exact (hentries entry hnew).2
  recovers k hk hle := by
    rw [append_nextSequence] at hle
    rcases Nat.lt_or_ge log.nextSequence k with hlt | hge
    · obtain ⟨i, rfl⟩ := Nat.exists_eq_add_of_lt hlt
      rw [Nat.add_assoc] at hle ⊢
      rw [crash_append_add, recover_append (h.first_le.trans h.settled_le) hr]
      exact hstep (i + 1) i.succ_pos (by omega)
    · rw [crash_append_of_le hge, durable_append,
        durable_eq_nil fun entry hent => hge.trans (hentries entry hent).1, List.append_nil]
      exact h.recovers k hk hge

theorem group {kind : GroupKind} {next : Recovery} (hchunk : config.maxChunkBytes ≠ 0)
    (hr : recover config identity log = .ok r) (hpend : r.pending = none)
    (hpayloads : groupPayloads config kind groupId body = .ok payloads)
    (hbody : replayBody config identity r kind body = .ok next) (hnext : next.pending = none)
    (hsize : body.length ≤ maximumBodyBytes config kind)
    (hentries : ∀ entry ∈ entries, entry.1 + 1 = log.nextSequence + payloads.length)
    (hcontents : next.state = contents (history ++ entries)) :
    Recoverable config identity (log.append payloads) (history ++ entries) := by
  have hlen := length_groupPayloads hpayloads
  have hold {i : ℕ} : ∀ entry ∈ history, entry.1 < log.nextSequence + i :=
    fun entry hent => (h.recent entry hent).trans_le (Nat.le_add_right ..)
  refine h.append hr (fun entry hent => ?_) fun i _ hi => ?_
  · have hposition := hentries entry hent
    omega
  · rcases hi.lt_or_eq with hlt | rfl
    · -- Before the last record the group has no effect.
      have hpart : durable (history ++ entries) (log.nextSequence + i) = history := by
        rw [durable_append, durable_eq_self hold, durable_eq_nil, List.append_nil]
        intro entry hent
        have hposition := hentries entry hent
        omega
      refine ⟨_, (replay_group hchunk hpend hsize hpayloads hi).trans (if_neg hlt.ne), ?_,
        exists_abort hpayloads hpend⟩
      rw [hpart, ← (h.recovered hr).1]
      unfold Recovery.reading
      split_ifs <;> rfl
    · refine ⟨next, (replay_group hchunk hpend hsize hpayloads le_rfl).trans
        ((if_pos rfl).trans hbody), ?_, fun group hgroup => ?_⟩
      · rw [durable_eq_self (List.forall_mem_append.mpr
          ⟨hold, fun entry hent => (hentries entry hent).le⟩)]
        exact hcontents
      · rw [hnext] at hgroup
        cases hgroup

end

section Compaction

variable {revision : ℕ} {tables : Tables} {encoded : List UInt8}
  (hchunk : config.maxChunkBytes ≠ 0) (hid : identity.validate = .ok ())
  (henc : checkpointBytes config identity revision tables = .ok encoded)
  (hpayloads : groupPayloads config .checkpoint revision encoded = .ok payloads)

include hchunk hid henc hpayloads

theorem recover_compacted (settled : ℕ) :
    recover config identity ⟨log.nextSequence, log.records ++ payloads, settled⟩ =
      .ok ⟨⟨revision, tables⟩, 0, true, none⟩ := by
  obtain ⟨hbody, hsize⟩ := replay_checkpoint (r := .start) henc hid
  have hrep : (payloads.take payloads.length).foldlM (replayPayload config identity) .start = _ :=
    replay_group hchunk rfl hsize hpayloads le_rfl
  rw [if_pos rfl, List.take_length] at hrep
  unfold recover retained
  exact (congrArg (List.foldlM _ _) List.drop_left).trans (hrep.trans hbody)

theorem compacted (hrecent : ∀ entry ∈ history, entry.1 < (log.append payloads).nextSequence)
    (hcontents : contents history = ⟨revision, tables⟩) :
    Recoverable config identity
      ⟨log.nextSequence, log.records ++ payloads, (log.append payloads).nextSequence⟩ history where
  first_le := (Nat.le_add_right ..).trans_eq append_nextSequence.symm
  settled_le := le_rfl
  recent := hrecent
  recovers k hk hle := by
    obtain rfl := le_antisymm hle hk
    refine ⟨⟨⟨revision, tables⟩, 0, true, none⟩, ?_, ?_, fun _ hgroup => nomatch hgroup⟩
    · rw [crash_eq_self le_rfl]
      exact recover_compacted hchunk hid henc hpayloads _
    · exact hcontents.symm.trans (congrArg contents (durable_eq_self hrecent).symm)

end Compaction

end Recoverable

/-! ### Open stores -/

/-- An open store that can write: its log holds what it holds and ends with a whole group. -/
structure Ready (s : BlossomLogStore config identity) (history : List (ℕ × LogChange))
    (r : Recovery) : Prop where
  recoverable : Recoverable config identity s.writer.store history
  identity_valid : identity.validate = .ok ()
  chunk_pos : config.maxChunkBytes ≠ 0
  next_eq : s.writer.nextSequence = s.writer.store.nextSequence
  recovers : recover config identity s.writer.store = .ok r
  state_eq : r.state = s.state
  whole : r.pending = none

theorem Ready.contents_eq {s : BlossomLogStore config identity} (h : Ready s history r) :
    s.state = contents history := by
  rw [← h.state_eq]
  exact (h.recoverable.recovered h.recovers).1

structure CheckpointIo.Succeeds (io : CheckpointIo) : Prop where
  seals : io.sealed = true
  appends : io.append.ok = true
  compacts : io.compact.ok = true

namespace BlossomLogStore

variable {s : BlossomLogStore config identity}

/-- A group is not encoded, or a part of its records is there and the store cannot write any more,
or all of them are. -/
theorem persist_cases (h : Ready s history r) {kind : GroupKind} {next : Recovery}
    (hposition : ∀ entry ∈ entries,
      entry.1 = s.writer.store.nextSequence + (chunks config.maxChunkBytes body).length)
    (hbody : replayBody config identity r kind body = .ok next) (hnext : next.pending = none)
    (hsize : body.length ≤ maximumBodyBytes config kind)
    (hcontents : next.state = contents (history ++ entries)) (io : AppendIo) :
    (∃ f, groupPayloads config kind groupId body = .error f ∧
      s.persistGroupLocked kind groupId body io = (.error f, s)) ∨
    (io.ok = false ∧ ∃ s', s.persistGroupLocked kind groupId body io = (.error storageError, s') ∧
      s'.poisoned = true ∧ s'.state = s.state ∧ Recoverable config identity s'.writer.store
        (durable (history ++ entries) s'.writer.store.nextSequence)) ∨
    ∃ (payloads : List (List UInt8)) (receipt : BlossomLogCommitReceipt),
      groupPayloads config kind groupId body = .ok payloads ∧
      receipt.firstSequence = s.writer.store.nextSequence ∧
      s.persistGroupLocked kind groupId body io = (.ok receipt, { s with
        writer := { s.writer with
          store := s.writer.store.append payloads
          nextSequence := s.writer.store.nextSequence + payloads.length } }) ∧
      Recoverable config identity (s.writer.store.append payloads) (history ++ entries) ∧
      recover config identity (s.writer.store.append payloads) = .ok next := by
  unfold persistGroupLocked
  cases hpayloads : groupPayloads config kind groupId body with
  | error f => exact .inl ⟨f, rfl, rfl⟩
  | ok payloads =>
    have hlen := length_groupPayloads hpayloads
    have hall : Recoverable config identity (s.writer.store.append payloads)
        (history ++ entries) := by
      refine h.recoverable.group h.chunk_pos h.recovers h.whole hpayloads hbody hnext hsize
        (fun entry hent => ?_) hcontents
      rw [hposition entry hent, hlen, Nat.add_assoc]
    refine .inr ?_
    dsimp only [appendGroup]
    rw [if_neg (not_not.mpr h.next_eq)]
    cases hio : io.ok with
    | false =>
      refine .inl ⟨rfl, _, rfl, rfl, rfl, ?_⟩
      -- A crash can leave the same records.
      have hpart := hall.crash_self (k := s.writer.store.nextSequence + io.written)
        (h.recoverable.settled_le.trans (Nat.le_add_right ..))
      rw [crash_append_add] at hpart
      exact hpart
    | true =>
      refine .inr ⟨payloads, ⟨groupId, s.writer.nextSequence,
        s.writer.nextSequence + payloads.length - 1,
        min (payloads.map List.length).sum maxCounter⟩, rfl, h.next_eq, ?_, hall, ?_⟩
      · have hlast : s.writer.nextSequence + payloads.length - 1 + 1 =
            s.writer.store.nextSequence + payloads.length := by
          have hnext := h.next_eq
          omega
        rw [if_pos rfl]
        dsimp only
        rw [hlast]
        rfl
      · have hrep : (payloads.take payloads.length).foldlM (replayPayload config identity) r = _ :=
          replay_group h.chunk_pos h.whole hsize hpayloads le_rfl
        rw [if_pos rfl, List.take_length, hbody] at hrep
        exact (recover_append (h.recoverable.first_le.trans h.recoverable.settled_le)
          h.recovers).trans hrep

/-- A checkpoint is not written, or the store cannot write any more and the log can be recovered,
or the checkpoint is all that is left in the log. -/
theorem writeCheckpoint_cases (h : Ready s history r) {tables : Tables} (io : CheckpointIo)
    (hcontents : contents (history ++ entries) = ⟨revision, tables⟩)
    (hposition : ∀ encoded, checkpointBytes config identity revision tables = .ok encoded →
      ∀ entry ∈ entries,
        entry.1 = s.writer.store.nextSequence + (chunks config.maxChunkBytes encoded).length) :
    (∃ f, checkpointBytes config identity revision tables = .error f ∧
      s.writeCheckpointLocked revision tables io = (.error f, s)) ∨
    (∃ f s', s.writeCheckpointLocked revision tables io = (.error f, s') ∧ s'.poisoned = true ∧
      s'.state = s.state ∧ Recoverable config identity s'.writer.store
        (durable (history ++ entries) s'.writer.store.nextSequence) ∧
      (io.Succeeds → ∃ encoded f, checkpointBytes config identity revision tables = .ok encoded ∧
        groupPayloads config .checkpoint revision encoded = .error f)) ∨
    ∃ receipt s', s.writeCheckpointLocked revision tables io = (.ok receipt, s') ∧
      s'.state = s.state ∧ s'.closed = s.closed ∧ s'.poisoned = s.poisoned ∧
      s'.writer.nextSequence = s'.writer.store.nextSequence ∧
      Recoverable config identity s'.writer.store (history ++ entries) ∧
      recover config identity s'.writer.store = .ok ⟨⟨revision, tables⟩, 0, true, none⟩ := by
  unfold writeCheckpointLocked
  cases henc : checkpointBytes config identity revision tables with
  | error f => exact .inl ⟨f, rfl, rfl⟩
  | ok encoded =>
    refine .inr ?_
    obtain ⟨hbody, hsize⟩ := replay_checkpoint (r := r) henc h.identity_valid
    have hsame := h.recoverable.unwritten fun entry hent =>
      (Nat.le_add_right ..).trans_eq (hposition encoded henc entry hent).symm
    dsimp only
    cases hsealed : io.sealed with
    | false =>
      refine .inl ⟨storageError, s.poison, rfl, rfl, rfl, hsame, fun hio => ?_⟩
      rw [hio.seals] at hsealed
      cases hsealed
    | true =>
      rw [if_neg Bool.noConfusion]
      rcases persist_cases h (hposition encoded henc) hbody rfl hsize hcontents.symm io.append with
        ⟨f, hfail, hper⟩ | ⟨hfail, s', hper, -, hstate, hrecov⟩ |
          ⟨payloads, receipt, hpayloads, hfirst, hper, hall, -⟩
      · rw [hper]
        exact .inl ⟨f, s.poison, rfl, rfl, rfl, hsame, fun _ => ⟨encoded, f, rfl, hfail⟩⟩
      · rw [hper]
        refine .inl ⟨storageError, s'.poison, rfl, rfl, hstate, hrecov, fun hio => ?_⟩
        rw [hio.appends] at hfail
        cases hfail
      · have hcompacted := Recoverable.compacted h.chunk_pos h.identity_valid henc hpayloads
          hall.recent hcontents
        rw [hper]
        dsimp only [compactBefore]
        rw [hfirst]
        cases hcmp : io.compact.ok with
        | false =>
          refine .inl ⟨storageError, _, rfl, rfl, rfl, Recoverable.self ?_, fun hio => ?_⟩
          · change Recoverable config identity (if io.compact.removed = true then _ else _) _
            split_ifs
            · exact hcompacted
            · exact hall
          · rw [hio.compacts] at hcmp
            cases hcmp
        | true =>
          refine .inr ⟨_, _, rfl, rfl, rfl, rfl, append_nextSequence.symm, hcompacted, ?_⟩
          exact Recoverable.recover_compacted h.chunk_pos h.identity_valid henc hpayloads _

end BlossomLogStore

structure Intact (s : BlossomLogStore config identity) (history : List (ℕ × LogChange)) : Prop where
  recoverable : Recoverable config identity s.writer.store history
  ready : s.poisoned = false → ∃ r, Ready s history r ∧ r.initialized = true

namespace Intact

variable {s : BlossomLogStore config identity}

theorem self (h : Intact s history) : Intact s (durable history s.writer.store.nextSequence) := by
  rw [durable_eq_self h.recoverable.recent]
  exact h

theorem unwritten (h : Intact s history)
    (hge : ∀ entry ∈ entries, s.writer.store.nextSequence ≤ entry.1) :
    Intact s (durable (history ++ entries) s.writer.store.nextSequence) := by
  rw [durable_append, durable_eq_nil hge, List.append_nil]
  exact h.self

theorem of_poisoned (h : Recoverable config identity s.writer.store history)
    (hpoisoned : s.poisoned = true) : Intact s history where
  recoverable := h
  ready hclean := nomatch hpoisoned.symm.trans hclean

theorem of_ready (h : Ready s history r) (hinit : r.initialized = true) : Intact s history where
  recoverable := h.recoverable
  ready _ := ⟨r, h, hinit⟩

end Intact

namespace BlossomLogStore

variable {s : BlossomLogStore config identity}

theorem intact_checkpointLocked (h : Ready s history r) (hinit : r.initialized = true)
    (io : CheckpointIo) :
    Intact (s.checkpointLocked io).2
        (durable history (s.checkpointLocked io).2.writer.store.nextSequence) ∧
      (s.checkpointLocked io).2.state = s.state := by
  have hcontents : contents (history ++ []) = ⟨s.state.revision, s.state.tables⟩ := by
    rw [List.append_nil, ← h.contents_eq]
  unfold checkpointLocked
  rcases writeCheckpoint_cases h io hcontents fun _ _ _ hent => nomatch hent with
    ⟨f, -, hwrite⟩ | ⟨f, s', hwrite, hpoisoned, hstate, hrecov, -⟩ |
      ⟨receipt, s', hwrite, hstate, -, -, hnext, hrecov, hrecovers⟩
  · rw [hwrite]
    exact ⟨(Intact.of_ready h hinit).self, rfl⟩
  · rw [List.append_nil] at hrecov
    rw [hwrite]
    exact ⟨.of_poisoned hrecov hpoisoned, hstate⟩
  · rw [List.append_nil] at hrecov
    rw [hwrite]
    have hready : Ready s' history _ :=
      ⟨hrecov, h.identity_valid, h.chunk_pos, hnext, hrecovers, hstate.symm, rfl⟩
    exact ⟨(Intact.of_ready hready rfl).self, hstate⟩

theorem intact_maybeCheckpointLocked (h : Ready s history r) (hinit : r.initialized = true)
    (io : CheckpointIo) :
    Intact (s.maybeCheckpointLocked io)
        (durable history (s.maybeCheckpointLocked io).writer.store.nextSequence) ∧
      (s.maybeCheckpointLocked io).state = s.state := by
  obtain ⟨hintact, hstate⟩ := intact_checkpointLocked h hinit io
  unfold maybeCheckpointLocked
  split
  · cases hwrite : s.checkpointLocked io with
    | mk result s' =>
      rw [hwrite] at hintact hstate
      cases result with
      | error f => exact ⟨.of_poisoned hintact.recoverable rfl, hstate⟩
      | ok receipt => exact ⟨hintact, hstate⟩
  · exact ⟨(Intact.of_ready h hinit).self, rfl⟩

theorem intact_checkpoint (h : Intact s history) (io : CheckpointIo) :
    Intact (s.checkpoint io).2 (durable history (s.checkpoint io).2.writer.store.nextSequence) := by
  unfold checkpoint
  cases hwrt : s.ensureWritable with
  | error f => exact h.self
  | ok u =>
    simp only [ensureWritable, ↓guard_bind_eq_ok, reject_eq_ok, Bool.not_eq_true] at hwrt
    obtain ⟨r, hready, hinit⟩ := h.ready hwrt.2
    exact (intact_checkpointLocked hready hinit io).1

/-- A change that is asked for, with the number that its commit record gets. -/
def asked (s : BlossomLogStore config identity) (encoded : List UInt8) (change : LogChange) :
    List (ℕ × LogChange) :=
  [(s.writer.store.nextSequence + (chunks config.maxChunkBytes encoded).length, change)]

omit [BodyHash] in
theorem asked_position {change : LogChange} :
    ∀ entry ∈ s.asked encoded change, entry.1 =
      s.writer.store.nextSequence + (chunks config.maxChunkBytes encoded).length := by
  intro entry hent
  rw [List.mem_singleton.mp hent]

def askedTransaction (s : BlossomLogStore config identity)
    (operation : BlossomLogTransaction config → Result (BlossomLogTransaction config)) :
    List (ℕ × LogChange) :=
  match operation (.start s.state) with
  | .error _ => []
  | .ok t =>
    match transactionBytes config s.state t.operations with
    | .error _ => []
    | .ok encoded => s.asked encoded (.operations t.operations)

def askedReplacement (s : BlossomLogStore config identity) (snapshot : BlossomLogSnapshot) :
    List (ℕ × LogChange) :=
  match checkpointBytes config identity snapshot.revision snapshot.tables with
  | .error _ => []
  | .ok encoded => s.asked encoded (.replacement snapshot.revision snapshot.tables)

omit [BodyHash] in
theorem le_askedTransaction
    {operation : BlossomLogTransaction config → Result (BlossomLogTransaction config)} :
    ∀ entry ∈ s.askedTransaction operation, s.writer.store.nextSequence ≤ entry.1 := by
  unfold askedTransaction
  intro entry hent
  split at hent
  · cases hent
  · split at hent
    · cases hent
    · exact (Nat.le_add_right ..).trans_eq (asked_position entry hent).symm

omit [BodyHash] in
theorem le_askedReplacement {snapshot : BlossomLogSnapshot} :
    ∀ entry ∈ s.askedReplacement snapshot, s.writer.store.nextSequence ≤ entry.1 := by
  unfold askedReplacement
  intro entry hent
  split at hent
  · cases hent
  · exact (Nat.le_add_right ..).trans_eq (asked_position entry hent).symm

def committed (s : BlossomLogStore config identity) (operations : List LogOperation)
    (persisted : BlossomLogCommitReceipt) : BlossomLogStore config identity :=
  { s with
    state := (LogChange.operations operations).apply s.state
    writer := { s.writer with
      transactionsSinceCheckpoint := min (s.writer.transactionsSinceCheckpoint + 1) maxCounter
      bytesSinceCheckpoint :=
        min (s.writer.bytesSinceCheckpoint + persisted.payloadBytes) maxCounter } }

/-- A transaction that a store can write: a part of its records, or all of them. -/
theorem transaction_written (h : Ready s history r) (hinit : r.initialized = true)
    {t : BlossomLogTransaction config}
    (henc : transactionBytes config s.state t.operations = .ok encoded) (io : AppendIo) :
    (∃ f, groupPayloads config .transaction (s.state.revision + 1) encoded = .error f ∧
      s.persistGroupLocked .transaction (s.state.revision + 1) encoded io = (.error f, s)) ∨
    (io.ok = false ∧ ∃ f s',
      s.persistGroupLocked .transaction (s.state.revision + 1) encoded io = (.error f, s') ∧
      s'.poisoned = true ∧ Recoverable config identity s'.writer.store
        (durable (history ++ s.asked encoded (.operations t.operations))
          s'.writer.store.nextSequence)) ∨
    ∃ persisted s' r',
      s.persistGroupLocked .transaction (s.state.revision + 1) encoded io = (.ok persisted, s') ∧
      s'.state = s.state ∧ s'.poisoned = s.poisoned ∧ r'.initialized = true ∧
      Ready (s'.committed t.operations persisted)
        (history ++ s.asked encoded (.operations t.operations)) r' := by
  rw [← h.state_eq] at henc
  obtain ⟨hbody, hsize⟩ := replay_transaction henc t.checked hinit
  have hstate : (⟨r.state.revision + 1, applyOperations r.state.tables t.operations⟩ :
      MaterializedState) = (LogChange.operations t.operations).apply s.state := by
    rw [← h.state_eq]
    rfl
  have hcontents : (LogChange.operations t.operations).apply s.state =
      contents (history ++ s.asked encoded (.operations t.operations)) := by
    rw [contents, List.foldl_append, ← contents, ← h.contents_eq]
    rfl
  rcases persist_cases h asked_position hbody rfl hsize (hstate.trans hcontents) io with
    hfail | ⟨hfail, s', hper, hpoisoned, -, hrecov⟩ |
      ⟨payloads, receipt, -, -, hper, hrecov, hrecovers⟩
  · exact .inl hfail
  · exact .inr (.inl ⟨hfail, _, s', hper, hpoisoned, hrecov⟩)
  · exact .inr (.inr ⟨receipt, _, _, hper, rfl, rfl, rfl, hrecov, h.identity_valid, h.chunk_pos,
      append_nextSequence.symm, hrecovers, hstate, rfl⟩)

theorem intact_transaction (h : Intact s history)
    (operation : BlossomLogTransaction config → Result (BlossomLogTransaction config))
    (io : AppendIo) (maintenance : CheckpointIo) :
    Intact (s.transaction operation io maintenance).2
      (durable (history ++ s.askedTransaction operation)
        (s.transaction operation io maintenance).2.writer.store.nextSequence) := by
  have hsame : Intact s (durable (history ++ s.askedTransaction operation)
      s.writer.store.nextSequence) := h.unwritten le_askedTransaction
  unfold transaction
  cases hwrt : s.ensureWritable with
  | error f => exact hsame
  | ok u =>
    simp only [ensureWritable, ↓guard_bind_eq_ok, reject_eq_ok, Bool.not_eq_true] at hwrt
    obtain ⟨r, hready, hinit⟩ := h.ready hwrt.2
    cases hop : operation (.start s.state) with
    | error f => exact hsame
    | ok t =>
      dsimp only
      split_ifs
      · exact hsame
      · cases henc : transactionBytes config s.state t.operations with
        | error f => exact hsame
        | ok encoded =>
          have hasked : s.askedTransaction operation = s.asked encoded (.operations t.operations) := by
            rw [askedTransaction, hop]
            dsimp only
            rw [henc]
          rw [hasked] at hsame ⊢
          dsimp only
          rcases transaction_written hready hinit henc io with
            ⟨f, -, hper⟩ | ⟨-, f, s', hper, hpoisoned, hrecov⟩ |
              ⟨persisted, s', r', hper, -, -, hinit', hready'⟩
          · rw [hper]
            exact hsame
          · rw [hper]
            exact .of_poisoned hrecov hpoisoned
          · rw [hper]
            exact (intact_maybeCheckpointLocked hready' hinit' maintenance).1

theorem intact_replaceFromCheckpoint (h : Intact s history) (snapshot : BlossomLogSnapshot)
    (io : CheckpointIo) :
    Intact (s.replaceFromCheckpoint snapshot io).2
      (durable (history ++ s.askedReplacement snapshot)
        (s.replaceFromCheckpoint snapshot io).2.writer.store.nextSequence) := by
  have hsame : Intact s (durable (history ++ s.askedReplacement snapshot)
      s.writer.store.nextSequence) := h.unwritten le_askedReplacement
  unfold replaceFromCheckpoint
  split
  · exact hsame
  · next hchecks =>
    simp only [ensureWritable, ↓guard_bind_eq_ok, reject_eq_ok, Bool.not_eq_true] at hchecks
    obtain ⟨r, hready, -⟩ := h.ready hchecks.1.2
    cases henc : checkpointBytes config identity snapshot.revision snapshot.tables with
    | error f =>
      have hwrite : s.writeCheckpointLocked snapshot.revision snapshot.tables io = (.error f, s) := by
        rw [writeCheckpointLocked, henc]
      rw [hwrite]
      exact hsame
    | ok encoded =>
      have hasked : s.askedReplacement snapshot =
          s.asked encoded (.replacement snapshot.revision snapshot.tables) := by
        rw [askedReplacement, henc]
      have hcontents : contents (history ++ s.askedReplacement snapshot) =
          ⟨snapshot.revision, snapshot.tables⟩ := by
        rw [hasked, contents, List.foldl_append]
        rfl
      have hposition : ∀ bytes,
          checkpointBytes config identity snapshot.revision snapshot.tables = .ok bytes →
          ∀ entry ∈ s.askedReplacement snapshot, entry.1 =
            s.writer.store.nextSequence + (chunks config.maxChunkBytes bytes).length := by
        intro bytes hbytes entry hent
        rw [henc] at hbytes
        cases hbytes
        exact asked_position entry (hasked ▸ hent)
      rcases writeCheckpoint_cases hready io hcontents hposition with
        ⟨f, -, hwrite⟩ | ⟨f, s', hwrite, hpoisoned, -, hrecov, -⟩ |
          ⟨receipt, s', hwrite, -, -, -, hnext, hrecov, hrecovers⟩
      · rw [hwrite]
        exact hsame
      · rw [hwrite]
        exact .of_poisoned hrecov hpoisoned
      · rw [hwrite]
        have hready' : Ready { s' with state := ⟨snapshot.revision, snapshot.tables⟩ } _ _ :=
          ⟨hrecov, hready.identity_valid, hready.chunk_pos, hnext, hrecovers, rfl, rfl⟩
        exact (Intact.of_ready hready' rfl).self

theorem intact_shutdown (h : Intact s history) (synced : Bool) :
    Intact (s.shutdown synced).2
      (durable history (s.shutdown synced).2.writer.store.nextSequence) := by
  unfold shutdown
  split_ifs
  · exact h.self
  · refine Intact.self ⟨h.recoverable, fun hclean => ?_⟩
    obtain ⟨r, hready, hinit⟩ := h.ready hclean
    exact ⟨r, { hready with }, hinit⟩
  · exact Intact.self (.of_poisoned h.recoverable rfl)

end BlossomLogStore

end Blossom
