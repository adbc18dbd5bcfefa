import Blossom.LogHistory

/-!
# Crashes of a log store

A run opens the store, uses it, and crashes. After every crash the store opens with the changes
whose commit records are left, whatever happened before: failed appends, crashes in the middle of
a group, and crashes while the store was being opened.
-/

namespace Blossom

open CheckedSteps OrderedMap ByteCodec BlossomLogStore

variable {config : BlossomLogStoreConfig} {identity : BlossomLogStoreIdentity} [BodyHash]
  {history : List (ℕ × LogChange)} {r : Recovery}

/-! ### Opening -/

section Opening

variable {log : ShardLog}

structure OpenIo.Succeeds (io : OpenIo) : Prop where
  opens : io.opened = true
  aborts : io.abort.ok = true
  checkpoints : io.checkpoint.Succeeds

/-- A group at the end of the log is aborted, or a part of the record that aborts it is there. -/
theorem abortTail_cases (h : Recoverable config identity log history)
    (hr : recover config identity log = .ok r) (io : AppendIo) :
    (io.ok = false ∧ ∃ f log', abortTail log r io = (.error f, log') ∧
      Recoverable config identity log' (durable history log'.nextSequence)) ∨
    ∃ log', abortTail log r io = (.ok log'.nextSequence, log') ∧
      Recoverable config identity log' history ∧
      recover config identity log' = .ok { r with pending := none } := by
  obtain ⟨hstate, habortable⟩ := h.recovered hr
  unfold abortTail
  cases hpend : r.pending with
  | none =>
    refine .inr ⟨log, rfl, h, ?_⟩
    rw [hr, ← hpend]
  | some group =>
    obtain ⟨payload, hpayload⟩ := habortable group hpend
    have hrep : replayPayload config identity r payload = .ok { r with pending := none } :=
      replay_abort hpend hpayload
    have hfold : [payload].foldlM (replayPayload config identity) r =
        .ok { r with pending := none } := by
      rw [List.foldlM_cons, hrep]
      rfl
    have happ : Recoverable config identity (log.append [payload]) (history ++ []) := by
      refine h.append hr (fun _ hent => nomatch hent) fun i hpos hi => ?_
      obtain rfl : i = 1 := le_antisymm hi hpos
      refine ⟨_, hfold, ?_, fun _ hgroup => nomatch hgroup⟩
      rw [List.append_nil, durable_eq_self fun entry hent => Nat.lt_succ_of_lt (h.recent entry hent)]
      exact hstate
    rw [List.append_nil] at happ
    dsimp only [abortPendingGroup]
    rw [hpayload]
    dsimp only [ShardLog.appendGroup]
    rw [if_neg (not_not.mpr rfl)]
    cases hio : io.ok with
    | false =>
      refine .inl ⟨rfl, storageError, log.append ([payload].take io.written), rfl, ?_⟩
      rw [← ShardLog.crash_append_add]
      exact happ.crash_self (h.settled_le.trans (Nat.le_add_right ..))
    | true =>
      refine .inr ⟨log.append [payload], ?_, happ, ?_⟩
      · rw [ShardLog.append_nextSequence]
        rfl
      · exact (recover_append (h.first_le.trans h.settled_le) hr).trans hfold

structure Openable (config : BlossomLogStoreConfig) (identity : BlossomLogStoreIdentity) : Prop where
  config_valid : config.validate = .ok ()
  identity_valid : identity.validate = .ok ()
  limit : config.maxChunkBytes + 1024 * 1024 ≤ maxCounter
  first : ∃ encoded payloads, checkpointBytes config identity 0 ∅ = .ok encoded ∧
    groupPayloads config .checkpoint 0 encoded = .ok payloads

omit [BodyHash] in
theorem chunk_pos_of_validate (h : config.validate = .ok ()) : config.maxChunkBytes ≠ 0 := by
  rw [BlossomLogStoreConfig.validate, reject_eq_ok, not_or, not_or] at h
  exact h.2.1

variable {s : BlossomLogStore config identity}

theorem checkpoint_of_clean {io : CheckpointIo} (hclosed : s.closed = false)
    (hpoisoned : s.poisoned = false) :
    s.checkpoint io = s.writeCheckpointLocked s.state.revision s.state.tables io := by
  unfold BlossomLogStore.checkpoint BlossomLogStore.ensureWritable
  rw [hclosed, hpoisoned]
  rfl

/-- A log that can be recovered: the store does not open and the log can still be recovered, or
it opens with the tables of the log. -/
theorem openStore_cases (h : Recoverable config identity log history) (io : OpenIo) :
    (∃ f log', openStore config identity log io = (.error f, log') ∧
      Recoverable config identity log' (durable history log'.nextSequence) ∧
      (io.Succeeds → ¬Openable config identity)) ∨
    ∃ s r, openStore config identity log io = (.ok s, s.writer.store) ∧ Ready s history r ∧
      r.initialized = true ∧ s.poisoned = false ∧ s.closed = false := by
  unfold openStore
  cases hchk : checkedRecovery config identity log io.opened with
  | error f =>
    refine .inl ⟨f, log, rfl, h.self, fun hio hopen => ?_⟩
    obtain ⟨r, hr, -⟩ := h.whole
    have hok : checkedRecovery config identity log io.opened = .ok r := by
      simp only [checkedRecovery, ↓guard_bind_eq_ok, reject_eq_ok, not_lt, Bool.not_eq_false]
      exact ⟨hopen.config_valid, hopen.identity_valid, hopen.limit, hio.opens, hr⟩
    rw [hok] at hchk
    cases hchk
  | ok r =>
    simp only [checkedRecovery, ↓guard_bind_eq_ok, reject_eq_ok] at hchk
    obtain ⟨hconfig, hid, -, -, hr⟩ := hchk
    dsimp only
    rcases abortTail_cases h hr io.abort with ⟨hfail, f, log', habort, hrecov⟩ |
      ⟨log', habort, hrecov, hrecovers⟩
    · rw [habort]
      refine .inl ⟨f, log', rfl, hrecov, fun hio _ => ?_⟩
      rw [hio.aborts] at hfail
      cases hfail
    · rw [habort]
      have hready : Ready (⟨r.state, ⟨log', log'.nextSequence, 0, 0⟩, false, false⟩ :
          BlossomLogStore config identity) history { r with pending := none } :=
        ⟨hrecov, hid, chunk_pos_of_validate hconfig, rfl, hrecovers, rfl, rfl⟩
      cases hinit : r.initialized with
      | true => exact .inr ⟨_, _, rfl, hready, hinit, rfl, rfl⟩
      | false =>
        have hempty : r.state = .empty := recover_empty hr hinit
        dsimp only
        have hcontents : contents (history ++ []) = ⟨r.state.revision, r.state.tables⟩ := by
          rw [List.append_nil, ← hready.contents_eq]
        rw [checkpoint_of_clean rfl rfl]
        rcases writeCheckpoint_cases hready io.checkpoint hcontents (by simp) with
          ⟨f, hfail, hwrite⟩ | ⟨f, s', hwrite, -, -, hwritten, hfail⟩ |
            ⟨receipt, s', hwrite, hstate, hclosed, hpoisoned, hnext, hwritten, hrecov'⟩
        · rw [hwrite]
          refine .inl ⟨f, log', rfl, hrecov.self, fun _ hopen => ?_⟩
          obtain ⟨encoded, -, henc, -⟩ := hopen.first
          rw [hempty] at hfail
          cases henc.symm.trans hfail
        · rw [hwrite]
          rw [List.append_nil] at hwritten
          refine .inl ⟨f, s'.writer.store, rfl, hwritten, fun hio hopen => ?_⟩
          obtain ⟨encoded, payloads, henc, hpayloads⟩ := hopen.first
          obtain ⟨encoded', f', henc', hfail⟩ := hfail hio.checkpoints
          rw [hempty] at henc' hfail
          cases henc.symm.trans henc'
          cases hpayloads.symm.trans hfail
        · rw [hwrite]
          rw [List.append_nil] at hwritten
          exact .inr ⟨s', _, rfl, ⟨hwritten, hid, chunk_pos_of_validate hconfig, hnext,
            hrecov', hstate.symm, rfl⟩, rfl, hpoisoned, hclosed⟩

theorem checkedRecovery_empty {opened : Bool}
    (h : checkedRecovery config identity .empty opened = .ok r) :
    config.validate = .ok () ∧ identity.validate = .ok () ∧
      config.maxChunkBytes + 1024 * 1024 ≤ maxCounter ∧ r = .start := by
  simp only [checkedRecovery, ↓guard_bind_eq_ok, reject_eq_ok, not_lt] at h
  obtain ⟨hconfig, hid, hlimit, -, hrecover⟩ := h
  exact ⟨hconfig, hid, hlimit, (Except.ok.inj hrecover).symm⟩

theorem openable_of_openStore {io : OpenIo} (h : (openStore config identity .empty io).1 = .ok s) :
    Openable config identity := by
  unfold openStore at h
  cases hchk : checkedRecovery config identity .empty io.opened with
  | error f =>
    rw [hchk] at h
    cases h
  | ok r =>
    obtain ⟨hconfig, hid, hlimit, rfl⟩ := checkedRecovery_empty hchk
    refine ⟨hconfig, hid, hlimit, ?_⟩
    rw [hchk] at h
    dsimp only [abortTail, Recovery.start] at h
    rw [if_neg Bool.false_ne_true, checkpoint_of_clean rfl rfl] at h
    unfold writeCheckpointLocked at h
    dsimp only [MaterializedState.empty] at h
    cases henc : checkpointBytes config identity 0 ∅ with
    | error f =>
      rw [henc] at h
      cases h
    | ok encoded =>
      refine ⟨encoded, ?_⟩
      cases hpayloads : groupPayloads config .checkpoint 0 encoded with
      | ok payloads => exact ⟨payloads, rfl, rfl⟩
      | error f =>
        rw [henc] at h
        dsimp only [persistGroupLocked] at h
        rw [hpayloads] at h
        split_ifs at h

end Opening

/-! ### Runs -/

inductive LogNode (config : BlossomLogStoreConfig) (identity : BlossomLogStoreIdentity) where
  | running (s : BlossomLogStore config identity)
  | stopped (log : ShardLog)

def LogNode.log : LogNode config identity → ShardLog
  | .running s => s.writer.store
  | .stopped log => log

def LogNode.tryOpen (log : ShardLog) (io : OpenIo) : LogNode config identity :=
  match openStore config identity log io with
  | (.ok s, _) => .running s
  | (.error _, log) => .stopped log

inductive LogAction (config : BlossomLogStoreConfig) where
  | openStore (io : OpenIo)
  | transaction (operation : BlossomLogTransaction config → Result (BlossomLogTransaction config))
      (io : AppendIo) (maintenance : CheckpointIo)
  | checkpoint (io : CheckpointIo)
  | replaceFromCheckpoint (snapshot : BlossomLogSnapshot) (io : CheckpointIo)
  | shutdown (synced : Bool)
  | crash (kept : ℕ)

namespace LogAction

def perform : LogAction config → LogNode config identity → LogNode config identity
  | openStore io, .stopped log => .tryOpen log io
  | transaction operation io maintenance, .running s =>
    .running (s.transaction operation io maintenance).2
  | checkpoint io, .running s => .running (s.checkpoint io).2
  | replaceFromCheckpoint snapshot io, .running s => .running (s.replaceFromCheckpoint snapshot io).2
  | shutdown synced, .running s => .running (s.shutdown synced).2
  | crash kept, n => .stopped (n.log.crash kept)
  | _, n => n

def asks : LogAction config → LogNode config identity → List (ℕ × LogChange)
  | transaction operation _ _, .running s => s.askedTransaction operation
  | replaceFromCheckpoint snapshot _, .running s => s.askedReplacement snapshot
  | _, _ => []

/-- A crash keeps what the log has synced before it deleted the records of earlier checkpoints. -/
def Possible : LogAction config → LogNode config identity → Prop
  | crash kept, n => n.log.settled ≤ kept
  | _, _ => True

instance (a : LogAction config) (n : LogNode config identity) : Decidable (a.Possible n) := by
  cases a <;> unfold Possible <;> infer_instance

end LogAction

/-- The nodes that a run reaches, with every change whose commit record has been written and the
sequence number of that record. -/
inductive LogReaches (config : BlossomLogStoreConfig) (identity : BlossomLogStoreIdentity) :
    LogNode config identity → List (ℕ × LogChange) → Prop
  | start : LogReaches config identity (.stopped .empty) []
  | step {n : LogNode config identity} {history : List (ℕ × LogChange)} (a : LogAction config) :
      LogReaches config identity n history → a.Possible n →
      LogReaches config identity (a.perform n)
        (durable (history ++ a.asks n) (a.perform n).log.nextSequence)

/-- What holds of a node at every moment. -/
def LogNode.Sound : LogNode config identity → List (ℕ × LogChange) → Prop
  | .running s, history => Intact s history
  | .stopped log, history => Recoverable config identity log history

namespace LogNode

variable {n : LogNode config identity}

theorem Sound.recoverable (h : n.Sound history) : Recoverable config identity n.log history := by
  cases n with
  | running s => exact Intact.recoverable h
  | stopped log => exact h

theorem Sound.unchanged (h : n.Sound history) :
    n.Sound (durable (history ++ []) n.log.nextSequence) := by
  rw [List.append_nil, durable_eq_self h.recoverable.recent]
  exact h

theorem sound_tryOpen {log : ShardLog} (h : Recoverable config identity log history) (io : OpenIo) :
    (LogNode.tryOpen log io : LogNode config identity).Sound
      (durable history (LogNode.tryOpen log io : LogNode config identity).log.nextSequence) := by
  rcases openStore_cases h io with ⟨f, log', hopen, hlog, -⟩ | ⟨s, r, hopen, hready, hinit, -, -⟩
  · have hnode : (LogNode.tryOpen log io : LogNode config identity) = .stopped log' := by
      rw [LogNode.tryOpen, hopen]
    rw [hnode]
    exact hlog
  · have hnode : (LogNode.tryOpen log io : LogNode config identity) = .running s := by
      rw [LogNode.tryOpen, hopen]
    rw [hnode]
    exact (Intact.of_ready hready hinit).self

theorem sound_perform (h : n.Sound history) (a : LogAction config) (hpossible : a.Possible n) :
    (a.perform n).Sound (durable (history ++ a.asks n) (a.perform n).log.nextSequence) := by
  cases a with
  | crash kept =>
    have hcrash := h.recoverable.crash_self hpossible
    rw [← List.append_nil history] at hcrash
    exact hcrash
  | openStore io =>
    cases n with
    | running s => exact h.unchanged
    | stopped log =>
      have hopened := sound_tryOpen h io
      rw [← List.append_nil history] at hopened
      exact hopened
  | transaction operation io maintenance =>
    cases n with
    | running s => exact intact_transaction h operation io maintenance
    | stopped log => exact h.unchanged
  | checkpoint io =>
    cases n with
    | running s =>
      change Intact (s.checkpoint io).2 (durable (history ++ []) _)
      rw [List.append_nil]
      exact intact_checkpoint h io
    | stopped log => exact h.unchanged
  | replaceFromCheckpoint snapshot io =>
    cases n with
    | running s => exact intact_replaceFromCheckpoint h snapshot io
    | stopped log => exact h.unchanged
  | shutdown synced =>
    cases n with
    | running s =>
      change Intact (s.shutdown synced).2 (durable (history ++ []) _)
      rw [List.append_nil]
      exact intact_shutdown h synced
    | stopped log => exact h.unchanged

theorem sound_of_logReaches (h : LogReaches config identity n history) : n.Sound history := by
  induction h with
  | start => exact Recoverable.empty
  | step a _ hpossible ih => exact sound_perform ih a hpossible

end LogNode

/-! ### Recovery -/

variable {n : LogNode config identity} {k : ℕ}

theorem openStore_ready {s : BlossomLogStore config identity} (h : Ready s history r)
    (hinit : r.initialized = true) (hopen : Openable config identity) {io : OpenIo}
    (hio : io.Succeeds) :
    ∃ s', openStore config identity s.writer.store io = (.ok s', s.writer.store) ∧
      s'.state = s.state := by
  have hchk : checkedRecovery config identity s.writer.store io.opened = .ok r := by
    simp only [checkedRecovery, ↓guard_bind_eq_ok, reject_eq_ok, not_lt, Bool.not_eq_false]
    exact ⟨hopen.config_valid, hopen.identity_valid, hopen.limit, hio.opens, h.recovers⟩
  refine ⟨⟨r.state, ⟨s.writer.store, s.writer.store.nextSequence, 0, 0⟩, false, false⟩, ?_,
    h.state_eq⟩
  rw [openStore, hchk]
  dsimp only
  rw [abortTail, h.whole]
  dsimp only
  rw [if_pos hinit]

/-- A store without a failure writes every transaction that it can encode. -/
theorem transaction_accepted {s : BlossomLogStore config identity} (h : Ready s history r)
    (hinit : r.initialized = true) (hpoisoned : s.poisoned = false) (hclosed : s.closed = false)
    {operation : BlossomLogTransaction config → Result (BlossomLogTransaction config)}
    {t : BlossomLogTransaction config} (hop : operation (.start s.state) = .ok t)
    (hstaged : t.operations ≠ []) {encoded : List UInt8} {payloads : List (List UInt8)}
    (henc : transactionBytes config s.state t.operations = .ok encoded)
    (hpayloads : groupPayloads config .transaction (s.state.revision + 1) encoded = .ok payloads)
    {append : AppendIo} (hok : append.ok = true) (maintenance : CheckpointIo) :
    ∃ receipt, (s.transaction operation append maintenance).1 = .ok (some receipt) ∧
      (s.transaction operation append maintenance).2.state =
        (LogChange.operations t.operations).apply s.state := by
  have hwrt : s.ensureWritable = .ok () := by
    rw [ensureWritable, hclosed, hpoisoned]
    rfl
  rcases transaction_written h hinit henc append with
    ⟨f, hfail, -⟩ | ⟨hfail, -⟩ | ⟨persisted, s', r', hper, hstate, -, hinit', hready⟩
  · rw [hpayloads] at hfail
    cases hfail
  · rw [hok] at hfail
    cases hfail
  · have htx : s.transaction operation append maintenance =
        (.ok (some persisted), (s'.committed t.operations persisted).maybeCheckpointLocked
          maintenance) := by
      rw [transaction, hwrt]
      rw [hop]
      dsimp only
      rw [if_neg (by simpa using hstaged), henc]
      dsimp only
      rw [hper]
      rfl
    rw [htx]
    refine ⟨persisted, rfl, ?_⟩
    rw [(intact_maybeCheckpointLocked hready hinit' maintenance).2, ← hstate]
    rfl

/-- After a crash that leaves any part of the records, the store opens with the changes whose
commit records are left. Nothing is pending in its log. It takes transactions, and if it opens
again it holds the same. -/
theorem crash_recovers_committed_prefix {io₀ : OpenIo} {s₀ : BlossomLogStore config identity}
    (hnew : (openStore config identity .empty io₀).1 = .ok s₀)
    (hrun : LogReaches config identity n history) (hkept : n.log.settled ≤ k) {io : OpenIo}
    (hio : io.Succeeds) :
    ∃ s, openStore config identity (n.log.crash k) io = (.ok s, s.writer.store) ∧
      s.state = contents (durable history k) ∧
      (∃ r, recover config identity s.writer.store = .ok r ∧ r.state = s.state ∧
        r.pending = none) ∧
      (∀ operation t encoded payloads append maintenance,
        operation (.start s.state) = .ok t → t.operations ≠ [] →
        transactionBytes config s.state t.operations = .ok encoded →
        groupPayloads config .transaction (s.state.revision + 1) encoded = .ok payloads →
        append.ok = true →
        ∃ receipt, (s.transaction operation append maintenance).1 = .ok (some receipt) ∧
          (s.transaction operation append maintenance).2.state =
            (LogChange.operations t.operations).apply s.state) ∧
      ∀ again : OpenIo, again.Succeeds →
        ∃ s', openStore config identity s.writer.store again = (.ok s', s.writer.store) ∧
          s'.state = s.state := by
  have hopenable := openable_of_openStore hnew
  have hcrash := (LogNode.sound_of_logReaches hrun).recoverable.crash hkept
  rcases openStore_cases hcrash io with ⟨f, log', -, -, hfail⟩ |
    ⟨s, r, hopen, hready, hinitialized, hpoisoned, hclosed⟩
  · exact absurd hopenable (hfail hio)
  · refine ⟨s, hopen, hready.contents_eq, ⟨r, hready.recovers, hready.state_eq, hready.whole⟩,
      ?_, ?_⟩
    · intro operation t encoded payloads append maintenance hoperation hstaged hencoded hpayloads hok
      exact transaction_accepted hready hinitialized hpoisoned hclosed hoperation hstaged hencoded
        hpayloads hok maintenance
    · intro again hagain
      exact openStore_ready hready hinitialized hopenable hagain

def smallConfig : BlossomLogStoreConfig := ⟨1, 20, 4, 64, 256, 3, 4096⟩

def smallIdentity : BlossomLogStoreIdentity := ⟨blossomLogStoreFormatVersion, ⟨[97]⟩, [1], 0⟩

def workingOpen : OpenIo := ⟨true, ⟨true, 0⟩, ⟨true, ⟨true, 0⟩, ⟨true, true⟩⟩⟩

omit [BodyHash] in
theorem workingOpen_succeeds : workingOpen.Succeeds := ⟨rfl, rfl, rfl, rfl, rfl⟩

@[reducible]
def countingHash : BodyHash :=
  ⟨fun bytes => ⟨List.replicate 32 (UInt8.ofNat bytes.length), List.length_replicate⟩⟩

omit [BodyHash] in
/-- One transaction is committed. The append of the next one fails after two records, of which a
crash leaves one. -/
theorem crash_in_the_second_group_recovers_first :
    letI := countingHash
    ∃ (n : LogNode smallConfig smallIdentity) (history : List (ℕ × LogChange))
      (s : BlossomLogStore smallConfig smallIdentity),
      LogReaches smallConfig smallIdentity n history ∧ n.log.nextSequence = 8 ∧
      openStore smallConfig smallIdentity (n.log.crash 7) workingOpen = (.ok s, s.writer.store) ∧
      s.state.revision = 1 := by
  let := countingHash
  have hrun : LogReaches smallConfig smallIdentity _ _ :=
    .step (.transaction (fun t => t.insert ⟨[97]⟩ ⟨[2]⟩ [6]) ⟨false, 2⟩ workingOpen.checkpoint)
      (.step (.transaction (fun t => t.insert ⟨[97]⟩ ⟨[1]⟩ [5]) ⟨true, 0⟩ workingOpen.checkpoint)
        (.step (.openStore workingOpen) .start trivial) trivial) trivial
  have hopen : (openStore smallConfig smallIdentity .empty workingOpen).1.isOk := by decide +kernel
  obtain ⟨s₀, hnew⟩ := exists_of_isOk hopen
  obtain ⟨s, hrecovered, hstate, -⟩ := crash_recovers_committed_prefix (k := 7) hnew hrun
    (by decide +kernel) workingOpen_succeeds
  refine ⟨_, _, s, hrun, by decide +kernel, hrecovered, ?_⟩
  rw [hstate]
  decide +kernel

end Blossom
