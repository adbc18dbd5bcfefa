import Blossom.HaReach

/-!
# Reopening a member

The state that a member's store holds is the one its memory held after the last call that
wrote the store. Later calls can only have changed the content of the current round and
the recorded votes.
-/

namespace Blossom

open CheckedSteps HighAvailabilityRuntime HighAvailabilityRuntimeState

variable {W : Type} [ProtocolCrypto W] [AmendmentCodec W]

/-- The state that a restart reads from the store. -/
def HighAvailabilityRuntime.reopened (rt : HighAvailabilityRuntime W) :
    Option (HighAvailabilityRuntimeState W) :=
  match rt.store.map HaDurableStore.load with
  | some (.ok (state, _)) => state
  | _ => none

omit [AmendmentCodec W] in
theorem HighAvailabilityRuntime.reopened_of_store {rt : HighAvailabilityRuntime W}
    {s : HighAvailabilityRuntimeState W} (h : rt.store = some (.image s)) (hv : s.Valid) :
    rt.reopened = some s := by
  simp [reopened, h, HaDurableStore.load_image hv]

namespace Operation

def allSucceed (rt : HighAvailabilityRuntime W) : List (Operation W) → Bool
  | [] => true
  | op :: ops => (op.apply rt).1.isOk && allSucceed (op.apply rt).2 ops

/-- Every store transaction of the call commits. One that fails may be durable all the same in the
source, and no later one commits on that handle; the model has neither. -/
def commits : Operation W → Bool
  | .buildDispatch _ _ => true
  | .confirm io commitIo => io && commitIo
  | .receiveMessage _ io | .acknowledge io | .voteToSuspend _ io | .voteToReactivate _ _ io
  | .appendAmendment _ io | .compactHistoryThrough _ io | .installRecoverySnapshot _ io => io

/-- Each installed snapshot agrees with the local records where the store takes them for
unchanged. -/
def SnapshotsAgree (rt : HighAvailabilityRuntime W) (ops : List (Operation W)) : Prop :=
  ∀ k op, ops[k]? = some op → ∀ x ∈ op.snapshot, (run (ops.take k) rt).state.AgreesWith x

structure Committing (rt : HighAvailabilityRuntime W) (ops : List (Operation W)) : Prop where
  commits : ∀ op ∈ ops, op.commits = true
  agree : SnapshotsAgree rt ops

theorem run_append (ops ops' : List (Operation W)) (rt : HighAvailabilityRuntime W) :
    run (ops ++ ops') rt = run ops' (run ops rt) :=
  List.foldl_append

variable {rt : HighAvailabilityRuntime W} {ops : List (Operation W)} {op : Operation W}

theorem SnapshotsAgree.init (h : SnapshotsAgree rt (ops ++ [op])) : SnapshotsAgree rt ops := by
  intro k o hk
  have hlt : k < ops.length := (List.getElem?_eq_some_iff.mp hk).1
  have := h k o (by rw [List.getElem?_append_left hlt, hk])
  rwa [List.take_append_of_le_length hlt.le] at this

theorem SnapshotsAgree.last (h : SnapshotsAgree rt (ops ++ [op])) :
    ∀ x ∈ op.snapshot, (run ops rt).state.AgreesWith x := by
  simpa using h ops.length op (by simp)

/-- The store of `rt` after `ops` was last written by call number `k`. -/
structure WrittenAt (rt : HighAvailabilityRuntime W) (ops : List (Operation W)) (k : ℕ) : Prop where
  le_length : k ≤ ops.length
  store : ∀ j, k ≤ j → j ≤ ops.length →
    (run (ops.take j) rt).store = some (.image (run (ops.take k) rt).state)
  valid : (run (ops.take k) rt).state.Valid
  records : (run (ops.take k) rt).state.SameRecords (run ops rt).state

theorem WrittenAt.now (hst : (run ops rt).store = some (.image (run ops rt).state))
    (hv : (run ops rt).state.Valid) : WrittenAt rt ops ops.length where
  le_length := le_rfl
  store := by
    intro j hj hj'
    obtain rfl : j = ops.length := by omega
    simpa using hst
  valid := by simpa using hv
  records := by simpa using .refl _

theorem WrittenAt.later {k : ℕ} (h : WrittenAt rt ops k)
    (hst : (run (ops ++ [op]) rt).store = (run ops rt).store)
    (hsame : (run ops rt).state.SameRecords (run (ops ++ [op]) rt).state) :
    WrittenAt rt (ops ++ [op]) k := by
  have htake : ∀ j ≤ ops.length, (ops ++ [op]).take j = ops.take j := fun j hj =>
    List.take_append_of_le_length hj
  have hk := htake k h.le_length
  refine ⟨by simpa using h.le_length.trans (Nat.le_succ _), ?_, hk ▸ h.valid,
    hk ▸ h.records.trans hsame⟩
  intro j hj hj'
  rw [hk]
  rcases Nat.lt_or_ge ops.length j with hlt | hle
  · have hlast := h.store ops.length h.le_length le_rfl
    rw [List.take_length] at hlast
    rw [List.take_of_length_le (by simpa using Nat.succ_le_of_lt hlt), hst, hlast]
  · rw [htake j hle]
    exact h.store j hj hle

theorem exists_writtenAt (hst : rt.store = some (.image rt.state)) (hd : Durably Good rt)
    (hsnap : SnapshotsAgree rt ops) : Durably Good (run ops rt) ∧ ∃ k, WrittenAt rt ops k ∧
      ∀ op, ops.getLast? = some op → op.durable = true →
        (op.apply (run ops.dropLast rt)).1.isOk = true → k = ops.length := by
  induction ops using List.reverseRecOn with
  | nil => exact ⟨hd, 0, .now hst hd.memory.valid, by simp⟩
  | append_singleton ops op ih =>
    obtain ⟨hdur, k, hk, -⟩ := ih hsnap.init
    have hstored := hk.store ops.length hk.le_length le_rfl
    rw [List.take_length] at hstored
    have hrun : run (ops ++ [op]) rt = (op.apply (run ops rt)).2 := run_append ops [op] rt
    obtain ⟨hdur', ⟨hst', hsame, hfail⟩ | hst'⟩ := apply_settles hsnap.last hdur
    · refine ⟨hrun ▸ hdur', k, hk.later (hrun ▸ hst') (hrun ▸ hsame), ?_⟩
      intro o ho hdurable hok
      obtain rfl : op = o := by simpa using ho
      rw [List.dropLast_concat] at hok
      obtain ⟨a, ha⟩ := exists_of_isOk hok
      exact absurd ha (hfail hdurable a)
    · rw [hstored, Option.map_some] at hst'
      refine ⟨hrun ▸ hdur', _, .now (hrun ▸ hst') (hrun ▸ hdur'.memory.valid), ?_⟩
      exact fun _ _ _ _ => rfl

/-- In a run whose store transactions commit, what a restart reads is valid, is the state that the
memory held after the last call that wrote the store, and has the records that the memory holds
now. After a durable call that has succeeded it is the state in memory. -/
theorem run_reopens {groupId selfKey : W} {members : List (NodeIdentity W)}
    {parameters : HighAvailabilityParameters} {io : Bool}
    (hcreate : create (some .empty) groupId selfKey members parameters io = .ok rt)
    (hops : Committing rt ops) :
    ∃ k ≤ ops.length, (∀ j, k ≤ j → j ≤ ops.length →
        (run (ops.take j) rt).reopened = some (run (ops.take k) rt).state) ∧
      (run (ops.take k) rt).state.validate = .ok () ∧
      (run (ops.take k) rt).state.SameRecords (run ops rt).state ∧
      ∀ op, ops.getLast? = some op → op.durable = true →
        (op.apply (run ops.dropLast rt)).1.isOk = true →
        (run ops rt).reopened = some (run ops rt).state := by
  obtain ⟨-, -, -, -, -, -, -, -, -, -, hgood⟩ := genesisState_spec (create_state hcreate)
  have hempty : ∀ x ∈ some (HaDurableStore.empty : HaDurableStore W), x = .empty := by simp
  have hst : rt.store = some (.image rt.state) := create_store hempty hcreate
  obtain ⟨-, k, hk, hlast⟩ := exists_writtenAt hst (create_durably hempty hcreate hgood) hops.agree
  have hread : ∀ j, k ≤ j → j ≤ ops.length →
      (run (ops.take j) rt).reopened = some (run (ops.take k) rt).state :=
    fun j hj hj' => reopened_of_store (hk.store j hj hj') hk.valid
  refine ⟨k, hk.le_length, hread, validate_eq_ok.mpr hk.valid, hk.records, ?_⟩
  intro op hop hdurable hok
  have := hread ops.length hk.le_length le_rfl
  rwa [hlast op hop hdurable hok, List.take_length] at this

/-- The calls of a member of a group of three that commits an epoch together with slot 1. -/
def commitWithPeer (rt : HighAvailabilityRuntime FreeWord) : List (Operation FreeWord) :=
  let prepare := [.buildDispatch [] 0, .acknowledge true]
  let receive := prepare ++ echo 1 (.acknowledge true) (run prepare rt)
  receive ++ [.confirm true true] ++ echo 1 (.confirm true true) (run receive rt)

/-- A member of a group of three, new. -/
def newMember (slot : ℕ) : Result (HighAvailabilityRuntime FreeWord) :=
  create (some .empty) (FreeWord.key 0) (.key (slot + 1)) (numberedMembers FreeWord.key 3) (.new 6 6) true

/-- The calls of a member that installs a snapshot and goes on with the next round. -/
def installAndGoOn (snapshot : HaRecoverySnapshot FreeWord) : List (Operation FreeWord) :=
  [.installRecoverySnapshot snapshot true, .buildDispatch [] 0, .acknowledge true]

theorem committing_installAndGoOn {rt : HighAvailabilityRuntime FreeWord}
    {snapshot : HaRecoverySnapshot FreeWord} (h : rt.state.AgreesWith snapshot) :
    Committing rt (installAndGoOn snapshot) where
  commits := by simp [installAndGoOn, commits]
  agree := by
    intro k op hk x hx
    rcases k with _ | _ | _ | k <;> cases hk <;> cases hx
    exact h

/-- The snapshot of slot 0 after it has committed an epoch with slot 1. -/
def peerSnapshot : Result (HaRecoverySnapshot FreeWord) := do
  let peer ← newMember 0
  pure (run (commitWithPeer peer) peer).recoverySnapshot

def installing : Result (HighAvailabilityRuntime FreeWord × HaRecoverySnapshot FreeWord) := do
  let rt ← newMember 2
  let snapshot ← peerSnapshot
  pure (rt, snapshot)

/-- The snapshot brings slot 2 an epoch, every call succeeds, and the restart reads the memory. -/
theorem run_reopens_installed : ∃ rt snapshot, newMember 2 = .ok rt ∧ peerSnapshot = .ok snapshot ∧
    allSucceed rt (installAndGoOn snapshot) = true ∧
    rt.state.epochs.length < (run (installAndGoOn snapshot) rt).state.epochs.length ∧
    (run (installAndGoOn snapshot) rt).reopened =
      some (run (installAndGoOn snapshot) rt).state := by
  obtain ⟨⟨rt, snapshot⟩, hrun, hcheck⟩ := exists_of_check (x := installing) (p := fun x =>
    (allSucceed x.1 (installAndGoOn x.2) = true ∧
      x.1.state.epochs.length < (run (installAndGoOn x.2) x.1).state.epochs.length) ∧
    ((Operation.acknowledge true).apply (run (installAndGoOn x.2).dropLast x.1)).1.isOk = true ∧
    x.1.state.epochs <+: x.2.epochs ∧
    (∀ e ∈ x.1.state.epochs, ∀ e' ∈ x.2.epochs, sameEpoch e e' = true → e = e') ∧
    x.1.state.membershipChanges = [] ∧ x.1.state.amendments = []) (by decide +kernel)
  dsimp only at hcheck
  obtain ⟨⟨hok, hlonger⟩, hlast, hprefix, hepochs, hchanges, hamendments⟩ := hcheck
  simp only [installing, bind_eq_ok, pure_eq_ok, Prod.mk.injEq] at hrun
  obtain ⟨_, hrt, _, hsnapshot, rfl, rfl⟩ := hrun
  have hagree : HighAvailabilityRuntimeState.AgreesWith _ _ := ⟨.of_extension hprefix hepochs,
    .of_extension (by simp [hchanges]) (by simp [hchanges]),
    .of_extension (by simp [hamendments]) (by simp [hamendments])⟩
  obtain ⟨-, -, -, -, -, hreopens⟩ := run_reopens hrt (committing_installAndGoOn hagree)
  exact ⟨_, _, hrt, hsnapshot, hok, hlonger, hreopens _ rfl rfl hlast⟩

/-- The member's own snapshot, with its last epoch confirmed by all three members. -/
def confirmedByAll (rt : HighAvailabilityRuntime FreeWord) : HaRecoverySnapshot FreeWord :=
  let snapshot := rt.recoverySnapshot
  { snapshot with epochs := snapshot.epochs.map fun e =>
      if e.nonce = 1 then { e with confirmationMask := 7 } else e }

/-- Two runs without a failed call after which a restart reads another state than the one in
memory. In the first the member has built its dispatch, which is not persisted. In the second
it has installed a snapshot whose epochs have the hashes of the local ones but another
confirmation mask, and the store has kept the old mask. -/
theorem reopened_ne_state : ∃ rt, newMember 0 = .ok rt ∧
    (allSucceed rt [.buildDispatch [] 0] = true ∧
      (run [.buildDispatch [] 0] rt).reopened ≠ some (run [.buildDispatch [] 0] rt).state) ∧
    ∃ ops, allSucceed rt ops = true ∧
      (run ops rt).reopened.map (·.epochs) ≠ some (run ops rt).state.epochs := by
  let ops (rt : HighAvailabilityRuntime FreeWord) := commitWithPeer rt ++
    [.installRecoverySnapshot (confirmedByAll (run (commitWithPeer rt) rt)) true]
  have hrun : ∃ rt, newMember 0 = .ok rt ∧ (allSucceed rt [.buildDispatch [] 0] = true ∧
        (run [.buildDispatch [] 0] rt).reopened.map (·.round.receivedMask) ≠
          some (run [.buildDispatch [] 0] rt).state.round.receivedMask) ∧
      allSucceed rt (ops rt) = true ∧
      (run (ops rt) rt).reopened.map (·.epochs) ≠ some (run (ops rt) rt).state.epochs :=
    exists_of_check (by decide +kernel)
  obtain ⟨rt, hrt, ⟨hok, hne⟩, hinstall⟩ := hrun
  exact ⟨rt, hrt, ⟨hok, fun heq => hne (congrArg _ heq)⟩, ops rt, hinstall⟩

end Operation

end Blossom
