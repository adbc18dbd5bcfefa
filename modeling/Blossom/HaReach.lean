import Blossom.HaDurability

/-!
# Reachable members

A member is created from a genesis, makes transitions and is reopened from its store, in any order
and with any messages and recovery snapshots. Its state is good at every point.
-/

namespace Blossom

open CheckedSteps IndexedTable ConsecutiveList

variable {W : Type} [ProtocolCrypto W]

def GapFree {α : Type} (rows : List (ℕ × α)) (count : ℕ) : Prop :=
  ∃ xs : List α, rows = numbered 0 xs ∧ xs.length = count

section Tables

variable {α : Type} {rows : List (ℕ × α)} {new : List α} {count : ℕ}

section

omit [ProtocolCrypto W]

theorem GapFree.loads (h : GapFree rows count) (table : String) :
    ∃ xs, loadHaRecords table rows = .ok xs ∧ rows = numbered 0 xs ∧ xs.length = count := by
  obtain ⟨xs, rfl, hlen⟩ := h
  exact ⟨xs, loadHaRecords_numbered table xs, rfl, hlen⟩

theorem GapFree.appendRow (h : GapFree rows count) (hlen : new.length = count + 1) :
    GapFree (appendRow count new rows) new.length := by
  obtain ⟨xs, rfl, rfl⟩ := h
  have hne : new ≠ [] := List.ne_nil_of_length_pos (by omega)
  refine ⟨xs ++ [new.getLast hne], ?_, by simp [hlen]⟩
  rw [Blossom.appendRow, List.getLast?_eq_some_getLast hne]
  simpa using insertRow_numbered 0 (new.getLast hne) xs

theorem GapFree.syncHaSuffix {xs : List α} (same : α → α → Bool) :
    GapFree (syncHaSuffix (numbered 0 xs) xs.length (new.drop (commonLength same xs new))
      (commonLength same xs new)) new.length := by
  obtain ⟨hold, hnew⟩ := commonLength_le same xs new
  refine ⟨_, replace_suffix _ hold, ?_⟩
  rw [List.length_append, List.length_take, List.length_drop]
  omega

theorem GapFree.syncRows {table : String} (same : α → α → Bool) {unchanged appends : Prop}
    [Decidable unchanged] [Decidable appends] (h : GapFree rows count)
    (hsame : unchanged → new.length = count) (happ : appends → new.length = count + 1) :
    ∃ rows', syncRows table same unchanged appends count new rows = .ok rows' ∧
      GapFree rows' new.length := by
  unfold Blossom.syncRows
  split_ifs with hun hap
  · exact ⟨rows, rfl, hsame hun ▸ h⟩
  · exact ⟨_, rfl, h.appendRow (happ hap)⟩
  · obtain ⟨xs, hload, rfl, -⟩ := h.loads table
    exact ⟨_, by rw [hload]; rfl, .syncHaSuffix _⟩

end

theorem GapFree.syncHaEpochs {rows : List (ℕ × HaEpoch W)} (previous : HaSequenceSummary W)
    (new : List (HaEpoch W)) (h : GapFree rows previous.len) :
    ∃ rows', syncHaEpochs (some previous) new rows = .ok rows' ∧ GapFree rows' new.length :=
  h.syncRows sameEpoch (by rintro ⟨⟩; rfl) (by rintro ⟨_, ⟨⟩, hlen, -⟩; exact hlen)

theorem GapFree.syncHaRecords [DecidableEq α] (table : String) (recordHash : α → W)
    (previous : HaSequenceSummary W) (new : List α) (h : GapFree rows previous.len) :
    ∃ rows', syncHaRecords table recordHash (some previous) new rows = .ok rows' ∧
      GapFree rows' new.length :=
  h.syncRows _ (by rintro ⟨⟩; rfl) (by rintro ⟨_, ⟨⟩, hlen, -⟩; exact hlen)

end Tables

/-- The store after `p` was persisted, whatever its rows are. -/
structure HaDurableStore.Kept (store : HaDurableStore W) (p : HighAvailabilityRuntimeState W) :
    Prop where
  metadata : store.metadata = some (.fromState p)
  cached : store.cached = some (.fromState p)
  epochs : GapFree store.epochs p.epochs.length
  membershipChanges : GapFree store.membershipChanges p.membershipChanges.length
  amendments : GapFree store.amendments p.amendments.length

namespace HighAvailabilityRuntimeState

variable {s : HighAvailabilityRuntimeState W}

theorem Valid.persistTip (h : s.Valid) : s.validatePersistTip = .ok () := by
  obtain ⟨tip, htip, hround, -⟩ := h.tip
  have hmem : tip ∈ s.epochs := List.mem_of_getLast? htip
  have hrest : (do
      reject (¬s.RoundExtends tip)
        (wireProtocol "HA current round does not extend the durable epoch tip")
      s.validateVotes) = .ok () := by
    simp only [↓guard_bind_eq_ok, reject_eq_ok, not_not]
    exact ⟨hround, h.votes⟩
  have hself : ¬(s.members.member s.selfSlot).isNone = true :=
    fun hnone => by simpa [Option.isNone_iff_eq_none.mp hnone] using h.self
  simp only [validatePersistTip, ↓guard_bind_eq_ok, bind_eq_ok, require_eq_ok, reject_eq_ok, not_not]
  refine ⟨(), h.parameters, h.members, hself, tip, htip, h.envelope tip hmem, ?_⟩
  split
  next hlen =>
    rw [List.getLast?_eq_getElem?] at htip
    obtain ⟨i, hi⟩ : ∃ i, s.epochs.length - 1 = i + 1 := ⟨s.epochs.length - 2, by omega⟩
    rw [hi] at htip
    obtain ⟨previous, -, hlink⟩ := exists_getElem?_of_isChain h.links htip
    exact bind_eq_ok.mpr ⟨(), (validateLink_eq_ok.mp hlink).2.2.2, hrest⟩
  next => exact hrest

theorem Valid.persistTransition (h : s.Valid) (previous : Option (HaDurableCache W)) :
    validateHaPersistTransition previous s = .ok () := by
  unfold validateHaPersistTransition
  have hv := validate_eq_ok.mpr h
  split
  · exact hv
  · split_ifs
    · exact hv
    · exact h.persistTip
    · exact hv

end HighAvailabilityRuntimeState

namespace HaDurableStore

variable {store store' : HaDurableStore W} {p next : HighAvailabilityRuntimeState W} {io : Bool}

theorem Kept.persist_eq (h : store.Kept p) (next : HighAvailabilityRuntimeState W) (io : Bool) :
    ∃ store' : HaDurableStore W, store'.Kept next ∧ store.persist next io = (do
      validateHaPersistTransition store.cached next
      reject (io = false) (.error (.io "HA durable store"))
      pure store') := by
  obtain ⟨epochs, hepochs, hfree⟩ := GapFree.syncHaEpochs (haEpochSummary p.epochs) next.epochs
    h.epochs
  obtain ⟨changes, hchg, hfree'⟩ := GapFree.syncHaRecords "ha_membership_changes_v1"
    certificateHash (sequenceSummary certificateHash p.membershipChanges) next.membershipChanges
    h.membershipChanges
  obtain ⟨amendments, ham, hfree''⟩ := GapFree.syncHaRecords "ha_amendments_v1"
    amendmentHash (sequenceSummary amendmentHash p.amendments) next.amendments h.amendments
  refine ⟨⟨_, epochs, changes, amendments, _⟩, ⟨rfl, rfl, hfree, hfree', hfree''⟩, ?_⟩
  rw [persist, h.cached]
  simp only [Option.map_some, HaDurableCache.fromState, hepochs, hchg, ham]
  rfl

theorem Kept.persisted (h : store.Kept p) (hp : store.persist next io = .ok store') :
    store'.Kept next := by
  obtain ⟨store'', hkept, heq⟩ := h.persist_eq next io
  simp only [heq, guard_bind_eq_ok, pure_eq_ok] at hp
  exact hp.2.2 ▸ hkept

theorem Kept.persist_valid (h : store.Kept p) (hv : next.Valid) (io : Bool) :
    (∃ store', store.persist next io = .ok store') ∨
      io = false ∧ store.persist next io = .error (.error (.io "HA durable store")) := by
  obtain ⟨store', -, heq⟩ := h.persist_eq next io
  rw [heq, hv.persistTransition]
  cases io with
  | true => exact .inl ⟨store', rfl⟩
  | false => exact .inr ⟨rfl, rfl⟩

theorem kept_image (s : HighAvailabilityRuntimeState W) : (image s).Kept s :=
  ⟨rfl, rfl, ⟨_, rfl, rfl⟩, ⟨_, rfl, rfl⟩, ⟨_, rfl, rfl⟩⟩

theorem Kept.load {loaded : Option (HighAvailabilityRuntimeState W)} (h : store.Kept p)
    (hl : store.load = .ok (loaded, store')) :
    ∃ s, loaded = some s ∧ s.Valid ∧ store'.Kept s ∧
      HaDurableMetadata.fromState s = .fromState p := by
  obtain ⟨epochs, hepochs, hrows, hlen⟩ := h.epochs.loads "ha_epochs_v1"
  obtain ⟨changes, hchg, hrows', hlen'⟩ := h.membershipChanges.loads "ha_membership_changes_v1"
  obtain ⟨amendments, ham, hrows'', hlen''⟩ := h.amendments.loads "ha_amendments_v1"
  simp only [HaDurableStore.load, h.metadata, hepochs, hchg, ham, bind_eq_ok,
    pure_eq_ok, Prod.mk.injEq, Except.ok.injEq] at hl
  obtain ⟨_, -, _, rfl, _, rfl, _, rfl, _, hvalid, rfl, rfl⟩ := hl
  exact ⟨_, rfl, HighAvailabilityRuntimeState.validate_eq_ok.mp hvalid,
    ⟨rfl, rfl, ⟨_, hrows, rfl⟩, ⟨_, hrows', rfl⟩, ⟨_, hrows'', rfl⟩⟩, rfl⟩

end HaDurableStore

namespace HighAvailabilityRuntime

open HighAvailabilityRuntimeState

variable {rt rt' : HighAvailabilityRuntime W} {next : HighAvailabilityRuntimeState W} {io : Bool}
  {P : HaDurableMetadata W → Prop}

/-- The state in memory is valid, and a property of what is kept between restarts, that a round is
well formed among them, holds in memory and in the store. -/
structure Sound (P : HaDurableMetadata W → Prop) (rt : HighAvailabilityRuntime W) : Prop where
  valid : rt.state.Valid
  memory : P (.fromState rt.state)
  stored : ∀ store ∈ rt.store, ∃ p, store.Kept p ∧ P (.fromState p)

theorem Sound.mono {Q : HaDurableMetadata W → Prop} (h : Sound P rt) (hpq : ∀ m, P m → Q m) :
    Sound Q rt := by
  refine ⟨h.valid, hpq _ h.memory, fun store hst => ?_⟩
  obtain ⟨p, hkept, hp⟩ := h.stored store hst
  exact ⟨p, hkept, hpq _ hp⟩

theorem Sound.withState (h : Sound P rt) (hv : next.Valid) (hp : P (.fromState next)) :
    Sound P (rt.withState next) :=
  ⟨hv, hp, h.stored⟩

theorem Sound.persisted {Q : HaDurableMetadata W → Prop} (h : Sound P rt) (hv : next.Valid)
    (hp : Q (.fromState next)) (hper : (rt.withState next).persist io = .ok rt') : Sound Q rt' := by
  obtain ⟨hst, rfl⟩ | ⟨store, store', hst, hw, rfl⟩ := persist_eq_ok.mp hper
  · exact ⟨hv, hp, by simp [hst]⟩
  · obtain ⟨p, hkept, -⟩ := h.stored store hst
    refine ⟨hv, hp, ?_⟩
    rintro _ ⟨⟩
    exact ⟨next, hkept.persisted hw, hp⟩

theorem Sound.persist_valid (h : Sound P rt) (hv : next.Valid) (io : Bool) :
    (∃ rt', (rt.withState next).persist io = .ok rt' ∧ rt'.state = next) ∨
      io = false ∧ (rt.withState next).persist io = .error (.error (.io "HA durable store")) := by
  unfold persist
  cases hst : rt.store with
  | none => exact .inl ⟨rt.withState next, by simp [HighAvailabilityRuntime.withState, hst], rfl⟩
  | some store =>
    obtain ⟨p, hkept, -⟩ := h.stored store hst
    simp only [HighAvailabilityRuntime.withState, hst]
    obtain ⟨store', hper⟩ | ⟨rfl, hper⟩ := hkept.persist_valid hv io
    · exact .inl ⟨{ (rt.withState next) with store := some store' }, by rw [hper]; rfl, rfl⟩
    · exact .inr ⟨rfl, by rw [hper]; rfl⟩

theorem Sound.persist_ok (h : Sound P rt) (hv : next.Valid) :
    ∃ rt', (rt.withState next).persist true = .ok rt' ∧ rt'.state = next := by
  simpa using h.persist_valid hv true

theorem Sound.openStore (h : Sound P rt) {store : HaDurableStore W} (hst : rt.store = some store)
    {groupId selfKey : W} {members : List (NodeIdentity W)}
    {parameters : HighAvailabilityParameters}
    (ho : openStore store groupId selfKey members parameters io = .ok rt') :
    Sound P rt' ∧ ∃ p, store.Kept p ∧ HaDurableMetadata.fromState rt'.state = .fromState p := by
  obtain ⟨p, hkept, hp⟩ := h.stored store hst
  simp only [HighAvailabilityRuntime.openStore, bind_eq_ok, Prod.exists] at ho
  obtain ⟨loaded, store', hload, ho⟩ := ho
  obtain ⟨s, rfl, hv, hkept', hsame⟩ := hkept.load hload
  simp only [↓guard_bind_eq_ok, bind_eq_ok, pure_eq_ok] at ho
  obtain ⟨_, -, -, rfl⟩ := ho
  refine ⟨⟨hv, hsame ▸ hp, ?_⟩, p, hkept, hsame⟩
  rintro _ ⟨⟩
  exact ⟨s, hkept', hsame ▸ hp⟩

end HighAvailabilityRuntime

variable [AmendmentCodec W]

open HighAvailabilityRuntime in
/-- The runtimes that a member can have, with the transitions that it has made. -/
inductive HaReached : List (Label W) → HighAvailabilityRuntime W → Prop
  | created {store : Option (HaDurableStore W)} {groupId selfKey : W}
      {members : List (NodeIdentity W)} {parameters : HighAvailabilityParameters} {io : Bool}
      {rt : HighAvailabilityRuntime W} (hstore : ∀ x ∈ store, x = .empty)
      (h : create store groupId selfKey members parameters io = .ok rt) : HaReached [] rt
  | step {ls : List (Label W)} {l : Label W} {rt rt' : HighAvailabilityRuntime W}
      (h : HaReached ls rt) (ht : Transition rt l rt') : HaReached (l :: ls) rt'
  | reopened {ls : List (Label W)} {rt rt' : HighAvailabilityRuntime W}
      {store : HaDurableStore W} {groupId selfKey : W} {members : List (NodeIdentity W)}
      {parameters : HighAvailabilityParameters} {io : Bool} (h : HaReached ls rt)
      (hstore : rt.store = some store)
      (ho : openStore store groupId selfKey members parameters io = .ok rt') : HaReached ls rt'

namespace HaReached

open HighAvailabilityRuntime HighAvailabilityRuntimeState

variable {rt rt' : HighAvailabilityRuntime W} {ls ls' : List (Label W)}

theorem steps (h : HaReached ls rt) (hs : Steps rt ls' rt') : HaReached (ls'.reverse ++ ls) rt' := by
  induction hs generalizing ls with
  | refl rt => exact h
  | cons ht _ ih => simpa using ih (h.step ht)

/-- A call of the public interface reaches a runtime, whether it succeeds or not. -/
theorem apply (h : HaReached ls rt) (op : Operation W) : ∃ ls', HaReached ls' (op.apply rt).2 := by
  obtain ⟨_, hs, -⟩ := op.apply_explains rt
  exact ⟨_, h.steps hs⟩

/-- What a new member has and every transition of a good state keeps holds in memory and in the
store. -/
theorem sound {P : List (Label W) → HaDurableMetadata W → Prop}
    (hcreate : ∀ s : HighAvailabilityRuntimeState W, s.Good → (s.membershipVotes = fun _ => none) →
      P [] (.fromState s)) (hmono : ∀ l ls m, P ls m → P (l :: ls) m)
    (hstep : ∀ {rt l rt'} ls, Transition rt l rt' → rt.state.Good → P ls (.fromState rt.state) →
      P (l :: ls) (.fromState rt'.state))
    (h : HaReached ls rt) : Sound (fun m => m.round.Wf ∧ P ls m) rt := by
  induction h with
  | @created _ _ _ _ _ _ rt hstore h =>
    obtain ⟨-, -, -, -, -, -, -, -, -, hvotes, hgood⟩ := genesisState_spec (create_state h)
    have hp := hcreate _ hgood hvotes
    refine ⟨hgood.valid, ⟨hgood.round, hp⟩, fun x hx => ⟨rt.state, ?_, hgood.round, hp⟩⟩
    rw [create_store hstore h] at hx
    obtain ⟨_, -, rfl⟩ := Option.map_eq_some_iff.mp hx
    exact HaDurableStore.kept_image rt.state
  | @step ls l rt rt' h ht ih =>
    have hgood : rt.state.Good := ⟨ih.valid, ih.memory.1⟩
    have hp := hstep ls ht hgood ih.memory.2
    have hlater := ih.mono fun m hm => And.imp_right (hmono l ls m) hm
    obtain ⟨next, hnext, ⟨-, rfl, -⟩ | ⟨-, io, hper, -⟩⟩ := ht.effect hgood
    · exact hlater.withState hnext.valid ⟨hnext.round, hp⟩
    · rw [show rt'.state = next from persist_state hper] at hp
      exact hlater.persisted hnext.valid ⟨hnext.round, hp⟩ hper
  | reopened h hst ho ih => exact (ih.openStore hst ho).1

theorem kept (h : HaReached ls rt) : Sound (fun m => m.round.Wf ∧ True) rt :=
  h.sound (P := fun _ _ => True) (fun _ _ _ => trivial) (fun _ _ _ _ => trivial)
    fun _ _ _ _ => trivial

theorem good (h : HaReached ls rt) : rt.state.Good :=
  ⟨h.kept.valid, h.kept.memory.1⟩

theorem persist_ok (h : HaReached ls rt) {next : HighAvailabilityRuntimeState W} (hv : next.Valid) :
    ∃ rt', (rt.withState next).persist true = .ok rt' ∧ rt'.state = next :=
  h.kept.persist_ok hv

theorem run (h : HaReached ls rt) (ops : List (Operation W)) :
    ∃ ls', HaReached ls' (Operation.run ops rt) := by
  unfold Operation.run
  induction ops generalizing rt ls with
  | nil => exact ⟨ls, h⟩
  | cons op ops ih =>
    obtain ⟨_, hnext⟩ := h.apply op
    exact ih hnext

end HaReached

/-!
A member that plays a script makes calls that depend on its state. The messages of its peers are its
own ones under another sender.
-/

namespace Operation

/-- The calls with which a member receives what it sends itself from another member. -/
def echo (sender : ℕ) (op : Operation W) (rt : HighAvailabilityRuntime W) : List (Operation W) :=
  match (op.apply rt).1 with
  | .error _ => []
  | .ok messages => messages.map fun
    | .acknowledge a => .receiveMessage (.acknowledge { a with sender := sender }) true
    | .confirm c => .receiveMessage (.confirm { c with sender := sender }) true
    | m => .receiveMessage m true

def play (script : List (HighAvailabilityRuntime W → List (Operation W)))
    (rt : HighAvailabilityRuntime W) : HighAvailabilityRuntime W :=
  script.foldl (fun rt calls => run (calls rt) rt) rt

end Operation

open Operation

theorem HaReached.play {rt : HighAvailabilityRuntime W} {ls : List (Label W)} (h : HaReached ls rt)
    (script : List (HighAvailabilityRuntime W → List (Operation W))) :
    ∃ ls', HaReached ls' (play script rt) := by
  unfold Operation.play
  induction script generalizing rt ls with
  | nil => exact ⟨ls, h⟩
  | cons calls script ih =>
    obtain ⟨_, hnext⟩ := h.run (calls rt)
    exact ih hnext

/-- A round in which a member offers transactions and finalizes them with one peer. -/
def Operation.roundWith (peer : ℕ) (transactions : List (Transaction W)) :
    List (HighAvailabilityRuntime W → List (Operation W)) :=
  [fun _ => [.buildDispatch transactions 0, .acknowledge true], echo peer (.acknowledge true),
    fun _ => [.confirm true true], echo peer (.confirm true true)]

/-- A result of a check of the runtime that a new member reaches with a script. -/
theorem exists_reached_of_check (groupId selfKey : W) (members : List (NodeIdentity W))
    (parameters : HighAvailabilityParameters)
    (script : List (HighAvailabilityRuntime W → List (Operation W)))
    {p : HighAvailabilityRuntime W → Prop} [DecidablePred p]
    (h : ((HighAvailabilityRuntime.create (some .empty) groupId selfKey members parameters
      true).toOption.any fun rt => decide (p (play script rt))) = true) :
    ∃ ls rt, HaReached ls rt ∧ p rt := by
  obtain ⟨rt, hrt, hp⟩ := exists_of_check (p := fun rt => p (play script rt)) h
  obtain ⟨ls, hreach⟩ := (HaReached.created (by simp) hrt).play script
  exact ⟨ls, _, hreach, hp⟩

end Blossom
