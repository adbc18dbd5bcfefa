import Blossom.HaValidity

/-!
# What the store holds

After every persist the store holds exactly the persisted state: a table is left alone,
extended or rewritten by comparing lengths and hashes, and in a run without recovery
snapshots these comparisons are never wrong. Reopening the store returns that state.
-/

namespace Blossom

open CheckedSteps BitMask IndexedTable ConsecutiveList HaRoundState

variable {W : Type} [ProtocolCrypto W]
variable {next p s t : HighAvailabilityRuntimeState W} {rt rt' : HighAvailabilityRuntime W}
  {Q Q' : HighAvailabilityRuntimeState W → Prop} {table : String} {l : Label W}

def HaDurableStore.image (s : HighAvailabilityRuntimeState W) : HaDurableStore W where
  metadata := some (.fromState s)
  epochs := numbered 0 s.epochs
  membershipChanges := numbered 0 s.membershipChanges
  amendments := numbered 0 s.amendments
  cached := some (.fromState s)

/-- The comparisons of a delta persist from `old` to `new` are right. -/
structure Syncs {α : Type} (recordHash : α → W) (same : α → α → Bool) (old new : List α) :
    Prop where
  unchanged : sequenceSummary recordHash old = sequenceSummary recordHash new → old = new
  appended : AppendsRecord recordHash (sequenceSummary recordHash old) new → old = new.dropLast
  shared : Agree same old new

section Tables

variable {α : Type} {recordHash : α → W} {same : α → α → Bool} {old new : List α}

section

omit [ProtocolCrypto W]

theorem Syncs.of_extension (h : old <+: new) (hs : ∀ x ∈ old, ∀ y ∈ new, same x y = true → x = y) :
    Syncs recordHash same old new where
  unchanged := fun he => h.eq_of_length (congrArg HaSequenceSummary.len he)
  appended := by
    rintro ⟨hlen, -⟩
    obtain ⟨rest, rfl⟩ := h
    obtain ⟨x, rfl⟩ : ∃ x, rest = [x] := by
      apply List.length_eq_one_iff.mp
      simpa [sequenceSummary] using hlen
    simp
  shared := agree_of_mem hs

theorem Syncs.of_sublist (h : new.Sublist old)
    (hs : ∀ x ∈ old, ∀ y ∈ new, same x y = true → x = y) : Syncs recordHash same old new where
  unchanged := fun he => (h.eq_of_length (congrArg HaSequenceSummary.len he).symm).symm
  appended := by
    rintro ⟨hlen, -⟩
    have := h.length_le
    simp only [sequenceSummary] at hlen
    omega
  shared := agree_of_mem hs

theorem loadHaRecords_numbered (table : String) (xs : List α) :
    loadHaRecords table (numbered 0 xs) = .ok xs := by
  simp [loadHaRecords]

theorem syncHaSuffix_commonLength (hs : Agree same old new) :
    syncHaSuffix (numbered 0 old) old.length (new.drop (commonLength same old new))
      (commonLength same old new) = numbered 0 new := by
  rw [syncHaSuffix, replace_suffix _ (commonLength_le same old new).1, take_commonLength hs,
    List.take_append_drop]

theorem appendRow_numbered {len : ℕ} (hlen : len + 1 = new.length) :
    appendRow len new (numbered 0 new.dropLast) = numbered 0 new := by
  have hne : new ≠ [] := by
    rintro rfl
    simp at hlen
  have hl : len = 0 + new.dropLast.length := by
    rw [List.length_dropLast]
    omega
  rw [appendRow, List.getLast?_eq_some_getLast hne]
  dsimp only
  rw [hl, insertRow_numbered, List.dropLast_append_getLast hne]

/-- What `syncHaEpochs` and `syncHaRecords` share: rows that are kept, get one more row, or are
replaced behind the common part. -/
def syncRows (table : String) (same : α → α → Bool) (unchanged appends : Prop) [Decidable unchanged]
    [Decidable appends] (len : ℕ) (new : List α) (rows : List (ℕ × α)) : Result (List (ℕ × α)) :=
  if unchanged then .ok rows
  else if appends then .ok (appendRow len new rows)
  else do
    let old ← loadHaRecords table rows
    let common := commonLength same old new
    pure (syncHaSuffix rows old.length (new.drop common) common)

theorem syncRows_spec {unchanged appends : Prop} [Decidable unchanged] [Decidable appends]
    {len : ℕ} (hsame : unchanged → old = new)
    (happ : appends → old = new.dropLast ∧ len + 1 = new.length) (hs : Agree same old new) :
    syncRows table same unchanged appends len new (numbered 0 old) = .ok (numbered 0 new) := by
  unfold syncRows
  split_ifs with hun hap
  · rw [hsame hun]
  · rw [(happ hap).1, appendRow_numbered (happ hap).2]
  · simp only [loadHaRecords_numbered, bind_eq_ok, pure_eq_ok, Except.ok.injEq]
    exact ⟨old, rfl, syncHaSuffix_commonLength hs⟩

end

theorem syncHaRecords_spec [DecidableEq α]
    (h : Syncs recordHash (fun a b => decide (a = b)) old new) :
    syncHaRecords table recordHash (some (sequenceSummary recordHash old)) new (numbered 0 old) =
      .ok (numbered 0 new) := by
  refine syncRows_spec (fun he => h.unchanged (Option.some.inj he)) ?_ h.shared
  rintro ⟨_, ⟨⟩, happ⟩
  exact ⟨h.appended happ, happ.1.symm⟩

theorem agree_nil : Agree same [] new :=
  agree_of_mem (by simp)

theorem syncHaRecords_fresh [DecidableEq α] :
    syncHaRecords table recordHash none new [] = .ok (numbered 0 new) :=
  syncRows_spec nofun (by simp) agree_nil

end Tables

def sameEpoch (a b : HaEpoch W) : Bool := decide (a.nonce = b.nonce) && decide (a.hash = b.hash)

theorem syncHaEpochs_spec {old new : List (HaEpoch W)} (h : Syncs HaEpoch.hash sameEpoch old new) :
    syncHaEpochs (some (haEpochSummary old)) new (numbered 0 old) = .ok (numbered 0 new) := by
  refine syncRows_spec (fun he => h.unchanged (Option.some.inj he)) ?_ h.shared
  rintro ⟨_, ⟨⟩, happ⟩
  exact ⟨h.appended ⟨happ.1, happ.2.1, happ.2.2.2.symm⟩, happ.1.symm⟩

theorem syncHaEpochs_fresh {new : List (HaEpoch W)} :
    syncHaEpochs none new [] = .ok (numbered 0 new) :=
  syncRows_spec nofun (by simp) agree_nil

namespace HighAvailabilityRuntimeState

/-- The three record sequences of `next` can be written as a delta to those of `s`. -/
structure Extends (s next : HighAvailabilityRuntimeState W) : Prop where
  epochs : Syncs HaEpoch.hash sameEpoch s.epochs next.epochs
  membershipChanges : Syncs certificateHash (fun a b => decide (a = b)) s.membershipChanges
    next.membershipChanges
  amendments : Syncs amendmentHash (fun a b => decide (a = b)) s.amendments next.amendments

/-- The records of a snapshot that the store takes for unchanged are the local ones. -/
structure AgreesWith (s : HighAvailabilityRuntimeState W) (snapshot : HaRecoverySnapshot W) :
    Prop where
  epochs : Syncs HaEpoch.hash sameEpoch s.epochs snapshot.epochs
  membershipChanges : Syncs certificateHash (fun a b => decide (a = b)) s.membershipChanges
    snapshot.membershipChanges
  amendments : Syncs amendmentHash (fun a b => decide (a = b)) s.amendments snapshot.amendments

/-- Two states that differ at most in the content of the current round and in the votes
of peers: everything but what a member may lose when it restarts. -/
structure SameRecords (p s : HighAvailabilityRuntimeState W) : Prop where
  groupId : p.groupId = s.groupId
  selfSlot : p.selfSlot = s.selfSlot
  members : p.members = s.members
  membershipGeneration : p.membershipGeneration = s.membershipGeneration
  parameters : p.parameters = s.parameters
  checkpoint : p.checkpoint = s.checkpoint
  epochs : p.epochs = s.epochs
  roundId : p.round.roundId = s.round.roundId
  presence : p.presence = s.presence
  membershipVoteLock : p.membershipVoteLock = s.membershipVoteLock
  membershipChanges : p.membershipChanges = s.membershipChanges
  amendments : p.amendments = s.amendments

omit [ProtocolCrypto W] in
theorem SameRecords.refl (s : HighAvailabilityRuntimeState W) : s.SameRecords s :=
  ⟨rfl, rfl, rfl, rfl, rfl, rfl, rfl, rfl, rfl, rfl, rfl, rfl⟩

omit [ProtocolCrypto W] in
theorem SameRecords.trans (h : p.SameRecords s) (h' : s.SameRecords t) : p.SameRecords t :=
  ⟨h.groupId.trans h'.groupId, h.selfSlot.trans h'.selfSlot, h.members.trans h'.members,
    h.membershipGeneration.trans h'.membershipGeneration, h.parameters.trans h'.parameters,
    h.checkpoint.trans h'.checkpoint, h.epochs.trans h'.epochs, h.roundId.trans h'.roundId,
    h.presence.trans h'.presence, h.membershipVoteLock.trans h'.membershipVoteLock,
    h.membershipChanges.trans h'.membershipChanges, h.amendments.trans h'.amendments⟩

theorem SameRecords.extends (h : p.SameRecords s) (h' : s.Extends next) : p.Extends next :=
  ⟨h.epochs ▸ h'.epochs, h.membershipChanges ▸ h'.membershipChanges, h.amendments ▸ h'.amendments⟩

end HighAvailabilityRuntimeState

namespace HaDurableStore

variable {store store' : HaDurableStore W} {p s : HighAvailabilityRuntimeState W} {io : Bool}

/-- Reopening a store returns the valid state it holds. -/
theorem load_image (hv : s.Valid) : (image s).load = .ok (some s, image s) := by
  simp only [load, image, loadHaRecords_numbered, bind_eq_ok, pure_eq_ok, reject_eq_ok]
  exact ⟨(), by simp [HaDurableMetadata.fromState], s.epochs, rfl, s.membershipChanges, rfl,
    s.amendments, rfl, (), HighAvailabilityRuntimeState.validate_eq_ok.mpr hv, rfl⟩

theorem persist_image (he : p.Extends s) (hp : (image p).persist s io = .ok store') :
    store' = image s := by
  simp only [persist, image, Option.map_some, HaDurableCache.fromState,
    syncHaEpochs_spec he.epochs, syncHaRecords_spec he.membershipChanges,
    syncHaRecords_spec he.amendments, bind_eq_ok, pure_eq_ok, Except.ok.injEq] at hp
  obtain ⟨_, -, _, rfl, _, rfl, _, rfl, _, -, rfl⟩ := hp
  rfl

theorem persist_fresh (hp : (empty : HaDurableStore W).persist s io = .ok store') :
    store' = image s := by
  simp only [persist, empty, Option.map_none, syncHaEpochs_fresh, syncHaRecords_fresh, bind_eq_ok,
    pure_eq_ok, Except.ok.injEq] at hp
  obtain ⟨_, -, _, rfl, _, rfl, _, rfl, _, -, rfl⟩ := hp
  rfl

end HaDurableStore

namespace HighAvailabilityRuntime

open HighAvailabilityRuntimeState

variable {rt rt' : HighAvailabilityRuntime W} {P : HighAvailabilityRuntimeState W → Prop}

/-- `P` holds of the state in memory and of the state in the store, which has the same
records. -/
structure Durably (P : HighAvailabilityRuntimeState W → Prop) (rt : HighAvailabilityRuntime W) :
    Prop where
  memory : P rt.state
  stored : ∀ store ∈ rt.store, ∃ p, store = .image p ∧ P p ∧ p.SameRecords rt.state

variable {parameters : HighAvailabilityParameters} {members : List (NodeIdentity W)}
  {groupId selfKey : W} {store : Option (HaDurableStore W)} {io : Bool}

theorem openStore_image (hv : p.Valid)
    (h : openStore (.image p) groupId selfKey members parameters io = .ok rt') :
    rt' = ⟨some (.image p), p⟩ := by
  unfold openStore at h
  rw [HaDurableStore.load_image hv, bind_eq_ok] at h
  obtain ⟨_, ⟨⟩, h⟩ := h
  simp only [bind_eq_ok, pure_eq_ok] at h
  obtain ⟨slots, -, _, -, rfl⟩ := h
  rfl

theorem Durably.mono (h : Durably P rt) (hpq : ∀ s, P s → Q s) : Durably Q rt where
  memory := hpq _ h.memory
  stored := by
    intro store hst
    obtain ⟨p, hi, hp, hrec⟩ := h.stored store hst
    exact ⟨p, hi, hpq p hp, hrec⟩

theorem Durably.volatile (h : Durably P rt) (hp : P next) (hs : rt.state.SameRecords next) :
    Durably P (rt.withState next) where
  memory := hp
  stored := by
    intro store hst
    obtain ⟨p, hi, hpp, hrec⟩ := h.stored store hst
    exact ⟨p, hi, hpp, hrec.trans hs⟩

theorem persist_eq_ok : rt.persist io = .ok rt' ↔ rt.store = none ∧ rt' = rt ∨
    ∃ store store', rt.store = some store ∧ store.persist rt.state io = .ok store' ∧
      rt' = { rt with store := some store' } := by
  rw [persist]
  cases rt.store with
  | none => simp [eq_comm]
  | some store => simp [-bind_pure_comp, eq_comm (a := rt')]

theorem Durably.persisted (h : Durably P rt) (hp : P next) (he : rt.state.Extends next)
    (hper : (rt.withState next).persist io = .ok rt') :
    Durably P rt' ∧ rt'.state = next ∧ rt'.store = rt.store.map fun _ => .image next := by
  obtain ⟨hst, rfl⟩ | ⟨store, store', hst, hper, rfl⟩ := persist_eq_ok.mp hper
  · exact ⟨⟨hp, by simp [hst]⟩, rfl, by rw [show rt.store = _ from hst]; exact hst⟩
  · obtain ⟨p, rfl, -, hrec⟩ := h.stored store hst
    obtain rfl := HaDurableStore.persist_image (hrec.extends he) hper
    refine ⟨⟨hp, ?_⟩, rfl, by rw [show rt.store = _ from hst]; rfl⟩
    rintro store ⟨⟩
    exact ⟨next, rfl, hp, .refl next⟩

theorem persist_state (h : rt.persist io = .ok rt') : rt'.state = rt.state := by
  obtain ⟨-, rfl⟩ | ⟨_, _, -, -, rfl⟩ := persist_eq_ok.mp h <;> rfl

theorem create_store (hst : ∀ x ∈ store, x = .empty)
    (h : create store groupId selfKey members parameters io = .ok rt) :
    rt.store = store.map fun _ => .image rt.state := by
  simp only [create, bind_eq_ok] at h
  obtain ⟨state, -, h⟩ := h
  obtain ⟨rfl, rfl⟩ | ⟨_, store', rfl, hper, rfl⟩ := persist_eq_ok.mp h
  · rfl
  · obtain rfl := hst _ rfl
    obtain rfl := HaDurableStore.persist_fresh hper
    rfl

theorem create_durably (hst : ∀ x ∈ store, x = .empty)
    (h : create store groupId selfKey members parameters io = .ok rt) (hp : P rt.state) :
    Durably P rt := by
  refine ⟨hp, ?_⟩
  intro x hx
  rw [create_store hst h] at hx
  obtain ⟨-, -, rfl⟩ := Option.mem_map.mp hx
  exact ⟨rt.state, rfl, hp, .refl _⟩

end HighAvailabilityRuntime

namespace HighAvailabilityRuntimeState

variable {s next : HighAvailabilityRuntimeState W}

structure Good (s : HighAvailabilityRuntimeState W) : Prop where
  valid : s.Valid
  round : s.round.Wf

theorem Valid.extends_of_extensions (h : next.Valid) (he : s.epochs <+: next.epochs)
    (hc : s.membershipChanges <+: next.membershipChanges) (ha : s.amendments <+: next.amendments) :
    s.Extends next where
  epochs := .of_extension he fun x hx y hy hs =>
    h.consecutive.eq_of_eq (he.subset hx) hy (by simp [sameEpoch] at hs; exact hs.1)
  membershipChanges := .of_extension hc fun _ _ _ _ hs => of_decide_eq_true hs
  amendments := .of_extension ha fun _ _ _ _ hs => of_decide_eq_true hs

theorem Valid.extends_of_sublist (h : s.Valid) (he : next.epochs.Sublist s.epochs)
    (hc : next.membershipChanges.Sublist s.membershipChanges)
    (ha : next.amendments.Sublist s.amendments) : s.Extends next where
  epochs := .of_sublist he fun x hx y hy hs =>
    h.consecutive.eq_of_eq hx (he.subset hy) (by simp [sameEpoch] at hs; exact hs.1)
  membershipChanges := .of_sublist hc fun _ _ _ _ hs => of_decide_eq_true hs
  amendments := .of_sublist ha fun _ _ _ _ hs => of_decide_eq_true hs

omit [ProtocolCrypto W] in
theorem sameRecords_withRound {round : HaRoundState W} (h : round.roundId = s.round.roundId) :
    s.SameRecords { s with round := round } :=
  ⟨rfl, rfl, rfl, rfl, rfl, rfl, rfl, h.symm, rfl, rfl, rfl, rfl⟩

end HighAvailabilityRuntimeState

variable {members : HaMemberSlots W} {r round : HaRoundState W}

theorem HaRoundState.receiveDispatch_roundId {d : HaDispatch W} {outcome : HaDispatchOutcome}
    (h : r.receiveDispatch members d = .ok (outcome, round)) : round.roundId = r.roundId := by
  obtain ⟨slot, -, ⟨-, rfl, -⟩ | ⟨-, rfl, -⟩ | ⟨-, rfl, -⟩⟩ := receiveDispatch_cases h <;> rfl

theorem HaRoundState.receiveAcknowledgement_roundId {a : HaAcknowledge W}
    (h : r.receiveAcknowledgement members a = .ok round) : round.roundId = r.roundId := by
  obtain ⟨sender, -, rfl⟩ := receiveAcknowledgement_eq_ok.mp h
  rfl

theorem HaRoundState.receiveConfirmation_roundId {c : HaConfirm W} {f : Option (HaFinalizedRound W)}
    (h : r.receiveConfirmation members c = .ok (f, round)) : round.roundId = r.roundId :=
  congrArg (·.roundId) (HighAvailabilityRuntime.receiveConfirmation_frame h)

theorem HaRoundState.confirm_roundId {sender : ℕ} {c : HaConfirm W}
    (h : r.confirm members sender = .ok (c, round)) : round.roundId = r.roundId :=
  congrArg (·.roundId) (HighAvailabilityRuntime.confirm_frame h)

namespace HighAvailabilityRuntime

open HighAvailabilityRuntimeState

/-- The local state with the history of a snapshot whose head is `head`. -/
def replacedBy (s : HighAvailabilityRuntimeState W) (snapshot : HaRecoverySnapshot W)
    (head : HaEpoch W) : HighAvailabilityRuntimeState W :=
  { s with
    members := { s.members with activeMask := snapshot.members.activeMask }
    membershipGeneration := snapshot.membershipGeneration
    checkpoint := snapshot.checkpoint
    epochs := snapshot.epochs
    round := .emptyRound { s.nextRoundId head with
      membershipGeneration := snapshot.membershipGeneration
      activeMask := snapshot.members.activeMask }
    presence := snapshot.presence
    membershipVoteLock := none
    membershipVotes := fun _ => none
    membershipChanges := snapshot.membershipChanges
    amendments := snapshot.amendments }

/-- What an accepted recovery snapshot has been checked for, and the state it leads to. -/
theorem snapshotState_spec {snapshot : HaRecoverySnapshot W}
    (h : snapshotState s snapshot = .ok next) :
    ∃ localHead head, s.epochs.getLast? = some localHead ∧
      snapshot.epochs.getLast? = some head ∧ localHead.nonce ≤ head.nonce ∧
      (checkpointCoversLocal snapshot localHead = true ∨
        suffixContainsLocal snapshot localHead = true) ∧
      next = replacedBy s snapshot head ∧ next.Valid := by
  simp only [snapshotState, HighAvailabilityRuntimeState.head, bind_eq_ok, require_eq_ok,
    reject_eq_ok, pure_eq_ok, not_or, not_and, not_lt, Bool.not_eq_false] at h
  obtain ⟨_, -, _, -, _, -, localHead, hl, head, hh, _, ⟨hle, hcover⟩, _, -, _, -, round, hr, _, hv,
    rfl⟩ := h
  obtain ⟨-, -, rfl⟩ := new_eq_ok.mp hr
  refine ⟨localHead, head, hl, hh, hle, ?_, rfl, validate_eq_ok.mp hv⟩
  exact or_iff_not_imp_left.mpr fun hcov => hcover (Bool.eq_false_iff.mpr hcov)

end HighAvailabilityRuntime

open HighAvailabilityRuntimeState HighAvailabilityRuntime in
/-- Every transition leads to a good state, which is kept in memory only if its records
are the old ones, and persisted otherwise. -/
theorem Transition.effect [AmendmentCodec W] (h : Transition rt l rt') (hg : rt.state.Good) :
    ∃ next, next.Good ∧
      ((l.persists = false ∧ rt' = rt.withState next ∧ rt.state.SameRecords next) ∨
        l.persists = true ∧ ∃ io, (rt.withState next).persist io = .ok rt' ∧
          ((∀ x ∈ l.snapshot, rt.state.AgreesWith x) → rt.state.Extends next)) := by
  have hm := hg.valid.members
  have same {round : HaRoundState W} (hv : ({ rt.state with round := round }).Valid) :
      rt.state.Extends { rt.state with round := round } :=
    hv.extends_of_extensions List.prefix_rfl List.prefix_rfl List.prefix_rfl
  cases h with
  | built hs ha hr | dispatched ha hr =>
    have hid := receiveDispatch_roundId hr
    exact ⟨_, ⟨hg.valid.withRound hid, receiveDispatch_wf hg.round hm hr⟩,
      .inl ⟨rfl, rfl, sameRecords_withRound hid⟩⟩
  | acknowledged hr hp =>
    obtain ⟨-, -, hr⟩ := acknowledge_eq_ok.mp hr
    have hv := hg.valid.withRound (receiveAcknowledgement_roundId hr)
    exact ⟨_, ⟨hv, receiveAcknowledgement_wf hg.round hr⟩,
      .inr ⟨rfl, _, hp, fun _ => same hv⟩⟩
  | recordedAck hr =>
    have hid := receiveAcknowledgement_roundId hr
    exact ⟨_, ⟨hg.valid.withRound hid, receiveAcknowledgement_wf hg.round hr⟩,
      .inl ⟨rfl, rfl, sameRecords_withRound hid⟩⟩
  | locked hr hp =>
    have hv := hg.valid.withRound (confirm_roundId hr)
    exact ⟨_, ⟨hv, confirm_wf hg.round hm hr⟩, .inr ⟨rfl, _, hp, fun _ => same hv⟩⟩
  | recordedConfirm hr =>
    have hid := receiveConfirmation_roundId hr
    exact ⟨_, ⟨hg.valid.withRound hid, receiveConfirmation_wf hg.round hm hr⟩,
      .inl ⟨rfl, rfl, sameRecords_withRound hid⟩⟩
  | committed hf hc hp =>
    have hv := commit_valid hg.valid hg.round hf hc
    obtain ⟨amendments, round, -, hround, -, rfl⟩ := commitState_eq_ok hc
    obtain ⟨-, -, rfl⟩ := new_eq_ok.mp hround
    obtain ⟨more, hmore, -⟩ := pushAmendments_eq rt.state.amendments amendments
    exact ⟨_, ⟨hv, emptyRound_wf rfl⟩, .inr ⟨rfl, _, hp, fun _ => hv.extends_of_extensions
      (List.prefix_append _ _) List.prefix_rfl ⟨more, hmore.symm⟩⟩⟩
  | voted hv hs hl hp =>
    rename_i v sender io
    have hvalid := withOwnVote_valid v.proposal.digest hg.valid
      (hs.symm.trans hv.sender_eq)
    exact ⟨_, ⟨hvalid, hg.round⟩, .inr ⟨rfl, _, hp, fun _ => hvalid.extends_of_extensions List.prefix_rfl
      List.prefix_rfl List.prefix_rfl⟩⟩
  | votedCertificate hv hs hl hpr hc hp =>
    have hvalid := certificate_valid
      (withOwnVote_valid _ hg.valid (hs.symm.trans hv.sender_eq)) hc
    obtain ⟨mask, presence, head, -, -, -, -, rfl⟩ := hc.spec
    exact ⟨_, ⟨hvalid, emptyRound_wf rfl⟩, .inr ⟨rfl, _, hp, fun _ =>
      hvalid.extends_of_extensions List.prefix_rfl (List.prefix_append _ _) List.prefix_rfl⟩⟩
  | recordedVote hv ha hn =>
    rename_i v sender
    have hmask := (validateMembershipProposal_fits hv.proposal).activeMask
    have hvalid := withPeerVote_valid v.proposal.digest hg.valid (hmask ▸ ha) hn
    exact ⟨_, ⟨hvalid, hg.round⟩, .inl ⟨rfl, rfl,
      ⟨rfl, rfl, rfl, rfl, rfl, rfl, rfl, rfl, rfl, rfl, rfl, rfl⟩⟩⟩
  | recordedCertificate hv ha hn hpr hc hp =>
    have hmask := (validateMembershipProposal_fits hv.proposal).activeMask
    have hvalid := certificate_valid (withPeerVote_valid _ hg.valid (hmask ▸ ha) hn) hc
    obtain ⟨mask, presence, head, -, -, -, -, rfl⟩ := hc.spec
    exact ⟨_, ⟨hvalid, emptyRound_wf rfl⟩, .inr ⟨rfl, _, hp, fun _ =>
      hvalid.extends_of_extensions List.prefix_rfl (List.prefix_append _ _) List.prefix_rfl⟩⟩
  | amended hv hp =>
    have hvalid := amended_valid hg.valid hv
    exact ⟨_, ⟨hvalid, hg.round⟩, .inr ⟨rfl, _, hp, fun _ => hvalid.extends_of_extensions List.prefix_rfl
      List.prefix_rfl (List.prefix_append _ _)⟩⟩
  | compacted hi h0 he hc hv hp =>
    exact ⟨_, ⟨validate_eq_ok.mp hv, hg.round⟩, .inr ⟨rfl, _, hp, fun _ => hg.valid.extends_of_sublist
      (List.drop_sublist _ _) List.filter_sublist List.filter_sublist⟩⟩
  | installed hs hp =>
    obtain ⟨localHead, head, -, -, -, -, rfl, hv⟩ := snapshotState_spec hs
    refine ⟨_, ⟨hv, emptyRound_wf rfl⟩, .inr ⟨rfl, _, hp, fun hx => ?_⟩⟩
    exact { hx _ rfl with }

namespace HighAvailabilityRuntime

open HighAvailabilityRuntimeState

variable {rt rt' : HighAvailabilityRuntime W} {parameters : HighAvailabilityParameters}
  {members : List (NodeIdentity W)} {groupId selfKey : W}

theorem create_state {store : Option (HaDurableStore W)} {io : Bool}
    (h : create store groupId selfKey members parameters io = .ok rt) :
    genesisState groupId selfKey members parameters = .ok rt.state := by
  simp only [create, bind_eq_ok] at h
  obtain ⟨state, hs, h⟩ := h
  rw [persist_state h]
  exact hs

theorem genesisState_spec (h : genesisState groupId selfKey members parameters = .ok s) :
    ∃ slots roundId, HaMemberSlots.new members = .ok slots ∧ s.members = slots ∧
      s.epochs = [.genesis groupId slots parameters] ∧ s.round = .emptyRound roundId ∧
      roundId.nonce = 1 ∧ s.membershipGeneration = 0 ∧ s.membershipChanges = [] ∧
      (s.membershipVotes = fun _ => none) ∧ s.Good := by
  simp only [genesisState, bind_eq_ok, pure_eq_ok] at h
  obtain ⟨_, -, slots, hslots, self, -, round, hr, _, hv, rfl⟩ := h
  obtain ⟨-, -, rfl⟩ := new_eq_ok.mp hr
  exact ⟨slots, _, hslots, rfl, rfl, rfl, rfl, rfl, rfl, rfl, validate_eq_ok.mp hv,
    emptyRound_wf rfl⟩

theorem Durably.step [AmendmentCodec W] (h : Durably Good rt) (ht : Transition rt l rt')
    (hl : ∀ x ∈ l.snapshot, rt.state.AgreesWith x) :
    Durably Good rt' ∧
      ((l.persists = false ∧ rt'.store = rt.store ∧ rt.state.SameRecords rt'.state) ∨
        (l.persists = true ∧ rt'.store = rt.store.map fun _ => .image rt'.state)) := by
  obtain ⟨next, hg, ⟨hpers, rfl, hsame⟩ | ⟨hpers, io, hp, hext⟩⟩ := ht.effect h.memory
  · exact ⟨h.volatile hg hsame, .inl ⟨hpers, rfl, hsame⟩⟩
  · obtain ⟨hd, rfl, hst⟩ := h.persisted hg (hext hl) hp
    exact ⟨hd, .inr ⟨hpers, hst⟩⟩

/-- What is carried along with goodness: a transition must lead to it in memory, and one that
leaves the store alone must keep what the stored state has. -/
theorem Durably.advance [AmendmentCodec W] (h : Durably (fun s => s.Good ∧ Q s) rt)
    (ht : Transition rt l rt') (hl : ∀ x ∈ l.snapshot, rt.state.AgreesWith x)
    (hnext : Q' rt'.state) (hkeep : l.persists = false → ∀ p, Q p → Q' p) :
    Durably (fun s => s.Good ∧ Q' s) rt' := by
  have hgood : Durably Good rt := h.mono fun _ hs => hs.1
  obtain ⟨hd, hst⟩ := hgood.step ht hl
  refine ⟨⟨hd.memory, hnext⟩, ?_⟩
  intro store hstore
  rcases hst with ⟨hpers, heq, hsame⟩ | ⟨-, heq⟩
  · rw [heq] at hstore
    obtain ⟨p, rfl, hp, hrec⟩ := h.stored store hstore
    exact ⟨p, rfl, ⟨hp.1, hkeep hpers p hp.2⟩, hrec.trans hsame⟩
  · rw [heq] at hstore
    obtain ⟨-, -, rfl⟩ := Option.mem_map.mp hstore
    exact ⟨_, rfl, ⟨hd.memory, hnext⟩, .refl _⟩

/-- After commits of finalized rounds the store is as it was or holds the state in memory. -/
theorem Durably.commits [AmendmentCodec W] {ls : List (Label W)} (h : Durably Good rt)
    (hs : Steps rt ls rt') (hl : ∀ l ∈ ls, ∃ e, l = .committed e) :
    Durably Good rt' ∧ (rt' = rt ∨ rt'.store = rt.store.map fun _ => .image rt'.state) := by
  induction hs with
  | refl rt => exact ⟨h, .inl rfl⟩
  | cons ht hs ih =>
    obtain ⟨⟨e, rfl⟩, hrest⟩ := List.forall_mem_cons.mp hl
    obtain ⟨hd, ⟨hpers, -⟩ | ⟨-, hst⟩⟩ := h.step ht (by simp [Label.snapshot])
    · cases hpers
    · obtain ⟨hd', heq | hst'⟩ := ih hd hrest
      · exact ⟨hd', .inr (heq ▸ hst)⟩
      · exact ⟨hd', .inr (by rw [hst', hst, Option.map_map]; rfl)⟩

end HighAvailabilityRuntime

namespace Operation

open HighAvailabilityRuntime HighAvailabilityRuntimeState

variable [AmendmentCodec W]

def run (ops : List (Operation W)) (rt : HighAvailabilityRuntime W) : HighAvailabilityRuntime W :=
  ops.foldl (fun rt op => (op.apply rt).2) rt

/-- A call keeps both copies good. Either it leaves the store alone and changes no record,
in which case no durable call has succeeded, or the store holds the new state. -/
theorem apply_settles {op : Operation W} (hop : ∀ x ∈ op.snapshot, rt.state.AgreesWith x)
    (h : Durably Good rt) :
    Durably Good (op.apply rt).2 ∧
      (((op.apply rt).2.store = rt.store ∧ rt.state.SameRecords (op.apply rt).2.state ∧
          (op.durable = true → ∀ a, (op.apply rt).1 ≠ .ok a)) ∨
        (op.apply rt).2.store = rt.store.map fun _ => .image (op.apply rt).2.state) := by
  obtain ⟨ls, hs, hall, htail, hdur, -⟩ := op.apply_explains rt
  generalize op.apply rt = out at hs hdur
  obtain ⟨result, rt'⟩ := out
  cases hs with
  | refl =>
    exact ⟨h, .inl ⟨rfl, .refl _, fun hd a ha => hdur a ha hd rfl⟩⟩
  | cons ht hs =>
    obtain ⟨⟨-, hsnap, hpers⟩, -⟩ := List.forall_mem_cons.mp hall
    obtain ⟨hd, hstep⟩ := h.step ht fun x hx => hop x (hsnap x hx)
    obtain ⟨hd', rfl | hst⟩ := hd.commits hs htail
    · refine ⟨hd', ?_⟩
      rcases hstep with ⟨hf, hst, hsame⟩ | ⟨-, hst⟩
      · exact .inl ⟨hst, hsame, fun hd => by simp [hpers hd] at hf⟩
      · exact .inr hst
    · refine ⟨hd', .inr ?_⟩
      rcases hstep with ⟨-, hst', -⟩ | ⟨-, hst'⟩
      · exact hst' ▸ hst
      · rw [hst, hst', Option.map_map]
        rfl

theorem run_durably {ops : List (Operation W)} (hops : ∀ op ∈ ops, op.snapshot = none)
    (h : Durably Good rt) : Durably Good (run ops rt) := by
  unfold run
  induction ops generalizing rt with
  | nil => exact h
  | cons op ops ih =>
    exact ih (fun o ho => hops o (List.mem_cons_of_mem op ho))
      (apply_settles (by simp [hops op List.mem_cons_self]) h).1

/-- The state of a member passes full validation after every call of every run without
recovery snapshots, and so does the state its store reopens with. -/
theorem run_validates {store : Option (HaDurableStore W)} {groupId selfKey : W}
    {members : List (NodeIdentity W)} {parameters : HighAvailabilityParameters} {io : Bool}
    {rt : HighAvailabilityRuntime W} {ops : List (Operation W)} (hstore : ∀ x ∈ store, x = .empty)
    (hcreate : create store groupId selfKey members parameters io = .ok rt)
    (hops : ∀ op ∈ ops, op.snapshot = none) :
    (run ops rt).state.validate = .ok () ∧
      ∀ x ∈ (run ops rt).store, ∃ s, x.load = .ok (some s, x) ∧ s.validate = .ok () := by
  obtain ⟨-, -, -, -, -, -, -, -, -, -, hgood⟩ := genesisState_spec (create_state hcreate)
  have hdur := run_durably hops (create_durably hstore hcreate hgood)
  refine ⟨validate_eq_ok.mpr hdur.memory.valid, ?_⟩
  intro x hx
  obtain ⟨p, rfl, hp, -⟩ := hdur.stored x hx
  exact ⟨p, HaDurableStore.load_image hp.valid, validate_eq_ok.mpr hp.valid⟩

theorem run_validates_pair : ∃ rt,
    create (some .empty) (FreeWord.key 0) (.key 1) (numberedMembers FreeWord.key 2) (.new 6 6) true = .ok rt ∧
      (run [.buildDispatch [] 0, .acknowledge false, .acknowledge true, .confirm true true]
        rt).state.validate = .ok () := by
  obtain ⟨rt, hrt⟩ := exists_of_isOk (x := create (some .empty) (FreeWord.key 0) (.key 1)
    (numberedMembers FreeWord.key 2) (.new 6 6) true) (by decide +kernel)
  refine ⟨rt, hrt, (run_validates ?_ hrt ?_).1⟩
  · simp
  · simp [Operation.snapshot]

end Operation

end Blossom
