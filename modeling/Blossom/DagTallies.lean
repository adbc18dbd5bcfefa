import Blossom.CheckpointNetwork

/-!
# The tallies of a checkpoint round

The counts of a round are kept up to date on four paths. Two of them enter the confirmation of the
local member without a look at what is recorded for it.
-/

namespace Blossom

open CheckedSteps OrderedMap StatefulSteps VoteTally MajorityQuorum

namespace TrustedCheckpointDag

variable {W : Type} [ProtocolCrypto W]

/-- Both counts are numbers of distinct members of the round. The local member is among them, and
its confirmation is recorded with the lock. -/
structure Tallied (c : TrustedDagConfig W) (state : TrustedDagRoundState W) : Prop where
  acknowledged : state.acknowledgements.Counted fun vote => some vote.digest
  confirmed : state.confirmations.Counted some
  acknowledger : ∀ member vote, state.acknowledgements.votes[member]? = some vote →
    member ∈ state.expectedMembers
  confirmer : ∀ member digest, state.confirmations.votes[member]? = some digest →
    member ∈ state.expectedMembers
  localMember : c.localMember ∈ state.expectedMembers
  locked : state.confirmations.votes[c.localMember]? = none ↔ state.lock = none

variable {c : TrustedDagConfig W} {d d' d₀ : TrustedCheckpointDag W} {round : ℕ}
  {state : TrustedDagRoundState W} {sender digest : W} {candidate : TrustedDagCandidate W}

theorem Tallied.new {expected : BTreeSet W} (h : c.localMember ∈ expected) :
    Tallied c (.new expected) := by
  constructor <;> simp [TrustedDagRoundState.new, Tally.empty, Tally.Counted, Tally.supporters, h]

theorem Tallied.acknowledge (h : Tallied c state) (hexp : sender ∈ state.expectedMembers) :
    Tallied c (state.acknowledge sender candidate) :=
  { h with
    acknowledged := h.acknowledged.record
    acknowledger := fun member vote hvote => by
      obtain ⟨rfl, -⟩ | ⟨-, hvote⟩ := lookup_insert_eq_some.mp hvote
      · exact hexp
      · exact h.acknowledger member vote hvote }

/-- A confirmation is counted once if none is recorded for its member. -/
theorem Tallied.confirm (h : Tallied c state) (hexp : sender ∈ state.expectedMembers)
    (hnew : state.confirmations.votes[sender]? = none) {lock : Option (TrustedDagRoundLock W)}
    (hlock : (state.confirm sender digest).confirmations.votes[c.localMember]? = none ↔
      lock = none) : Tallied c { state.confirm sender digest with lock := lock } :=
  { h with
    confirmed := fun other => by
      refine (count_confirm state sender digest other).trans ?_
      rw [h.confirmed other]
      exact (card_supporters_confirm (by simp [hnew])).symm
    confirmer := fun member vote hvote => by
      obtain ⟨rfl, -⟩ | ⟨-, hvote⟩ := lookup_insert_eq_some.mp hvote
      · exact hexp
      · exact h.confirmer member vote hvote
    locked := hlock }

structure TalliesSound (c : TrustedDagConfig W) (d : TrustedCheckpointDag W) : Prop where
  stored : Stored d
  rounds : ∀ (round : ℕ) (state : TrustedDagRoundState W), d.roundStates[round]? = some state →
    Tallied c state

theorem TalliesSound.setRound (h : TalliesSound c d) (hstate : Tallied c state) :
    TalliesSound c (d.setRound round state) := by
  refine ⟨⟨h.stored.vertices, h.stored.pending⟩, fun other next hnext => ?_⟩
  obtain ⟨rfl, rfl⟩ | ⟨-, hold⟩ := lookup_insert_eq_some.mp hnext
  · exact hstate
  · exact h.rounds other next hold

theorem TalliesSound.setLock (h : TalliesSound c d) (hstate : d.roundStates[round]? = some state)
    (hlock : state.lock = none) (lock : TrustedDagRoundLock W) :
    TalliesSound c (d.setRound round (state.setLock c.localMember lock)) := by
  have htallied := h.rounds round state hstate
  refine h.setRound (htallied.confirm htallied.localMember (htallied.locked.mpr hlock) ?_)
  simp [TrustedDagRoundState.confirm]

/-! ### Calls -/

section Calls

variable [ShuffleSeed W]

/-- One call. The local member's own confirmation comes in only after its lock. -/
inductive DagCall (c : TrustedDagConfig W) (d : TrustedCheckpointDag W) :
    TrustedCheckpointDag W → Prop
  | ingestVertex (vertex : TrustedDagVertex W) : DagCall c d (after (ingestVertex c vertex) d)
  | recordAcknowledgement (round : ℕ) (sender : W) (candidate : TrustedDagCandidate W) :
      DagCall c d (after (recordAcknowledgement c round sender candidate) d)
  | tryLockRound (round : ℕ) : DagCall c d (after (tryLockRound c round) d)
  | restoreRoundLock (lock : TrustedDagRoundLock W) :
      DagCall c d (after (restoreRoundLock c lock) d)
  | recordConfirmation (round : ℕ) (sender digest : W)
      (h : sender = c.localMember → ∃ state ∈ d.roundStates[round]?, state.lock ≠ none) :
      DagCall c d (after (recordConfirmation c round sender digest) d)
  | tryCompleteRound (round : ℕ) : DagCall c d (after (tryCompleteRound c round) d)

/-- The steps of a round other than its lock and the local member's confirmation. -/
abbrev PeerChange (c : TrustedDagConfig W) := RoundChange c fun _ sender _ => sender ≠ c.localMember

theorem TalliesSound.peerChanges (hlocal : c.localMember ∈ c.members) (h : TalliesSound c d)
    (hsteps : Relation.ReflTransGen (PeerChange c) d d') : TalliesSound c d' := by
  induction hsteps with
  | refl => exact h
  | tail _ hlast ih =>
    cases hlast with
    | opened _ hexp =>
      exact ih.setRound (.new (selectQuorums_eq_of_mem
        (TrustedDagConfig.mem_nodeMap.mpr hlocal) (require_eq_ok.mp hexp)).1)
    | acknowledged hstate hexp _ =>
      exact ih.setRound ((ih.rounds _ _ hstate).acknowledge (Std.ExtTreeSet.contains_iff_mem.mp hexp))
    | confirmed hstate hexp hnew hne =>
      have htallied := ih.rounds _ _ hstate
      refine ih.setRound (htallied.confirm (Std.ExtTreeSet.contains_iff_mem.mp hexp) hnew ?_)
      rw [← htallied.locked]
      exact iff_of_eq (congrArg (· = none) ((lookup_insert _ _ _ _).trans (if_neg hne)))
    | closed hstate => exact ih.setRound { ih.rounds _ _ hstate with }
    | finalized => exact ⟨⟨ih.stored.vertices, ih.stored.pending⟩, fun _ _ h => by simp at h⟩

/-- A computation keeps the tallies if it does so after its first part. -/
theorem talliesSound_bind {α β : Type} {m : Action (TrustedCheckpointDag W) Failure α}
    {f : α → Action (TrustedCheckpointDag W) Failure β} {Q : α → TrustedCheckpointDag W → Prop}
    (hlocal : c.localMember ∈ c.members) (h : TalliesSound c d) (hm : Run (PeerChange c) d m Q)
    (hf : ∀ a d', TalliesSound c d' → Q a d' → TalliesSound c (after (f a) d')) :
    TalliesSound c (after (m >>= f) d) := by
  cases hd : m d with
  | error e d' =>
    rw [after_of_error (bind_of_error hd f)]
    exact h.peerChanges hlocal (hm.of_error hd)
  | ok a d' =>
    obtain ⟨hsteps, hQ⟩ := hm.of_ok hd
    rw [after, bind_of_ok hd]
    exact hf a d' (h.peerChanges hlocal hsteps) hQ

theorem TalliesSound.restoreRoundLock (hlocal : c.localMember ∈ c.members) (h : TalliesSound c d)
    (lock : TrustedDagRoundLock W) : TalliesSound c (after (restoreRoundLock c lock) d) := by
  have hread {f : TrustedCheckpointDag W → Result Unit} (d : TrustedCheckpointDag W) :
      Run (PeerChange c) d (reading f) fun _ _ => True := .reading fun _ _ => trivial
  refine talliesSound_bind hlocal h (hread d) fun _ d h _ => talliesSound_bind hlocal h (hread d)
    fun _ d h _ => talliesSound_bind hlocal h (hread d) fun _ d h _ =>
    talliesSound_bind hlocal h closePrevious_run fun _ d h _ =>
    talliesSound_bind hlocal h ensureRoundState_run fun _ d h _ => ?_
  refine talliesSound_bind (m := check (d.roundState lock.round)) hlocal h
    (.check (Q := fun state d' => d' = d ∧ d.roundState lock.round = .ok state)
      fun _ hstate => ⟨rfl, hstate⟩) ?_
  rintro ⟨expected, acks, held, confirmations, completed⟩ _ h ⟨rfl, hstate⟩
  cases held with
  | some existing =>
    exact (after_get_check fun _ => reject (existing ≠ lock) _).symm ▸ h
  | none => exact h.setLock (roundState_eq_ok.mp hstate) rfl lock

theorem TalliesSound.tryLockRound (hlocal : c.localMember ∈ c.members) (h : TalliesSound c d)
    (round : ℕ) : TalliesSound c (after (tryLockRound c round) d) := by
  obtain ⟨opened, hsteps, hcases⟩ :=
    tryLockRound_cases c (fun _ sender _ => sender ≠ c.localMember) d round
  have hopened := h.peerChanges hlocal hsteps
  obtain ⟨e, hcall⟩ | ⟨state, hstate, hcall | ⟨hlock, sender, candidate, -, hcall⟩⟩ := hcases
  · rwa [after_of_error hcall]
  · rwa [after_of_ok hcall]
  · rw [after_of_ok hcall]
    exact hopened.setLock hstate hlock _

theorem ensureRoundState_eq {u : Unit} (h : ensureRoundState c round d = .ok u d') :
    d' = d ∨ ∃ expected, d' = d.setRound round (.new expected) := by
  rw [ensureRoundState, bind_get] at h
  split at h
  · cases h
    exact .inl rfl
  · simp only [bind_returns, check_returns] at h
    obtain ⟨_, _, ⟨-, rfl⟩, expected, _, ⟨-, rfl⟩, hset⟩ := h
    cases hset
    exact .inr ⟨expected, rfl⟩

/-- A confirmation that is recorded already changes nothing. -/
theorem recordConfirmation_again {previous : W}
    (hstate : d.roundStates[round]? = some state)
    (hvote : state.confirmations.votes[sender]? = some previous) :
    after (recordConfirmation c round sender digest) d = d := by
  have hopen : ensureRoundState c round d = .ok () d := by
    rw [ensureRoundState, bind_get, if_pos (contains_iff.mpr ⟨state, hstate⟩)]
    rfl
  refine Run.after_eq (Q := fun _ _ => True) ?_
  rw [Run, recordConfirmation, bind_of_ok hopen, bind_get, roundState, bind_require hstate]
  refine Run.bind_check fun _ _ => ?_
  rw [hvote]
  exact Run.bind_check fun _ _ => Run.pure trivial

theorem TalliesSound.call (hlocal : c.localMember ∈ c.members) (h : TalliesSound c d)
    (hcall : DagCall c d d') : TalliesSound c d' := by
  cases hcall with
  | ingestVertex vertex =>
    obtain ⟨-, -, hrounds, hstored⟩ := vertexChange_of_run (ingestVertex_run (c := c) h.stored vertex)
    exact ⟨hstored h.stored, hrounds ▸ h.rounds⟩
  | recordAcknowledgement => exact h.peerChanges hlocal recordAcknowledgement_run.after
  | tryLockRound round => exact h.tryLockRound hlocal round
  | restoreRoundLock lock => exact h.restoreRoundLock hlocal lock
  | recordConfirmation round sender digest hown =>
    by_cases hne : sender = c.localMember
    · obtain ⟨state, hstate, hlock⟩ := hown hne
      obtain ⟨previous, hvote⟩ := Option.ne_none_iff_exists'.mp
        (mt (h.rounds round state hstate).locked.mp hlock)
      rwa [recordConfirmation_again hstate (hne ▸ hvote)]
    · exact h.peerChanges hlocal (recordConfirmation_run hne).after
  | tryCompleteRound => exact h.peerChanges hlocal tryCompleteRound_run.after

/-- A round that is complete has its lock and a full count for it. -/
theorem tryCompleteRound_counts {completion : TrustedDagRoundCompletion W}
    (h : tryCompleteRound c round d = .ok completion d') (hdone : completion ≠ .pending) :
    ∃ state lock, d.roundStates[round]? = some state ∧ state.lock = some lock ∧
      state.threshold ≤ (state.confirmations.count[lock.candidate.digest]?).getD 0 := by
  obtain ⟨_, opened, hopen, h⟩ := bind_returns.mp h
  rw [bind_get] at h
  obtain ⟨state, _, hstate, h⟩ := bind_returns.mp h
  obtain ⟨hstate, rfl⟩ := check_returns.mp hstate
  rw [roundState_eq_ok] at hstate
  cases hlock : state.lock with
  | none =>
    rw [hlock] at h
    cases h
    exact absurd rfl hdone
  | some lock =>
    simp only [hlock] at h
    split at h
    · cases h
      exact absurd rfl hdone
    next hcount =>
      obtain rfl | ⟨expected, rfl⟩ := ensureRoundState_eq hopen
      · exact ⟨state, lock, hstate, hlock, not_lt.mp hcount⟩
      · rw [lookup_setRound, if_pos rfl] at hstate
        cases hstate
        cases hlock

/-! ### Runs -/

variable {localMember groupId : W} {members : List W} {membershipGeneration : ℕ}
  {quorumSize : QuorumSize} {shuffle : Bool}

/-- As long as the local member's own confirmation comes in only after its lock, all counts are
numbers of distinct members, and a supermajority of the members has confirmed a round that is
complete. -/
theorem tallies_count_members
    (hnew : TrustedCheckpointDag.new localMember members groupId membershipGeneration quorumSize
      shuffle = .ok (c, d₀)) (h : Relation.ReflTransGen (DagCall c) d₀ d) (round : ℕ) :
    (∀ state ∈ d.roundStates[round]?, Tallied c state) ∧
      ∀ completion d', tryCompleteRound c round d = .ok completion d' → completion ≠ .pending →
        ∃ state ∈ d.roundStates[round]?, ∃ lock ∈ state.lock, ∃ voters : Finset W,
          (∀ voter ∈ voters, voter ∈ state.expectedMembers ∧
            state.confirmations.votes[voter]? = some lock.candidate.digest) ∧
          supermajorityCount state.expectedMembers.size ≤ voters.card := by
  have hlocal : c.localMember ∈ c.members := by
    simp only [TrustedCheckpointDag.new, ↓guard_bind_eq_ok, bind_eq_ok, reject_eq_ok, pure_eq_ok,
      Prod.mk.injEq, Bool.not_eq_false] at hnew
    obtain ⟨_, hmem, -, _, -, rfl, -⟩ := hnew
    exact Std.ExtTreeSet.contains_iff_mem.mp hmem
  have hsound : TalliesSound c d := by
    induction h with
    | refl =>
      obtain ⟨-, -, rfl⟩ := DagNetwork.new_spec hnew
      refine ⟨⟨fun _ _ h => ?_, fun _ _ h => ?_⟩, fun _ _ h => ?_⟩ <;> simp at h
    | tail _ hcall ih => exact ih.call hlocal hcall
  refine ⟨hsound.rounds round, fun completion d' hok hdone => ?_⟩
  obtain ⟨state, lock, hstate, hlock, hcount⟩ := tryCompleteRound_counts hok hdone
  have htallied := hsound.rounds round state hstate
  refine ⟨state, hstate, lock, hlock, supporters state lock.candidate.digest, fun voter hvoter => ?_,
    hcount.trans_eq (htallied.confirmed _)⟩
  exact ⟨htallied.confirmer voter _ (mem_supporters.mp hvoter), mem_supporters.mp hvoter⟩

end Calls

end TrustedCheckpointDag

namespace DagRun

open NumberWord TrustedCheckpointDag

def six : QuorumSize := .default

/-- A round of six members in which some have acknowledged a candidate. -/
def acknowledgedBy (ms : List ℕ) : TrustedCheckpointDag NumberWord :=
  let d := first 6 six
  ms.foldl (fun d' n => after (recordAcknowledgement (config 6 six) 0 (key n)
    (candidate d 0)) d') (after (ingestVertex (config 6 six) (vertex d 0)) d)

/-- The local member's confirmation comes in, then it locks the round, and two others confirm. -/
def confirmedEarly : Action (TrustedCheckpointDag NumberWord) Failure Unit := do
  let c := config 6 six
  let digest := (candidate (first 6 six) 0).digest
  let _ ← recordConfirmation c 0 (key 0) digest
  let _ ← tryLockRound c 0
  let _ ← recordConfirmation c 0 (key 1) digest
  let _ ← recordConfirmation c 0 (key 2) digest

end DagRun

namespace TrustedCheckpointDag

open DagRun in
/-- The confirmation of the local member is counted twice, and three of six members complete a
round that needs four. -/
theorem own_confirmation_counted_twice :
    TrustedCheckpointDag.new (.key 0) ((List.range 6).map NumberWord.key) default 7
        six false = .ok (config 6 six, first 6 six) ∧
      ((after confirmedEarly (acknowledgedBy [0, 1, 2, 3])).roundStates[0]?.bind fun state =>
        state.lock.map fun lock => (state.confirmations.count[lock.candidate.digest]?,
          (supporters state lock.candidate.digest).card, state.threshold)) = some (some 4, 3, 4) ∧
      (returned (tryCompleteRound (config 6 six) 0)
        (after confirmedEarly (acknowledgedBy [0, 1, 2, 3]))).map
          (fun completion => decide (completion = .pending)) = some false := by
  refine ⟨new_first _ _ (by decide +kernel) (by decide +kernel) (by decide +kernel), ?_, ?_⟩
  · decide +kernel
  · decide +kernel

open DagRun in
theorem tallies_count_members_four :
    ∃ d, Relation.ReflTransGen (DagCall (config 6 six)) (first 6 six) d ∧
      ((d.roundStates[0]?).bind (·.lock)).isSome ∧
      ∀ state ∈ d.roundStates[0]?, Tallied (config 6 six) state := by
  have hcalls : Relation.ReflTransGen (DagCall (config 6 six)) (first 6 six)
      (after (tryLockRound (config 6 six) 0) (acknowledgedBy [0, 1, 2, 3])) :=
    .tail (.tail (.tail (.tail (.tail (.tail .refl (.ingestVertex _))
      (.recordAcknowledgement 0 _ _)) (.recordAcknowledgement 0 _ _))
      (.recordAcknowledgement 0 _ _)) (.recordAcknowledgement 0 _ _)) (.tryLockRound 0)
  refine ⟨_, hcalls, by decide +kernel, ?_⟩
  exact (tallies_count_members
    (new_first _ _ (by decide +kernel) (by decide +kernel) (by decide +kernel)) hcalls 0).1

end TrustedCheckpointDag

end Blossom
