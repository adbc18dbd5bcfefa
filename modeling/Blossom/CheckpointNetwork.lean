import Blossom.CheckpointRounds
import Blossom.ConsecutiveList

/-!
# A network of checkpoint DAGs

The members of a network acknowledge candidates, make their locks durable before they confirm them,
and restore the locks after a crash. Messages may be delivered late, in any order and more than
once.
-/

namespace Blossom

open CheckedSteps ConsecutiveList OrderedMap StatefulSteps VoteTally MajorityQuorum

variable {W : Type}
variable {a b checkpoint next next' previous : TrustedDagCheckpoint W}
  {member other sender voter : W} {chain chain' : List (TrustedDagCheckpoint W)}

structure DagAcknowledgement (W : Type) where
  round : ℕ
  sender : W
  candidate : TrustedDagCandidate W
  deriving DecidableEq

structure DagConfirmation (W : Type) where
  round : ℕ
  sender : W
  candidateDigest : W
  deriving DecidableEq

/-- The members, their durable locks in the order in which they were made, and the messages that
have been sent. -/
structure DagNetwork (W : Type) [LinearOrder W] where
  dags : BTreeMap W (TrustedCheckpointDag W)
  locks : BTreeMap W (List (TrustedDagRoundLock W))
  acknowledgements : List (DagAcknowledgement W)
  confirmations : List (DagConfirmation W)

inductive DagEvent (W : Type) where
  | ingest (member : W) (vertex : TrustedDagVertex W)
  | acknowledge (member : W) (round : ℕ) (candidate : TrustedDagCandidate W)
  | receiveAcknowledgement (member : W) (message : DagAcknowledgement W)
  | lock (member : W) (round : ℕ)
  | receiveConfirmation (member : W) (message : DagConfirmation W)
  | complete (member : W) (round : ℕ)
  | restart (member : W) (vertices : List (TrustedDagVertex W))

namespace DagNetwork

section Runs

variable [ProtocolCrypto W] [ShuffleSeed W]

section

variable (c : TrustedDagConfig W)

def start (d : TrustedCheckpointDag W) : DagNetwork W :=
  ⟨.ofList (c.members.toList.map fun member => (member, d)) compare, ∅, [], []⟩

def locksOf (net : DagNetwork W) (member : W) : List (TrustedDagRoundLock W) :=
  (net.locks[member]?).getD []

def setDag (net : DagNetwork W) (member : W) (d : TrustedCheckpointDag W) : DagNetwork W :=
  { net with dags := net.dags.insert member d }

/-- A lock is made durable, and then it is confirmed. -/
def persistLock (net : DagNetwork W) (member : W) (lock : TrustedDagRoundLock W) : DagNetwork W :=
  { net with
    locks := net.locks.insert member (net.locksOf member ++ [lock])
    confirmations := ⟨lock.round, member, lock.candidate.digest⟩ :: net.confirmations }

/-- A member comes back with its checkpoints. It takes vertices in again and restores the durable
locks for the next checkpoint. -/
def restart (vertices : List (TrustedDagVertex W))
    (locks : List (TrustedDagRoundLock W)) : Action (TrustedCheckpointDag W) Failure Unit := do
  modify fun d => ⟨∅, ∅, ∅, ∅, ∅, d.earlier, d.head, ∅⟩
  vertices.forM fun vertex => do
    let _ ← TrustedCheckpointDag.ingestVertex c vertex
    pure ⟨⟩
  let d ← get
  (locks.filter fun lock => decide (lock.previousCheckpointNonce = d.head.body.nonce)).forM
    (TrustedCheckpointDag.restoreRoundLock c)

/-- One event; a message has to have been sent, and a member that cannot restore its locks does not
come back. -/
def step (net : DagNetwork W) : DagEvent W → Option (DagNetwork W)
  | .ingest member vertex => do
    let d ← net.dags[member]?
    pure (net.setDag member (after (TrustedCheckpointDag.ingestVertex (c.of member) vertex) d))
  | .acknowledge member round candidate => do
    let d ← net.dags[member]?
    match TrustedCheckpointDag.recordAcknowledgement (c.of member) round member candidate d with
    | .ok _ d' =>
      let sent := ⟨round, member, candidate⟩ :: net.acknowledgements
      pure { net.setDag member d' with acknowledgements := sent }
    | .error _ d' => pure (net.setDag member d')
  | .receiveAcknowledgement member message => do
    let d ← net.dags[member]?
    if message ∈ net.acknowledgements then
      pure (net.setDag member (after (TrustedCheckpointDag.recordAcknowledgement (c.of member)
        message.round message.sender message.candidate) d))
    else none
  | .lock member round => do
    let d ← net.dags[member]?
    match TrustedCheckpointDag.tryLockRound (c.of member) round d with
    | .ok (some lock) d' => pure ((net.setDag member d').persistLock member lock)
    | .ok none d' => pure (net.setDag member d')
    | .error _ d' => pure (net.setDag member d')
  | .receiveConfirmation member message => do
    let d ← net.dags[member]?
    if message ∈ net.confirmations then
      pure (net.setDag member (after (TrustedCheckpointDag.recordConfirmation (c.of member)
        message.round message.sender message.candidateDigest) d))
    else none
  | .complete member round => do
    let d ← net.dags[member]?
    pure (net.setDag member (after (TrustedCheckpointDag.tryCompleteRound (c.of member) round) d))
  | .restart member vertices => do
    let d ← net.dags[member]?
    match restart (c.of member) vertices (net.locksOf member) d with
    | .ok _ d' => pure (net.setDag member d')
    | .error _ _ => none

def run (net : DagNetwork W) (events : List (DagEvent W)) : Option (DagNetwork W) :=
  events.foldlM (step c) net

end

end Runs

end DagNetwork

/-! ### What a member knows -/

namespace TrustedCheckpointDag

section Member

variable [ProtocolCrypto W] {c : TrustedDagConfig W}
  {locksOf : W → List (TrustedDagRoundLock W)}

def Confirms (locksOf : W → List (TrustedDagRoundLock W)) (round : ℕ) (sender digest : W) : Prop :=
  ∃ lock ∈ locksOf sender, lock.round = round ∧ lock.candidate.digest = digest

structure LocksSound (locksOf : W → List (TrustedDagRoundLock W)) : Prop where
  binds : ∀ member, ∀ lock ∈ locksOf member, lock.candidate.Binds ∧
    lock.candidate.body.previousCheckpointNonce = lock.previousCheckpointNonce
  unique : ∀ member, ∀ lock ∈ locksOf member, ∀ other ∈ locksOf member,
    lock.round = other.round → lock.previousCheckpointNonce = other.previousCheckpointNonce →
      lock = other

def supporters (state : TrustedDagRoundState W) (digest : W) : Finset W :=
  state.confirmations.supporters some digest

structure RoundSound (c : TrustedDagConfig W) (locksOf : W → List (TrustedDagRoundLock W))
    (head : TrustedDagCheckpoint W) (round : ℕ) (state : TrustedDagRoundState W) : Prop where
  expected : state.expectedMembers = c.members
  acknowledged : ∀ (sender : W) (candidate : TrustedDagCandidate W),
    state.acknowledgements.votes[sender]? = some candidate → Bound head candidate
  locked : ∀ lock, state.lock = some lock → lock ∈ locksOf c.localMember ∧ lock.round = round ∧
    lock.previousCheckpointNonce = head.body.nonce
  confirmed : ∀ sender digest : W, state.confirmations.votes[sender]? = some digest →
    sender ∈ c.members ∧ Confirms locksOf round sender digest
  counted : ∀ digest : W, (∀ lock, state.lock = some lock → lock.candidate.digest = digest) →
    (state.confirmations.count[digest]?).getD 0 ≤ (supporters state digest).card
  old : state.lock = none → ∀ digest : W,
    state.confirmations.votes[c.localMember]? = some digest →
      ∃ lock ∈ locksOf c.localMember, lock.candidate.digest = digest ∧
        lock.previousCheckpointNonce < head.body.nonce

def Decided (c : TrustedDagConfig W) (locksOf : W → List (TrustedDagRoundLock W))
    (previous next : TrustedDagCheckpoint W) : Prop :=
  ∃ (d : TrustedCheckpointDag W) (candidate : TrustedDagCandidate W) (ordered : List W)
    (voters : Finset W), Stored d ∧ d.head = previous ∧
    d.orderedDelta c candidate = .ok ordered ∧
    d.checkpointForCandidate c candidate ordered = .ok next ∧
    (∀ voter ∈ voters, voter ∈ c.members ∧
      ∃ lock ∈ locksOf voter, lock.round = 0 ∧ lock.candidate = candidate) ∧
    supermajorityCount c.members.size ≤ voters.card

structure MemberSound (c : TrustedDagConfig W) (locksOf : W → List (TrustedDagRoundLock W))
    (d : TrustedCheckpointDag W) : Prop where
  stored : Stored d
  recent : ∀ lock ∈ locksOf c.localMember, lock.previousCheckpointNonce ≤ d.head.body.nonce
  rounds : ∀ (round : ℕ) (state : TrustedDagRoundState W), d.roundStates[round]? = some state →
    RoundSound c locksOf d.head round state
  single : d.sequentialRoundCount = 1
  genesis : d.checkpoints.head? = some (TrustedCheckpointDag.genesis c 1)
  history : d.checkpoints.IsChain (Decided c locksOf)

def Kept (locks : List (TrustedDagRoundLock W)) (d : TrustedCheckpointDag W) : Prop :=
  ∀ lock ∈ locks, lock.previousCheckpointNonce = d.head.body.nonce →
    ∃ state, d.roundStates[lock.round]? = some state ∧ state.lock = some lock

variable {head : TrustedDagCheckpoint W} {round : ℕ} {state : TrustedDagRoundState W}
  {d d' : TrustedCheckpointDag W} {digest sender : W}

theorem mem_supporters : voter ∈ supporters state digest ↔
    state.confirmations.votes[voter]? = some digest := by
  rw [supporters, Tally.mem_supporters, Option.bind_fun_some]

theorem RoundSound.new : RoundSound c locksOf head round (.new c.members) where
  expected := rfl
  acknowledged sender candidate h := by simp [TrustedDagRoundState.new, Tally.empty] at h
  locked lock h := by cases h
  confirmed sender digest h := by simp [TrustedDagRoundState.new, Tally.empty] at h
  counted digest _ := by simp [TrustedDagRoundState.new, Tally.empty]
  old _ digest h := by simp [TrustedDagRoundState.new, Tally.empty] at h

variable {locks : List (TrustedDagRoundLock W)} {candidate : TrustedDagCandidate W}
  {lock : TrustedDagRoundLock W}

theorem RoundSound.acknowledge (h : RoundSound c locksOf head round state)
    (hbound : Bound head candidate) :
    RoundSound c locksOf head round (state.acknowledge sender candidate) :=
  { h with
    acknowledged := fun other vote hvote => by
      obtain ⟨-, rfl⟩ | ⟨-, hvote⟩ := lookup_insert_eq_some.mp hvote
      · exact hbound
      · exact h.acknowledged other vote hvote }

theorem RoundSound.close (h : RoundSound c locksOf head round state) :
    RoundSound c locksOf head round { state with completed := true } :=
  { h with }

theorem card_supporters_confirm (hnew : state.confirmations.votes[sender]? ≠ some other) :
    (supporters (state.confirm sender digest) other).card =
      (supporters state other).card + if digest = other then 1 else 0 := by
  have hcard : ((state.confirmations.recordBy id some sender digest).supporters some other).card =
      _ := Tally.card_supporters_recordBy
  rw [Finset.erase_eq_of_notMem (by rwa [Tally.mem_supporters, Option.bind_fun_some])] at hcard
  simp only [Option.some.injEq] at hcard
  exact hcard

theorem count_confirm (state : TrustedDagRoundState W) (sender digest other : W) :
    ((state.confirm sender digest).confirmations.count[other]?).getD 0 =
      (state.confirmations.count[other]?).getD 0 + if digest = other then 1 else 0 :=
  Tally.getD_incrementCount _ digest other

theorem RoundSound.confirm (h : RoundSound c locksOf head round state)
    (hmem : sender ∈ c.members) (hnew : state.confirmations.votes[sender]? = none)
    (hconf : Confirms locksOf round sender digest)
    (hold : state.lock = none → sender = c.localMember →
      ∃ lock ∈ locksOf c.localMember, lock.candidate.digest = digest ∧
        lock.previousCheckpointNonce < head.body.nonce) :
    RoundSound c locksOf head round (state.confirm sender digest) :=
  { h with
    confirmed := fun other vote hvote => by
      obtain ⟨rfl, rfl⟩ | ⟨-, hvote⟩ := lookup_insert_eq_some.mp hvote
      · exact ⟨hmem, hconf⟩
      · exact h.confirmed other vote hvote
    counted := fun other hother => by
      rw [count_confirm, card_supporters_confirm (by simp [hnew])]
      exact Nat.add_le_add_right (h.counted other hother) _
    old := fun hlock vote hvote => by
      obtain ⟨heq, rfl⟩ | ⟨-, hvote⟩ := lookup_insert_eq_some.mp hvote
      · exact hold hlock heq
      · exact h.old hlock vote hvote }

theorem RoundSound.setLock (hinj : HashInjective W) (hlocks : LocksSound locksOf)
    (h : RoundSound c locksOf head round state) (hlocal : c.localMember ∈ c.members)
    (hnone : state.lock = none) (hlock : lock ∈ locksOf c.localMember)
    (hround : lock.round = round) (hnonce : lock.previousCheckpointNonce = head.body.nonce) :
    RoundSound c locksOf head round (state.setLock c.localMember lock) := by
  obtain ⟨hbinds, hcand⟩ := hlocks.binds _ lock hlock
  have hnew : state.confirmations.votes[c.localMember]? ≠ some lock.candidate.digest := by
    intro hvote
    obtain ⟨other, hother, hdigest, hlt⟩ := h.old hnone _ hvote
    obtain ⟨hbinds', hcand'⟩ := hlocks.binds _ other hother
    have hsame := TrustedDagCandidate.eq_of_digest hinj hbinds' hbinds hdigest
    rw [← hcand', hsame, hcand, hnonce] at hlt
    exact lt_irrefl _ hlt
  refine ⟨h.expected, h.acknowledged, ?_, ?_, ?_, ?_⟩
  · intro other hother
    cases hother
    exact ⟨hlock, hround, hnonce⟩
  · intro other vote hvote
    obtain ⟨rfl, rfl⟩ | ⟨-, hvote⟩ := lookup_insert_eq_some.mp hvote
    · exact ⟨hlocal, lock, hlock, hround, rfl⟩
    · exact h.confirmed other vote hvote
  · intro digest hdigest
    have hdigest : lock.candidate.digest = digest := hdigest lock rfl
    have hcount := h.counted digest fun other hother => by rw [hnone] at hother; cases hother
    subst hdigest
    change ((state.confirm _ _).confirmations.count[_]?).getD 0 ≤
      (supporters (state.confirm _ _) _).card
    rw [count_confirm, card_supporters_confirm hnew]
    exact Nat.add_le_add_right hcount _
  · intro hbad
    cases hbad

variable {locksOf' : W → List (TrustedDagRoundLock W)}

theorem RoundSound.mono (h : RoundSound c locksOf head round state)
    (hmore : ∀ member, locksOf member ⊆ locksOf' member) :
    RoundSound c locksOf' head round state :=
  { h with
    locked := fun lock hlock => (h.locked lock hlock).imp_left (hmore _ ·)
    confirmed := fun sender digest hvote => by
      obtain ⟨hmem, lock, hlock, hconf⟩ := h.confirmed sender digest hvote
      exact ⟨hmem, lock, hmore _ hlock, hconf⟩
    old := fun hnone digest hvote => by
      obtain ⟨lock, hlock, hold⟩ := h.old hnone digest hvote
      exact ⟨lock, hmore _ hlock, hold⟩ }

theorem Decided.mono (h : Decided c locksOf previous next)
    (hmore : ∀ member, locksOf member ⊆ locksOf' member) : Decided c locksOf' previous next := by
  obtain ⟨d, candidate, ordered, voters, hd, hhead, hord, hnext, hvoters, hcount⟩ := h
  refine ⟨d, candidate, ordered, voters, hd, hhead, hord, hnext, fun voter hvoter => ?_, hcount⟩
  obtain ⟨hmem, lock, hlock, hvote⟩ := hvoters voter hvoter
  exact ⟨hmem, lock, hmore _ hlock, hvote⟩

/-- The locks of a member are durable, also when other members add theirs. -/
theorem MemberSound.mono
    (h : MemberSound c locksOf d) (hmore : ∀ member, locksOf member ⊆ locksOf' member)
    (hrecent : ∀ lock ∈ locksOf' c.localMember,
      lock.previousCheckpointNonce ≤ d.head.body.nonce) : MemberSound c locksOf' d :=
  { h with
    recent := hrecent
    rounds := fun round state hstate => (h.rounds round state hstate).mono hmore
    history := h.history.imp fun _ _ hdecided => hdecided.mono hmore }

theorem MemberSound.vertexChange (h : MemberSound c locksOf d) (hchange : VertexChange d d') :
    MemberSound c locksOf d' := by
  obtain ⟨hearlier, hhead, hrounds, hstored⟩ := hchange
  have hcheckpoints : d'.checkpoints = d.checkpoints := by
    rw [checkpoints, hearlier, hhead, checkpoints]
  exact ⟨hstored h.stored, hhead ▸ h.recent, hrounds ▸ hhead ▸ h.rounds,
    (congrArg (·.body.sequentialRounds) hhead).trans h.single, hcheckpoints ▸ h.genesis,
    hcheckpoints ▸ h.history⟩

theorem Kept.vertexChange (h : Kept locks d) (hchange : VertexChange d d') : Kept locks d' := by
  intro lock hlock hnonce
  rw [hchange.2.1] at hnonce
  rw [hchange.2.2.1]
  exact h lock hlock hnonce

theorem Kept.setRound (h : Kept locks d)
    (hlock : ∀ old lock, d.roundStates[round]? = some old → old.lock = some lock → state.lock = some lock) :
    Kept locks (d.setRound round state) := by
  intro lock hmem hnonce
  obtain ⟨old, hold, hsame⟩ := h lock hmem hnonce
  rw [lookup_setRound]
  split
  next heq =>
    subst heq
    exact ⟨state, rfl, hlock old lock hold hsame⟩
  next => exact ⟨old, hold, hsame⟩

theorem MemberSound.setRound (h : MemberSound c locksOf d)
    (hstate : RoundSound c locksOf d.head round state) :
    MemberSound c locksOf (d.setRound round state) :=
  { h with
    stored := ⟨h.stored.vertices, h.stored.pending⟩
    rounds := fun other next hnext => by
      obtain ⟨rfl, rfl⟩ | ⟨-, hnext⟩ := lookup_insert_eq_some.mp hnext
      · exact hstate
      · exact h.rounds other next hnext }

theorem checkpointForCandidate_spec {ordered : List W}
    (h : d.checkpointForCandidate c candidate ordered = .ok checkpoint) :
    Bound d.head candidate ∧ checkpoint.body.nonce = d.head.body.nonce + 1 ∧
      checkpoint.body.sequentialRounds = d.sequentialRoundCount := by
  simp only [checkpointForCandidate, bind_eq_ok, pure_eq_ok] at h
  obtain ⟨_, hvalid, rfl⟩ := h
  exact ⟨bound_of_validateCandidate hvalid, rfl, rfl⟩

/-- Enough members have confirmed the lock of a round that is complete. -/
theorem RoundSound.decided (hinj : HashInjective W) (hlocks : LocksSound locksOf)
    (hstored : Stored d) (h : RoundSound c locksOf d.head 0 state) {ordered : List W}
    (hlock : state.lock = some lock)
    (hcount : state.threshold ≤ (state.confirmations.count[lock.candidate.digest]?).getD 0)
    (hord : d.orderedDelta c lock.candidate = .ok ordered)
    (hnext : d.checkpointForCandidate c lock.candidate ordered = .ok checkpoint) :
    Decided c locksOf d.head checkpoint := by
  refine ⟨d, lock.candidate, ordered, supporters state lock.candidate.digest, hstored, rfl,
    hord, hnext, fun voter hvoter => ?_, ?_⟩
  · obtain ⟨hmem, other, hother, hround, hdigest⟩ :=
      h.confirmed voter _ (mem_supporters.mp hvoter)
    have hbinds := (hlocks.binds _ lock (h.locked lock hlock).1).1
    have hbinds' := (hlocks.binds _ other hother).1
    exact ⟨hmem, other, hother, hround,
      TrustedDagCandidate.eq_of_digest hinj hbinds' hbinds hdigest⟩
  · rw [TrustedDagRoundState.threshold, h.expected] at hcount
    refine hcount.trans (h.counted _ fun other hother => ?_)
    cases hlock.symm.trans hother
    rfl

section Changes

variable {F : ℕ → W → W → Prop} {kept : List (TrustedDagRoundLock W)}
  (hinj : HashInjective W) (hlocks : LocksSound locksOf)

include hinj hlocks

theorem MemberSound.setLock (hlocal : c.localMember ∈ c.members) (h : MemberSound c locksOf d)
    (hold : Kept kept d) (hstate : d.roundStates[round]? = some state) (hnone : state.lock = none)
    (hlock : lock ∈ locksOf c.localMember) (hround : lock.round = round)
    (hnonce : lock.previousCheckpointNonce = d.head.body.nonce) :
    MemberSound c locksOf (d.setRound round (state.setLock c.localMember lock)) ∧
      Kept (kept ++ [lock]) (d.setRound round (state.setLock c.localMember lock)) := by
  refine ⟨h.setRound ((h.rounds round state hstate).setLock hinj hlocks hlocal hnone hlock hround
    hnonce), fun other hother hsame => ?_⟩
  rcases List.mem_append.mp hother with hother | hother
  · refine hold.setRound (fun old kept hold hkept => ?_) other hother hsame
    cases hstate.symm.trans hold
    rw [hnone] at hkept
    cases hkept
  · rw [List.mem_singleton.mp hother, lookup_setRound, if_pos hround.symm]
    exact ⟨_, rfl, rfl⟩

variable [ShuffleSeed W] (hquorum : ∀ hash round expected, quorumAt c hash round = some expected →
  expected = c.members)

include hquorum

section Rounds

variable (hkept : kept ⊆ locksOf c.localMember) (hF : ∀ round sender digest,
  F round sender digest → Confirms locksOf round sender digest ∧ locksOf c.localMember ⊆ kept)

include hkept hF

theorem MemberSound.roundChange (h : MemberSound c locksOf d ∧ Kept kept d)
    (hchange : RoundChange c F d d') :
    MemberSound c locksOf d' ∧ Kept kept d' := by
  obtain ⟨h, hold⟩ := h
  cases hchange with
  | @opened round expected hnone hexp =>
    rw [expectedRoundMembers, require_eq_ok] at hexp
    rw [hquorum _ _ _ hexp]
    refine ⟨h.setRound .new, hold.setRound fun old lock hsome => ?_⟩
    rw [hnone] at hsome
    cases hsome
  | @acknowledged round state sender candidate hstate _ hbound =>
    refine ⟨h.setRound ((h.rounds round state hstate).acknowledge hbound),
      hold.setRound fun old lock hsome hlock => ?_⟩
    cases hstate.symm.trans hsome
    exact hlock
  | @confirmed round state sender digest hstate hexp hnew hconf =>
    obtain ⟨hconfirms, hall⟩ := hF _ _ _ hconf
    have hround := h.rounds round state hstate
    rw [hround.expected, Std.ExtTreeSet.contains_iff_mem] at hexp
    refine ⟨h.setRound (hround.confirm hexp hnew hconfirms fun hnone hlocal => ?_),
      hold.setRound fun old lock hsome hlock => ?_⟩
    · -- The member's own lock would stand in the round if it were for the next checkpoint.
      subst hlocal
      obtain ⟨lock, hlock, hlockRound, hdigest⟩ := hconfirms
      refine ⟨lock, hlock, hdigest, lt_of_le_of_ne (h.recent lock hlock) fun heq => ?_⟩
      obtain ⟨other, hother, hothers⟩ := hold lock (hall hlock) heq
      rw [hlockRound] at hother
      cases hstate.symm.trans hother
      rw [hnone] at hothers
      cases hothers
    · cases hstate.symm.trans hsome
      exact hlock
  | @closed round state hstate =>
    refine ⟨h.setRound (h.rounds round state hstate).close,
      hold.setRound fun old lock hsome hlock => ?_⟩
    cases hstate.symm.trans hsome
    exact hlock
  | @finalized state lock ordered checkpoint hstate hlock hcount hord hnext =>
    have hsingle := h.single
    rw [hsingle] at hstate
    obtain ⟨-, hnonce, hrounds⟩ := checkpointForCandidate_spec hnext
    have hdecided := (h.rounds 0 state hstate).decided hinj hlocks h.stored hlock hcount hord
      hnext
    refine ⟨⟨⟨h.stored.vertices, h.stored.pending⟩, ?_, ?_, hrounds.trans hsingle, ?_, ?_⟩, ?_⟩
    · intro other hother
      exact (h.recent other hother).trans (by rw [hnonce]; exact Nat.le_succ _)
    · intro other next hother
      simp at hother
    · rw [checkpoints, List.head?_append, h.genesis]
      rfl
    · refine List.IsChain.append h.history (List.isChain_singleton _) ?_
      intro last hlast next hnext'
      rw [checkpoints, List.getLast?_concat] at hlast
      cases hlast
      cases hnext'
      exact hdecided
    · intro other hother hsame
      have hle := h.recent other (hkept hother)
      rw [hsame] at hle
      change checkpoint.body.nonce ≤ _ at hle
      omega

theorem MemberSound.roundChanges
    (h : MemberSound c locksOf d ∧ Kept kept d)
    (hsteps : Relation.ReflTransGen (RoundChange c F) d d') :
    MemberSound c locksOf d' ∧ Kept kept d' := by
  induction hsteps with
  | refl => exact h
  | tail _ hchange ih => exact MemberSound.roundChange hinj hlocks hquorum hkept hF ih hchange

end Rounds

theorem MemberSound.restoreLocks (hlocal : c.localMember ∈ c.members)
    (hmem : locks ⊆ locksOf c.localMember) (hkept : kept ⊆ locksOf c.localMember)
    (h : MemberSound c locksOf d) (hold : Kept kept d) {u : Unit}
    (hrst : locks.forM (restoreRoundLock c) d = .ok u d') :
    MemberSound c locksOf d' ∧ Kept (kept ++ locks) d' ∧ d'.head = d.head := by
  induction locks generalizing d kept with
  | nil =>
    cases hrst
    exact ⟨h, by simpa using hold, rfl⟩
  | cons lock locks ih =>
    obtain ⟨_, restored, hfirst, hrest⟩ := bind_returns.mp hrst
    obtain ⟨hlock, hmem⟩ := List.cons_subset.mp hmem
    obtain ⟨hnonce, opened, state, hsteps, hhead, hstate, hcases⟩ :=
      restoreRoundLock_spec (fun _ _ _ => False) hfirst
    obtain ⟨hopened, holdOpened⟩ := MemberSound.roundChanges hinj hlocks hquorum hkept
      (fun _ _ _ hfalse => hfalse.elim) ⟨h, hold⟩ hsteps
    have hnext : MemberSound c locksOf restored ∧ Kept (kept ++ [lock]) restored ∧
        restored.head = d.head := by
      rcases hcases with ⟨hsame, rfl⟩ | ⟨hnone, rfl⟩
      · refine ⟨hopened, fun other hother heq => ?_, hhead⟩
        rcases List.mem_append.mp hother with hother | hother
        · exact holdOpened other hother heq
        · rw [List.mem_singleton.mp hother]
          exact ⟨state, hstate, hsame⟩
      · obtain ⟨hset, hadded⟩ := MemberSound.setLock hinj hlocks hlocal hopened holdOpened hstate
          hnone hlock rfl (hnonce.trans (by rw [hhead]))
        exact ⟨hset, hadded, hhead⟩
    obtain ⟨hsound, hkeptNext, hheadNext⟩ := hnext
    obtain ⟨hsound', hkept', hhead'⟩ := ih hmem
      (List.append_subset.mpr ⟨hkept, by simpa using hlock⟩) hsound hkeptNext hrest
    exact ⟨hsound', by simpa using hkept', hhead'.trans hheadNext⟩

/-- A member that comes back knows what it knew, and has its locks. -/
theorem MemberSound.restart (hlocal : c.localMember ∈ c.members) (h : MemberSound c locksOf d)
    {vertices : List (TrustedDagVertex W)} {u : Unit}
    (hrst : DagNetwork.restart c vertices (locksOf c.localMember) d = .ok u d') :
    MemberSound c locksOf d' ∧ Kept (locksOf c.localMember) d' := by
  set blank : TrustedCheckpointDag W := ⟨∅, ∅, ∅, ∅, ∅, d.earlier, d.head, ∅⟩ with hblank
  have hempty : HashedIn (∅ : BTreeMap W (TrustedDagVertex W)) := fun hash vertex h => by
    simp at h
  have hsound : MemberSound c locksOf blank :=
    ⟨⟨hempty, hempty⟩, h.recent, fun round state h => by simp [hblank] at h, h.single, h.genesis,
      h.history⟩
  have hblankKept : Kept [] blank := fun lock hlock => by cases hlock
  obtain ⟨_, _, hmodify, hrst⟩ := bind_returns.mp hrst
  cases hmodify
  obtain ⟨_, filled, hingest, hrst⟩ := bind_returns.mp hrst
  have hrun : Run VertexChange blank (vertices.forM fun vertex => do
      let _ ← ingestVertex c vertex
      pure ⟨⟩) fun _ => Stored := by
    refine Run.forM hsound.stored fun vertex _ current hcur => ?_
    refine Run.bind (Run.carry (fun _ _ hchange => hchange.2.2.2) hcur
      (ingestVertex_run hcur vertex)) fun _ _ hstored => Run.pure hstored
  have hchange := vertexChange_of_run hrun
  rw [after_of_ok hingest] at hchange
  obtain ⟨read, same, hget, hrestore⟩ := bind_returns.mp hrst
  obtain ⟨rfl, rfl⟩ : filled = read ∧ filled = same := by
    cases hget
    exact ⟨rfl, rfl⟩
  obtain ⟨hfinal, hkept, hhead⟩ := MemberSound.restoreLocks hinj hlocks hquorum hlocal
    (List.filter_subset_self _) (List.nil_subset _) (hsound.vertexChange hchange)
    (hblankKept.vertexChange hchange) hrestore
  refine ⟨hfinal, fun lock hlock hnonce => hkept lock ?_ hnonce⟩
  rw [List.nil_append, List.mem_filter]
  exact ⟨hlock, decide_eq_true (hnonce.trans (by rw [hhead]))⟩

end Changes

end Member

end TrustedCheckpointDag

/-! ### Agreement -/

namespace TrustedDagConfig

variable [ProtocolCrypto W] {c : TrustedDagConfig W}

omit [ProtocolCrypto W] in
theorem mem_nodeMap [LinearOrder W] {c : TrustedDagConfig W} :
    member ∈ c.nodeMap ↔ member ∈ c.members := by
  simp [nodeMap, Std.ExtTreeMap.mem_ofList]

omit [ProtocolCrypto W] in
theorem size_nodeMap [LinearOrder W] (c : TrustedDagConfig W) :
    c.nodeMap.size = c.members.size := by
  rw [nodeMap, Std.ExtTreeMap.size_ofList, List.length_map, Std.ExtTreeSet.length_toList]
  have hdist := Std.ExtTreeSet.distinct_toList (t := c.members)
  rw [List.pairwise_map]
  exact hdist

/-- With less than two branching factors of members every quorum is the whole network. -/
theorem quorumAt_single [ShuffleSeed W] (hmem : member ∈ c.members)
    (hlow : c.quorumSize.get ≤ c.members.size) (hhigh : c.members.size < 2 * c.quorumSize.get)
    (hash : W) (round : ℕ) (expected : BTreeSet W)
    (h : TrustedCheckpointDag.quorumAt (c.of member) hash round = some expected) :
    expected = c.members := by
  obtain ⟨quorum, hsel, hquorum⟩ := selectQuorums_single (mem_nodeMap.mpr hmem) hash
    c.shuffle (c.size_nodeMap ▸ hlow) (c.size_nodeMap ▸ hhigh)
  rw [TrustedCheckpointDag.quorumAt] at h
  change (selectQuorumsFromIndexTreeWithSize c.nodeMap member hash c.shuffle
    c.quorumSize)[round]? = some expected at h
  rw [hsel] at h
  rw [List.mem_singleton.mp (List.mem_of_getElem? h)]
  exact Std.ExtTreeSet.ext_mem fun key => (hquorum key).trans mem_nodeMap

end TrustedDagConfig

namespace DagNetwork

open TrustedCheckpointDag

variable [ProtocolCrypto W] [ShuffleSeed W] {c : TrustedDagConfig W} {net : DagNetwork W}

structure Sound (c : TrustedDagConfig W) (net : DagNetwork W) : Prop where
  locks : LocksSound net.locksOf
  members : ∀ (member : W) (d : TrustedCheckpointDag W), net.dags[member]? = some d →
    member ∈ c.members ∧ MemberSound (c.of member) net.locksOf d ∧ Kept (net.locksOf member) d
  confirmations : ∀ message ∈ net.confirmations,
    Confirms net.locksOf message.round message.sender message.candidateDigest

section

omit [ShuffleSeed W]

variable {d' : TrustedCheckpointDag W} {lock : TrustedDagRoundLock W}

theorem Sound.setDag (h : Sound c net) (hmem : member ∈ c.members)
    (hd' : MemberSound (c.of member) net.locksOf d' ∧ Kept (net.locksOf member) d') :
    Sound c (net.setDag member d') :=
  { h with
    members := fun other d hd => by
      obtain ⟨rfl, rfl⟩ | ⟨-, hd⟩ := lookup_insert_eq_some.mp hd
      · exact ⟨hmem, hd'⟩
      · exact h.members other d hd }

theorem locksOf_persistLock (net : DagNetwork W) (member other : W)
    (lock : TrustedDagRoundLock W) : (net.persistLock member lock).locksOf other =
      if member = other then net.locksOf member ++ [lock] else net.locksOf other := by
  rw [locksOf, persistLock]
  simp only [lookup_insert]
  split
  · rfl
  · rfl

theorem mem_locksOf_persistLock {lock kept : TrustedDagRoundLock W} :
    kept ∈ (net.persistLock member lock).locksOf other ↔
      kept ∈ net.locksOf other ∨ other = member ∧ kept = lock := by
  rw [locksOf_persistLock]
  split
  next heq => simp [heq]
  next hne => simp [Ne.symm hne]

theorem subset_persistLock (net : DagNetwork W) (member other : W) (lock : TrustedDagRoundLock W) :
    net.locksOf other ⊆ (net.persistLock member lock).locksOf other :=
  fun _ hkept => mem_locksOf_persistLock.mpr (.inl hkept)

/-- A lock is made durable together with the state that has it. -/
theorem Sound.persistLock (h : Sound c net) (hmember : member ∈ c.members)
    (hlocks : LocksSound (net.persistLock member lock).locksOf)
    (hd' : MemberSound (c.of member) (net.persistLock member lock).locksOf d' ∧
      Kept (net.locksOf member ++ [lock]) d') :
    Sound c ((net.setDag member d').persistLock member lock) := by
  have hlocksOf (other : W) := locksOf_persistLock net member other lock
  refine ⟨hlocks, fun other d hd => ?_, fun message hmsg => ?_⟩
  · obtain ⟨rfl, rfl⟩ | ⟨hne, hd⟩ := lookup_insert_eq_some.mp hd
    · exact ⟨hmember, hd'.1, ((hlocksOf member).trans (if_pos rfl)).symm ▸ hd'.2⟩
    · have hsame := (hlocksOf other).trans (if_neg hne)
      obtain ⟨hother, hsound, hkept⟩ := h.members other d hd
      exact ⟨hother, hsound.mono (subset_persistLock net member · lock) (hsame ▸ hsound.recent),
        hsame.symm ▸ hkept⟩
  · rcases List.mem_cons.mp hmsg with rfl | hold
    · exact ⟨lock, mem_locksOf_persistLock.mpr (.inr ⟨rfl, rfl⟩), rfl, rfl⟩
    · obtain ⟨kept, hkept, hsame⟩ := h.confirmations message hold
      exact ⟨kept, subset_persistLock net member _ lock hkept, hsame⟩

end

section Steps

variable {member : W} {d : TrustedCheckpointDag W}

/-- The facts about one member that all calls use. -/
structure At (c : TrustedDagConfig W) (net : DagNetwork W) (member : W)
    (d : TrustedCheckpointDag W) : Prop where
  mem : member ∈ c.members
  quorum : ∀ hash round expected, quorumAt (c.of member) hash round = some expected →
    expected = c.members
  sound : MemberSound (c.of member) net.locksOf d
  kept : Kept (net.locksOf member) d

theorem At.roundChanges (hinj : HashInjective W) (h : Sound c net) (hat : At c net member d)
    (hsteps : Relation.ReflTransGen (RoundChange (c.of member) (Confirms net.locksOf)) d d') :
    At c net member d' := by
  obtain ⟨hsound, hkept⟩ := MemberSound.roundChanges hinj h.locks hat.quorum
    (List.Subset.refl _) (fun _ _ _ hconf => ⟨hconf, List.Subset.refl _⟩)
    ⟨hat.sound, hat.kept⟩ hsteps
  exact ⟨hat.mem, hat.quorum, hsound, hkept⟩

omit [ShuffleSeed W] in
theorem locksSound_persistLock (h : LocksSound net.locksOf)
    (hbinds : lock.candidate.Binds ∧
      lock.candidate.body.previousCheckpointNonce = lock.previousCheckpointNonce)
    (hunique : ∀ other ∈ net.locksOf member, other.round = lock.round →
      other.previousCheckpointNonce = lock.previousCheckpointNonce → other = lock) :
    LocksSound (net.persistLock member lock).locksOf := by
  refine ⟨fun m a ha => ?_, fun m a ha b hb hround hnonce => ?_⟩
  · rcases mem_locksOf_persistLock.mp ha with ha | ⟨-, rfl⟩
    · exact h.binds m a ha
    · exact hbinds
  · rcases mem_locksOf_persistLock.mp ha with hold | ⟨rfl, rfl⟩
    · rcases mem_locksOf_persistLock.mp hb with hold' | ⟨rfl, rfl⟩
      · exact h.unique m a hold b hold' hround hnonce
      · exact hunique a hold hround hnonce
    · rcases mem_locksOf_persistLock.mp hb with hold' | ⟨-, rfl⟩
      · exact (hunique b hold' hround.symm hnonce.symm).symm
      · rfl

theorem At.mono_persistLock (hat : At c net member d)
    (hlock : lock.previousCheckpointNonce ≤ d.head.body.nonce) :
    MemberSound (c.of member) (net.persistLock member lock).locksOf d := by
  refine hat.sound.mono (subset_persistLock net member · lock) fun other hother => ?_
  obtain hother | ⟨-, rfl⟩ := mem_locksOf_persistLock.mp hother
  · exact hat.sound.recent other hother
  · exact hlock

theorem Sound.persistLock_again (h : Sound c net) (hat : At c net member d) {round : ℕ}
    {state : TrustedDagRoundState W} (hstate : d.roundStates[round]? = some state)
    (hlock : state.lock = some lock) : Sound c ((net.setDag member d).persistLock member lock) := by
  obtain ⟨hmem, -, hnonce⟩ := (hat.sound.rounds round state hstate).locked lock hlock
  have hlocks := locksSound_persistLock h.locks (h.locks.binds member lock hmem)
    fun other hother hround hsame => h.locks.unique member other hother lock hmem hround hsame
  refine h.persistLock hat.mem hlocks
    ⟨hat.mono_persistLock (hat.sound.recent lock hmem), fun other hother hsame => ?_⟩
  rcases List.mem_append.mp hother with hother | hother
  · exact hat.kept other hother hsame
  · exact hat.kept other (List.mem_singleton.mp hother ▸ hmem) hsame

theorem Sound.persistLock_new (hinj : HashInjective W) (h : Sound c net) (hat : At c net member d)
    {round : ℕ} {state : TrustedDagRoundState W} {candidate : TrustedDagCandidate W}
    (hstate : d.roundStates[round]? = some state) (hnone : state.lock = none)
    (hvote : state.acknowledgements.votes[sender]? = some candidate) :
    Sound c ((net.setDag member (d.setRound round (state.setLock member
      (d.lockOn round candidate)))).persistLock member (d.lockOn round candidate)) := by
  set lock := d.lockOn round candidate with hlockOn
  have hbound := (hat.sound.rounds round state hstate).acknowledged sender candidate hvote
  have hlocks : LocksSound (net.persistLock member lock).locksOf := by
    refine locksSound_persistLock h.locks hbound fun other hother hround hsame => ?_
    obtain ⟨held, hheld, hlocked⟩ := hat.kept other hother hsame
    rw [hround] at hheld
    cases hstate.symm.trans hheld
    rw [hnone] at hlocked
    cases hlocked
  exact h.persistLock hat.mem hlocks (MemberSound.setLock hinj hlocks hat.mem
    (hat.mono_persistLock le_rfl) hat.kept hstate hnone
    (mem_locksOf_persistLock.mpr (.inr ⟨rfl, rfl⟩)) rfl rfl)

variable (hinj : HashInjective W) (hquorum : ∀ member ∈ c.members, ∀ hash round expected,
  quorumAt (c.of member) hash round = some expected → expected = c.members)

include hinj hquorum

theorem Sound.step (h : Sound c net) {event : DagEvent W} {net' : DagNetwork W}
    (hstep : net.step c event = some net') : Sound c net' := by
  have hat {member : W} {d : TrustedCheckpointDag W} (hd : net.dags[member]? = some d) :
      At c net member d := by
    obtain ⟨hmem, hsound, hkept⟩ := h.members member d hd
    exact ⟨hmem, hquorum member hmem, hsound, hkept⟩
  have hset {member : W} {d : TrustedCheckpointDag W} (hd : At c net member d) :
      Sound c (net.setDag member d) := h.setDag hd.mem ⟨hd.sound, hd.kept⟩
  cases event <;> obtain ⟨d, hd, hnext⟩ := Option.bind_eq_some_iff.mp hstep
  case ingest member vertex =>
    cases hnext
    have hchange := vertexChange_of_run (ingestVertex_run (c := c.of member)
      (hat hd).sound.stored vertex)
    exact hset ⟨(hat hd).mem, (hat hd).quorum, (hat hd).sound.vertexChange hchange,
      (hat hd).kept.vertexChange hchange⟩
  case acknowledge member round candidate =>
    have hafter : At c net member
        (after (recordAcknowledgement (c.of member) round member candidate) d) :=
      (hat hd).roundChanges hinj h recordAcknowledgement_run.after
    cases hcall : recordAcknowledgement (c.of member) round member candidate d with
    | ok _ d' =>
      rw [hcall] at hnext
      cases hnext
      rw [after_of_ok hcall] at hafter
      exact { hset hafter with }
    | error _ d' =>
      rw [hcall] at hnext
      cases hnext
      rw [after_of_error hcall] at hafter
      exact hset hafter
  case receiveAcknowledgement member message =>
    split at hnext
    · cases hnext
      exact hset ((hat hd).roundChanges hinj h recordAcknowledgement_run.after)
    · cases hnext
  case lock member round =>
    obtain ⟨opened, hsteps, hcases⟩ := tryLockRound_cases (c.of member) (Confirms net.locksOf) d round
    have hopened := (hat hd).roundChanges hinj h hsteps
    obtain ⟨e, hcall⟩ | ⟨state, hstate, hcall | ⟨hnone, sender, candidate, hvote, hcall⟩⟩ := hcases
    · rw [hcall] at hnext
      cases hnext
      exact hset hopened
    · rw [hcall] at hnext
      cases hlock : state.lock with
      | none =>
        rw [hlock] at hnext
        cases hnext
        exact hset hopened
      | some lock =>
        rw [hlock] at hnext
        cases hnext
        exact h.persistLock_again hopened hstate hlock
    · rw [hcall] at hnext
      cases hnext
      exact h.persistLock_new hinj hopened hstate hnone hvote
  case receiveConfirmation member message =>
    split at hnext
    next hsent =>
      cases hnext
      exact hset ((hat hd).roundChanges hinj h
        (recordConfirmation_run (h.confirmations message hsent)).after)
    next => cases hnext
  case complete member round =>
    cases hnext
    exact hset ((hat hd).roundChanges hinj h tryCompleteRound_run.after)
  case restart member vertices =>
    cases hrst : restart (c.of member) vertices (net.locksOf member) d with
    | error e d' =>
      rw [hrst] at hnext
      cases hnext
    | ok u d' =>
      rw [hrst] at hnext
      cases hnext
      obtain ⟨hsound, hkept⟩ := MemberSound.restart hinj h.locks (hat hd).quorum (hat hd).mem
        (hat hd).sound hrst
      exact hset ⟨(hat hd).mem, (hat hd).quorum, hsound, hkept⟩

theorem Sound.run {events : List (DagEvent W)} {net' : DagNetwork W} (h : Sound c net)
    (hrun : net.run c events = some net') : Sound c net' := by
  induction events generalizing net with
  | nil =>
    cases hrun
    exact h
  | cons event events ih =>
    obtain ⟨next, hstep, hrest⟩ := Option.bind_eq_some_iff.mp hrun
    exact ih (Sound.step hinj hquorum h hstep) hrest

end Steps

section Histories

variable {member member' : W} {locksOf : W → List (TrustedDagRoundLock W)}

section

omit [ShuffleSeed W]

/-- A supermajority for one candidate and a supermajority for another one share a member. -/
theorem decided_unique (hinj : HashInjective W) (hpos : 0 < c.members.size)
    (hlocks : LocksSound locksOf) (h : Decided (c.of member) locksOf previous next)
    (h' : Decided (c.of member') locksOf previous next') : next = next' := by
  obtain ⟨d, candidate, ordered, voters, hd, rfl, hord, hnext, hvoters, hcount⟩ := h
  obtain ⟨d', candidate', ordered', voters', hd', hhead, hord', hnext', hvoters', hcount'⟩ := h'
  have hsubset {votes : Finset W} {P : W → Prop}
      (hvotes : ∀ voter ∈ votes, voter ∈ c.members ∧ P voter) :
      votes ⊆ c.members.toList.toFinset := by
    intro voter hvoter
    rw [List.mem_toFinset, Std.ExtTreeSet.mem_toList]
    exact (hvotes voter hvoter).1
  obtain ⟨voter, hvoter, hvoter'⟩ : ∃ voter ∈ voters, voter ∈ voters' := by
    refine exists_common (hsubset hvoters) (hsubset hvoters') ?_
    rw [card_elements]
    change supermajorityCount c.members.size ≤ _ at hcount hcount'
    rw [supermajorityCount] at hcount hcount'
    omega
  obtain ⟨-, lock, hlock, hround, rfl⟩ := hvoters voter hvoter
  obtain ⟨-, lock', hlock', hround', rfl⟩ := hvoters' voter hvoter'
  have hbound := (checkpointForCandidate_spec hnext).1.2
  have hbound' := (checkpointForCandidate_spec hnext').1.2
  rw [hhead, (hlocks.binds voter lock' hlock').2] at hbound'
  rw [(hlocks.binds voter lock hlock).2] at hbound
  have hsame := hlocks.unique voter lock hlock lock' hlock' (hround.trans hround'.symm)
    (hbound.trans hbound'.symm)
  subst hsame
  rw [orderedDelta_unique hinj hd hd' hhead.symm hord hord'] at hnext
  simp only [checkpointForCandidate, bind_eq_ok, pure_eq_ok, sequentialRoundCount] at hnext hnext'
  obtain ⟨-, -, rfl⟩ := hnext
  obtain ⟨-, -, rfl⟩ := hnext'
  rw [hhead]
  rfl

/-- The chains of two members agree as far as both go. -/
theorem history_unique (hinj : HashInjective W) (hpos : 0 < c.members.size)
    (hlocks : LocksSound locksOf) (h : chain.IsChain (Decided (c.of member) locksOf))
    (h' : chain'.IsChain (Decided (c.of member') locksOf)) (hhead : chain.head? = chain'.head?)
    {k : ℕ} (ha : chain[k]? = some a) (hb : chain'[k]? = some b) : a = b := by
  induction k generalizing a b with
  | zero =>
    rw [← List.head?_eq_getElem?] at ha hb
    exact Option.some.inj (ha.symm.trans (hhead.trans hb))
  | succ k ih =>
    obtain ⟨previous, hprev, hdecided⟩ := exists_getElem?_of_isChain h ha
    obtain ⟨previous', hprev', hdecided'⟩ := exists_getElem?_of_isChain h' hb
    cases ih hprev hprev'
    exact decided_unique hinj hpos hlocks hdecided hdecided'

theorem history_consecutive (h : chain.IsChain (Decided (c.of member) locksOf)) :
    Consecutive (fun checkpoint : TrustedDagCheckpoint W => checkpoint.body.nonce) chain := by
  refine h.imp fun previous next hdecided => ?_
  obtain ⟨d, candidate, ordered, voters, -, rfl, -, hnext, -⟩ := hdecided
  exact (checkpointForCandidate_spec hnext).2.1

end

end Histories

/-! ### Runs of a network -/

section Start

variable {localMember groupId : W} {members : List W} {membershipGeneration : ℕ}
  {quorumSize : QuorumSize} {shuffle : Bool} {d : TrustedCheckpointDag W}

omit [ShuffleSeed W] in
theorem new_spec (h : TrustedCheckpointDag.new localMember members groupId membershipGeneration
    quorumSize shuffle = .ok (c, d)) :
    c.quorumSize = quorumSize ∧ max quorumSize.get minGlobalBlossomParticipants ≤ c.members.size ∧
      d = ⟨∅, ∅, ∅, ∅, ∅, [], genesis c (findRoundNumberWithSize c.members.size quorumSize).2,
        ∅⟩ := by
  simp only [TrustedCheckpointDag.new, roundCount, ↓guard_bind_eq_ok, bind_eq_ok, reject_eq_ok,
    pure_eq_ok, not_lt, Prod.mk.injEq] at h
  obtain ⟨_, -, hsize, rounds, ⟨-, rfl⟩, rfl, rfl⟩ := h
  exact ⟨rfl, hsize, rfl⟩

omit [ShuffleSeed W] in
theorem sound_start (h : TrustedCheckpointDag.new localMember members groupId membershipGeneration
    quorumSize shuffle = .ok (c, d)) (hsingle : c.members.size < 2 * quorumSize.get) :
    Sound c (start c d) := by
  obtain ⟨hquorum, hsize, rfl⟩ := new_spec h
  rw [findRoundNumberWithSize_single ((le_max_left _ _).trans hsize) hsingle]
  have hlocks (member : W) (lock : TrustedDagRoundLock W) :
      lock ∉ (start c ⟨∅, ∅, ∅, ∅, ∅, [], genesis c 1, ∅⟩).locksOf member := by
    simp [start, locksOf]
  have hempty : HashedIn (∅ : BTreeMap W (TrustedDagVertex W)) := fun hash vertex h => by
    simp at h
  refine ⟨⟨fun member lock hlock => ?_, fun member lock hlock => ?_⟩, fun member d hd => ?_,
    fun message hmsg => ?_⟩
  · exact absurd hlock (hlocks member lock)
  · exact absurd hlock (hlocks member lock)
  · have hmem := mem_of_lookup_ofList hd
    obtain ⟨other, hother, heq⟩ := List.mem_map.mp hmem
    cases heq
    rw [Std.ExtTreeSet.mem_toList] at hother
    refine ⟨hother, ⟨⟨hempty, hempty⟩, fun lock hlock => absurd hlock (hlocks _ lock), ?_, rfl, rfl,
      List.isChain_singleton _⟩, fun lock hlock => absurd hlock (hlocks _ lock)⟩
    intro round state hstate
    simp at hstate
  · cases hmsg

/-- In a network of less than two branching factors of members no run makes two members append
different checkpoints with the same nonce. -/
theorem checkpoints_agree (hinj : HashInjective W)
    (hnew : TrustedCheckpointDag.new localMember members groupId membershipGeneration quorumSize
      shuffle = .ok (c, d)) (hsingle : c.members.size < 2 * quorumSize.get)
    {events : List (DagEvent W)} (hrun : (start c d).run c events = some net) {member member' : W}
    {own other : TrustedCheckpointDag W} (hown : net.dags[member]? = some own)
    (hother : net.dags[member']? = some other) {a b : TrustedDagCheckpoint W}
    (ha : a ∈ own.checkpoints) (hb : b ∈ other.checkpoints) (hnonce : a.body.nonce = b.body.nonce) :
    a = b := by
  obtain ⟨hquorum, hsize, -⟩ := new_spec hnew
  have hpos : 0 < c.members.size := by
    have := quorumSize.valid.1
    omega
  have hsound := Sound.run hinj (fun m hm => TrustedDagConfig.quorumAt_single hm
    (hquorum ▸ (le_max_left _ _).trans hsize) (hquorum ▸ hsingle)) (sound_start hnew hsingle) hrun
  obtain ⟨-, hchain, -⟩ := hsound.members member own hown
  obtain ⟨-, hchain', -⟩ := hsound.members member' other hother
  obtain ⟨i, hi⟩ := List.getElem?_of_mem ha
  obtain ⟨j, hj⟩ := List.getElem?_of_mem hb
  have hnonceA := (history_consecutive hchain.history).getElem? hchain.genesis hi
  have hnonceB := (history_consecutive hchain'.history).getElem? hchain'.genesis hj
  have hij : i = j := by
    change a.body.nonce = 0 + i at hnonceA
    change b.body.nonce = 0 + j at hnonceB
    omega
  subst hij
  exact history_unique hinj hpos hsound.locks hchain.history hchain'.history
    (hchain.genesis.trans hchain'.genesis.symm) hi hj

end Start

end DagNetwork

namespace DagRun

open NumberWord TrustedCheckpointDag

def members (count : ℕ) : BTreeSet NumberWord := .ofList ((List.range count).map key) compare

section

variable (count : ℕ) (quorumSize : QuorumSize)

def config : TrustedDagConfig NumberWord :=
  ⟨key 0, members count, default, 7, membershipRoot (members count), quorumSize, false⟩

def first : TrustedCheckpointDag NumberWord :=
  ⟨∅, ∅, ∅, ∅, ∅, [], genesis (config count quorumSize)
    (findRoundNumberWithSize (members count).size quorumSize).2, ∅⟩

def vertex (d : TrustedCheckpointDag NumberWord) (n : ℕ) : TrustedDagVertex NumberWord :=
  .new ⟨default, 7, key n, 1, none, d.head.hash, 0, default, 1, 32⟩

def candidate (d : TrustedCheckpointDag NumberWord) (n : ℕ) : TrustedDagCandidate NumberWord :=
  .new ⟨default, 7, d.head.hash, 0, 1, [⟨key n, 1, (vertex d n).hash⟩]⟩

def round (ms : List ℕ) (round : ℕ) (candidate : TrustedDagCandidate NumberWord) :
    List (DagEvent NumberWord) :=
  (ms.map fun a => DagEvent.acknowledge (key a) round candidate) ++
    (ms.flatMap fun a => (ms.erase a).map fun b =>
      DagEvent.receiveAcknowledgement (key a) ⟨round, key b, candidate⟩) ++
    (ms.map fun a => DagEvent.lock (key a) round) ++
    (ms.flatMap fun a => (ms.erase a).map fun b =>
      DagEvent.receiveConfirmation (key a) ⟨round, key b, candidate.digest⟩) ++
    ms.map fun a => DagEvent.complete (key a) round

/-- Members take a vertex in and go through rounds with it. -/
def rounds (d : TrustedCheckpointDag NumberWord) (ms : List ℕ) (n count : ℕ) :
    List (DagEvent NumberWord) :=
  (ms.map fun a => DagEvent.ingest (key a) (vertex d n)) ++
    (List.range count).flatMap fun r => round ms r (candidate d n)

def network (events : List (DagEvent NumberWord)) : Option (DagNetwork NumberWord) :=
  (DagNetwork.start (config count quorumSize) (first count quorumSize)).run
    (config count quorumSize) events

end

def heads (net : Option (DagNetwork NumberWord)) (a b : ℕ) :
    Option (TrustedDagCheckpoint NumberWord × TrustedDagCheckpoint NumberWord) := do
  let net ← net
  let own ← net.dags[key a]?
  let other ← net.dags[key b]?
  pure (own.head, other.head)

theorem new_first (count : ℕ) (quorumSize : QuorumSize)
    (hmem : (members count).contains (key 0) = true)
    (hsize : max quorumSize.get minGlobalBlossomParticipants ≤ (members count).size)
    (hrounds : (findRoundNumberWithSize (members count).size quorumSize).2 < 2 ^ 8) :
    TrustedCheckpointDag.new (key 0) ((List.range count).map key) default 7 quorumSize false =
      .ok (config count quorumSize, first count quorumSize) := by
  simp only [TrustedCheckpointDag.new, roundCount, ↓guard_bind_eq_ok, bind_eq_ok, reject_eq_ok,
    pure_eq_ok, not_lt, not_le, Prod.mk.injEq, Bool.not_eq_false]
  exact ⟨(), hmem, hsize, _, ⟨hrounds, rfl⟩, rfl, rfl⟩

end DagRun

open DagRun in
/-- In a network of six members with a branching factor of three, two members of one final quorum
and two members of the other append different checkpoints. -/
theorem DagNetwork.checkpoints_split :
    TrustedCheckpointDag.new (.key 0) ((List.range 6).map NumberWord.key) default 7
        ⟨3, by decide⟩ false = .ok (config 6 ⟨3, by decide⟩, first 6 ⟨3, by decide⟩) ∧
      ∃ a b, heads (network 6 ⟨3, by decide⟩ (rounds (first 6 ⟨3, by decide⟩) [0, 2] 0 2 ++
          rounds (first 6 ⟨3, by decide⟩) [3, 5] 3 2)) 0 3 = some (a, b) ∧
        a.body.nonce = b.body.nonce ∧ a ≠ b := by
  refine ⟨new_first _ _ (by decide +kernel) (by decide +kernel) (by decide +kernel), ?_⟩
  have h : (heads (network 6 ⟨3, by decide⟩ (rounds (first 6 ⟨3, by decide⟩) [0, 2] 0 2 ++
      rounds (first 6 ⟨3, by decide⟩) [3, 5] 3 2)) 0 3).map (fun (a, b) =>
        (a.body.nonce, b.body.nonce, decide (a.hash.code = b.hash.code))) =
      some (1, 1, false) := by
    decide +kernel
  obtain ⟨⟨a, b⟩, hheads, heq⟩ := Option.map_eq_some_iff.mp h
  simp only [Prod.mk.injEq, decide_eq_false_iff_not] at heq
  refine ⟨a, b, hheads, heq.1.trans heq.2.1.symm, fun hsame => heq.2.2 ?_⟩
  rw [hsame]

open DagRun in
/-- Four of six members with a branching factor of six append one checkpoint. -/
theorem DagNetwork.checkpoints_agree_four :
    ∃ a b, heads (network 6 ⟨6, by decide⟩
        (rounds (first 6 ⟨6, by decide⟩) [0, 1, 2, 3] 0 1)) 0 3 = some (a, b) ∧
      a.body.nonce = 1 ∧ a = b := by
  have h : (heads (network 6 ⟨6, by decide⟩
      (rounds (first 6 ⟨6, by decide⟩) [0, 1, 2, 3] 0 1)) 0 3).map (fun (a, b) =>
        (a.body.nonce, b.body.nonce)) = some (1, 1) := by
    decide +kernel
  obtain ⟨⟨a, b⟩, hheads, heq⟩ := Option.map_eq_some_iff.mp h
  rw [Prod.mk.injEq] at heq
  refine ⟨a, b, hheads, heq.1, ?_⟩
  obtain ⟨net, hnet, hheads⟩ := Option.bind_eq_some_iff.mp hheads
  obtain ⟨own, hown, hheads⟩ := Option.bind_eq_some_iff.mp hheads
  obtain ⟨other, hother, hheads⟩ := Option.bind_eq_some_iff.mp hheads
  cases hheads
  have hnew := new_first 6 ⟨6, by decide⟩ (by decide +kernel) (by decide +kernel)
    (by decide +kernel)
  have hsingle : (config 6 ⟨6, by decide⟩).members.size < 2 * 6 := by decide +kernel
  exact checkpoints_agree NumberWord.hash_injective hnew hsingle hnet hown hother
    (List.mem_append_right _ (List.mem_singleton_self _))
    (List.mem_append_right _ (List.mem_singleton_self _)) (heq.1.trans heq.2.symm)

end Blossom
