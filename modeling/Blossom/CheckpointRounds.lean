import Blossom.CheckpointDag
import Blossom.TopologyRounds

/-!
# What a member of the checkpoint DAG keeps

The hash of a vertex fixes the vertex, so that the order of a checkpoint depends only on its
candidate.
-/

namespace Blossom

open CheckedSteps OrderedMap StatefulSteps VoteTally MajorityQuorum

variable {W : Type} [ProtocolCrypto W]
variable {vertices vertices' : BTreeMap W (TrustedDagVertex W)} {d d' d'' : TrustedCheckpointDag W}
  {a b vertex : TrustedDagVertex W} {cursor digest hash sender : W}
  {activated fuel fuel' round stop : ℕ} {state : TrustedDagRoundState W}
  {lock : TrustedDagRoundLock W}

/-! ### Commitments -/

theorem protocolCommitment_inj (hinj : HashInjective W) {domain : String}
    {a b : List (Field W)} (h : protocolCommitment domain a = protocolCommitment domain b) :
    a = b :=
  (List.cons.inj (hinj h)).2

section

omit [ProtocolCrypto W]

theorem TrustedDagVertexBody.fields_injective :
    Function.Injective (TrustedDagVertexBody.fields : TrustedDagVertexBody W → _) := by
  intro a b h
  cases a with
  | mk _ _ _ _ parent _ _ _ _ _ =>
    cases b with
    | mk _ _ _ _ parent' _ _ _ _ _ =>
      cases parent <;> cases parent' <;> simp [fields, optionFields] at h ⊢ <;> exact h

theorem TrustedDagFrontierEntry.fields_prefixCode :
    PrefixCode (TrustedDagFrontierEntry.fields : TrustedDagFrontierEntry W → _) := by
  intro a b r s h
  simp only [fields, List.cons_append, List.nil_append, List.cons.injEq, Field.word.injEq,
    Field.num.injEq] at h
  obtain ⟨horigin, hsequence, hhead, hrest⟩ := h
  exact ⟨by cases a; cases b; simp_all, hrest⟩

theorem TrustedDagCandidateBody.fields_injective :
    Function.Injective (TrustedDagCandidateBody.fields : TrustedDagCandidateBody W → _) := by
  intro a b h
  simp only [fields, List.cons_append, List.nil_append, List.cons.injEq, Field.word.injEq,
    Field.num.injEq] at h
  obtain ⟨hgroup, hgen, hhash, hprev, hnonce, hfrontier⟩ := h
  have hsame :=
    (listFields_prefixCode TrustedDagFrontierEntry.fields_prefixCode).injective hfrontier
  cases a
  cases b
  simp_all

end

def TrustedDagCandidate.Binds (candidate : TrustedDagCandidate W) : Prop :=
  candidate.digest = candidate.body.commitment

theorem TrustedDagCandidate.eq_of_digest (hinj : HashInjective W)
    {a b : TrustedDagCandidate W} (ha : a.Binds) (hb : b.Binds) (h : a.digest = b.digest) :
    a = b := by
  rw [Binds] at ha hb
  have hbody := TrustedDagCandidateBody.fields_injective
    (protocolCommitment_inj hinj (ha.symm.trans (h.trans hb)))
  cases a
  cases b
  simp_all

namespace TrustedCheckpointDag

/-! ### Stored vertices -/

/-- Every vertex stands under its own hash. -/
def HashedIn (vertices : BTreeMap W (TrustedDagVertex W)) : Prop :=
  ∀ (hash : W) (vertex : TrustedDagVertex W), vertices[hash]? = some vertex →
    vertex.hash = hash ∧ hash = vertex.body.commitment

structure Stored (d : TrustedCheckpointDag W) : Prop where
  vertices : HashedIn d.vertices
  pending : HashedIn d.pendingVertices

theorem HashedIn.insert (h : HashedIn vertices) (hv : vertex.hash = vertex.body.commitment) :
    HashedIn (vertices.insert vertex.hash vertex) := by
  intro hash other hother
  obtain ⟨rfl, rfl⟩ | ⟨-, hother⟩ := lookup_insert_eq_some.mp hother
  · exact ⟨rfl, hv⟩
  · exact h hash other hother

theorem HashedIn.erase (h : HashedIn vertices) (hash : W) : HashedIn (vertices.erase hash) := by
  intro other vertex hvertex
  exact h other vertex (lookup_erase_eq_some.mp hvertex).2

theorem HashedIn.unique (hinj : HashInjective W) (h : HashedIn vertices) (h' : HashedIn vertices')
    (ha : vertices[hash]? = some a) (hb : vertices'[hash]? = some b) : a = b := by
  obtain ⟨hhash, hcommit⟩ := h hash a ha
  obtain ⟨hhash', hcommit'⟩ := h' hash b hb
  have hbody := TrustedDagVertexBody.fields_injective
    (protocolCommitment_inj hinj (hcommit.symm.trans hcommit'))
  cases a
  cases b
  simp_all

/-! ### The order of a candidate -/

section Order

variable {d d' : TrustedCheckpointDag W}

theorem pathAbove_unique (hinj : HashInjective W) (h : Stored d) (h' : Stored d')
    {path path' : List W} (hp : d.pathAbove stop fuel cursor = .ok path)
    (hp' : d'.pathAbove stop fuel' cursor = .ok path') : path = path' := by
  induction fuel generalizing fuel' cursor path path' with
  | zero => cases hp
  | succ fuel ih =>
    cases fuel' with
    | zero => cases hp'
    | succ fuel' =>
      simp only [pathAbove, bind_eq_ok, require_eq_ok] at hp hp'
      obtain ⟨vertex, hvertex, hp⟩ := hp
      obtain ⟨vertex', hvertex', hp'⟩ := hp'
      cases h.vertices.unique hinj h'.vertices hvertex hvertex'
      split at hp
      next hlow =>
        rw [if_pos hlow] at hp'
        cases hp
        cases hp'
        rfl
      next hlow =>
        rw [if_neg hlow] at hp'
        cases hparent : vertex.body.originParent with
        | none =>
          rw [hparent] at hp hp'
          cases hp
          cases hp'
          rfl
        | some parent =>
          simp only [hparent, bind_eq_ok, pure_eq_ok] at hp hp'
          obtain ⟨rest, hrest, rfl⟩ := hp
          obtain ⟨rest', hrest', rfl⟩ := hp'
          rw [ih hrest hrest']

theorem newPath_unique (hinj : HashInjective W) (h : Stored d) (h' : Stored d')
    (hhead : d.head = d'.head) {paths next next' : BTreeMap W (List W)}
    {entry : TrustedDagFrontierEntry W} (hn : d.newPath paths entry = .ok next)
    (hn' : d'.newPath paths entry = .ok next') : next = next' := by
  simp only [newPath, ← hhead] at hn hn'
  split at hn
  next hsame =>
    rw [if_pos hsame] at hn'
    cases hn
    cases hn'
    rfl
  next hsame =>
    rw [if_neg hsame] at hn'
    simp only [bind_eq_ok, pure_eq_ok] at hn hn'
    obtain ⟨path, hpath, rfl⟩ := hn
    obtain ⟨path', hpath', rfl⟩ := hn'
    rw [pathAbove_unique hinj h h' hpath hpath']

theorem orderedDelta_unique (hinj : HashInjective W) (h : Stored d) (h' : Stored d')
    (hhead : d.head = d'.head) {c c' : TrustedDagConfig W} {candidate : TrustedDagCandidate W}
    {ordered ordered' : List W} (ho : d.orderedDelta c candidate = .ok ordered)
    (ho' : d'.orderedDelta c' candidate = .ok ordered') : ordered = ordered' := by
  simp only [orderedDelta, ↓guard_bind_eq_ok, bind_eq_ok, pure_eq_ok] at ho ho'
  obtain ⟨-, -, paths, hpaths, -, rfl⟩ := ho
  obtain ⟨-, -, paths', hpaths', -, rfl⟩ := ho'
  have hsame : paths = paths' :=
    foldlM_unique (fun _ _ _ _ hn hn' => newPath_unique hinj h h' hhead hn hn') hpaths hpaths'
  rw [hsame]

end Order

/-! ### Changes of the vertices -/

/-- The rounds and the checkpoints stay, and vertices stand under their hashes. -/
def VertexChange (d d' : TrustedCheckpointDag W) : Prop :=
  d'.earlier = d.earlier ∧ d'.head = d.head ∧ d'.roundStates = d.roundStates ∧
    (Stored d → Stored d')

section Vertices

variable {c : TrustedDagConfig W} {d d' : TrustedCheckpointDag W}

theorem VertexChange.refl : VertexChange d d := ⟨rfl, rfl, rfl, id⟩

theorem VertexChange.trans (h : VertexChange d d') (h' : VertexChange d' d'') :
    VertexChange d d'' :=
  ⟨h'.1.trans h.1, h'.2.1.trans h.2.1, h'.2.2.1.trans h.2.2.1, h'.2.2.2 ∘ h.2.2.2⟩

/-- The vertices that are about to be stored have their hashes. -/
def Hashed (stack : List (TrustedDagVertex W)) : Prop :=
  ∀ vertex ∈ stack, vertex.hash = vertex.body.commitment

theorem takeChild_spec (work : TrustedCheckpointDag W × List (TrustedDagVertex W)) (child : W) :
    VertexChange work.1 (takeChild work child).1 ∧
      (Stored work.1 → Hashed work.2 → Hashed (takeChild work child).2) := by
  rw [takeChild]
  cases hchild : work.1.pendingVertices[child]? with
  | none => exact ⟨.refl, fun _ h => h⟩
  | some vertex =>
    refine ⟨⟨rfl, rfl, rfl, fun h => ⟨h.vertices, h.pending.erase child⟩⟩, fun h hstack => ?_⟩
    intro other hother
    rcases List.mem_cons.mp hother with rfl | hother
    · obtain ⟨hhash, hcommit⟩ := h.pending child other hchild
      exact hhash.trans hcommit
    · exact hstack other hother

theorem takeChildren_spec (hash : W) (stack : List (TrustedDagVertex W)) :
    VertexChange d (d.takeChildren hash stack).1 ∧
      (Stored d → Hashed stack → Hashed (d.takeChildren hash stack).2) := by
  refine List.foldlRecOn (motive := fun work => VertexChange d work.1 ∧
    (Stored d → Hashed stack → Hashed work.2)) _ takeChild ?_ ?_
  · exact ⟨⟨rfl, rfl, rfl, fun h => ⟨h.vertices, h.pending⟩⟩, fun _ h => h⟩
  · rintro work ⟨hchange, hhashed⟩ child -
    obtain ⟨hstep, hnext⟩ := takeChild_spec work child
    exact ⟨hchange.trans hstep, fun h hstack => hnext (hchange.2.2.2 h) (hhashed h hstack)⟩

theorem storeVertex_change (hv : vertex.hash = vertex.body.commitment) :
    VertexChange d (d.storeVertex vertex) :=
  ⟨rfl, rfl, rfl, fun h => ⟨h.vertices.insert hv, h.pending.erase _⟩⟩

theorem activateFrom_run {stack : List (TrustedDagVertex W)} (hd : Stored d)
    (hstack : Hashed stack) :
    Run VertexChange d (activateFrom fuel stack activated) fun _ _ => True := by
  induction fuel generalizing d stack activated with
  | zero => exact Run.pure trivial
  | succ fuel ih =>
    cases stack with
    | nil => exact Run.pure trivial
    | cons vertex stack =>
      refine Run.bind_reading fun _ _ => Run.bind_get ?_
      obtain ⟨hchange, hnext⟩ := takeChildren_spec (d := d.storeVertex vertex) vertex.hash stack
      have hstore := storeVertex_change (d := d) (hstack vertex List.mem_cons_self)
      have hrest : Hashed stack := fun other hother => hstack other (List.mem_cons_of_mem _ hother)
      have hall := hstore.trans hchange
      exact Run.bind_set (.single hall)
        (ih (hall.2.2.2 hd) (hnext (hstore.2.2.2 hd) hrest))

theorem ingestVertex_run (hd : Stored d) (vertex : TrustedDagVertex W) :
    Run VertexChange d (ingestVertex c vertex) fun _ _ => True := by
  refine Run.bind_check fun _ hhash => Run.bind_reading fun _ _ => Run.bind_get ?_
  rw [TrustedDagVertex.validateHash, reject_eq_ok, not_not] at hhash
  cases d.atPosition vertex with
  | some existing =>
    dsimp only
    split
    · exact Run.pure trivial
    · exact Run.throw
  | none =>
    dsimp only
    split
    · exact Run.pure trivial
    · cases d.missingParent vertex with
      | some parent =>
        refine Run.bind_set (.single ?_) (Run.pure trivial)
        exact ⟨rfl, rfl, rfl, fun h => ⟨h.vertices, h.pending.insert hhash⟩⟩
      | none =>
        refine Run.bind (Run.bind_get (activateFrom_run hd ?_)) fun _ _ _ => Run.pure trivial
        intro other hother
        rw [List.mem_singleton.mp hother]
        exact hhash

theorem vertexChange_of_run {α : Type} {m : Action (TrustedCheckpointDag W) Failure α}
    {Q : α → TrustedCheckpointDag W → Prop} (h : Run VertexChange d m Q) :
    VertexChange d (after m d) :=
  h.after_self (fun _ => .refl) .trans

end Vertices

/-! ### Changes of the rounds -/

def Bound (head : TrustedDagCheckpoint W) (candidate : TrustedDagCandidate W) : Prop :=
  candidate.Binds ∧ candidate.body.previousCheckpointNonce = head.body.nonce

theorem bound_of_validateCandidate {c : TrustedDagConfig W} {candidate : TrustedDagCandidate W}
    (h : d.validateCandidate c candidate = .ok ()) : Bound d.head candidate := by
  simp only [validateCandidate, TrustedDagCandidate.validateDigest, ↓guard_bind_eq_ok,
    reject_eq_ok, not_or, not_not] at h
  exact ⟨h.1, h.2.1.2.2.2.1⟩

theorem lookup_setRound (d : TrustedCheckpointDag W) (round other : ℕ)
    (state : TrustedDagRoundState W) : (d.setRound round state).roundStates[other]? =
      if round = other then some state else d.roundStates[other]? :=
  lookup_insert d.roundStates round other state

theorem roundState_eq_ok : d.roundState round = .ok state ↔ d.roundStates[round]? = some state := by
  rw [roundState, require_eq_ok]

section Rounds

variable [ShuffleSeed W]

/-- What a call does to the rounds, except for a lock. The confirmations it stores satisfy `F`. -/
inductive RoundChange (c : TrustedDagConfig W) (F : ℕ → W → W → Prop) :
    TrustedCheckpointDag W → TrustedCheckpointDag W → Prop
  | opened {d : TrustedCheckpointDag W} {round : ℕ} {expected : BTreeSet W} :
      d.roundStates[round]? = none → d.expectedRoundMembers c round = .ok expected →
      RoundChange c F d (d.setRound round (.new expected))
  | acknowledged {d : TrustedCheckpointDag W} {round : ℕ} {state : TrustedDagRoundState W}
      {sender : W} {candidate : TrustedDagCandidate W} :
      d.roundStates[round]? = some state → state.expectedMembers.contains sender = true →
      Bound d.head candidate →
      RoundChange c F d (d.setRound round (state.acknowledge sender candidate))
  | confirmed {d : TrustedCheckpointDag W} {round : ℕ} {state : TrustedDagRoundState W}
      {sender digest : W} :
      d.roundStates[round]? = some state → state.expectedMembers.contains sender = true →
      state.confirmations.votes[sender]? = none → F round sender digest →
      RoundChange c F d (d.setRound round (state.confirm sender digest))
  | closed {d : TrustedCheckpointDag W} {round : ℕ} {state : TrustedDagRoundState W} :
      d.roundStates[round]? = some state →
      RoundChange c F d (d.setRound round { state with completed := true })
  | finalized {d : TrustedCheckpointDag W} {state : TrustedDagRoundState W}
      {lock : TrustedDagRoundLock W} {ordered : List W} {checkpoint : TrustedDagCheckpoint W} :
      d.roundStates[d.sequentialRoundCount - 1]? = some state → state.lock = some lock →
      state.threshold ≤ (state.confirmations.count[lock.candidate.digest]?).getD 0 →
      d.orderedDelta c lock.candidate = .ok ordered →
      d.checkpointForCandidate c lock.candidate ordered = .ok checkpoint →
      RoundChange c F d { d with earlier := d.checkpoints, head := checkpoint, roundStates := ∅ }

variable {c : TrustedDagConfig W} {F : ℕ → W → W → Prop} {d : TrustedCheckpointDag W} {round : ℕ}

theorem ensureRoundState_run : Run (RoundChange c F) d (ensureRoundState c round)
    fun _ d' => d'.head = d.head := by
  refine Run.bind_get ?_
  split
  · exact Run.pure rfl
  · next hnew =>
    refine Run.bind_check fun _ _ => Run.bind_check fun expected hexp => ?_
    refine Run.ofSet (.single (.opened ?_ hexp)) rfl
    rw [Std.ExtTreeMap.contains_iff_mem] at hnew
    exact Std.ExtTreeMap.getElem?_eq_none hnew

variable {candidate : TrustedDagCandidate W}

theorem storeAcknowledgement_run (hstate : d.roundState round = .ok state)
    (hexp : state.expectedMembers.contains sender = true) (h : Bound d.head candidate) :
    Run (RoundChange c F) d (storeAcknowledgement round sender candidate) fun _ _ => True := by
  refine Run.bind_get (Run.bind_check fun read hread => ?_)
  cases hstate.symm.trans hread
  refine Run.bind_set (.single ?_) (Run.pure trivial)
  exact .acknowledged (roundState_eq_ok.mp hstate) hexp h

theorem recordAcknowledgement_run :
    Run (RoundChange c F) d (recordAcknowledgement c round sender candidate) fun _ _ => True := by
  refine Run.bind_reading fun _ hvalid => Run.bind_reading fun _ _ => ?_
  refine Run.bind ensureRoundState_run fun _ d' hhead => ?_
  have hbound : Bound d'.head candidate := hhead ▸ bound_of_validateCandidate hvalid
  refine Run.bind_reading fun state hstate => Run.bind_check fun _ hexp => Run.bind_check fun _ _ => ?_
  rw [reject_eq_ok, Bool.not_eq_false] at hexp
  have hstore := storeAcknowledgement_run (c := c) (F := F) hstate hexp hbound
  cases state.acknowledgements.votes[sender]? with
  | none => exact hstore
  | some previous =>
    dsimp only
    split
    · exact Run.pure trivial
    · exact Run.bind_reading fun _ _ => Run.bind_check fun _ _ => hstore

theorem recordConfirmation_run (hF : F round sender digest) :
    Run (RoundChange c F) d (recordConfirmation c round sender digest) fun _ _ => True := by
  refine Run.bind ensureRoundState_run fun _ d' _ => ?_
  refine Run.bind_get (Run.bind_check fun state hstate => Run.bind_check fun _ hexp => ?_)
  rw [reject_eq_ok, Bool.not_eq_false] at hexp
  cases hvote : state.confirmations.votes[sender]? with
  | some previous => exact Run.bind_check fun _ _ => Run.pure trivial
  | none =>
    refine Run.bind_set (.single ?_) (Run.pure trivial)
    exact .confirmed (roundState_eq_ok.mp hstate) hexp hvote hF

theorem tryCompleteRound_run :
    Run (RoundChange c F) d (tryCompleteRound c round) fun _ _ => True := by
  refine Run.bind ensureRoundState_run fun _ d' _ => ?_
  refine Run.bind_get (Run.bind_check fun state hstate => ?_)
  have hclosed : RoundChange c F d' _ := .closed (roundState_eq_ok.mp hstate)
  cases hlock : state.lock with
  | none => exact Run.pure trivial
  | some lock =>
    rw [hlock] at hclosed
    dsimp only
    split
    · exact Run.pure trivial
    next hcount =>
      refine Run.bind_set (.single hclosed) ?_
      split
      · exact Run.pure trivial
      · refine Run.bind_check fun _ hfinal => Run.bind_get ?_
        rw [reject_eq_ok, not_not] at hfinal
        refine Run.bind_check fun ordered hord => Run.bind_check fun checkpoint hnext => ?_
        have hround := lookup_setRound d' round round
          { state with lock := some lock, completed := true }
        rw [if_pos rfl] at hround
        rw [hfinal] at hround hord hnext ⊢
        refine Run.bind_set (.single (.finalized hround rfl ?_ hord hnext)) (Run.pure trivial)
        exact not_lt.mp hcount

theorem closePrevious_run :
    Run (RoundChange c F) d (closePrevious c lock) fun _ d' => d'.head = d.head := by
  rw [closePrevious]
  split
  · exact Run.pure rfl
  · refine Run.bind_get (Run.bind_check fun previous hprev => ?_)
    rw [require_eq_ok] at hprev
    refine Run.bind_check fun _ _ => Run.bind_check fun _ _ => Run.bind_check fun _ _ => ?_
    exact Run.ofSet (.single (.closed hprev)) rfl

/-- A call of `try_lock_round` fails, answers with the lock it finds, or makes one. -/
theorem tryLockRound_cases (c : TrustedDagConfig W) (F : ℕ → W → W → Prop)
    (d : TrustedCheckpointDag W) (round : ℕ) :
    ∃ opened, Relation.ReflTransGen (RoundChange c F) d opened ∧
      ((∃ e, tryLockRound c round d = .error e opened) ∨
      ∃ state, opened.roundStates[round]? = some state ∧
        (tryLockRound c round d = .ok state.lock opened ∨ state.lock = none ∧
          ∃ (sender : W) (candidate : _), state.acknowledgements.votes[sender]? = some candidate ∧
            tryLockRound c round d = .ok (some (opened.lockOn round candidate))
              (opened.setRound round
                (state.setLock c.localMember (opened.lockOn round candidate))))) := by
  have hopen : Run (RoundChange c F) d (ensureRoundState c round) _ := ensureRoundState_run
  cases hensure : ensureRoundState c round d with
  | error e opened => exact ⟨opened, hopen.of_error hensure, .inl ⟨e, bind_of_error hensure _⟩⟩
  | ok u opened =>
    refine ⟨opened, (hopen.of_ok hensure).1, ?_⟩
    rw [tryLockRound, bind_of_ok hensure, bind_get, roundState]
    cases hround : opened.roundStates[round]? with
    | none => exact .inl ⟨_, rfl⟩
    | some state =>
      rw [bind_require rfl, lockAcknowledged]
      cases hlock : state.lock with
      | some lock => exact .inr ⟨state, rfl, .inl (by rw [hlock]; rfl)⟩
      | none =>
        cases state.acknowledgements.consensusHash state.threshold with
        | none => exact .inr ⟨state, rfl, .inl (by rw [hlock]; rfl)⟩
        | some digest =>
          dsimp only
          cases hfind : (values state.acknowledgements.votes).find? fun candidate =>
            decide (candidate.digest = digest) with
          | none => exact .inl ⟨_, rfl⟩
          | some candidate =>
            obtain ⟨sender, hsend⟩ := mem_values.mp (List.mem_of_find?_eq_some hfind)
            exact .inr ⟨state, rfl, .inr ⟨hlock, sender, candidate, hsend, rfl⟩⟩

theorem restoreRoundLock_spec {u : Unit} (F : ℕ → W → W → Prop)
    (h : restoreRoundLock c lock d = .ok u d') :
    lock.previousCheckpointNonce = d.head.body.nonce ∧
    ∃ opened state, Relation.ReflTransGen (RoundChange c F) d opened ∧ opened.head = d.head ∧
      opened.roundStates[lock.round]? = some state ∧
      (state.lock = some lock ∧ d' = opened ∨ state.lock = none ∧
        d' = opened.setRound lock.round (state.setLock c.localMember lock)) := by
  simp only [restoreRoundLock, bind_returns, reading_returns] at h
  obtain ⟨_, _, ⟨-, rfl⟩, _, _, ⟨-, rfl⟩, _, _, ⟨htgt, rfl⟩, _, closed, hclose, _, opened, hopen,
    hlast⟩ := h
  simp only [reject_eq_ok, not_or, not_not] at htgt
  obtain ⟨hclosed, hhead⟩ := (closePrevious_run (F := F)).of_ok hclose
  obtain ⟨hopened, hhead'⟩ := (ensureRoundState_run (F := F)).of_ok hopen
  obtain ⟨read, same, hget, state, last, hstate, hlast⟩ := hlast
  obtain ⟨rfl, rfl⟩ : opened = read ∧ opened = same := by
    cases hget
    exact ⟨rfl, rfl⟩
  obtain ⟨hstate, hkept⟩ := check_returns.mp hstate
  rw [hkept] at hlast
  refine ⟨htgt.2.1, opened, state, hclosed.trans hopened, hhead'.trans hhead,
    roundState_eq_ok.mp hstate, ?_⟩
  cases hlock : state.lock with
  | some existing =>
    simp only [hlock] at hlast
    obtain ⟨hsame, rfl⟩ := check_returns.mp hlast
    rw [reject_eq_ok, not_not] at hsame
    exact .inl ⟨by rw [hsame], rfl⟩
  | none =>
    simp only [hlock] at hlast
    cases hlast
    exact .inr ⟨rfl, rfl⟩

end Rounds

end TrustedCheckpointDag

end Blossom
