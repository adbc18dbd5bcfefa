import Blossom.MessageBuffer

/-!
# The replay of kept messages

A driver tick takes the messages of the reached rounds out of the buffer and passes them on one by
one, while other tasks receive messages and finish epochs.
-/

namespace Blossom

open CheckedSteps OrderedMap StatefulSteps Relation LocalState NodeRuntime

variable {W : Type} [ProtocolCrypto W] [ShuffleSeed W] [EpochCodec W]

section Head

variable {s s' : LocalState W} {head : Epoch W}

omit [EpochCodec W] in
theorem later_head_of_update (h : Update s s') (hhead : s.head? = some head) :
    ∃ head', s'.head? = some head' ∧ (head' = head ∨ head.body.nonce < head'.body.nonce) := by
  cases h with
  | consensus _ _ => exact ⟨head, hhead, .inl rfl⟩
  | prefill _ => exact ⟨head, hhead, .inl rfl⟩
  | append epoch hold hnonce =>
    cases hold.symm.trans hhead
    exact ⟨epoch, List.getLast?_concat, .inr (by omega)⟩
  | @extend _ last epochs hold hlast hnonce =>
    cases hold.symm.trans hhead
    refine ⟨last, ?_, .inr hnonce⟩
    rw [head?, List.getLast?_append, hlast, Option.some_or]

omit [EpochCodec W] in
theorem later_head_of_updates (h : ReflTransGen Update s s') (hhead : s.head? = some head) :
    ∃ head', s'.head? = some head' ∧ (head' = head ∨ head.body.nonce < head'.body.nonce) := by
  induction h with
  | refl => exact ⟨head, hhead, .inl rfl⟩
  | tail _ hstep ih =>
    obtain ⟨mid, hmid, hle⟩ := ih
    obtain ⟨last, hlast, hle'⟩ := later_head_of_update hstep hmid
    refine ⟨last, hlast, ?_⟩
    rcases hle' with rfl | hlt'
    · exact hle
    · rcases hle with rfl | hlt
      · exact .inr hlt'
      · exact .inr (hlt.trans hlt')

end Head

namespace NodeRuntime

def messageTarget (message : Msg W) : Option (EpochNonce W) :=
  message.signed.map fun (header, _) => header.target

/-- The epoch that a message is about has been decided. -/
def Ended (s : LocalState W) (message : Msg W) : Prop :=
  ∃ target head, messageTarget message = some target ∧ s.head? = some head ∧
    target.nonce < head.target.nonce

omit [EpochCodec W] in
theorem Ended.of_updates {s s' : LocalState W} {message : Msg W} (h : Ended s message)
    (hsteps : ReflTransGen Update s s') : Ended s' message := by
  obtain ⟨target, head, htgt, hhead, hlt⟩ := h
  obtain ⟨head', hhead', hlater⟩ := later_head_of_updates hsteps hhead
  refine ⟨target, head', htgt, hhead', ?_⟩
  rcases hlater with rfl | hlater
  · exact hlt
  · simp only [Epoch.target] at hlt ⊢
    omega

omit [ShuffleSeed W] [EpochCodec W] in
theorem Ended.congr {s : LocalState W} {message message' : Msg W} (h : Ended s message)
    (hsame : messageTarget message = messageTarget message') : Ended s message' := by
  obtain ⟨target, head, htgt, hhead, hlt⟩ := h
  exact ⟨target, head, hsame.symm.trans htgt, hhead, hlt⟩

omit [ShuffleSeed W] [EpochCodec W] in
theorem messageTarget_of_isReached {target : EpochNonce W} {round : ℕ} {message : Msg W}
    (h : isReached target round message = true) : messageTarget message = some target := by
  unfold isReached at h
  unfold messageTarget
  cases hsig : message.signed with
  | none => simp [hsig] at h
  | some signed =>
    rw [hsig] at h
    simp only [Option.map_some, Option.getD_some, decide_eq_true_eq] at h
    exact congrArg some h.1

def replayBufferedMessages (c : RuntimeConfig W) : Operation W Unit := do
  let messages ← drainBufferedCurrentRoundMessages c
  messages.forM fun message => do
    let _ ← receiveMessage c message
    pure ()

def Due (rt : NodeRuntime W) (message : Msg W) : Prop :=
  ∃ head, rt.state.head? = some head ∧
    isReached head.target (rt.state.consensusOrInit head.target).round message = true

/-- What a received message changes: the kept messages at most by itself, and the state. -/
theorem receiveMessage_after (c : RuntimeConfig W) (rt : NodeRuntime W) (message : Msg W) :
    ReflTransGen Update rt.state (after (receiveMessage c message) rt).state ∧
      (after (receiveMessage c message) rt).futureRoundMessages = rt.futureRoundMessages ++
        if returned (receiveMessage c message) rt = some futureRoundBuffered then [message]
        else [] := by
  rcases receiveMessage_spec c rt message with
    ⟨head, header, kind, rt', hrcv, hkept, hsteps, -⟩ | ⟨hkeeps, hans⟩
  · rw [after_of_ok hrcv, if_pos (returned_eq_some.mpr ⟨rt', hrcv⟩)]
    exact ⟨hsteps, hkept⟩
  · rw [if_neg, List.append_nil]
    · exact ⟨hkeeps.2, hkeeps.1⟩
    · intro h
      obtain ⟨rt', hrt'⟩ := returned_eq_some.mp h
      exact hans rt' hrt'

end NodeRuntime

/-- A runtime with the messages that a tick has taken out and not passed on yet, and the messages so
far that were answered as kept, that were passed on from the buffer, and that were discarded. -/
structure Replay (W : Type) [LinearOrder W] where
  runtime : NodeRuntime W
  pending : List (Msg W)
  buffered : List (Msg W)
  passed : List (Msg W)
  discarded : List (Msg W)

inductive ReplayEvent (W : Type) [LinearOrder W] where
  | receive (message : Msg W)
  | drain
  | replay
  | other

namespace Replay

def start (rt : NodeRuntime W) : Replay W := ⟨rt, [], [], [], []⟩

def receive (c : RuntimeConfig W) (message : Msg W) (r : Replay W) : Replay W :=
  { r with
    runtime := after (receiveMessage c message) r.runtime
    buffered := r.buffered ++
      if returned (receiveMessage c message) r.runtime = some futureRoundBuffered then [message]
      else [] }

def drain (c : RuntimeConfig W) (r : Replay W) : Replay W :=
  match drainBufferedCurrentRoundMessages c r.runtime with
  | .ok messages rt => { r with runtime := rt, pending := messages }
  | .error _ rt => { r with runtime := rt }

/-- Pass the next message on; if it is refused, the others are discarded. -/
def replay (c : RuntimeConfig W) (r : Replay W) : Replay W :=
  match r.pending with
  | [] => r
  | message :: rest =>
    let next := receive c message { r with pending := rest, passed := r.passed ++ [message] }
    if returned (receiveMessage c message) r.runtime = none then
      { next with pending := [], discarded := r.discarded ++ rest }
    else next

/-- The steps of a runtime and its driver. The driver takes messages out after it has passed on those
of the tick before. -/
inductive Step (c : RuntimeConfig W) : ReplayEvent W → Replay W → Replay W → Prop
  | receive (message : Msg W) (r : Replay W) : Step c (.receive message) r (r.receive c message)
  | drain {r : Replay W} : r.pending = [] → Step c .drain r (r.drain c)
  | replay (r : Replay W) : Step c .replay r (r.replay c)
  | other {r : Replay W} {rt : NodeRuntime W} : Keeps r.runtime rt →
      Step c .other r { r with runtime := rt }

/-- A message that is refused in the replay is the last one, or its epoch has ended. -/
def Careful (c : RuntimeConfig W) (r : Replay W) : ReplayEvent W → Prop
  | .replay => ∀ message rest, r.pending = message :: rest →
      returned (receiveMessage c message) r.runtime = none →
      rest = [] ∨ Ended (after (receiveMessage c message) r.runtime).state message
  | .receive _ | .drain | .other => True

inductive CarefulRun (c : RuntimeConfig W) : Replay W → Replay W → Prop
  | refl (r : Replay W) : CarefulRun c r r
  | step {r₀ r r' : Replay W} {event : ReplayEvent W} : CarefulRun c r₀ r → Step c event r r' →
      Careful c r event → CarefulRun c r₀ r'

variable {c : RuntimeConfig W} {r r' : Replay W} {event : ReplayEvent W} {rt₀ : NodeRuntime W}

/-!
## The loop of a tick
-/

variable {message : Msg W} {rt : NodeRuntime W}

theorem forM_runs (r : Replay W) :
    ∃ r', ReflTransGen (Step c .replay) r r' ∧ r'.pending = [] ∧
      r'.runtime = after (r.pending.forM fun message => do
        let _ ← receiveMessage c message
        pure ()) r.runtime := by
  generalize hpend : r.pending = pending
  induction pending generalizing r with
  | nil => exact ⟨r, .refl, hpend, rfl⟩
  | cons message rest ih =>
    change ∃ r', ReflTransGen (Step c .replay) r r' ∧ r'.pending = [] ∧ r'.runtime = after (do
      receiveMessage c message >>= fun _ => pure ()
      rest.forM fun message => do
        let _ ← receiveMessage c message
        pure ()) r.runtime
    cases h : receiveMessage c message r.runtime with
    | error e rt =>
      have hreplay : (r.replay c).pending = [] ∧ (r.replay c).runtime = rt := by
        simp [replay, hpend, returned, receive, after, h]
      refine ⟨r.replay c, .single (.replay r), hreplay.1, hreplay.2.trans ?_⟩
      rw [after, bind_of_error (bind_of_error h _)]
    | ok answer rt =>
      have hreplay : (r.replay c).pending = rest ∧ (r.replay c).runtime = rt := by
        simp [replay, hpend, returned, receive, after, h]
      obtain ⟨r', hsteps, hnone, hend⟩ := ih (r.replay c) hreplay.1
      refine ⟨r', .head (.replay r) hsteps, hnone, hend.trans ?_⟩
      rw [hreplay.2, after, after, bind_of_ok (bind_of_ok h fun _ => pure ())]

theorem replayBufferedMessages_runs (hpend : r.pending = []) :
    ∃ r₁ r', Step c .drain r r₁ ∧ ReflTransGen (Step c .replay) r₁ r' ∧ r'.pending = [] ∧
      r'.runtime = after (replayBufferedMessages c) r.runtime := by
  obtain ⟨r', hsteps, hnone, hend⟩ := forM_runs (c := c) (r.drain c)
  refine ⟨r.drain c, r', .drain hpend, hsteps, hnone, hend.trans ?_⟩
  rw [replayBufferedMessages]
  cases h : drainBufferedCurrentRoundMessages c r.runtime with
  | error e rt =>
    rw [drain, h, after, after, bind_of_error h, hpend]
    rfl
  | ok messages rt => rw [drain, h, after, after, bind_of_ok h]

/-!
## What happens to a kept message
-/

/-- Every message that was answered as kept was passed on once, is about to be, is still kept, or was
discarded. -/
def Accounted (r : Replay W) : Prop :=
  (r.buffered : Multiset (Msg W)) = r.passed + r.pending + r.runtime.futureRoundMessages + r.discarded

/-- The kept messages were passed on, except for those of the epochs that ended. -/
structure Delivered (r : Replay W) : Prop where
  accounted : Accounted r
  ended : ∀ message ∈ r.discarded, Ended r.runtime.state message

omit [EpochCodec W] in
theorem drain_cases (c : RuntimeConfig W) (r : Replay W) :
    r.drain c = r ∨ ∃ head, r.runtime.state.head? = some head ∧
      r.drain c = { r with
        runtime := r.runtime.drained head, pending := r.runtime.reachedMessages head } := by
  unfold drain
  rcases drainBufferedCurrentRoundMessages_cases c r.runtime with ⟨e, h⟩ | ⟨head, hhead, h⟩
  · rw [h]
    exact .inl rfl
  · rw [h]
    exact .inr ⟨head, hhead, rfl⟩

theorem replay_cases (c : RuntimeConfig W) (r : Replay W) :
    r.pending = [] ∧ r.replay c = r ∨ ∃ message rest, r.pending = message :: rest ∧
      (r.replay c = receive c message { r with pending := rest, passed := r.passed ++ [message] } ∧
          returned (receiveMessage c message) r.runtime ≠ none ∨
        r.replay c = { receive c message { r with passed := r.passed ++ [message] } with
          pending := [], discarded := r.discarded ++ rest } ∧
          returned (receiveMessage c message) r.runtime = none) := by
  rw [replay]
  split
  next hpend => exact .inl ⟨hpend, rfl⟩
  next message rest hpend =>
    refine .inr ⟨message, rest, hpend, ?_⟩
    split
    next h => exact .inr ⟨rfl, h⟩
    next h => exact .inl ⟨rfl, h⟩

theorem Step.updates (h : Step c event r r') :
    ReflTransGen Update r.runtime.state r'.runtime.state := by
  cases h with
  | receive message => exact (receiveMessage_after c r.runtime message).1
  | drain _ =>
    rcases drain_cases c r with h | ⟨head, hhead, h⟩
    · rw [h]
    · rw [h]
      exact .single (.consensus hhead ⟨rfl, rfl⟩)
  | replay =>
    rcases replay_cases c r with ⟨-, h⟩ | ⟨message, rest, -, ⟨h, -⟩ | ⟨h, -⟩⟩
    · rw [h]
    · rw [h]
      exact (receiveMessage_after c r.runtime message).1
    · rw [h]
      exact (receiveMessage_after c r.runtime message).1
  | other hkeeps => exact hkeeps.2

theorem Accounted.receive (h : Accounted r) (message : Msg W) : Accounted (r.receive c message) := by
  unfold Accounted at h ⊢
  simp only [Replay.receive, (receiveMessage_after c r.runtime message).2, ← Multiset.coe_add, h]
  ac_rfl

omit [EpochCodec W] in
theorem reachedMessages_add_drained (rt : NodeRuntime W) (head : Epoch W) :
    (rt.reachedMessages head : Multiset (Msg W)) + (rt.drained head).futureRoundMessages =
      rt.futureRoundMessages := by
  have hsort := Multiset.coe_eq_coe.mpr (List.perm_insertionSort
    (fun a b => bufferKey a ≤ bufferKey b) (rt.futureRoundMessages.filter
      (isReached head.target (rt.state.consensusOrInit head.target).round)))
  rw [reachedMessages, hsort, Multiset.coe_add, Multiset.coe_eq_coe]
  exact List.filter_append_perm _ _

theorem Accounted.step (h : Accounted r) (hstep : Step c event r r') : Accounted r' := by
  have hcons (message : Msg W) (rest : List (Msg W)) :
      ((message :: rest : List (Msg W)) : Multiset (Msg W)) = [message] + rest := rfl
  cases hstep with
  | receive message => exact h.receive message
  | drain hpend =>
    rcases drain_cases c r with hr | ⟨head, -, hr⟩
    · rwa [hr]
    · rw [hr]
      unfold Accounted at h ⊢
      rw [h, hpend, ← reachedMessages_add_drained r.runtime head, Multiset.coe_nil]
      ac_rfl
  | replay =>
    rcases replay_cases c r with ⟨hnone, hr⟩ | ⟨message, rest, hpend, ⟨hr, -⟩ | ⟨hr, hrefused⟩⟩
    · rwa [hr]
    · rw [hr]
      refine Accounted.receive ?_ message
      unfold Accounted at h ⊢
      rw [h, hpend, hcons, ← Multiset.coe_add]
      dsimp only
      ac_rfl
    · rw [hr]
      refine Accounted.receive (r := { r with
        passed := r.passed ++ [message], pending := [], discarded := r.discarded ++ rest }) ?_ message
      unfold Accounted at h ⊢
      rw [h, hpend, hcons, ← Multiset.coe_add, ← Multiset.coe_add, Multiset.coe_nil, add_zero]
      dsimp only
      ac_rfl
  | other hkeeps =>
    unfold Accounted at h ⊢
    rw [h]
    simp only [hkeeps.1]

/-- The messages that were taken out together name one target. -/
def OneTarget (r : Replay W) : Prop :=
  ∀ message ∈ r.pending, ∀ other ∈ r.pending, messageTarget message = messageTarget other

omit [EpochCodec W] in
theorem mem_reachedMessages {head : Epoch W} :
    message ∈ rt.reachedMessages head ↔ message ∈ rt.futureRoundMessages ∧
      isReached head.target (rt.state.consensusOrInit head.target).round message = true := by
  rw [reachedMessages, List.mem_insertionSort, List.mem_filter]

theorem OneTarget.step (h : OneTarget r) (hstep : Step c event r r') : OneTarget r' := by
  cases hstep with
  | receive message => exact h
  | drain _ =>
    rcases drain_cases c r with hr | ⟨head, -, hr⟩
    · rwa [hr]
    · rw [hr]
      intro message hmem other hother
      rw [messageTarget_of_isReached (mem_reachedMessages.mp hmem).2,
        messageTarget_of_isReached (mem_reachedMessages.mp hother).2]
  | replay =>
    rcases replay_cases c r with ⟨hnone, hr⟩ | ⟨message, rest, hpend, ⟨hr, -⟩ | ⟨hr, -⟩⟩
    · rwa [hr]
    · rw [hr]
      rw [OneTarget, hpend] at h
      exact fun a ha b hb => h a (List.mem_cons_of_mem _ ha) b (List.mem_cons_of_mem _ hb)
    · rw [hr]
      exact fun _ hmem => by cases hmem
  | other _ => exact h

theorem Delivered.of_discarded_eq (h : Delivered r) (hstep : Step c event r r')
    (hsame : r'.discarded = r.discarded) : Delivered r' := by
  refine ⟨h.accounted.step hstep, fun message hmem => ?_⟩
  rw [hsame] at hmem
  exact (h.ended message hmem).of_updates hstep.updates

theorem Delivered.step_iff (h : Delivered r) (htgt : OneTarget r) (hstep : Step c event r r') :
    Delivered r' ↔ Careful c r event := by
  have hall {event : ReplayEvent W} (hstep : Step c event r r') (hsame : r'.discarded = r.discarded)
      (hcare : Careful c r event) : Delivered r' ↔ Careful c r event :=
    iff_of_true (h.of_discarded_eq hstep hsame) hcare
  cases hstep with
  | receive message => exact hall (.receive message r) rfl trivial
  | drain hpend =>
    refine hall (.drain hpend) ?_ trivial
    rcases drain_cases c r with hr | ⟨head, -, hr⟩
    · rw [hr]
    · rw [hr]
  | other hkeeps => exact hall (.other hkeeps) rfl trivial
  | replay =>
    rcases replay_cases c r with ⟨hnone, hr⟩ | ⟨message, rest, hpend, ⟨hr, hok⟩ | ⟨hr, hrefused⟩⟩
    · refine hall (.replay r) (by rw [hr]) ?_
      intro message rest hpend
      rw [hnone] at hpend
      cases hpend
    · refine hall (.replay r) (by rw [hr]; rfl) ?_
      intro message' rest' hpend' hrefused
      cases hpend.symm.trans hpend'
      exact absurd hrefused hok
    · rw [OneTarget, hpend] at htgt
      have hsame (kept : Msg W) (hkept : kept ∈ rest) :
          messageTarget kept = messageTarget message :=
        htgt kept (List.mem_cons_of_mem _ hkept) message List.mem_cons_self
      have haccounted := h.accounted.step (.replay r : Step c .replay r (r.replay c))
      have hupd := (Step.replay r : Step c .replay r (r.replay c)).updates
      rw [hr] at haccounted hupd ⊢
      constructor
      · intro hdel message' rest' hpend' _
        cases hpend.symm.trans hpend'
        cases rest with
        | nil => exact .inl rfl
        | cons kept rest =>
          refine .inr ((hdel.ended kept ?_).congr (hsame kept List.mem_cons_self))
          exact List.mem_append_right _ List.mem_cons_self
      · intro hcare
        refine ⟨haccounted, fun kept hmem => ?_⟩
        rcases List.mem_append.mp hmem with hold | hrest
        · exact (h.ended kept hold).of_updates hupd
        · rcases hcare message rest hpend hrefused with rfl | hended
          · cases hrest
          · exact hended.congr (hsame kept hrest).symm

theorem CarefulRun.sound (hnone : rt₀.futureRoundMessages = [])
    (hrun : CarefulRun c (start rt₀) r) : Delivered r ∧ OneTarget r := by
  induction hrun with
  | refl =>
    refine ⟨⟨?_, fun _ hmem => by cases hmem⟩, fun _ hmem => by cases hmem⟩
    simp [Accounted, start, hnone]
  | step _ hstep hcare ih =>
    obtain ⟨hdel, htgt⟩ := ih
    exact ⟨(hdel.step_iff htgt hstep).mpr hcare, htgt.step hstep⟩

theorem Step.due (hstep : Step c event r r')
    (hmem : message ∈ r'.passed ++ r'.pending) : message ∈ r.passed ++ r.pending ∨
      message ∈ r.runtime.futureRoundMessages ∧ Due r.runtime message := by
  cases hstep with
  | receive _ => exact .inl hmem
  | drain hpend =>
    rcases drain_cases c r with hr | ⟨head, hhead, hr⟩
    · rw [hr] at hmem
      exact .inl hmem
    · rw [hr] at hmem
      rcases List.mem_append.mp hmem with hpassed | htaken
      · exact .inl (List.mem_append_left _ hpassed)
      · obtain ⟨hkept, hreach⟩ := mem_reachedMessages.mp htaken
        exact .inr ⟨hkept, head, hhead, hreach⟩
  | replay =>
    left
    rcases replay_cases c r with ⟨-, hr⟩ | ⟨first, rest, hpend, ⟨hr, -⟩ | ⟨hr, -⟩⟩
    · rwa [hr] at hmem
    · rw [hr] at hmem
      rw [hpend]
      simpa [Replay.receive] using hmem
    · rw [hr] at hmem
      rw [hpend]
      simp only [Replay.receive, List.append_nil, List.mem_append, List.mem_singleton] at hmem
      rcases hmem with hmem | rfl
      · exact List.mem_append_left _ hmem
      · exact List.mem_append_right _ List.mem_cons_self
  | other _ => exact .inl hmem

theorem CarefulRun.due (hrun : CarefulRun c (start rt₀) r)
    (hmem : message ∈ r.passed ++ r.pending) : ∃ earlier, CarefulRun c (start rt₀) earlier ∧
      CarefulRun c earlier r ∧ message ∈ earlier.runtime.futureRoundMessages ∧
      Due earlier.runtime message := by
  induction hrun with
  | refl => cases hmem
  | step hrun hstep hcare ih =>
    rcases hstep.due hmem with hold | ⟨hkept, hdue⟩
    · obtain ⟨earlier, hearlier, hlater, hkept⟩ := ih hold
      exact ⟨earlier, hearlier, .step hlater hstep hcare, hkept⟩
    · exact ⟨_, hrun, .step (.refl _) hstep hcare, hkept, hdue⟩

omit [EpochCodec W] in
theorem not_due_of_drained {rt' : NodeRuntime W} {messages : List (Msg W)}
    (h : drainBufferedCurrentRoundMessages c rt = .ok messages rt')
    (hmem : message ∈ rt'.futureRoundMessages) : ¬Due rt' message := by
  rcases drainBufferedCurrentRoundMessages_cases c rt with ⟨e, hfail⟩ | ⟨head, hhead, hok⟩
  · cases hfail.symm.trans h
  · cases hok.symm.trans h
    rintro ⟨head', hhead', hreach⟩
    cases hhead.symm.trans hhead'
    rw [drained, List.mem_filter] at hmem
    simp only [drained, consensusOrInit_touch] at hreach
    rw [hreach] at hmem
    cases hmem.2

/-- In a run in which no message is refused in the replay while others of its epoch wait after it,
every kept message is passed on exactly once, after its round was reached, unless its epoch has
ended; and that condition is what the next step has to meet. -/
theorem kept_messages_delivered_iff_careful (hnone : rt₀.futureRoundMessages = [])
    (hrun : CarefulRun c (start rt₀) r) :
    Delivered r ∧
    (∀ message ∈ r.passed ++ r.pending, ∃ earlier, CarefulRun c (start rt₀) earlier ∧
      CarefulRun c earlier r ∧ message ∈ earlier.runtime.futureRoundMessages ∧
      Due earlier.runtime message) ∧
    (∀ messages rt', drainBufferedCurrentRoundMessages c r.runtime = .ok messages rt' →
      ∀ message ∈ rt'.futureRoundMessages, ¬Due rt' message) ∧
    ∀ event r', Step c event r r' → (Delivered r' ↔ Careful c r event) := by
  obtain ⟨hdelivered, htarget⟩ := hrun.sound hnone
  refine ⟨hdelivered, fun _ hmem => hrun.due hmem, fun _ _ h _ hmem => not_due_of_drained h hmem, ?_⟩
  exact fun event r' hstep => hdelivered.step_iff htarget hstep

theorem careful_of_answered (h : (r.pending.head?.all fun message =>
    (returned (receiveMessage c message) r.runtime).isSome) = true) : Careful c r .replay := by
  intro message rest hpending hnone
  rw [hpending, List.head?_cons, Option.all_some, hnone] at h
  cases h

end Replay

namespace NumberWord

/-- A dispatch of the second round that gives a wrong hash of its blocks. -/
def forgedDispatch : Dispatch NumberWord :=
  let body : DispatchBody NumberWord := ⟨∅, default, ∅, treeHash ∅⟩
  ⟨signedHeader 4 (genesis 6).target 1 .dispatch body.fields, body⟩

/-- A member of six that has received messages, the last of the list first. -/
def receivedReplay : List (Msg NumberWord) → Replay NumberWord
  | [] => .start (started 6 0)
  | message :: messages => (receivedReplay messages).receive (config .verified 0) message

theorem receivedReplay_run (messages : List (Msg NumberWord)) :
    Replay.CarefulRun (config .verified 0) (.start (started 6 0)) (receivedReplay messages) ∧
      (receivedReplay messages).pending = [] := by
  induction messages with
  | nil => exact ⟨.refl _, rfl⟩
  | cons message messages ih => exact ⟨.step ih.1 (.receive message _) trivial, ih.2⟩

/-- The member after it has moved to the second round and taken messages out. -/
def drainedReplay (messages : List (Msg NumberWord)) : Replay NumberWord :=
  (receivedReplay (.roundSkipCertificate (skip 1 1) :: messages)).drain (config .verified 0)

theorem drainedReplay_run (messages : List (Msg NumberWord)) :
    Replay.CarefulRun (config .verified 0) (.start (started 6 0)) (drainedReplay messages) := by
  obtain ⟨hrun, hpend⟩ := receivedReplay_run (.roundSkipCertificate (skip 1 1) :: messages)
  exact .step hrun (.drain hpend) trivial

end NumberWord

open NumberWord in
/-- A dispatch of the current epoch is discarded because the one before it in the replay is
refused. -/
theorem Replay.refused_message_discards_next :
    ∃ r r' : Replay NumberWord, CarefulRun (config .verified 0) (start (started 6 0)) r ∧
      Step (config .verified 0) .replay r r' ∧
      r'.buffered.map bodyHash = [default, blockSetHash ∅] ∧ r'.passed.map bodyHash = [default] ∧
      r'.pending.length = 0 ∧ r'.runtime.futureRoundMessages.length = 0 ∧
      r'.discarded.map bodyHash = [blockSetHash ∅] ∧
      r'.discarded.map messageTarget = [r'.runtime.state.head?.map Epoch.target] := by
  refine ⟨_, _, drainedReplay_run [.dispatch (lateDispatch 4), .dispatch forgedDispatch], .replay _, ?_⟩
  decide +kernel

open NumberWord in
/-- Two kept dispatches are passed on one after the other. -/
theorem Replay.kept_dispatches_delivered :
    ∃ r : Replay NumberWord, CarefulRun (config .verified 0) (start (started 6 0)) r ∧
      r.passed.map slot = [slot (.dispatch (lateDispatch 4)), slot (.dispatch (lateDispatch 2))] ∧
      Delivered r := by
  let drained := drainedReplay [.dispatch (lateDispatch 2), .dispatch (lateDispatch 4)]
  have hrun : CarefulRun (config .verified 0) (start (started 6 0))
      ((drained.replay (config .verified 0)).replay (config .verified 0)) :=
    .step (.step (drainedReplay_run _) (.replay _) (careful_of_answered (by decide +kernel)))
      (.replay _) (careful_of_answered (by decide +kernel))
  exact ⟨_, hrun, by decide +kernel, (kept_messages_delivered_iff_careful rfl hrun).1⟩

end Blossom
