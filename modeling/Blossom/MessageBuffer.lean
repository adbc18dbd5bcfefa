import Blossom.CertifiedCatchUp
import Blossom.StagedInputs

/-!
# Messages that wait for a later round

A message of a round that the node has not reached is kept, and nothing but the replay of a reached
round takes it out again.
-/

namespace Blossom

open CheckedSteps OrderedMap StatefulSteps Relation LocalState NodeRuntime

variable {W : Type} [ProtocolCrypto W] [ShuffleSeed W]
variable {epoch head : Epoch W} {s s' : LocalState W} {message : Msg W} {round : ℕ}

namespace NodeRuntime

/-- A step that leaves the kept messages as they are and updates the state. -/
def Keeps (rt rt' : NodeRuntime W) : Prop :=
  rt'.futureRoundMessages = rt.futureRoundMessages ∧
    ReflTransGen Update rt.state rt'.state

variable {c : RuntimeConfig W} {rt rt' : NodeRuntime W}

theorem Keeps.refl (rt : NodeRuntime W) : Keeps rt rt := ⟨rfl, .refl⟩

theorem Keeps.trans {rt'' : NodeRuntime W} (h : Keeps rt rt') (h' : Keeps rt' rt'') :
    Keeps rt rt'' :=
  ⟨h'.1.trans h.1, h.2.trans h'.2⟩

theorem keeps_of_steps (h : ReflTransGen Keeps rt rt') : Keeps rt rt' := by
  induction h with
  | refl => exact .refl rt
  | tail _ hstep ih => exact ih.trans hstep

theorem keeps_onState {α : Type} {m : StateOperation W α} {Q : α → LocalState W → Prop}
    (h : Run Update rt.state m Q) :
    Run Keeps rt (onState m) fun a rt' => Q a rt'.state := by
  unfold Run onState
  simp only [Run] at h
  cases hm : m rt.state with
  | ok a s =>
    simp only [hm] at h
    exact ⟨.single ⟨rfl, h.1⟩, h.2⟩
  | error e s =>
    simp only [hm] at h
    exact .single ⟨rfl, h⟩

/-!
## Received messages
-/

section Target

variable {s s' : LocalState W}

omit [ShuffleSeed W] in
theorem nextEpochTarget_returns {target : EpochNonce W} :
    nextEpochTarget c s = .ok target s' ↔
      c.mode ≠ .overlay ∧ s' = s ∧ ∃ head, s.head? = some head ∧ head.target = target := by
  simp only [nextEpochTarget, bind_returns, check_returns, reading_returns, ensureConsensusMode,
    reject_eq_ok, bind_eq_ok, require_eq_ok, pure_eq_ok]
  constructor
  · rintro ⟨_, s₁, ⟨hmode, rfl⟩, ⟨head, hhead, htgt⟩, rfl⟩
    exact ⟨hmode, rfl, head, hhead, htgt⟩
  · rintro ⟨hmode, rfl, head, hhead, htgt⟩
    exact ⟨(), s', ⟨hmode, rfl⟩, ⟨head, hhead, htgt⟩, rfl⟩

omit [ShuffleSeed W] in
theorem nextEpochTarget_fails {e : Failure} (h : nextEpochTarget c s = .error e s') : s' = s := by
  rcases bind_fails.mp h with hcheck | ⟨_, s₁, hcheck, hread⟩
  · exact (check_fails.mp hcheck).2
  · exact (reading_fails.mp hread).2.trans (check_returns.mp hcheck).2

theorem nextEpochTarget_run :
    Run Update rt.state (nextEpochTarget c) fun target s =>
      s = rt.state ∧ ∃ head, rt.state.head? = some head ∧ target = head.target := by
  refine Run.bind_check fun _ _ => Run.reading fun target htgt => ?_
  simp only [bind_eq_ok, require_eq_ok, pure_eq_ok] at htgt
  obtain ⟨head, hhead, rfl⟩ := htgt
  exact ⟨rfl, head, hhead, rfl⟩

theorem withConsensus_get_cases (target : EpochNonce W) :
    (∃ e, withConsensus target get s = .error e s) ∨
      withConsensus target get s = .ok (s.consensusOrInit target) (s.touch target) := by
  unfold withConsensus
  split
  · exact .inl ⟨_, rfl⟩
  · exact .inr rfl

end Target

section Received

variable [EpochCodec W]

theorem appendDurableEpoch_keeps {roundId : TrustedRoundId W} :
    Run Keeps rt (appendDurableEpoch epoch roundId) fun _ rt' => rt'.state = rt.state := by
  refine Run.bind_get ?_
  split
  · exact Run.pure rfl
  · refine Run.bind_check fun log _ => Run.bind_set (.single ⟨rfl, .refl⟩) ?_
    refine Run.bind_check fun pending _ => Run.bind_check fun queue _ => ?_
    exact Run.ofSet (.single ⟨rfl, .refl⟩) rfl

theorem completeTrustedVerification_keeps {blocksHash : W} :
    Run Keeps rt (completeTrustedVerification c round blocksHash) fun _ _ => True := by
  refine Run.bind_check fun _ _ => Run.bind_check fun _ _ => ?_
  refine Run.bind (keeps_onState nextEpochTarget_run) fun target rt₁ htgt => Run.bind_get ?_
  refine Run.bind_check fun consensus _ => Run.bind_check fun q _ => ?_
  split
  · exact Run.pure trivial
  · refine Run.bind_check fun previous hprev => ?_
    rw [require_eq_ok] at hprev
    obtain ⟨hstate, head, hhead, rfl⟩ := htgt
    rw [← hstate] at hhead
    split
    · exact (keeps_onState (advanceTrustedRound_run hhead)).mono fun _ _ _ => trivial
    · refine Run.bind_check fun epoch _ => ?_
      refine Run.bind appendDurableEpoch_keeps fun _ rt₂ _ => ?_
      split
      · exact Run.pure trivial
      · exact Run.bind (keeps_onState installTrustedEpoch_run) fun _ _ _ =>
          Run.pure trivial

theorem tryCompleteTrustedVerification_keeps :
    Run Keeps rt (tryCompleteTrustedVerification c round) fun _ _ => True := by
  rw [tryCompleteTrustedVerification]
  split
  · exact Run.pure trivial
  · refine Run.bind (keeps_onState nextEpochTarget_run) fun target rt₁ _ => Run.bind_get ?_
    split
    · exact Run.pure trivial
    · exact completeTrustedVerification_keeps

theorem receiveVerification_keeps {message : Verification W} :
    Run Keeps rt (receiveVerification c message) fun _ _ => True := by
  rw [receiveVerification]
  split
  · refine Run.bind (keeps_onState receiveTrustedConfirmation_run) fun _ _ _ => ?_
    exact Run.bind tryCompleteTrustedVerification_keeps fun _ _ _ => Run.pure trivial
  · exact keeps_onState receiveVerifiedVerification_run

/-- Unless it starts an epoch, a message is for the target after the head. -/
def Targeted (s : LocalState W) (message : Msg W) : Prop :=
  ∀ header kind body, message.signed = some (header, kind, body) → kind ≠ .epochStarted →
    ∃ head, s.head? = some head ∧ header.target = head.target

omit [ShuffleSeed W] [EpochCodec W] in
theorem verifyMessageEnvelope_run {R : LocalState W → LocalState W → Prop} :
    Run R s (verifyMessageEnvelope c message) fun _ s' => s' = s ∧ Targeted s message := by
  rw [verifyMessageEnvelope]
  split
  next hnone => exact Run.pure ⟨rfl, by simp [Targeted, hnone]⟩
  next header kind body hsig =>
    split
    next hstarted =>
      refine Run.check fun _ _ => ⟨rfl, fun header' kind' body' hsig' hkind => ?_⟩
      cases hsig.symm.trans hsig'
      exact absurd hstarted.1 hkind
    next =>
      refine ensureCurrentHeaderTarget_bind fun head hhead htgt => Run.check fun _ _ => ?_
      refine ⟨rfl, fun header' kind' body' hsig' _ => ?_⟩
      cases hsig.symm.trans hsig'
      exact ⟨head, hhead, htgt⟩

omit [EpochCodec W] in
theorem receiveEpochStarted_keeps {message : EpochStarted W} :
    Run Keeps rt (receiveEpochStarted c message) fun _ _ => True := by
  refine Run.bind (keeps_onState verifyMessageEnvelope_run) fun _ rt₁ _ => ?_
  refine Run.bind (keeps_onState (Q := fun tip s => s.head? = some tip)
    (Run.reading fun tip htip => require_eq_ok.mp htip)) fun tip rt₂ htip => ?_
  refine Run.bind_check fun _ _ => ?_
  refine Run.bind (keeps_onState (Q := fun _ s => s.head? = some tip) ?_) fun isPeer rt₃ htip₃ => ?_
  · split
    next htgt =>
      rw [htgt]
      exact withConsensus_read htip (Run.bind_get (Run.pure htip))
    next => exact Run.pure htip
  refine Run.bind_check fun _ _ => Run.bind_check fun _ _ => Run.bind_check fun _ _ => ?_
  split
  next =>
    refine Run.bind_get ?_
    split
    next => exact Run.bind_set (.single ⟨rfl, .refl⟩) (Run.pure trivial)
    next previous _ =>
      refine Run.bind_check fun _ _ => ?_
      split
      next => exact Run.bind_set (.single ⟨rfl, .refl⟩) (Run.pure trivial)
      next => exact Run.pure trivial
  next htgt =>
    rw [not_not] at htgt
    split
    next =>
      rw [htgt]
      exact Run.bind (keeps_onState (withQuorum_update htip₃)) fun _ _ _ =>
        Run.pure trivial
    next => exact Run.pure trivial

theorem applyMessage_keeps : Run Keeps rt (applyMessage c message) fun _ _ => True := by
  cases message with
  | dispatch m => exact keeps_onState receiveDispatch_run
  | echoResponse m => exact keeps_onState receiveEchoResponse_run
  | verification m => exact receiveVerification_keeps
  | proposal m => exact keeps_onState receiveProposal_run
  | commit m => exact keeps_onState receiveCommit_run
  | epochStarted m => exact receiveEpochStarted_keeps
  | echoRequest m => exact keeps_onState receiveEchoRequest_run
  | echoReDispatch m => exact keeps_onState receiveEchoRedispatch_run
  | roundSkipVote m => exact keeps_onState receiveRoundSkipVote_run
  | roundSkipCertificate m => exact keeps_onState receiveRoundSkipCertificate_run
  | reconcileAppraisal m => exact keeps_onState receiveReconcileAppraisal_run
  | reconcileRequest m => exact keeps_onState receiveReconcileRequest_run
  | reconcileResponse m => exact keeps_onState receiveReconcileResponse_run
  | reconcileCommit m => exact keeps_onState receiveReconcileCommit_run
  | trustedAcknowledgement m => exact keeps_onState receiveTrustedAcknowledgement_run
  | ok => exact Run.pure trivial
  | fail => exact Run.pure trivial

end Received

/-!
## What is kept
-/

/-- The kinds of the messages that may wait. -/
def bufferedKinds : List MsgKey :=
  [.dispatch, .echoResponse, .echoRequest, .echoReDispatch, .verification, .proposal, .commit,
    .reconcileAppraisal, .reconcileRequest, .reconcileResponse, .reconcileCommit,
    .trustedAcknowledgement]

def MayCommit (s : LocalState W) (head : Epoch W) (header : Header W) : Prop :=
  if (s.consensusOrInit head.target).peers.length = header.round + 1 then
    head.body.verifiers.contains header.sender = true
  else header.sender ∈ (s.consensusOrInit head.target).peersWithUs header.round

/-- A message for a later round of the target after a head, from a member of that round or from a
node that may vote in it. -/
structure IsFuture (s : LocalState W) (head : Epoch W) (message : Msg W) (header : Header W)
    (kind : MsgKey) : Prop where
  signed : ∃ body, message.signed = some (header, kind, body)
  kind : kind ∈ bufferedKinds
  target : header.target = head.target
  round : (s.consensusOrInit head.target).round < header.round
  sender : (s.consensusOrInit head.target).isPeerMemberOfRound header.sender header.round = true ∨
    MayCommit s head header

section Future

variable {s : LocalState W} {head : Epoch W} {message : Msg W} {header : Header W}

theorem commitSenderAndThreshold_sender (hhead : s.head? = some head)
    (htgt : header.target = head.target) :
    Run Update s (commitSenderAndThreshold header) fun result s' =>
      s' = s.touch head.target ∧ (result.1 = true → MayCommit s head header) := by
  apply Run.bind_get
  apply Run.bind_check
  intro previous hprev
  rw [require_eq_ok, hhead, Option.some.injEq] at hprev
  subst hprev
  refine Run.bind_check fun _ _ => ?_
  rw [htgt]
  refine withConsensus_read hhead (Run.bind_get ?_)
  split
  next hlast => exact Run.pure ⟨rfl, fun h => by rw [MayCommit, if_pos hlast]; exact h⟩
  next hlast =>
    refine Run.pure ⟨rfl, fun h => ?_⟩
    rw [MayCommit, if_neg hlast]
    exact List.contains_iff_mem.mp h

theorem commitSenderAndThreshold_error {e : Failure}
    (h : commitSenderAndThreshold header s = .error e s') : s' = s := by
  rw [commitSenderAndThreshold, bind_get] at h
  rcases bind_fails.mp h with hhead | ⟨previous, s₁, hhead, hrest⟩
  · exact (check_fails.mp hhead).2
  obtain ⟨-, rfl⟩ := check_returns.mp hhead
  rcases bind_fails.mp hrest with htgt | ⟨_, s₂, htgt, hlook⟩
  · exact (check_fails.mp htgt).2
  obtain ⟨-, rfl⟩ := check_returns.mp htgt
  rw [withConsensus] at hlook
  split at hlook
  · cases hlook
    rfl
  · -- the look at the consensus does not fail
    split at hlook
    · cases hlook
    next hfailed =>
      rw [bind_get] at hfailed
      split at hfailed
      · cases hfailed
      · cases hfailed

theorem isFinalCommit_sender {kind : MsgKey} (hhead : s.head? = some head)
    (htgt : header.target = head.target) :
    Run Update s (isFinalCommit header kind) fun final s' => s'.head? = some head ∧
      s'.consensusOrInit head.target = s.consensusOrInit head.target ∧
      (final = true → MayCommit s head header) := by
  rw [isFinalCommit]
  split
  · refine Run.bind (Q := fun result s' => s'.head? = some head ∧
      s'.consensusOrInit head.target = s.consensusOrInit head.target ∧
      ∀ vote, result = some vote → vote.1 = true → MayCommit s head header)
      (Run.attempt ?_ fun _ s' h => ?_) ?_
    · refine (commitSenderAndThreshold_sender hhead htgt).mono ?_
      rintro result _ ⟨rfl, h⟩
      refine ⟨hhead, consensusOrInit_touch s _, ?_⟩
      rintro _ ⟨⟩
      exact h
    · rw [commitSenderAndThreshold_error h]
      exact ⟨hhead, rfl, by simp⟩
    · rintro result s' ⟨hhead', hsame, h⟩
      refine Run.pure ⟨hhead', hsame, fun hfinal => ?_⟩
      cases result with
      | none => cases hfinal
      | some vote => exact h vote rfl hfinal
  · exact Run.pure ⟨hhead, rfl, by simp⟩

theorem isFutureRoundMessage_future (htgt : Targeted s message) :
    Run Update s (isFutureRoundMessage message) fun future s' => future = true →
      ∃ head header kind, s.head? = some head ∧ s'.head? = some head ∧
        IsFuture s head message header kind := by
  rw [isFutureRoundMessage]
  cases hsig : message.signed with
  | none => exact Run.pure (by simp)
  | some signed =>
    obtain ⟨header, kind, body⟩ := signed
    dsimp only
    split
    · exact Run.pure (by simp)
    · next hkind =>
      have hbuffered : kind ∈ bufferedKinds := by
        cases kind <;> simp_all [bufferedKinds]
      obtain ⟨head, hhead, ht⟩ := htgt header kind body hsig (by tauto)
      refine Run.bind (isFinalCommit_sender hhead ht) fun final s₁ hfinal => ?_
      obtain ⟨hhead₁, hsame, hcommit⟩ := hfinal
      rw [ht]
      refine Run.bind (Q := fun result s' => result =
          ((s.consensusOrInit head.target).isPeerMemberOfRound header.sender header.round,
            (s.consensusOrInit head.target).round) ∧ s'.head? = some head) ?_ ?_
      · refine withConsensus_read hhead₁ (Run.bind_get (Run.pure ?_))
        rw [hsame]
        exact ⟨rfl, hhead₁⟩
      rintro _ s₂ ⟨rfl, hhead₂⟩
      dsimp only
      split
      · exact Run.pure (by simp)
      · next hfuture =>
        simp only [not_or, not_and, Bool.not_eq_false, not_le] at hfuture
        have hres : IsFuture s head message header kind := by
          refine ⟨⟨body, hsig⟩, hbuffered, ht, hfuture.2, ?_⟩
          cases final with
          | true => exact .inr (hcommit rfl)
          | false => exact .inl (hfuture.1 rfl)
        split
        · refine Run.bind (seedPrefillDispatchesIntoQuorum_run hhead₂) fun _ s₃ hhead₃ => ?_
          exact Run.bind (withQuorum_update hhead₃) fun _ _ hhead₄ =>
            Run.pure fun _ => ⟨head, header, kind, hhead, hhead₄, hres⟩
        · exact Run.pure fun _ => ⟨head, header, kind, hhead, hhead₂, hres⟩

end Future

def futureRoundBuffered : String := "future_round_buffered"

section Answers

variable {σ : Type}

def NotBuffering (m : Action σ Failure String) : Prop :=
  ∀ s a s', m s = .ok a s' → a ≠ futureRoundBuffered

theorem NotBuffering.bind {α : Type} {m : Action σ Failure α} {f : α → Action σ Failure String}
    (h : ∀ a, NotBuffering (f a)) : NotBuffering (m >>= f) := by
  intro s b s' hb
  obtain ⟨a, s₁, -, hf⟩ := bind_returns.mp hb
  exact h a s₁ b s' hf

theorem NotBuffering.pure {answer : String} (h : answer ≠ futureRoundBuffered) :
    NotBuffering (pure answer : Action σ Failure String) := by
  rintro s _ s' ⟨⟩
  exact h

omit [ShuffleSeed W] in
theorem NotBuffering.onState {m : StateOperation W String} (h : NotBuffering m) :
    NotBuffering (NodeRuntime.onState m) := by
  intro rt a rt' ha
  obtain ⟨s, hs, -⟩ := onState_returns.mp ha
  exact h _ _ _ hs

end Answers

variable [EpochCodec W]

theorem applyMessage_notBuffering (message : Msg W) : NotBuffering (applyMessage c message) := by
  cases message with
  | verification m =>
    change NotBuffering (receiveVerification c m)
    rw [receiveVerification]
    split
    · exact .bind fun _ => .bind fun _ => .pure (by decide)
    · refine .onState ?_
      repeat refine .bind fun _ => ?_
      exact .pure (by decide)
  | proposal m =>
    refine .onState ?_
    repeat refine .bind fun _ => ?_
    split
    · exact .bind fun _ => .pure (by decide)
    · exact .pure (by decide)
  | epochStarted m =>
    change NotBuffering (receiveEpochStarted c m)
    repeat refine .bind fun _ => ?_
    split
    · refine .bind fun _ => ?_
      dsimp only
      split
      · exact .bind fun _ => .pure (by decide)
      · refine .bind fun _ => ?_
        split
        · exact .bind fun _ => .pure (by decide)
        · exact .pure (by decide)
    · split
      · exact .bind fun _ => .pure (by decide)
      · exact .pure (by decide)
  | ok => exact .pure (by decide)
  | fail => exact .pure (by decide)
  | _ =>
    -- the other handlers end with their own answer
    refine .onState ?_
    repeat refine .bind fun _ => ?_
    exact .pure (by decide)

omit [EpochCodec W] in
theorem bufferFutureRoundMessageIfNeeded_eq (message : Msg W) (rt : NodeRuntime W) :
    bufferFutureRoundMessageIfNeeded message rt = match isFutureRoundMessage message rt.state with
      | .ok true s => .ok true { rt with
          state := s, futureRoundMessages := rt.futureRoundMessages ++ [message] }
      | .ok false s => .ok false { rt with state := s }
      | .error e s => .error e { rt with state := s } := by
  unfold bufferFutureRoundMessageIfNeeded
  cases h : isFutureRoundMessage message rt.state with
  | error e s => exact bind_of_error (by rw [onState, h]) _
  | ok future s =>
    have hcall : onState (isFutureRoundMessage message) rt = .ok future { rt with state := s } := by
      rw [onState, h]
    rw [bind_of_ok hcall]
    cases future <;> rfl

/-- A message is kept, and answered so, when it is of a later round; any other message leaves the
kept ones as they are. -/
theorem receiveMessage_spec (c : RuntimeConfig W) (rt : NodeRuntime W) (message : Msg W) :
    (∃ (head : Epoch W) (header : Header W) (kind : MsgKey) (rt' : NodeRuntime W),
      receiveMessage c message rt = .ok futureRoundBuffered rt' ∧
      rt'.futureRoundMessages = rt.futureRoundMessages ++ [message] ∧
      ReflTransGen Update rt.state rt'.state ∧ rt.state.head? = some head ∧
      rt'.state.head? = some head ∧ IsFuture rt.state head message header kind) ∨
    (Keeps rt (after (receiveMessage c message) rt) ∧
      ∀ rt', receiveMessage c message rt ≠ .ok futureRoundBuffered rt') := by
  -- A failure before the message is handled changes nothing, and its handling keeps the buffer.
  have hfailed {e : Failure} {rt' : NodeRuntime W} (h : receiveMessage c message rt = .error e rt')
      (hkeeps : Keeps rt rt') : Keeps rt (after (receiveMessage c message) rt) ∧
        ∀ rt', receiveMessage c message rt ≠ .ok futureRoundBuffered rt' := by
    rw [after_of_error h, h]
    exact ⟨hkeeps, fun _ hbad => by cases hbad⟩
  cases hmode : ensureConsensusMode c "receive consensus message" with
  | error e => exact .inr (hfailed (bind_of_error (check_fails.mpr ⟨hmode, rfl⟩) _) (.refl rt))
  | ok _ =>
    have hstart := bind_of_ok (s := rt) (check_returns.mpr ⟨hmode, rfl⟩) fun _ => do
      onState (verifyMessageEnvelope c message)
      let buffered ← bufferFutureRoundMessageIfNeeded message
      if buffered then pure futureRoundBuffered else applyMessage c message
    have hrun : Run Keeps rt (onState (verifyMessageEnvelope c message)) _ :=
      keeps_onState verifyMessageEnvelope_run
    cases henv : onState (verifyMessageEnvelope c message) rt with
    | error e rt₁ =>
      exact .inr (hfailed (hstart.trans (bind_of_error henv _))
        (keeps_of_steps (hrun.of_error henv)))
    | ok _ rt₁ =>
      obtain ⟨s, hs, rfl⟩ := onState_returns.mp henv
      obtain ⟨-, rfl, hfacts⟩ := verifyMessageEnvelope_run (R := Eq) |>.of_ok hs
      have hnext := hstart.trans (bind_of_ok henv _)
      have hbuffer := bufferFutureRoundMessageIfNeeded_eq message rt
      have hfuture := isFutureRoundMessage_future hfacts
      cases hs : isFutureRoundMessage message rt.state with
      | error e s =>
        rw [hs] at hbuffer
        exact .inr (hfailed (hnext.trans (bind_of_error hbuffer _)) ⟨rfl, hfuture.of_error hs⟩)
      | ok future s =>
        obtain ⟨hsteps, hheld⟩ := hfuture.of_ok hs
        rw [hs] at hbuffer
        cases future with
        | true =>
          obtain ⟨head, header, kind, hhead, hhead', hmsg⟩ := hheld rfl
          exact .inl ⟨head, header, kind, _, hnext.trans (bind_of_ok hbuffer _), rfl, hsteps, hhead,
            hhead', hmsg⟩
        | false =>
          have happly : receiveMessage c message rt =
              applyMessage c message { rt with state := s } := hnext.trans (bind_of_ok hbuffer _)
          refine .inr ⟨?_, fun rt' h => applyMessage_notBuffering message _ _ rt'
            (happly.symm.trans h) rfl⟩
          have hkeep : Keeps rt { rt with state := s } := ⟨rfl, hsteps⟩
          rw [after, happly]
          exact hkeep.trans (keeps_of_steps applyMessage_keeps.after)

end NodeRuntime

/-!
## The topology of the current target
-/

/-- The consensus of the target after the head has the rounds of the head's topology, and there is
none of a later target. -/
def TopologySound (s : LocalState W) : Prop :=
  ∀ head, s.head? = some head → ∀ (target : EpochNonce W) (c : TempConsensus W),
    s.getConsensus target = some c → target.nonce ≤ head.target.nonce ∧
      (target = head.target → c.selfKey = s.selfNode.publicKey ∧
        c.peers = s.peersInConsensus head.hash)

section Topology

variable {s s' : LocalState W} {head : Epoch W}

theorem TopologySound.peers (h : TopologySound s) (hhead : s.head? = some head) :
    (s.consensusOrInit head.target).peers = s.peersInConsensus head.hash ∧
      (s.consensusOrInit head.target).selfKey = s.selfNode.publicKey := by
  cases hc : s.getConsensus head.target with
  | none =>
    rw [consensusOrInit, hc]
    exact ⟨rfl, rfl⟩
  | some c =>
    rw [consensusOrInit_eq hc]
    have := (h head hhead _ c hc).2 rfl
    exact ⟨this.2, this.1⟩

theorem TopologySound.later (h : TopologySound s) (hhead : s.head? = some head)
    (hhead' : s'.head? = some epoch) (hnonce : head.body.nonce < epoch.body.nonce)
    (hcons : ∀ (target : EpochNonce W) (c : TempConsensus W), s'.getConsensus target = some c →
      s.getConsensus target = some c) :
    TopologySound s' := by
  intro head' hsame target c hc
  cases hhead'.symm.trans hsame
  have hle := (h head hhead target c (hcons target c hc)).1
  simp only [Epoch.target] at hle ⊢
  refine ⟨by omega, fun htgt => ?_⟩
  rw [htgt] at hle
  simp only at hle
  omega

omit [ShuffleSeed W] in
theorem getConsensus_of_append {target : EpochNonce W} {c : TempConsensus W}
    (h : (s.append epoch).getConsensus target = some c) : s.getConsensus target = some c := by
  rw [getConsensus, LocalState.append, Std.ExtTreeMap.getElem?_filter',
    Option.filter_eq_some_iff] at h
  exact h.1

theorem TopologySound.update (h : TopologySound s) (hupdate : Update s s') :
    TopologySound s' := by
  cases hupdate with
  | @consensus head c hhead hsame =>
    intro head' hhead' target c' hc'
    cases hhead.symm.trans hhead'
    by_cases htgt : head.target = target
    · subst htgt
      rw [getConsensus_setConsensus, Option.some.injEq] at hc'
      subst hc'
      obtain ⟨hpeers, hself⟩ := h.peers hhead
      exact ⟨le_rfl, fun _ => ⟨hsame.2.trans hself, hsame.1.trans hpeers⟩⟩
    · rw [getConsensus_setConsensus_ne _ _ _ htgt] at hc'
      exact h head hhead target c' hc'
  | prefill records => exact h
  | append epoch hhead hnonce =>
    exact h.later hhead List.getLast?_concat (by omega) fun _ _ => getConsensus_of_append
  | @extend head last epochs hhead hlast hnonce =>
    have hnew : (s.epochchain ++ epochs).getLast? = some last := by
      rw [List.getLast?_append, hlast, Option.some_or]
    exact h.later hhead hnew hnonce fun _ _ hc => hc

theorem topologySound_of_updates (h : TopologySound s)
    (hsteps : ReflTransGen Update s s') : TopologySound s' := by
  induction hsteps with
  | refl => exact h
  | tail _ hstep ih => exact ih.update hstep

theorem selfNode_of_updates (hsteps : ReflTransGen Update s s') :
    s'.selfNode = s.selfNode := by
  induction hsteps with
  | refl => rfl
  | tail _ hstep ih =>
    refine Eq.trans ?_ ih
    cases hstep <;> rfl

theorem mem_verifiers_of_peers {members : BTreeSet W} {sender : W} (hhead : s.head? = some head)
    (hround : (s.peersInConsensus head.hash)[round]? = some members) (hsend : sender ∈ members) :
    sender ∈ head.body.verifiers := by
  rw [peersInConsensus, hhead] at hround
  simp only [List.getElem?_map, Option.map_eq_some_iff] at hround
  obtain ⟨quorum, hquorum, rfl⟩ := hround
  have hself : s.selfNode.publicKey ∈ head.body.verifiers := by
    -- A node that is no verifier has no rounds.
    by_contra hself
    rw [← Std.ExtTreeMap.mem_keys] at hself
    rw [selectQuorumsFromIndexTreeWithSize, List.idxOf?_eq_none_iff.mpr hself] at hquorum
    simp at hquorum
  exact ((selectQuorums_eq_of_mem hself hquorum).2.2 sender
    (Std.ExtTreeSet.mem_of_mem_erase hsend)).1

end Topology

namespace NodeRuntime

def slot (message : Msg W) : Option (W × ℕ × MsgKey) :=
  message.signed.map fun (header, kind, _) => (header.sender, header.round, kind)

def slots (s : LocalState W) (head : Epoch W) : List (W × ℕ × MsgKey) :=
  head.body.verifiers.keys ×ˢ List.range (s.peersInConsensus head.hash).length ×ˢ bufferedKinds

variable {c : RuntimeConfig W} {rt rt' rt₀ : NodeRuntime W}

theorem IsFuture.slot_mem {header : Header W} {kind : MsgKey}
    (h : IsFuture s head message header kind) (hs : TopologySound s) (hhead : s.head? = some head)
    (hself : header.sender ≠ s.selfNode.publicKey) :
    ∃ place ∈ slots s head, slot message = some place := by
  obtain ⟨hpeers, hkey⟩ := hs.peers hhead
  have hmem {members : BTreeSet W} (hround : (s.peersInConsensus head.hash)[header.round]? =
      some members) (hsend : header.sender ∈ members) :
      header.round < (s.peersInConsensus head.hash).length ∧
        header.sender ∈ head.body.verifiers :=
    ⟨(List.getElem?_eq_some_iff.mp hround).1, mem_verifiers_of_peers hhead hround hsend⟩
  have hplace : header.round < (s.peersInConsensus head.hash).length ∧
      header.sender ∈ head.body.verifiers := by
    rcases h.sender with hpeer | hcommit
    · rw [TempConsensus.isPeerMemberOfRound, hpeers] at hpeer
      cases hround : (s.peersInConsensus head.hash)[header.round]? with
      | none => simp [hround] at hpeer
      | some members =>
        rw [hround] at hpeer
        exact hmem hround (Std.ExtTreeSet.contains_iff_mem.mp hpeer)
    · rw [MayCommit, hpeers] at hcommit
      split at hcommit
      next hlast => exact ⟨by omega, Std.ExtTreeMap.contains_iff_mem.mp hcommit⟩
      next =>
        rw [TempConsensus.peersWithUs, hpeers, hkey, Std.ExtTreeSet.mem_toList,
          Std.ExtTreeSet.mem_insert, Std.LawfulEqCmp.compare_eq_iff_eq] at hcommit
        cases hround : (s.peersInConsensus head.hash)[header.round]? with
        | none =>
          rw [hround] at hcommit
          simp [hself.symm] at hcommit
        | some members =>
          rw [hround] at hcommit
          exact hmem hround (hcommit.resolve_left hself.symm)
  obtain ⟨body, hsig⟩ := h.signed
  refine ⟨(header.sender, header.round, kind), ?_, by rw [slot, hsig]; rfl⟩
  simp [slots, hplace, h.kind]

/-- The messages that a drain takes out, in the order of their keys. -/
def reachedMessages (rt : NodeRuntime W) (head : Epoch W) : List (Msg W) :=
  (rt.futureRoundMessages.filter
    (isReached head.target (rt.state.consensusOrInit head.target).round)).insertionSort
      fun a b => bufferKey a ≤ bufferKey b

def drained (rt : NodeRuntime W) (head : Epoch W) : NodeRuntime W :=
  { rt with
    state := rt.state.touch head.target
    futureRoundMessages := rt.futureRoundMessages.filter
      (!isReached head.target (rt.state.consensusOrInit head.target).round ·) }

/-- A drain takes out the messages of the reached rounds, or fails without a change. -/
theorem drainBufferedCurrentRoundMessages_cases (c : RuntimeConfig W) (rt : NodeRuntime W) :
    (∃ e, drainBufferedCurrentRoundMessages c rt = .error e rt) ∨
    ∃ head, rt.state.head? = some head ∧
      drainBufferedCurrentRoundMessages c rt = .ok (rt.reachedMessages head) (rt.drained head) := by
  unfold drainBufferedCurrentRoundMessages
  cases hnext : nextEpochTarget c rt.state with
  | error e s =>
    obtain rfl := nextEpochTarget_fails hnext
    exact .inl ⟨e, bind_of_error (by rw [onState, hnext]) _⟩
  | ok target s =>
    obtain ⟨-, rfl, head, hhead, rfl⟩ := nextEpochTarget_returns.mp hnext
    have htgt : onState (nextEpochTarget c) rt = .ok head.target rt := by rw [onState, hnext]
    rw [bind_of_ok htgt]
    rcases withConsensus_get_cases (s := rt.state) head.target with ⟨e, hpanic⟩ | hlook
    · exact .inl ⟨e, bind_of_error (by rw [onState, hpanic]) _⟩
    · refine .inr ⟨head, hhead, ?_⟩
      have hcons : onState (withConsensus head.target get) rt =
          .ok (rt.state.consensusOrInit head.target)
            { rt with state := rt.state.touch head.target } := by
        rw [onState, hlook]
      rw [bind_of_ok hcons, bind_get, List.partition_eq_filter_filter]
      rfl

inductive BufferEvent (W : Type) [LinearOrder W] where
  | receive (message : Msg W)
  | drain
  | other

variable [EpochCodec W]

/-- The steps of a runtime as far as the kept messages are concerned: it receives a message, it takes
out those of the reached rounds, or it does something else, which keeps them. -/
inductive BufferStep (c : RuntimeConfig W) :
    BufferEvent W → NodeRuntime W → NodeRuntime W → Prop
  | receive (message : Msg W) (rt : NodeRuntime W) :
      BufferStep c (.receive message) rt (after (receiveMessage c message) rt)
  | drain (rt : NodeRuntime W) :
      BufferStep c .drain rt (after (drainBufferedCurrentRoundMessages c) rt)
  | other {rt rt' : NodeRuntime W} : Keeps rt rt' → BufferStep c .other rt rt'

/-- A received message is not kept a second time: no message of its sender, round and kind is kept
already, and it is not the node's own. -/
def FirstOfSlot (c : RuntimeConfig W) (rt : NodeRuntime W) : BufferEvent W → Prop
  | .receive message => ∀ rt', receiveMessage c message rt = .ok futureRoundBuffered rt' →
      (∀ kept ∈ rt.futureRoundMessages, slot kept ≠ slot message) ∧
        ∀ header kind body, message.signed = some (header, kind, body) →
          header.sender ≠ rt.state.selfNode.publicKey
  | .drain | .other => True

/-- A run in which every message is kept once and none is kept when the head changes. -/
inductive ThriftyRun (c : RuntimeConfig W) : NodeRuntime W → NodeRuntime W → Prop
  | refl (rt : NodeRuntime W) : ThriftyRun c rt rt
  | step {rt₀ rt rt' : NodeRuntime W} {event : BufferEvent W} : ThriftyRun c rt₀ rt →
      BufferStep c event rt rt' → FirstOfSlot c rt event →
      (rt'.state.head? ≠ rt.state.head? → rt'.futureRoundMessages = []) → ThriftyRun c rt₀ rt'

/-- Every kept message has a place of its own in the topology of the current target. -/
structure BufferSound (rt : NodeRuntime W) : Prop where
  topology : TopologySound rt.state
  places : ∀ message ∈ rt.futureRoundMessages, ∃ head, rt.state.head? = some head ∧
    ∃ place ∈ slots rt.state head, slot message = some place
  distinct : (rt.futureRoundMessages.map slot).Nodup

omit [EpochCodec W] in
theorem slots_eq (hself : s'.selfNode = s.selfNode) (hhead : s'.head? = s.head?) :
    slots s' head = slots s head := by
  rw [slots, slots, peersInConsensus, peersInConsensus, hhead, hself]

omit [EpochCodec W] in
theorem BufferSound.fewer (h : BufferSound rt)
    (hsub : rt'.futureRoundMessages.Sublist rt.futureRoundMessages)
    (hsteps : ReflTransGen Update rt.state rt'.state)
    (hhead : rt'.state.head? ≠ rt.state.head? → rt'.futureRoundMessages = []) :
    BufferSound rt' := by
  refine ⟨topologySound_of_updates h.topology hsteps, fun message hmsg => ?_,
    h.distinct.sublist (hsub.map slot)⟩
  have hsame : rt'.state.head? = rt.state.head? := by
    by_contra hne
    rw [hhead hne] at hmsg
    cases hmsg
  obtain ⟨head, hold, place, hplace, hslot⟩ := h.places message (hsub.subset hmsg)
  refine ⟨head, hsame.trans hold, place, ?_, hslot⟩
  rw [slots_eq (selfNode_of_updates hsteps) hsame]
  exact hplace

theorem BufferSound.step {event : BufferEvent W} (h : BufferSound rt)
    (hstep : BufferStep c event rt rt') (hfirst : FirstOfSlot c rt event)
    (hhead : rt'.state.head? ≠ rt.state.head? → rt'.futureRoundMessages = []) :
    BufferSound rt' := by
  cases hstep with
  | receive message =>
    rcases receiveMessage_spec c rt message with
      ⟨head, header, kind, rt'', hrcv, hkept, hsteps, hold, hnew, hfuture⟩ | ⟨hkeeps, -⟩
    · rw [after_of_ok hrcv]
      obtain ⟨hunused, hown⟩ := hfirst rt'' hrcv
      obtain ⟨body, hsig⟩ := hfuture.signed
      obtain ⟨place, hplace, hslot⟩ := hfuture.slot_mem h.topology hold
        (hown header kind body hsig)
      have hsame : slots rt''.state head = slots rt.state head :=
        slots_eq (selfNode_of_updates hsteps) (hnew.trans hold.symm)
      refine ⟨topologySound_of_updates h.topology hsteps, fun kept hmem => ?_, ?_⟩
      · rw [hkept] at hmem
        rcases List.mem_append.mp hmem with hmem | hmem
        · obtain ⟨head', hhead', place', hplace', hslot'⟩ := h.places kept hmem
          cases hold.symm.trans hhead'
          exact ⟨head, hnew, place', hsame ▸ hplace', hslot'⟩
        · rw [List.mem_singleton.mp hmem]
          exact ⟨head, hnew, place, hsame ▸ hplace, hslot⟩
      · rw [hkept, List.map_append, List.nodup_append]
        refine ⟨h.distinct, List.nodup_singleton _, ?_⟩
        intro used hused other hother
        obtain ⟨kept, hmem, rfl⟩ := List.mem_map.mp hused
        cases List.mem_singleton.mp hother
        exact hunused kept hmem
    · exact h.fewer (hkeeps.1 ▸ .refl _) hkeeps.2 hhead
  | drain =>
    rcases drainBufferedCurrentRoundMessages_cases c rt with ⟨e, hfail⟩ | ⟨head, hold, hdrain⟩
    · rw [after_of_error hfail]
      exact h
    · rw [after_of_ok hdrain] at hhead ⊢
      exact h.fewer List.filter_sublist (.single (.consensus hold ⟨rfl, rfl⟩)) hhead
  | other hkeeps => exact h.fewer (hkeeps.1 ▸ .refl _) hkeeps.2 hhead

omit [EpochCodec W] in
/-- The number of places bounds the kept messages. -/
theorem BufferSound.length_le (h : BufferSound rt) (hhead : rt.state.head? = some head) :
    rt.futureRoundMessages.length ≤
      head.body.verifiers.size * ((rt.state.peersInConsensus head.hash).length * 12) := by
  have hsub : rt.futureRoundMessages.map slot ⊆ (slots rt.state head).map some := by
    intro used hused
    obtain ⟨message, hmsg, rfl⟩ := List.mem_map.mp hused
    obtain ⟨head', hhead', place, hplace, hslot⟩ := h.places message hmsg
    cases hhead.symm.trans hhead'
    rw [hslot]
    exact List.mem_map_of_mem hplace
  have hle := (h.distinct.subperm hsub).length_le
  simpa [slots, List.length_product, bufferedKinds, Std.ExtTreeMap.length_keys] using hle

theorem ThriftyRun.sound (hcons : rt₀.state.consensus = ∅)
    (hnone : rt₀.futureRoundMessages = []) (hrun : ThriftyRun c rt₀ rt) : BufferSound rt := by
  induction hrun with
  | refl =>
    refine ⟨fun head _ target consensus hc => ?_, by simp [hnone], by simp [hnone]⟩
    rw [getConsensus, hcons] at hc
    simp at hc
  | step _ hstep hfirst hhead ih => exact ih.step hstep hfirst hhead

/-- In a run that keeps every message once and none when the head changes, the number of kept
messages is bounded by the validators and rounds of the current topology. -/
theorem kept_messages_bounded (hconsensus : rt₀.state.consensus = ∅)
    (hnone : rt₀.futureRoundMessages = []) (hrun : ThriftyRun c rt₀ rt) {head : Epoch W}
    (hhead : rt.state.head? = some head) : rt.futureRoundMessages.length ≤
      head.body.verifiers.size * ((rt.state.peersInConsensus head.hash).length * 12) :=
  (hrun.sound hconsensus hnone).length_le hhead

/-!
## Repeated messages
-/

/-- A dispatch that a member of its later round has signed for the current target. -/
structure LateDispatch (c : RuntimeConfig W) (s : LocalState W) (dispatch : Dispatch W) : Prop where
  mode : c.mode ≠ .overlay
  envelope : verifyMessageEnvelope c (.dispatch dispatch) s = .ok () s
  addressable : Addressable dispatch.header.target
  peer : (s.consensusOrInit dispatch.header.target).isPeerMemberOfRound dispatch.header.sender
    dispatch.header.round = true
  round : (s.consensusOrInit dispatch.header.target).round < dispatch.header.round

variable {dispatch : Dispatch W}

omit [EpochCodec W] in
theorem LateDispatch.isFuture (h : LateDispatch c s dispatch) :
    isFutureRoundMessage (.dispatch dispatch) s = .ok true (s.touch dispatch.header.target) := by
  have hlook : withConsensus dispatch.header.target (do
      let consensus ← get
      pure (consensus.isPeerMemberOfRound dispatch.header.sender dispatch.header.round,
        consensus.round)) s = .ok (true, (s.consensusOrInit dispatch.header.target).round)
          (s.touch dispatch.header.target) := by
    rw [withConsensus, if_neg h.addressable, bind_get, h.peer]
    rfl
  have hcommit : isFinalCommit dispatch.header .dispatch s = .ok false s := rfl
  rw [isFutureRoundMessage]
  dsimp only [Msg.signed]
  rw [if_neg (by decide), bind_of_ok hcommit, bind_of_ok hlook]
  simp only [not_le.mpr h.round, Bool.true_eq_false, and_false, or_false, if_false]
  rfl

omit [ShuffleSeed W] [EpochCodec W] in
theorem verifyMessageEnvelope_dispatch : verifyMessageEnvelope c (.dispatch dispatch) =
    verifyMessageSignature c dispatch.header .dispatch dispatch.body.fields := by
  simp [verifyMessageEnvelope, Msg.signed]

theorem LateDispatch.received (h : LateDispatch c rt.state dispatch) :
    receiveMessage c (.dispatch dispatch) rt = .ok futureRoundBuffered { rt with
      state := rt.state.touch dispatch.header.target
      futureRoundMessages := rt.futureRoundMessages ++ [.dispatch dispatch] } ∧
    LateDispatch c (rt.state.touch dispatch.header.target) dispatch := by
  constructor
  · have hmode : ensureConsensusMode c "receive consensus message" = .ok () :=
      reject_eq_ok.mpr h.mode
    unfold receiveMessage
    rw [bind_of_ok (check_returns.mpr ⟨hmode, rfl⟩),
      bind_of_ok (onState_returns.mpr ⟨_, h.envelope, rfl⟩),
      bind_of_ok (a := true) (by rw [bufferFutureRoundMessageIfNeeded_eq, h.isFuture])]
    rfl
  · refine ⟨h.mode, ?_, h.addressable, ?_, ?_⟩
    · have henv := h.envelope
      rw [verifyMessageEnvelope_dispatch] at henv ⊢
      obtain ⟨_, s, hread, hcheck⟩ := bind_returns.mp henv
      -- The check reads the chain, and the look at the consensus keeps it.
      exact bind_returns.mpr ⟨(), _, reading_returns.mpr ⟨(reading_returns.mp hread).1, rfl⟩,
        check_returns.mpr ⟨(check_returns.mp hcheck).1, rfl⟩⟩
    · rw [consensusOrInit_touch]
      exact h.peer
    · rw [consensusOrInit_touch]
      exact h.round

/-- A dispatch that is received over and over again is kept every time. -/
theorem LateDispatch.length_iterate (h : LateDispatch c rt.state dispatch) (n : ℕ) :
    ((fun rt => after (receiveMessage c (.dispatch dispatch)) rt)^[n] rt).futureRoundMessages.length =
      rt.futureRoundMessages.length + n := by
  induction n generalizing rt with
  | zero => rfl
  | succ n ih =>
    obtain ⟨hrcv, hagain⟩ := h.received
    rw [Function.iterate_succ_apply, after_of_ok hrcv, ih hagain, List.length_append]
    simp only [List.length_singleton]
    omega

end NodeRuntime

namespace NumberWord

/-- A dispatch without blocks that one of six members signs for the second round. -/
def lateDispatch (member : ℕ) : Dispatch NumberWord :=
  let body : DispatchBody NumberWord := ⟨∅, blockSetHash ∅, ∅, treeHash ∅⟩
  ⟨signedHeader member (genesis 6).target 1 .dispatch body.fields, body⟩

theorem lateDispatch_late {member : ℕ} (hmember : member ∈ [2, 4]) :
    LateDispatch (config .verified 0) (started 6 0).state (lateDispatch member) := by
  have hchecks : ∀ member ∈ [2, 4], returned (verifyMessageEnvelope (config .verified 0)
        (.dispatch (lateDispatch member))) (started 6 0).state = some () ∧
      ((started 6 0).state.consensusOrInit (genesis 6).target).isPeerMemberOfRound (key member) 1 =
        true := by decide +kernel
  obtain ⟨henvelope, hpeer⟩ := hchecks member hmember
  have htarget : ¬1 < (genesis 6).target.nonce ∧
      ((started 6 0).state.consensusOrInit (genesis 6).target).round < 1 := by decide +kernel
  refine ⟨by decide, ?_, fun h => absurd h.2 htarget.1, hpeer, htarget.2⟩
  obtain ⟨s, hs⟩ := returned_eq_some.mp henvelope
  obtain ⟨-, rfl, -⟩ := verifyMessageEnvelope_run (R := Eq) |>.of_ok hs
  exact hs

end NumberWord

open NumberWord in
/-- A member of six keeps every copy of one dispatch, so that no bound holds. -/
theorem NodeRuntime.repeated_dispatch_unbounded :
    ¬∃ bound : ℕ, ∀ n, ((fun rt => after (receiveMessage (config .verified 0)
      (.dispatch (lateDispatch 4))) rt)^[n] (started 6 0)).futureRoundMessages.length ≤ bound := by
  rintro ⟨bound, hbound⟩
  have hle := hbound (bound + 1)
  rw [(lateDispatch_late (by simp)).length_iterate] at hle
  change 0 + (bound + 1) ≤ bound at hle
  omega

open NumberWord in
/-- Two members send a dispatch for the second round, and both are kept. -/
theorem NodeRuntime.kept_dispatches_bounded :
    ∃ rt : NodeRuntime NumberWord, ThriftyRun (config .verified 0) (started 6 0) rt ∧
      rt.futureRoundMessages = [.dispatch (lateDispatch 4), .dispatch (lateDispatch 2)] ∧
      rt.futureRoundMessages.length ≤ (genesis 6).body.verifiers.size *
        ((rt.state.peersInConsensus (genesis 6).hash).length * 12) := by
  have hfour : LateDispatch (config .verified 0) (started 6 0).state (lateDispatch 4) :=
    lateDispatch_late (by simp)
  have htwo : LateDispatch (config .verified 0) (started 6 0).state (lateDispatch 2) :=
    lateDispatch_late (by simp)
  obtain ⟨hfirst, -⟩ := hfour.received
  obtain ⟨-, hagain⟩ := htwo.received
  set kept := after (receiveMessage (config .verified 0) (.dispatch (lateDispatch 4))) (started 6 0)
    with hkept
  rw [after_of_ok hfirst] at hkept
  have hrun : ThriftyRun (config .verified 0) (started 6 0) kept := by
    refine .step (.refl _) (.receive (.dispatch (lateDispatch 4)) _) ?_ ?_
    · rintro rt' -
      refine ⟨by rintro _ ⟨⟩, ?_⟩
      rintro _ _ _ ⟨⟩
      decide
    · rw [hkept]
      exact fun hne => absurd rfl hne
  clear_value kept
  have hlate : LateDispatch (config .verified 0) kept.state (lateDispatch 2) := by
    rw [hkept]
    exact hagain
  have hmessages : kept.futureRoundMessages = [.dispatch (lateDispatch 4)] := by
    rw [hkept]
    rfl
  have hslots : slot (Msg.dispatch (lateDispatch 4)) ≠ slot (.dispatch (lateDispatch 2)) := by
    decide +kernel
  have hself : kept.state.selfNode.publicKey = key 0 := by
    rw [hkept]
    rfl
  have hboth := ThriftyRun.step hrun (.receive (.dispatch (lateDispatch 2)) _) (by
    rintro rt' -
    rw [hmessages, hself]
    refine ⟨by simpa using hslots, ?_⟩
    rintro _ _ _ ⟨⟩
    decide) (by
    rw [after_of_ok hlate.received.1]
    exact fun hne => absurd rfl hne)
  rw [after_of_ok hlate.received.1] at hboth
  refine ⟨_, hboth, by rw [hmessages]; rfl, kept_messages_bounded rfl rfl hboth ?_⟩
  rw [hkept]
  rfl

end Blossom
