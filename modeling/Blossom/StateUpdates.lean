import Blossom.RuntimeOperations

/-!
# What an operation can do to the local state

All operations work on the target after the last epoch. They change its consensus and leave the
topology of its rounds as it is, keep prefilled dispatches, or extend the chain. What they do to the
quorum of a round does not matter here. Each lemma of this module says for one operation that it makes
such updates only.
-/

namespace Blossom

open CheckedSteps OrderedMap MajorityQuorum StatefulSteps Relation LocalState

variable {W : Type}
variable {t t' target : EpochNonce W}

section Lookups

variable [LinearOrder W] (s : LocalState W) (t : EpochNonce W) (c : TempConsensus W)

@[simp] theorem LocalState.getConsensus_setConsensus :
    (s.setConsensus t c).getConsensus t = some c := by
  simp [LocalState.getConsensus, LocalState.setConsensus]

theorem LocalState.getConsensus_setConsensus_ne (h : t ≠ t') :
    (s.setConsensus t c).getConsensus t' = s.getConsensus t' := by
  rw [LocalState.getConsensus, LocalState.setConsensus, lookup_insert, if_neg h]
  rfl

end Lookups

variable [ProtocolCrypto W] [ShuffleSeed W]

@[simp] theorem LocalState.consensusOrInit_setConsensus (s : LocalState W) (t : EpochNonce W)
    (c : TempConsensus W) : (s.setConsensus t c).consensusOrInit t = c := by
  simp [LocalState.consensusOrInit]

theorem LocalState.consensusOrInit_eq {s : LocalState W} {c : TempConsensus W}
    (h : s.getConsensus t = some c) : s.consensusOrInit t = c := by
  rw [LocalState.consensusOrInit, h, Option.getD_some]

def TempConsensus.SameTopology (c c' : TempConsensus W) : Prop :=
  c'.peers = c.peers ∧ c'.selfKey = c.selfKey

inductive Update : LocalState W → LocalState W → Prop
  | consensus {s head c} (hhead : s.head? = some head)
      (h : (s.consensusOrInit head.target).SameTopology c) :
      Update s (s.setConsensus head.target c)
  | prefill {s} (records : BTreeMap (EpochNonce W) (BTreeMap W (PrefillDispatchRecord W))) :
      Update s { s with prefillDispatches := records }
  | append {s head} (epoch : Epoch W) (hhead : s.head? = some head)
      (hnonce : epoch.body.nonce = head.body.nonce + 1) : Update s (s.append epoch)
  | extend {s head last} (epochs : List (Epoch W)) (hhead : s.head? = some head)
      (hlast : epochs.getLast? = some last) (hnonce : head.body.nonce < last.body.nonce) :
      Update s { s with epochchain := s.epochchain ++ epochs }

namespace LocalState

/-- The state after a look at the consensus of a target, which is then there. -/
def touch (s : LocalState W) (t : EpochNonce W) : LocalState W :=
  s.setConsensus t (s.consensusOrInit t)

@[simp] theorem consensusOrInit_touch (s : LocalState W) (t : EpochNonce W) :
    (s.touch t).consensusOrInit t = s.consensusOrInit t := by
  rw [touch, consensusOrInit_setConsensus]

section Rules

variable {s : LocalState W} {head : Epoch W} {α : Type}

theorem withConsensus_step {R : LocalState W → LocalState W → Prop}
    {m : Action (TempConsensus W) Failure α} {Q : α → LocalState W → Prop}
    (hR : R s (s.setConsensus target (after m (s.consensusOrInit target))))
    (hQ : ∀ a consensus, m (s.consensusOrInit target) = .ok a consensus →
      Q a (s.setConsensus target consensus)) :
    Run R s (withConsensus target m) Q := by
  simp only [Run, withConsensus, after] at hR ⊢
  by_cases hpanic : target.lastEpoch = default ∧ 1 < target.nonce
  · simp only [hpanic]
    exact .refl
  · simp only [hpanic]
    cases h : m (s.consensusOrInit target) with
    | error e consensus =>
      simp only [h] at hR ⊢
      exact .single hR
    | ok a consensus =>
      simp only [h] at hR ⊢
      exact ⟨.single hR, hQ a consensus h⟩

theorem withConsensus_read {m : Action (TempConsensus W) Failure α}
    {Q : α → LocalState W → Prop} (hhead : s.head? = some head)
    (hm : Run Eq (s.consensusOrInit head.target) m fun a _ => Q a (s.touch head.target)) :
    Run Update s (withConsensus head.target m) Q := by
  have hsame := hm.after_eq
  refine withConsensus_step (.consensus hhead (hsame.symm ▸ ⟨rfl, rfl⟩)) fun a c hok => ?_
  rw [after_of_ok hok] at hsame
  rw [hsame]
  exact (hm.of_ok hok).2

theorem withConsensus_modify {g : TempConsensus W → TempConsensus W} (hhead : s.head? = some head)
    (hg : ∀ c : TempConsensus W, c.SameTopology (g c)) :
    Run Update s (withConsensus head.target (modify g)) fun _ s' => s'.head? = some head :=
  withConsensus_step (.consensus hhead (hg _)) fun _ _ _ => hhead

/-- An operation on a quorum leaves the topology as it is, whatever it does. -/
theorem withQuorum_update {round : ℕ} {m : Action (TempQuorum W) Failure α}
    (hhead : s.head? = some head) :
    Run Update s (withQuorum head.target round m) fun _ s' => s'.head? = some head := by
  refine withConsensus_step (.consensus hhead ?_) fun _ _ _ => hhead
  simp only [after]
  cases m ((s.consensusOrInit head.target).quorumOrInit round) with
  | ok a q => exact ⟨rfl, rfl⟩
  | error e q => exact ⟨rfl, rfl⟩

end Rules

end LocalState

namespace NodeRuntime

variable {s : LocalState W} {c : RuntimeConfig W} {head : Epoch W} {α : Type} {round : ℕ}
  {Q : α → LocalState W → Prop}

/-!
## Checks and lookups
-/

variable {header : Header W} {R : LocalState W → LocalState W → Prop}
  {f : Unit → StateOperation W α}

omit [ShuffleSeed W] in
theorem ensureCurrentHeaderTarget_bind
    (h : ∀ head, s.head? = some head → header.target = head.target → Run R s (f ()) Q) :
    Run R s (ensureCurrentHeaderTarget header >>= f) Q := by
  apply Run.bind_reading
  intro _ hok
  simp only [↓guard_bind_eq_ok, bind_eq_ok, require_eq_ok, reject_eq_ok, not_not] at hok
  obtain ⟨head, hhead, -, htgt⟩ := hok
  exact h head hhead htgt

omit [ShuffleSeed W] in
theorem verifyMessageSignature_bind {kind : MsgKey} {body : List (Field W)}
    (h : ∀ head, s.head? = some head → header.target = head.target → Run R s (f ()) Q) :
    Run R s (verifyMessageSignature c header kind body >>= f) Q := by
  rw [verifyMessageSignature, bind_assoc]
  exact ensureCurrentHeaderTarget_bind fun head hhead htgt =>
    Run.bind_check fun _ _ => h head hhead htgt

omit [ShuffleSeed W] in
theorem nextEpochTarget_bind {f : EpochNonce W → StateOperation W α}
    (h : ∀ head, s.head? = some head → Run R s (f head.target) Q) :
    Run R s (nextEpochTarget c >>= f) Q := by
  rw [nextEpochTarget, bind_assoc]
  refine Run.bind_check fun _ _ => Run.bind_reading fun target htgt => ?_
  simp only [bind_eq_ok, require_eq_ok, pure_eq_ok] at htgt
  obtain ⟨head, hhead, rfl⟩ := htgt
  exact h head hhead

theorem verifyHeader_bind (hhead : s.head? = some head) (htgt : header.target = head.target)
    (h : ∀ s' : LocalState W, s'.head? = some head → Run Update s' (f ()) Q) :
    Run Update s (verifyHeader header >>= f) Q := by
  rw [verifyHeader, htgt]
  refine Run.bind (Q := fun _ s' => s'.head? = some head) ?_ fun _ s' hhead' => h s' hhead'
  exact withConsensus_read hhead (Run.bind_get (Run.check fun _ _ => hhead))

theorem commitSenderAndThreshold_run (hhead : s.head? = some head)
    (htgt : header.target = head.target) :
    Run Update s (commitSenderAndThreshold header) fun _ s' => s'.head? = some head := by
  refine Run.bind_get (Run.bind_check fun _ _ => Run.bind_check fun _ _ => ?_)
  rw [htgt]
  refine withConsensus_read hhead (Run.bind_get ?_)
  split
  · exact Run.pure hhead
  · exact Run.pure hhead

theorem seedPrefillDispatchesIntoQuorum_run (hhead : s.head? = some head) :
    Run Update s (seedPrefillDispatchesIntoQuorum head.target round)
      fun _ s' => s'.head? = some head := by
  apply Run.bind_get
  split
  · exact Run.pure hhead
  · exact withQuorum_update hhead

/-!
## Received messages
-/

theorem receiveDispatch_run {message : Dispatch W} :
    Run Update s (receiveDispatch c message) fun _ _ => True := by
  refine verifyMessageSignature_bind fun head hhead htgt => ?_
  refine verifyHeader_bind hhead htgt fun s₁ hhead₁ => Run.bind_check fun _ _ => ?_
  rw [htgt]
  refine Run.bind (withQuorum_update hhead₁) fun _ s₂ hhead₂ => ?_
  exact (withQuorum_update hhead₂).bind_pure

theorem receiveEchoRequest_run {message : EchoRequest W} :
    Run Update s (receiveEchoRequest c message) fun _ _ => True :=
  verifyMessageSignature_bind fun _ hhead htgt =>
    verifyHeader_bind hhead htgt fun _ _ => Run.pure trivial

theorem receiveReconcileRequest_run {message : ReconcileRequest W} :
    Run Update s (receiveReconcileRequest c message) fun _ _ => True :=
  verifyMessageSignature_bind fun _ hhead htgt =>
    verifyHeader_bind hhead htgt fun _ _ => Run.pure trivial

theorem receiveReconcileAppraisal_run {message : ReconcileAppraisal W} :
    Run Update s (receiveReconcileAppraisal c message) fun _ _ => True :=
  verifyMessageSignature_bind fun _ hhead htgt => Run.bind_check fun _ _ =>
    verifyHeader_bind hhead htgt fun _ _ => Run.pure trivial

theorem receiveEchoRedispatch_run {message : EchoReDispatch W} :
    Run Update s (receiveEchoRedispatch c message) fun _ _ => True := by
  refine verifyMessageSignature_bind fun head hhead htgt => Run.bind_check fun _ _ => ?_
  refine verifyHeader_bind hhead htgt fun s₁ hhead₁ => ?_
  rw [htgt]
  exact (withQuorum_update hhead₁).bind_pure

theorem receiveReconcileResponse_run {message : ReconcileResponse W} :
    Run Update s (receiveReconcileResponse c message) fun _ _ => True := by
  refine verifyMessageSignature_bind fun head hhead htgt => Run.bind_check fun _ _ => ?_
  refine Run.bind_check fun _ _ => verifyHeader_bind hhead htgt fun s₁ hhead₁ => ?_
  rw [htgt]
  exact (withQuorum_update hhead₁).bind_pure

theorem receiveEchoResponse_run {message : EchoResponse W} :
    Run Update s (receiveEchoResponse c message) fun _ _ => True := by
  refine verifyMessageSignature_bind fun head hhead htgt => ?_
  refine verifyHeader_bind hhead htgt fun s₁ hhead₁ => ?_
  rw [htgt]
  refine Run.bind (seedPrefillDispatchesIntoQuorum_run hhead₁) fun _ s₂ hhead₂ => ?_
  exact (withQuorum_update hhead₂).bind_pure

theorem receiveRoundSkipVote_run {message : RoundSkipVoteMessage W} :
    Run Update s (receiveRoundSkipVote c message) fun _ _ => True := by
  refine verifyMessageSignature_bind fun head hhead htgt => Run.bind_check fun _ _ => ?_
  refine Run.bind_check fun _ _ => Run.bind_check fun _ _ => ?_
  refine verifyHeader_bind hhead htgt fun s₁ hhead₁ => Run.bind_reading fun latest hlatest => ?_
  refine Run.bind_check fun _ _ => Run.bind_check fun _ hvote => ?_
  rw [require_eq_ok] at hlatest
  rw [reject_eq_ok, not_not] at hvote
  rw [hvote]
  refine Run.bind_pure (Q := fun _ _ => True) ?_
  exact withConsensus_read hlatest (Run.pure trivial)

theorem receiveRoundSkipCertificate_run {message : RoundSkipCertificateMessage W} :
    Run Update s (receiveRoundSkipCertificate c message) fun _ _ => True := by
  refine verifyMessageSignature_bind fun head hhead htgt => Run.bind_check fun _ _ => ?_
  refine verifyHeader_bind hhead htgt fun s₁ hhead₁ => Run.bind_reading fun latest hlatest => ?_
  refine Run.bind_check fun _ _ => Run.bind_check fun _ _ => ?_
  rw [require_eq_ok] at hlatest
  refine (withConsensus_modify hlatest fun consensus => ?_).bind_pure
  split
  · exact ⟨rfl, rfl⟩
  · exact ⟨rfl, rfl⟩

/-!
## Trusted rounds
-/

theorem receiveTrustedConfirmation_run {message : Verification W} :
    Run Update s (receiveTrustedConfirmation c message) fun _ _ => True := by
  refine verifyMessageSignature_bind fun head hhead htgt => Run.bind_check fun _ _ => ?_
  refine Run.bind (commitSenderAndThreshold_run hhead htgt) fun _ s₁ hhead₁ => ?_
  refine verifyHeader_bind hhead₁ htgt fun s₂ hhead₂ => ?_
  rw [htgt]
  refine Run.bind (seedPrefillDispatchesIntoQuorum_run hhead₂) fun _ s₃ hhead₃ => ?_
  exact (withQuorum_update hhead₃).mono fun _ _ _ => trivial

theorem receiveTrustedAcknowledgement_run {message : TrustedAcknowledgement W} :
    Run Update s (receiveTrustedAcknowledgement c message) fun _ _ => True := by
  refine Run.bind_check fun _ _ => verifyMessageSignature_bind fun head hhead htgt => ?_
  refine Run.bind_check fun _ _ => verifyHeader_bind hhead htgt fun s₁ hhead₁ => ?_
  rw [htgt]
  exact (withQuorum_update hhead₁).bind_pure

theorem advanceTrustedRound_run {confirmed : BTreeSet W} (hhead : s.head? = some head) :
    Run Update s (advanceTrustedRound head.target round confirmed) fun _ _ => True := by
  refine Run.bind_get (Run.bind_check ?_)
  rintro ⟨previous, consensus⟩ hreq
  obtain ⟨-, -, hc⟩ := requireTarget_eq_ok.mp hreq
  dsimp only
  split
  · exact Run.pure trivial
  · refine Run.bind_check fun q _ => Run.bind_check fun carried _ => ?_
    refine Run.bind_set (.single (.consensus hhead ?_)) (Run.pure trivial)
    rw [consensusOrInit_eq hc]
    exact ⟨rfl, rfl⟩

theorem installTrustedEpoch_run {epoch : Epoch W} :
    Run Update s (installTrustedEpoch epoch) fun _ _ => True := by
  refine Run.bind_get (Run.bind_check fun head hhead => Run.bind_check fun _ hchecks => ?_)
  rw [require_eq_ok] at hhead
  simp only [reject_eq_ok, not_or, not_not] at hchecks
  exact Run.ofSet (.single (.append epoch hhead hchecks.2.2.1)) trivial

/-!
## Votes
-/

variable [EpochCodec W]

theorem advanceEpoch_run (hhead : s.head? = some head) :
    Run Update s (advanceEpoch head.target round) fun _ _ => True := by
  apply Run.bind_get
  rw [hhead]
  cases hc : s.getConsensus head.target with
  | none => exact Run.pure trivial
  | some consensus =>
    dsimp only
    rw [if_neg (not_not.mpr rfl)]
    split
    · refine Run.bind_set (.single (.consensus hhead ?_)) (Run.pure trivial)
      rw [consensusOrInit_eq hc]
      exact ⟨rfl, rfl⟩
    · refine Run.bind_check fun q _ => ?_
      split
      · exact Run.bind_set (.single (.append _ hhead rfl)) (Run.pure trivial)
      · exact Run.pure trivial

theorem advanceIfCommitted_run (hhead : s.head? = some head) :
    Run Update s (advanceIfCommitted head.target round) fun _ _ => True := by
  refine Run.bind (withQuorum_update hhead) fun q s₁ hhead₁ => ?_
  split
  · exact (advanceEpoch_run hhead₁).bind_pure
  · exact Run.pure trivial

theorem receiveVerifiedVerification_run {message : Verification W} :
    Run Update s (receiveVerifiedVerification c message) fun _ _ => True := by
  refine verifyMessageSignature_bind fun head hhead htgt => Run.bind_check fun _ _ => ?_
  refine Run.bind (commitSenderAndThreshold_run hhead htgt) fun _ s₁ hhead₁ => ?_
  refine verifyHeader_bind hhead₁ htgt fun s₂ hhead₂ => ?_
  rw [htgt]
  refine Run.bind (seedPrefillDispatchesIntoQuorum_run hhead₂) fun _ s₃ hhead₃ => ?_
  refine Run.bind (withQuorum_update hhead₃) fun _ s₄ hhead₄ => ?_
  exact (advanceIfCommitted_run hhead₄).bind_pure

theorem receiveProposal_run {message : Proposal W} :
    Run Update s (receiveProposal c message) fun _ _ => True := by
  refine Run.bind_check fun _ _ => verifyMessageSignature_bind fun head hhead htgt => ?_
  refine Run.bind_check fun _ _ => ?_
  refine Run.bind (commitSenderAndThreshold_run hhead htgt) fun _ s₁ hhead₁ => ?_
  refine verifyHeader_bind hhead₁ htgt fun s₂ hhead₂ => ?_
  rw [htgt]
  refine Run.bind (withQuorum_update hhead₂) fun recorded s₃ hhead₃ => ?_
  split
  · exact (advanceIfCommitted_run hhead₃).bind_pure
  · exact Run.pure trivial

theorem receiveCommit_run {message : Commit W} :
    Run Update s (receiveCommit c message) fun _ _ => True := by
  refine Run.bind_check fun _ _ => verifyMessageSignature_bind fun head hhead htgt => ?_
  refine Run.bind (commitSenderAndThreshold_run hhead htgt) fun _ s₁ hhead₁ => ?_
  refine Run.bind_check fun _ _ => Run.bind_reading fun _ _ => ?_
  rw [htgt]
  refine Run.bind (withQuorum_update hhead₁) fun _ s₂ hhead₂ => ?_
  exact (advanceIfCommitted_run hhead₂).bind_pure

theorem receiveReconcileCommit_run {message : ReconcileCommit W} :
    Run Update s (receiveReconcileCommit c message) fun _ _ => True := by
  refine Run.bind_check fun _ _ => verifyMessageSignature_bind fun head hhead htgt => ?_
  refine verifyHeader_bind hhead htgt fun s₁ hhead₁ => Run.bind_reading fun _ _ => ?_
  refine Run.bind_check fun _ _ => Run.bind_check fun _ _ => ?_
  rw [htgt]
  refine Run.bind (withQuorum_update hhead₁) fun _ s₂ hhead₂ => ?_
  exact (advanceEpoch_run hhead₂).bind_pure

end NodeRuntime

end Blossom
