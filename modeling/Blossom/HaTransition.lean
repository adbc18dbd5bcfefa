import Blossom.HaEngine
import Blossom.HaRoundSteps

/-!
# Operations as elementary transitions

Every public operation either leaves the runtime as it was or is a short sequence of elementary
transitions: a record of a message, a lock, a commit, a vote, a certificate.
-/

namespace Blossom

open CheckedSteps BitMask HaRoundState

variable {W : Type} [ProtocolCrypto W] [AmendmentCodec W]
variable {mid rt rt' : HighAvailabilityRuntime W} {next s : HighAvailabilityRuntimeState W}
  {members : HaMemberSlots W}

/-- A call of the public interface. The Booleans say whether the log store's
transactions commit. -/
inductive Operation (W : Type) where
  | buildDispatch (transactions : List (Transaction W)) (created : ℕ)
  | receiveMessage (message : HaMessage W) (io : Bool)
  | acknowledge (io : Bool)
  | confirm (io commitIo : Bool)
  | voteToSuspend (slot : ℕ) (io : Bool)
  | voteToReactivate (slot caughtUpThrough : ℕ) (io : Bool)
  | appendAmendment (amendment : AmendmentRecord W) (io : Bool)
  | compactHistoryThrough (through : ℕ) (io : Bool)
  | installRecoverySnapshot (snapshot : HaRecoverySnapshot W) (io : Bool)

/-- The messages a call hands out when it succeeds, and the runtime after it. -/
def Operation.apply (op : Operation W) (rt : HighAvailabilityRuntime W) :
    Outcome W (List (HaMessage W)) :=
  match op with
  | .buildDispatch transactions created =>
    (rt.buildDispatch transactions created).map (·.map fun d => [.dispatch d]) id
  | .receiveMessage message io => (rt.receiveMessage message io).map (·.map fun _ => []) id
  | .acknowledge io => (rt.acknowledge io).map (·.map fun a => [.acknowledge a]) id
  | .confirm io commitIo => (rt.confirm io commitIo).map (·.map fun c => [.confirm c.1]) id
  | .voteToSuspend slot io =>
    (rt.voteToSuspend slot io).map (·.map fun v => [.membershipVote v.1]) id
  | .voteToReactivate slot caughtUpThrough io =>
    (rt.voteToReactivate slot caughtUpThrough io).map (·.map fun v => [.membershipVote v.1]) id
  | .appendAmendment amendment io => (rt.appendAmendment amendment io).map (·.map fun _ => []) id
  | .compactHistoryThrough through io =>
    (rt.compactHistoryThrough through io).map (·.map fun _ => []) id
  | .installRecoverySnapshot snapshot io =>
    (rt.installRecoverySnapshot snapshot io).map (·.map fun _ => []) id

/-- What one elementary transition does. -/
inductive Label (W : Type) where
  | built (d : HaDispatch W)
  | dispatched (d : HaDispatch W)
  | acknowledged (a : HaAcknowledge W)
  | recordedAck (a : HaAcknowledge W)
  | locked (c : HaConfirm W)
  | recordedConfirm (c : HaConfirm W)
  | committed (e : HaEpoch W)
  | voted (v : HaMembershipVote W) (certificate : Option (HaMembershipCertificate W))
  | recordedVote (v : HaMembershipVote W) (certificate : Option (HaMembershipCertificate W))
  | amended (a : AmendmentRecord W)
  | compacted (c : HaHistoryCheckpoint W)
  | installed (snapshot : HaRecoverySnapshot W)

namespace HighAvailabilityRuntimeState

def withOwnVote (s : HighAvailabilityRuntimeState W) (sender : Fin 7) (digest : W) :
    HighAvailabilityRuntimeState W :=
  { s with
    membershipVoteLock := some digest
    membershipVotes := Function.update s.membershipVotes sender (some digest) }

def withPeerVote (s : HighAvailabilityRuntimeState W) (sender : Fin 7) (digest : W) :
    HighAvailabilityRuntimeState W :=
  { s with membershipVotes := Function.update s.membershipVotes sender (some digest) }

/-- A membership vote that the state accepts from slot `sender`. -/
structure AcceptsVote (s : HighAvailabilityRuntimeState W) (v : HaMembershipVote W)
    (sender : Fin 7) : Prop where
  boundary : s.requireEpochBoundaryForMembershipChange = .ok ()
  proposal : s.validateMembershipProposal v.proposal = .ok ()
  sender_eq : v.sender = sender.val

/-- The lock is free or already held for this digest. -/
def LockAllows (s : HighAvailabilityRuntimeState W) (digest : W) : Prop :=
  ∀ locked ∈ s.membershipVoteLock, locked = digest

/-- The votes in `s` certify the proposal, and `next` is the state after the certificate. -/
structure Certifies (s : HighAvailabilityRuntimeState W) (c : HaMembershipCertificate W)
    (next : HighAvailabilityRuntimeState W) : Prop where
  approval : c.approvalMask = s.approvalMask c.proposal
  majority : s.members.majority ≤ countOnes c.approvalMask
  valid : s.validateMembershipProposal c.proposal = .ok ()
  next_eq : s.certificateState c = .ok next

end HighAvailabilityRuntimeState

inductive Transition :
    HighAvailabilityRuntime W → Label W → HighAvailabilityRuntime W → Prop where
  | built {rt : HighAvailabilityRuntime W} {d : HaDispatch W} {outcome : HaDispatchOutcome}
      {round : HaRoundState W} (hs : d.sender = rt.state.selfSlot)
      (ha : rt.state.validateAmendmentTransactions d.block.body.txs rt.state.round.roundId.nonce =
        .ok ())
      (hr : rt.state.round.receiveDispatch rt.state.members d = .ok (outcome, round)) :
      Transition rt (.built d) (rt.withRound round)
  | dispatched {rt : HighAvailabilityRuntime W} {d : HaDispatch W} {outcome : HaDispatchOutcome}
      {round : HaRoundState W}
      (ha : rt.state.validateAmendmentTransactions d.block.body.txs rt.state.round.roundId.nonce =
        .ok ())
      (hr : rt.state.round.receiveDispatch rt.state.members d = .ok (outcome, round)) :
      Transition rt (.dispatched d) (rt.withRound round)
  | acknowledged {rt rt' : HighAvailabilityRuntime W} {a : HaAcknowledge W}
      {round : HaRoundState W} {io : Bool}
      (hr : rt.state.round.acknowledge rt.state.members rt.state.selfSlot = .ok (a, round))
      (hp : (rt.withRound round).persist io = .ok rt') : Transition rt (.acknowledged a) rt'
  | recordedAck {rt : HighAvailabilityRuntime W} {a : HaAcknowledge W} {round : HaRoundState W}
      (hr : rt.state.round.receiveAcknowledgement rt.state.members a = .ok round) :
      Transition rt (.recordedAck a) (rt.withRound round)
  | locked {rt rt' : HighAvailabilityRuntime W} {c : HaConfirm W} {round : HaRoundState W}
      {io : Bool} (hr : rt.state.round.confirm rt.state.members rt.state.selfSlot = .ok (c, round))
      (hp : (rt.withRound round).persist io = .ok rt') : Transition rt (.locked c) rt'
  | recordedConfirm {rt : HighAvailabilityRuntime W} {c : HaConfirm W}
      {finalized : Option (HaFinalizedRound W)} {round : HaRoundState W}
      (hr : rt.state.round.receiveConfirmation rt.state.members c = .ok (finalized, round)) :
      Transition rt (.recordedConfirm c) (rt.withRound round)
  | committed {rt rt' : HighAvailabilityRuntime W} {f : HaFinalizedRound W} {e : HaEpoch W}
      {next : HighAvailabilityRuntimeState W} {io : Bool}
      (hf : rt.state.round.finalized = some f) (hc : rt.state.commitState f = .ok (e, next))
      (hp : (rt.withState next).persist io = .ok rt') : Transition rt (.committed e) rt'
  | voted {rt rt' : HighAvailabilityRuntime W} {v : HaMembershipVote W} {sender : Fin 7}
      {io : Bool} (hv : rt.state.AcceptsVote v sender) (hs : v.sender = rt.state.selfSlot)
      (hl : rt.state.LockAllows v.proposal.digest)
      (hp : (rt.withState (rt.state.withOwnVote sender v.proposal.digest)).persist io = .ok rt') :
      Transition rt (.voted v none) rt'
  | votedCertificate {rt rt' : HighAvailabilityRuntime W} {v : HaMembershipVote W}
      {sender : Fin 7} {c : HaMembershipCertificate W}
      {next : HighAvailabilityRuntimeState W} {io : Bool} (hv : rt.state.AcceptsVote v sender)
      (hs : v.sender = rt.state.selfSlot) (hl : rt.state.LockAllows v.proposal.digest)
      (hpr : c.proposal = v.proposal)
      (hc : (rt.state.withOwnVote sender v.proposal.digest).Certifies c next)
      (hp : (rt.withState next).persist io = .ok rt') : Transition rt (.voted v (some c)) rt'
  | recordedVote {rt : HighAvailabilityRuntime W} {v : HaMembershipVote W} {sender : Fin 7}
      (hv : rt.state.AcceptsVote v sender) (ha : sender.val ∈ bits v.proposal.activeMask)
      (hn : rt.state.membershipVotes sender = none) :
      Transition rt (.recordedVote v none)
        (rt.withState (rt.state.withPeerVote sender v.proposal.digest))
  | recordedCertificate {rt rt' : HighAvailabilityRuntime W} {v : HaMembershipVote W}
      {sender : Fin 7} {c : HaMembershipCertificate W}
      {next : HighAvailabilityRuntimeState W} {io : Bool} (hv : rt.state.AcceptsVote v sender)
      (ha : sender.val ∈ bits v.proposal.activeMask)
      (hn : rt.state.membershipVotes sender = none) (hpr : c.proposal = v.proposal)
      (hc : (rt.state.withPeerVote sender v.proposal.digest).Certifies c next)
      (hp : (rt.withState next).persist io = .ok rt') :
      Transition rt (.recordedVote v (some c)) rt'
  | amended {rt rt' : HighAvailabilityRuntime W} {a : AmendmentRecord W} {io : Bool}
      (hv : rt.state.validateNewAmendment a = .ok ())
      (hp : (rt.withState { rt.state with amendments := rt.state.amendments ++ [a] }).persist io =
        .ok rt') : Transition rt (.amended a) rt'
  | compacted {rt rt' : HighAvailabilityRuntime W} {c : HaHistoryCheckpoint W}
      {e : HaEpoch W} {targetIndex through : ℕ} {io : Bool}
      (hi : rt.state.epochs.findIdx? (fun epoch => decide (epoch.nonce = through)) =
        some targetIndex) (h0 : targetIndex ≠ 0) (he : rt.state.epochs[targetIndex]? = some e)
      (hc : HighAvailabilityRuntime.checkpointAt rt.state targetIndex e = .ok c)
      (hv : (HighAvailabilityRuntime.compactedState rt.state targetIndex through c).validate =
        .ok ())
      (hp : (rt.withState (HighAvailabilityRuntime.compactedState rt.state targetIndex through
        c)).persist io = .ok rt') : Transition rt (.compacted c) rt'
  | installed {rt rt' : HighAvailabilityRuntime W} {snapshot : HaRecoverySnapshot W}
      {next : HighAvailabilityRuntimeState W} {io : Bool}
      (hs : HighAvailabilityRuntime.snapshotState rt.state snapshot = .ok next)
      (hp : (rt.withState next).persist io = .ok rt') : Transition rt (.installed snapshot) rt'

inductive Steps : HighAvailabilityRuntime W → List (Label W) → HighAvailabilityRuntime W → Prop
  | refl (rt : HighAvailabilityRuntime W) : Steps rt [] rt
  | cons {rt mid rt' : HighAvailabilityRuntime W} {l : Label W} {ls : List (Label W)}
      (h : Transition rt l mid) (t : Steps mid ls rt') : Steps rt (l :: ls) rt'

theorem Steps.single {l : Label W} (h : Transition rt l rt') :
    Steps rt [l] rt' := .cons h (.refl rt')

def Label.source : Label W → Option (HaMessage W)
  | .dispatched d => some (.dispatch d)
  | .recordedAck a => some (.acknowledge a)
  | .recordedConfirm c => some (.confirm c)
  | .recordedVote v _ => some (.membershipVote v)
  | _ => none

def Label.output : Label W → Option (HaMessage W)
  | .built d => some (.dispatch d)
  | .acknowledged a => some (.acknowledge a)
  | .locked c => some (.confirm c)
  | .voted v _ => some (.membershipVote v)
  | _ => none

def Label.vote : Label W → Option (HaMembershipVote W)
  | .voted v _ => some v
  | _ => none

def Label.persists : Label W → Bool
  | .built _ | .dispatched _ | .recordedAck _ | .recordedConfirm _ | .recordedVote _ none => false
  | _ => true

def Label.snapshot : Label W → Option (HaRecoverySnapshot W)
  | .installed snapshot => some snapshot
  | _ => none

def Operation.message : Operation W → Option (HaMessage W)
  | .receiveMessage m _ => some m
  | _ => none

def Operation.snapshot : Operation W → Option (HaRecoverySnapshot W)
  | .installRecoverySnapshot snapshot _ => some snapshot
  | _ => none

/-- The calls that return successfully only after a persist. -/
def Operation.durable : Operation W → Bool
  | .acknowledge _ | .confirm _ _ | .voteToSuspend _ _ | .voteToReactivate _ _ _
  | .compactHistoryThrough _ _ | .installRecoverySnapshot _ _ => true
  | _ => false

/-- A label that a call with this message and snapshot may carry; a durable call persists
in every transition. -/
def Label.AllowedBy (l : Label W) (message : Option (HaMessage W))
    (snapshot : Option (HaRecoverySnapshot W)) (durable : Bool) : Prop :=
  (∀ m ∈ l.source, message = some m) ∧ (∀ x ∈ l.snapshot, snapshot = some x) ∧
    (durable = true → l.persists = true)

/-- An outcome reached by transitions with allowed labels, whose result was made
available by one of them. After the first transition there can only be the commit of a
finalized round, a durable call that succeeds has made a transition, and a vote that was
cast has been handed out. -/
def Explains {α : Type} (rt : HighAvailabilityRuntime W) (message : Option (HaMessage W))
    (snapshot : Option (HaRecoverySnapshot W)) (durable : Bool) (emits : α → List (HaMessage W))
    (out : Outcome W α) : Prop :=
  ∃ ls, Steps rt ls out.2 ∧ (∀ l ∈ ls, l.AllowedBy message snapshot durable) ∧
    (∀ l ∈ ls.tail, ∃ e, l = .committed e) ∧ (∀ a, out.1 = .ok a → durable = true → ls ≠ []) ∧
    (∀ a, out.1 = .ok a → ∀ m ∈ emits a, ∃ l ∈ ls, l.output = some m) ∧
    ∀ l ∈ ls, ∀ v ∈ l.vote, ∃ a, out.1 = .ok a ∧ .membershipVote v ∈ emits a

/-- A call that returns an error leaves the state as it was; a panic is not an error. -/
def RestoresOnError {α : Type} (rt : HighAvailabilityRuntime W) (out : Outcome W α) : Prop :=
  ∀ e, out.1 = .error (.error e) → out.2.state = rt.state

def Atomic {α : Type} (rt : HighAvailabilityRuntime W) (message : Option (HaMessage W))
    (snapshot : Option (HaRecoverySnapshot W)) (durable : Bool) (emits : α → List (HaMessage W))
    (out : Outcome W α) : Prop :=
  Explains rt message snapshot durable emits out ∧ RestoresOnError rt out

attribute [local simp] Label.AllowedBy Label.source Label.output Label.snapshot Label.persists
  Label.vote

section Outcomes

variable {α : Type} {rt : HighAvailabilityRuntime W} {message : Option (HaMessage W)}
  {snapshot : Option (HaRecoverySnapshot W)} {durable : Bool} {emits : α → List (HaMessage W)}

namespace Explains

theorem unchanged {r : Result α} (h : ∀ a, r = .ok a → emits a = [] ∧ durable = false) :
    Explains rt message snapshot durable emits (r, rt) := by
  refine ⟨[], .refl rt, by simp, by simp, ?_, ?_, by simp⟩
  · intro a ha hd
    rw [(h a ha).2] at hd
    cases hd
  · intro a ha m hm
    rw [(h a ha).1] at hm
    simp at hm

theorem failed {e : Failure} : Explains rt message snapshot durable emits (.error e, rt) :=
  unchanged (by simp)

theorem single {r : Result α} {l : Label W} (h : Transition rt l rt')
    (hl : l.AllowedBy message snapshot durable ∧
      (∀ a, r = .ok a → ∀ m ∈ emits a, l.output = some m) ∧
      ∀ v ∈ l.vote, ∃ a, r = .ok a ∧ .membershipVote v ∈ emits a) :
    Explains rt message snapshot durable emits (r, rt') := by
  refine ⟨[l], .single h, List.forall_mem_singleton.mpr hl.1, by simp, by simp, ?_,
    List.forall_mem_singleton.mpr hl.2.2⟩
  intro a ha m hm
  exact ⟨l, by simp, hl.2.1 a ha m hm⟩

/-- A transition that may be followed by the commit of a finalized round. -/
theorem then_commit {r : Result α} {l : Label W} (h : Transition rt l mid)
    (ht : rt' = mid ∨ ∃ e, Transition mid (.committed e) rt')
    (hl : l.AllowedBy message snapshot durable ∧
      (∀ a, r = .ok a → ∀ m ∈ emits a, l.output = some m) ∧
      ∀ v ∈ l.vote, ∃ a, r = .ok a ∧ .membershipVote v ∈ emits a) :
    Explains rt message snapshot durable emits (r, rt') := by
  rcases ht with rfl | ⟨e, ht⟩
  · exact single h hl
  · refine ⟨[l, .committed e], .cons h (.single ht), ?_, by simp, by simp, ?_, ?_⟩
    · exact List.forall_mem_cons.mpr ⟨hl.1, by simp⟩
    · intro a ha m hm
      exact ⟨l, List.mem_cons_self, hl.2.1 a ha m hm⟩
    · exact List.forall_mem_cons.mpr ⟨hl.2.2, by simp⟩

theorem map {out : Outcome W α} (h : Explains rt message snapshot durable emits out) :
    Explains rt message snapshot durable id (out.map (·.map emits) id) := by
  obtain ⟨ls, hs, ha, ht, hd, he, hv⟩ := h
  obtain ⟨r, rt'⟩ := out
  cases r with
  | error e =>
    refine ⟨ls, hs, ha, ht, (nomatch ·, ·), (nomatch ·, ·), ?_⟩
    intro l hl v hm
    obtain ⟨a, ⟨⟩, -⟩ := hv l hl v hm
  | ok a =>
    refine ⟨ls, hs, ha, ht, fun _ _ => hd a rfl, ?_, ?_⟩
    · rintro ms ⟨⟩ m hm
      exact he a rfl m hm
    · intro l hl v hm
      obtain ⟨_, ⟨⟩, hin⟩ := hv l hl v hm
      exact ⟨_, rfl, hin⟩

end Explains

namespace Atomic

theorem unchanged {r : Result α} (h : ∀ a, r = .ok a → emits a = [] ∧ durable = false) :
    Atomic rt message snapshot durable emits (r, rt) :=
  ⟨.unchanged h, fun _ _ => rfl⟩

theorem failed {e : Failure} : Atomic rt message snapshot durable emits (.error e, rt) :=
  ⟨.failed, fun _ _ => rfl⟩

theorem single {r : Result α} {l : Label W} (h : Transition rt l rt')
    (hr : FailsOnly Failure.IsPanic r) (hl : l.AllowedBy message snapshot durable ∧
      (∀ a, r = .ok a → ∀ m ∈ emits a, l.output = some m) ∧
      ∀ v ∈ l.vote, ∃ a, r = .ok a ∧ .membershipVote v ∈ emits a) :
    Atomic rt message snapshot durable emits (r, rt') :=
  ⟨.single h hl, fun _ h => nomatch hr _ h⟩

end Atomic

end Outcomes

open HighAvailabilityRuntimeState in
omit [AmendmentCodec W] in
/-- A revision can only fail by a panic. -/
theorem revision_failsOnly (s : HighAvailabilityRuntimeState W) :
    FailsOnly Failure.IsPanic s.revision := by
  have hslot (slot : ℕ) : FailsOnly Failure.IsPanic (slotIndex slot) := by
    unfold slotIndex
    split <;> simp [Failure.IsPanic]
  have hhashes : ∀ epoch ∈ s.epochs, FailsOnly Failure.IsPanic (s.logicalEpochRecordHashes epoch.nonce) := by
    intro epoch hepoch
    simp only [logicalEpochRecordHashes, failsOnly_bind, failsOnly_require, failsOnly_pure]
    refine ⟨fun hnone => ?_, fun found _ => ⟨.mapM fun slot _ => ?_, fun _ _ => trivial⟩⟩
    · have hmissing := List.find?_eq_none.mp hnone epoch hepoch
      simp at hmissing
    · simp [hslot]
  simp only [revision, accumulateEpochs, head, sealedNonce, failsOnly_bind, failsOnly_require, failsOnly_pure]
  refine ⟨.foldlM fun epoch hepoch acc => ?_, ?_⟩
  · simpa using hhashes epoch (List.mem_of_mem_drop hepoch)
  · simp [Failure.IsPanic]

namespace HighAvailabilityRuntime

variable {rt : HighAvailabilityRuntime W}

theorem buildDispatch_explains (transactions : List (Transaction W)) (created : ℕ) :
    Explains rt none none false (fun d => [.dispatch d]) (rt.buildDispatch transactions created) := by
  unfold buildDispatch
  dsimp only
  split
  case h_2 => exact .failed
  case h_1 d round h =>
    simp only [bind_eq_ok, require_eq_ok, pure_eq_ok, Prod.exists, Prod.mk.injEq] at h
    obtain ⟨_, ha, member, hm, outcome, round', hr, rfl, rfl⟩ := h
    exact .single (.built rfl ha hr) (by simp)

theorem receiveDispatch_explains (d : HaDispatch W) :
    Explains rt (some (.dispatch d)) none false (fun _ => []) (rt.receiveDispatch d) := by
  unfold receiveDispatch
  split
  · split
    · exact .unchanged (by simp)
    · exact .failed
  · dsimp only
    split
    case h_2 => exact .failed
    case h_1 outcome round h =>
      obtain ⟨ha, hr⟩ := guard_bind_eq_ok.mp h
      exact .single (.dispatched ha hr) (by simp)

theorem acknowledge_atomic (io : Bool) :
    Atomic rt none none true (fun a => [.acknowledge a]) (rt.acknowledge io) := by
  unfold acknowledge
  dsimp only
  split
  case h_1 => exact .failed
  case h_2 sender a round h =>
    simp only [bind_eq_ok, pure_eq_ok, Prod.exists, Prod.mk.injEq] at h
    obtain ⟨me, hs, _, _, hr, rfl, rfl, rfl⟩ := h
    split
    case h_1 rt' hp =>
      exact .single (.acknowledged hr hp) (by simp) (by simp)
    case h_2 e hp =>
      -- the rollback puts the one mask back that the acknowledgement changed
      obtain ⟨-, rfl, hack⟩ := acknowledge_eq_ok.mp hr
      obtain ⟨slot, ha, rfl⟩ := receiveAcknowledgement_eq_ok.mp hack
      obtain rfl : me = slot := Fin.ext ((slotIndex_eq_ok.mp hs).symm.trans ha.sender_eq)
      simp only [withReceipt, Function.update_idem, Function.update_eq_self]
      exact .failed

omit [AmendmentCodec W] in
theorem receiveConfirmation_frame {r round : HaRoundState W} {c : HaConfirm W}
    {f : Option (HaFinalizedRound W)} (h : r.receiveConfirmation members c = .ok (f, round)) :
    { round with
      confirmations := r.confirmations
      confirmedCandidate := r.confirmedCandidate
      finalized := r.finalized } = r := by
  obtain ⟨sender, -, he⟩ := receiveConfirmation_cases h
  cases he <;> rfl

omit [AmendmentCodec W] in
theorem confirm_frame {r round : HaRoundState W} {sender : ℕ} {c : HaConfirm W}
    (h : r.confirm members sender = .ok (c, round)) :
    { round with
      confirmations := r.confirmations
      confirmedCandidate := r.confirmedCandidate
      finalized := r.finalized } = r := by
  obtain ⟨-, -, slot, -, ⟨-, -, rfl⟩ | ⟨-, f, next, hr, rfl⟩⟩ := confirm_cases h
  · rfl
  · have hframe := receiveConfirmation_frame hr
    exact hframe

theorem commitState_eq_ok {f : HaFinalizedRound W} {e : HaEpoch W}
    (h : s.commitState f = .ok (e, next)) :
    ∃ amendments round, s.committedAmendments f = .ok amendments ∧
      new (s.nextRoundId e) s.members = .ok round ∧
      e = .fromFinalized f s.round.blocks s.parameters ∧
      next = { s with
        presence := s.presence.observeEpoch s.members e.presenceMask s.parameters
        epochs := s.epochs ++ [e]
        amendments := HighAvailabilityRuntimeState.pushAmendments s.amendments amendments
        round := round } := by
  simp only [HighAvailabilityRuntimeState.commitState, bind_eq_ok, pure_eq_ok,
    Prod.mk.injEq] at h
  obtain ⟨amendments, ha, round, hr, rfl, rfl⟩ := h
  exact ⟨amendments, round, ha, hr, rfl, rfl⟩

omit [ProtocolCrypto W] [AmendmentCodec W] in
theorem pushAmendments_eq (existing new : List (AmendmentRecord W)) :
    ∃ more, HighAvailabilityRuntimeState.pushAmendments existing new = existing ++ more ∧
      more ⊆ new := by
  unfold HighAvailabilityRuntimeState.pushAmendments
  induction new generalizing existing with
  | nil => exact ⟨[], by simp, List.Subset.refl _⟩
  | cons a new ih =>
    rw [List.foldl_cons]
    split
    · obtain ⟨more, heq, hsub⟩ := ih existing
      exact ⟨more, heq, List.Subset.trans hsub (List.subset_cons_self a new)⟩
    · obtain ⟨more, heq, hsub⟩ := ih (existing ++ [a])
      exact ⟨a :: more, heq.trans (List.append_cons existing a more).symm,
        List.cons_subset_cons a hsub⟩

theorem commitFinalizedRound_cases (rt : HighAvailabilityRuntime W) (io : Bool) :
    (rt.commitFinalizedRound io).2 = rt ∨
      ∃ e, Transition rt (.committed e) (rt.commitFinalizedRound io).2 := by
  unfold commitFinalizedRound
  split
  · exact .inl rfl
  · rename_i f hf
    split
    · exact .inl rfl
    · rename_i e next hc
      split
      case h_1 rt' hp => exact .inr ⟨e, .committed hf hc hp⟩
      case h_2 err hp =>
        obtain ⟨amendments, round, -, -, -, rfl⟩ := commitState_eq_ok hc
        obtain ⟨more, hmore, -⟩ := pushAmendments_eq rt.state.amendments amendments
        simp only [hmore, List.take_left]
        exact .inl rfl

theorem confirm_explains (io commitIo : Bool) :
    Explains rt none none true (fun c => [.confirm c.1]) (rt.confirm io commitIo) := by
  unfold confirm
  split
  · exact .failed
  · rename_i c round hr
    split
    case h_1 e hp =>
      rw [confirm_frame hr]
      exact .failed
    case h_2 mid hp =>
      have hcommit := commitFinalizedRound_cases mid commitIo
      split
      all_goals
        rename_i ho
        rw [ho] at hcommit
        exact .then_commit (.locked hr hp) hcommit (by simp)

theorem receiveConfirmation_explains (c : HaConfirm W) (io : Bool) :
    Explains rt (some (.confirm c)) none false (fun _ => []) (rt.receiveConfirmation c io) := by
  unfold receiveConfirmation
  split
  · split
    · exact .failed
    · split
      · exact .failed
      · exact .unchanged (by simp)
  · split
    · exact .failed
    · rename_i f round hr
      have hcommit := commitFinalizedRound_cases (rt.withRound round) io
      have hstep : Transition rt _ _ := .recordedConfirm hr
      split <;>
      · rename_i ho
        rw [ho] at hcommit
        exact .then_commit hstep hcommit (by simp)

theorem receiveAcknowledgement_explains (a : HaAcknowledge W) :
    Explains rt (some (.acknowledge a)) none false (fun _ => []) (rt.receiveAcknowledgement a) := by
  unfold receiveAcknowledgement
  split
  · split
    · exact .unchanged (by simp)
    · exact .failed
  · split
    · rename_i round hr
      exact .single (.recordedAck hr) (by simp)
    · exact .failed

section

omit [AmendmentCodec W]

theorem certificateState_eq_ok {c : HaMembershipCertificate W}
    (h : s.certificateState c = .ok next) :
    ∃ members presence generation head round,
      replayMembershipChange s.members s.presence c = .ok (members, presence) ∧
      nextGeneration s.membershipGeneration = .ok generation ∧
      s.epochs.getLast? = some head ∧
      next = { s with
        members := members
        presence := presence
        membershipGeneration := generation
        membershipChanges := s.membershipChanges ++ [c]
        membershipVoteLock := none
        membershipVotes := fun _ => none
        round := round } ∧
      new (next.nextRoundId head) members = .ok round := by
  simp only [HighAvailabilityRuntimeState.certificateState,
    HighAvailabilityRuntimeState.retargetCurrentRound, HighAvailabilityRuntimeState.head,
    bind_eq_ok, pure_eq_ok, require_eq_ok, Prod.exists] at h
  obtain ⟨members, presence, hm, generation, hg, head, hh, round, hr, rfl⟩ := h
  exact ⟨members, presence, generation, head, round, hm, hg, hh, rfl, hr⟩

theorem applyMembershipCertificate_cases (rt : HighAvailabilityRuntime W)
    (c : HaMembershipCertificate W) (io : Bool) :
    (∃ e, rt.applyMembershipCertificate c io = (.error e, rt)) ∨
    ∃ next rt', rt.applyMembershipCertificate c io = (.ok (), rt') ∧
      rt.state.validateMembershipProposal c.proposal = .ok () ∧
      rt.state.certificateState c = .ok next ∧ (rt.withState next).persist io = .ok rt' := by
  unfold applyMembershipCertificate
  dsimp only
  split
  · exact .inl ⟨_, rfl⟩
  · rename_i next h
    obtain ⟨hv, hn⟩ := guard_bind_eq_ok.mp h
    split
    · rename_i rt' hp
      exact .inr ⟨next, rt', rfl, hv, hn, hp⟩
    · obtain ⟨_, _, _, _, _, -, -, -, rfl, -⟩ := certificateState_eq_ok hn
      simp only [List.take_left]
      exact .inl ⟨_, rfl⟩

theorem tryCommitMembershipProposal_cases (rt : HighAvailabilityRuntime W)
    (proposal : HaMembershipProposal W) (io : Bool) :
    (∃ e, rt.tryCommitMembershipProposal proposal io = (.error e, rt)) ∨
    rt.tryCommitMembershipProposal proposal io = (.ok none, rt) ∨
    ∃ c next rt', rt.tryCommitMembershipProposal proposal io = (.ok (some c), rt') ∧
      c.proposal = proposal ∧ rt.state.Certifies c next ∧
      (rt.withState next).persist io = .ok rt' := by
  unfold tryCommitMembershipProposal
  dsimp only
  split
  · exact .inr (.inl rfl)
  · rename_i hq
    obtain ⟨e, he⟩ | ⟨next, rt', ho, hv, hn, hp⟩ :=
      applyMembershipCertificate_cases rt ⟨proposal, rt.state.approvalMask proposal⟩ io
    · rw [he]
      exact .inl ⟨e, rfl⟩
    · rw [ho]
      exact .inr (.inr ⟨_, next, rt', rfl, rfl, ⟨rfl, Nat.le_of_not_lt hq, hv, hn⟩, hp⟩)

end

theorem castMembershipVote_atomic (proposal : HaMembershipProposal W) (io : Bool)
    (hb : rt.state.requireEpochBoundaryForMembershipChange = .ok ()) :
    Atomic rt none none true (fun v => [.membershipVote v.1]) (rt.castMembershipVote proposal io) := by
  unfold castMembershipVote
  dsimp only
  split
  · exact .failed
  · rename_i sender h
    simp only [guard_bind_eq_ok, reject_eq_ok, not_any_ne] at h
    obtain ⟨hv, hl, hs⟩ := h
    have hacc : rt.state.AcceptsVote ⟨proposal, rt.state.selfSlot⟩ sender :=
      ⟨hb, hv, slotIndex_eq_ok.mp hs⟩
    have hcases := tryCommitMembershipProposal_cases
      (rt.withState (rt.state.withOwnVote sender proposal.digest)) proposal io
    simp only [HighAvailabilityRuntimeState.withOwnVote] at hcases
    obtain ⟨e, he⟩ | hn | ⟨c, next, rt', ho, hpr, hc, hp⟩ := hcases
    · rw [he]
      exact .failed
    · rw [hn]
      dsimp only
      split
      · rename_i persisted hp
        exact .single (.voted hacc rfl hl hp) (by simp) (by simp)
      · exact .failed
    · rw [ho]
      exact .single (.votedCertificate hacc rfl hl hpr hc hp) (by simp) (by simp)

theorem voteToSuspend_atomic (slot : ℕ) (io : Bool) :
    Atomic rt none none true (fun v => [.membershipVote v.1]) (rt.voteToSuspend slot io) := by
  unfold voteToSuspend
  split
  · exact .failed
  · rename_i hb
    exact castMembershipVote_atomic _ io hb

theorem voteToReactivate_atomic (slot caughtUpThrough : ℕ) (io : Bool) :
    Atomic rt none none true (fun v => [.membershipVote v.1])
      (rt.voteToReactivate slot caughtUpThrough io) := by
  unfold voteToReactivate
  dsimp only
  split
  · exact .failed
  · rename_i proposal h
    exact castMembershipVote_atomic proposal io (guard_bind_eq_ok.mp h).1

theorem receiveMembershipVote_atomic (v : HaMembershipVote W) (io : Bool) :
    Atomic rt (some (.membershipVote v)) none false (fun _ => []) (rt.receiveMembershipVote v io) := by
  unfold receiveMembershipVote
  split
  · split
    · exact .unchanged (by simp)
    · exact .failed
  · dsimp only
    split
    · exact .failed
    · rename_i sender h
      simp only [bind_eq_ok, reject_eq_ok] at h
      obtain ⟨_, hb, _, hv, bit, hbit, _, hact, hs⟩ := h
      have hse := slotIndex_eq_ok.mp hs
      have hacc : rt.state.AcceptsVote v sender := ⟨hb, hv, hse⟩
      obtain ⟨-, rfl⟩ := memberSlotBit_eq_ok.mp hbit
      have hin : sender.val ∈ bits v.proposal.activeMask := by
        rw [← hse]
        exact hasBit_iff.mp hact
      split
      · split
        · exact .unchanged (by simp)
        · exact .failed
      · rename_i hnone
        have hcases := tryCommitMembershipProposal_cases
          (rt.withState (rt.state.withPeerVote sender v.proposal.digest)) v.proposal io
        simp only [HighAvailabilityRuntimeState.withPeerVote] at hcases
        obtain ⟨e, he⟩ | hn | ⟨c, next, rt', ho, hpr, hc, hp⟩ := hcases
        · rw [he]
          exact .failed
        · rw [hn]
          exact .single (.recordedVote hacc hin hnone) (by simp) (by simp)
        · rw [ho]
          exact .single (.recordedCertificate hacc hin hnone hpr hc hp) (by simp) (by simp)

theorem appendAmendment_atomic (a : AmendmentRecord W) (io : Bool) :
    Atomic rt none none false (fun _ => []) (rt.appendAmendment a io) := by
  unfold appendAmendment
  dsimp only
  split
  · exact .failed
  · rename_i h
    have hv := (guard_bind_eq_ok.mp h).1
    split
    · split
      · exact .unchanged (by simp)
      · exact .failed
    · split
      · rename_i rt' hp
        exact .single (.amended hv hp) (revision_failsOnly _) (by simp)
      · simp only [List.dropLast_concat]
        exact .failed

theorem compactHistoryThrough_cases (rt : HighAvailabilityRuntime W) (through : ℕ) (io : Bool) :
    (∃ e, rt.compactHistoryThrough through io = (.error e, rt)) ∨
    ∃ c rt', rt.compactHistoryThrough through io = (.ok c, rt') ∧
      Transition rt (.compacted c) rt' := by
  unfold compactHistoryThrough
  dsimp only
  split
  · rename_i c rt' h
    simp only [bind_eq_ok, require_eq_ok, reject_eq_ok, pure_eq_ok, Prod.mk.injEq] at h
    obtain ⟨_, -, _, -, i, hi, _, h0, _, -, e, he, c', hc, _, hv, _, -, _, -, rt'', hp, rfl, rfl⟩ := h
    exact .inr ⟨_, _, rfl, .compacted hi h0 he hc hv hp⟩
  · exact .inl ⟨_, rfl⟩

theorem compactHistoryThrough_atomic (through : ℕ) (io : Bool) :
    Atomic rt none none true (fun _ => []) (rt.compactHistoryThrough through io) := by
  obtain ⟨e, he⟩ | ⟨c, rt', ho, ht⟩ := compactHistoryThrough_cases rt through io
  · rw [he]
    exact .failed
  · rw [ho]
    exact .single ht (by simp) (by simp)

theorem installRecoverySnapshot_atomic (snapshot : HaRecoverySnapshot W) (io : Bool) :
    Atomic rt none (some snapshot) true (fun _ => []) (rt.installRecoverySnapshot snapshot io) := by
  unfold installRecoverySnapshot
  dsimp only
  split
  · rename_i rt' h
    obtain ⟨next, hs, hp⟩ := bind_eq_ok.mp h
    exact .single (.installed hs hp) (revision_failsOnly _) (by simp)
  · exact .failed

theorem receiveMessage_explains (m : HaMessage W) (io : Bool) :
    Explains rt (some m) none false (fun _ => []) (rt.receiveMessage m io) := by
  cases m with
  | handshake handshake =>
    unfold receiveMessage
    dsimp only
    split
    · exact .unchanged (by simp)
    · exact .failed
  | membershipVote v => exact (receiveMembershipVote_atomic v io).1
  | dispatch d => exact receiveDispatch_explains d
  | acknowledge a => exact receiveAcknowledgement_explains a
  | confirm c => exact receiveConfirmation_explains c io

/-- The calls that leave the state as it was if they return an error. -/
theorem restoresOnError (rt : HighAvailabilityRuntime W) (io : Bool) :
    RestoresOnError rt (rt.acknowledge io) ∧
    (∀ slot, RestoresOnError rt (rt.voteToSuspend slot io)) ∧
    (∀ slot through, RestoresOnError rt (rt.voteToReactivate slot through io)) ∧
    (∀ v, RestoresOnError rt (rt.receiveMembershipVote v io)) ∧
    (∀ a, RestoresOnError rt (rt.appendAmendment a io)) ∧
    (∀ through, RestoresOnError rt (rt.compactHistoryThrough through io)) ∧
    ∀ snapshot, RestoresOnError rt (rt.installRecoverySnapshot snapshot io) :=
  ⟨(acknowledge_atomic io).2, fun slot => (voteToSuspend_atomic slot io).2,
    fun slot through => (voteToReactivate_atomic slot through io).2,
    fun v => (receiveMembershipVote_atomic v io).2, fun a => (appendAmendment_atomic a io).2,
    fun through => (compactHistoryThrough_atomic through io).2,
    fun snapshot => (installRecoverySnapshot_atomic snapshot io).2⟩

end HighAvailabilityRuntime

open HighAvailabilityRuntime

/-- Every call of the public interface is explained by transitions. -/
theorem Operation.apply_explains (op : Operation W) (rt : HighAvailabilityRuntime W) :
    Explains rt op.message op.snapshot op.durable id (op.apply rt) := by
  cases op with
  | buildDispatch transactions created => exact (buildDispatch_explains transactions created).map
  | receiveMessage m io => exact (receiveMessage_explains m io).map
  | acknowledge io => exact (acknowledge_atomic io).1.map
  | confirm io commitIo => exact (confirm_explains io commitIo).map
  | voteToSuspend slot io => exact (voteToSuspend_atomic slot io).1.map
  | voteToReactivate slot through io => exact (voteToReactivate_atomic slot through io).1.map
  | appendAmendment a io => exact (appendAmendment_atomic a io).1.map
  | compactHistoryThrough through io => exact (compactHistoryThrough_atomic through io).1.map
  | installRecoverySnapshot snapshot io => exact (installRecoverySnapshot_atomic snapshot io).1.map

end Blossom
