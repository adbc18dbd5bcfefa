import Blossom.HaAmendments

/-!
# Votes and epoch boundaries

A vote is for the boundary that its proposal names. The lock of a member and the votes that it has
recorded stay when an epoch is committed, so a vote for an earlier boundary of the same generation
still excludes another proposal.
-/

namespace Blossom

open CheckedSteps BitMask HighAvailabilityRuntime HighAvailabilityRuntimeState

variable {W : Type}
variable {rt rt' : HighAvailabilityRuntime W} {p : HaMembershipProposal W}

def Label.ballot : Label W → Option (HaMembershipVote W)
  | .voted v _ | .recordedVote v _ => some v
  | _ => none

def ownProposals (ls : List (Label W)) : List (HaMembershipProposal W) :=
  ls.filterMap fun l => l.vote.map (·.proposal)

/-- The proposals that a member has recorded votes of a slot for, its own votes among them. -/
def recordedProposals (slot : ℕ) (ls : List (Label W)) : List (HaMembershipProposal W) :=
  ls.filterMap fun l => (l.ballot.filter (·.sender = slot)).map (·.proposal)

section

variable (earlier : List (HaMembershipProposal W))

def VotedDifferently (p : HaMembershipProposal W) : Prop :=
  ∃ q ∈ earlier, q ≠ p ∧ q.membershipGeneration = p.membershipGeneration ∧
    q.effectiveNonce = p.effectiveNonce

/-- The vote that is held is for another boundary of the same generation. -/
def HoldsOutdated (held : Option W) (p : HaMembershipProposal W) : Prop :=
  ∃ q ∈ earlier, held = some q.digest ∧ q.digest ≠ p.digest ∧
    q.membershipGeneration = p.membershipGeneration ∧ q.effectiveNonce ≠ p.effectiveNonce

/-- A vote that is held was given for a proposal of a generation. -/
def HeldBacked (generation : ℕ) (held : Option W) : Prop :=
  ∀ d ∈ held, ∃ q ∈ earlier, q.digest = d ∧ q.membershipGeneration = generation

end

theorem HeldBacked.allows_iff {earlier : List (HaMembershipProposal W)} {held : Option W}
    (h : HeldBacked earlier p.membershipGeneration held) (hp : ¬VotedDifferently earlier p) :
    (∀ d ∈ held, d = p.digest) ↔ ¬HoldsOutdated earlier held p := by
  constructor
  · rintro hall ⟨q, -, hheld, hne, -⟩
    exact hne (hall _ hheld)
  · intro hnot d hd
    by_contra hne
    obtain ⟨q, hq, rfl, hgen⟩ := h d hd
    by_cases hnonce : q.effectiveNonce = p.effectiveNonce
    · exact hp ⟨q, hq, fun heq => hne (congrArg _ heq), hgen, hnonce⟩
    · exact hnot ⟨q, hq, hd, hne, hgen, hnonce⟩

/-- Every vote in the tables was given for a proposal of the current generation. -/
structure VotesBacked (ls : List (Label W)) (m : HaDurableMetadata W) : Prop where
  lock : HeldBacked (ownProposals ls) m.membershipGeneration m.membershipVoteLock
  votes : ∀ i : Fin 7, HeldBacked (recordedProposals i ls) m.membershipGeneration (m.membershipVotes i)

namespace VotesBacked

variable {ls : List (Label W)} {m : HaDurableMetadata W} {s : HighAvailabilityRuntimeState W}

theorem of_none (hlock : s.membershipVoteLock = none) (hvotes : s.membershipVotes = fun _ => none) :
    VotesBacked ls (.fromState s) := by
  refine ⟨fun d hd => ?_, fun i d hd => ?_⟩
  · rw [HaDurableMetadata.fromState, hlock] at hd
    cases hd
  · rw [HaDurableMetadata.fromState, hvotes] at hd
    cases hd

theorem later (l : Label W) (h : VotesBacked ls m) : VotesBacked (l :: ls) m := by
  refine ⟨fun d hd => ?_, fun i d hd => ?_⟩
  · obtain ⟨q, hq, hq'⟩ := h.lock d hd
    exact ⟨q, (List.sublist_cons_self l ls).filterMap _ |>.subset hq, hq'⟩
  · obtain ⟨q, hq, hq'⟩ := h.votes i d hd
    exact ⟨q, (List.sublist_cons_self l ls).filterMap _ |>.subset hq, hq'⟩

theorem update (h : VotesBacked ls (.fromState s)) {l : Label W} {v : HaMembershipVote W}
    {sender : Fin 7} (hl : l.ballot = some v) (hs : v.sender = sender)
    (hgen : v.proposal.membershipGeneration = s.membershipGeneration) (i : Fin 7) :
    HeldBacked (recordedProposals i (l :: ls)) s.membershipGeneration
      (Function.update s.membershipVotes sender (some v.proposal.digest) i) := by
  by_cases hi : i = sender
  · subst hi
    rw [Function.update_self]
    rintro _ ⟨⟩
    exact ⟨v.proposal, by simp [recordedProposals, hl, hs], rfl, hgen⟩
  · rw [Function.update_of_ne hi]
    exact (h.later l).votes i

end VotesBacked

variable [ProtocolCrypto W] [AmendmentCodec W]

/-- Only a vote adds to the tables, and a certificate or a snapshot empties them. -/
theorem Transition.votesBacked {l : Label W} (ls : List (Label W)) (ht : Transition rt l rt')
    (h : VotesBacked ls (.fromState rt.state)) : VotesBacked (l :: ls) (.fromState rt'.state) := by
  have hlater := h.later l
  cases ht with
  | built | dispatched | recordedAck | recordedConfirm => exact ⟨hlater.lock, hlater.votes⟩
  | acknowledged _ hp | locked _ hp | amended _ hp =>
    rw [persist_state hp]
    exact ⟨hlater.lock, hlater.votes⟩
  | compacted _ _ _ _ _ hp =>
    rw [persist_state hp]
    exact ⟨hlater.lock, hlater.votes⟩
  | committed _ hc hp =>
    obtain ⟨_, _, -, -, -, rfl⟩ := commitState_eq_ok hc
    rw [persist_state hp]
    exact ⟨hlater.lock, hlater.votes⟩
  | voted hv _ _ hp =>
    have hgen := (validateMembershipProposal_fits hv.proposal).generation
    rw [persist_state hp]
    refine ⟨?_, h.update rfl hv.sender_eq hgen⟩
    rintro _ ⟨⟩
    exact ⟨_, List.mem_cons_self, rfl, hgen⟩
  | recordedVote hv =>
    have hgen := (validateMembershipProposal_fits hv.proposal).generation
    exact ⟨hlater.lock, h.update rfl hv.sender_eq hgen⟩
  | votedCertificate _ _ _ _ hc hp | recordedCertificate _ _ _ _ hc hp =>
    obtain ⟨_, _, _, -, -, -, -, rfl⟩ := hc.spec
    rw [persist_state hp]
    exact .of_none rfl rfl
  | installed hs hp =>
    obtain ⟨_, _, -, -, -, -, rfl, -⟩ := snapshotState_spec hs
    rw [persist_state hp]
    exact .of_none rfl rfl

theorem HaReached.votesBacked {ls : List (Label W)} (h : HaReached ls rt) :
    VotesBacked ls (.fromState rt.state) := by
  refine (h.sound ?_ (fun l _ _ hm => hm.later l) fun ls ht _ hm => ht.votesBacked ls hm).memory.2
  intro s hs hvotes
  refine .of_none (Option.eq_none_iff_forall_ne_some.mpr fun d hd => ?_) hvotes
  obtain ⟨slot, -, hslot⟩ := (validateVotes_eq_ok.mp hs.valid.votes).2 d hd
  rw [hvotes] at hslot
  cases hslot

/-- The generation can be raised if the votes certify the proposal. -/
def HasRoom (s : HighAvailabilityRuntimeState W) (p : HaMembershipProposal W) : Prop :=
  s.members.majority ≤ countOnes (s.approvalMask p) → s.membershipGeneration + 1 < 2 ^ 64

namespace HighAvailabilityRuntimeState

variable {s : HighAvailabilityRuntimeState W} {p : HaMembershipProposal W}

omit [AmendmentCodec W] in
theorem validateMembershipProposal_replays (h : s.validateMembershipProposal p = .ok ())
    (mask : Mask) : ∃ members presence,
      replayMembershipChange s.members s.presence ⟨p, mask⟩ = .ok (members, presence) := by
  unfold validateMembershipProposal at h
  unfold replayMembershipChange
  cases ha : p.action with
  | suspend =>
    simp only [ha, bind_eq_ok, pure_eq_ok] at h
    obtain ⟨_, -, _, -, members, hm, -⟩ := h
    exact ⟨members, _, by simp only [hm]; rfl⟩
  | reactivate =>
    simp only [ha, bind_eq_ok, pure_eq_ok] at h
    obtain ⟨_, -, _, -, _, -, _, -, _, -, members, hm, -⟩ := h
    exact ⟨members, _, by simp only [hm]; rfl⟩

omit [AmendmentCodec W] in
/-- The certificate of a valid proposal can be applied exactly if there is another generation. -/
theorem certificateState_succeeds_iff (hv : s.Valid) (hp : s.validateMembershipProposal p = .ok ())
    (mask : Mask) :
    (∃ next, s.certificateState ⟨p, mask⟩ = .ok next) ↔ s.membershipGeneration + 1 < 2 ^ 64 := by
  constructor
  · rintro ⟨next, hnext⟩
    obtain ⟨_, _, _, _, _, -, hgen, -⟩ := certificateState_eq_ok hnext
    exact (nextGeneration_eq_ok.mp hgen).1
  · intro hlt
    obtain ⟨members, presence, hm⟩ := validateMembershipProposal_replays hp mask
    obtain ⟨tip, htip, -⟩ := hv.tip
    simp only [certificateState, retargetCurrentRound, head, bind_eq_ok, pure_eq_ok, require_eq_ok,
      Prod.exists]
    exact ⟨_, members, presence, hm, _, nextGeneration_eq_ok.mpr ⟨hlt, rfl⟩, tip, htip, _,
      HaRoundState.new_eq_ok.mpr ⟨(replayMembershipChange_members hm).2,
        by simp [HaRoundId.validateFor, nextRoundId], rfl⟩, rfl⟩

end HighAvailabilityRuntimeState

namespace HighAvailabilityRuntime

variable {p : HaMembershipProposal W}

omit [AmendmentCodec W] in
theorem tryCommitMembershipProposal_succeeds_iff (rt : HighAvailabilityRuntime W)
    (hv : rt.state.Valid) (hper : ∀ {next : HighAvailabilityRuntimeState W}, next.Valid →
      ∃ rt', (rt.withState next).persist true = .ok rt' ∧ rt'.state = next)
    (hp : rt.state.validateMembershipProposal p = .ok ()) :
    (∃ c, (rt.tryCommitMembershipProposal p true).1 = .ok c) ↔ HasRoom rt.state p := by
  unfold tryCommitMembershipProposal HasRoom
  dsimp only
  split
  next hlt => exact iff_of_true ⟨none, rfl⟩ fun hle => absurd hle (Nat.not_le.mpr hlt)
  next hge =>
    rw [forall_prop_of_true (Nat.le_of_not_lt hge), ← certificateState_succeeds_iff hv hp
      (rt.state.approvalMask p), applyMembershipCertificate, hp]
    cases hstate : rt.state.certificateState ⟨p, rt.state.approvalMask p⟩ with
    | error e => simp [bind, Except.bind]
    | ok next =>
      have hcertifies : rt.state.Certifies ⟨p, rt.state.approvalMask p⟩ next :=
        ⟨rfl, Nat.le_of_not_lt hge, hp, hstate⟩
      obtain ⟨rt', hwrite, -⟩ := hper (certificate_valid hv hcertifies)
      simp [bind, Except.bind, hwrite]

end HighAvailabilityRuntime

namespace HaReached

variable {ls : List (Label W)} {rt : HighAvailabilityRuntime W} {p : HaMembershipProposal W}

theorem castMembershipVote_iff (h : HaReached ls rt)
    (hp : rt.state.validateMembershipProposal p = .ok ()) :
    (∃ r, (rt.castMembershipVote p true).1 = .ok r) ↔ rt.state.LockAllows p.digest ∧
      ∀ slot : Fin 7, rt.state.selfSlot = slot.val →
        HasRoom (rt.state.withOwnVote slot p.digest) p := by
  have hv := h.good.valid
  obtain ⟨slot, hslot⟩ : ∃ slot : Fin 7, rt.state.selfSlot = slot.val :=
    ⟨⟨_, hv.selfSlot_lt.1⟩, rfl⟩
  have hroom : (∀ i : Fin 7, rt.state.selfSlot = i.val → HasRoom (rt.state.withOwnVote i p.digest) p) ↔
      HasRoom (rt.state.withOwnVote slot p.digest) p := by
    refine ⟨fun hall => hall slot hslot, fun hone i hi => ?_⟩
    rwa [Fin.ext (hi.symm.trans hslot)]
  have htry : _ ↔ HasRoom (rt.state.withOwnVote slot p.digest) p :=
    tryCommitMembershipProposal_succeeds_iff (rt.withState _) (withOwnVote_valid p.digest hv hslot)
      h.persist_ok hp
  rw [hroom, ← htry]
  unfold castMembershipVote
  dsimp only
  split
  next e hatt =>
    refine iff_of_false (by simp) fun ⟨hlock, _⟩ => ?_
    have hok : (do
        rt.state.validateMembershipProposal p
        reject (rt.state.membershipVoteLock.any (fun locked => decide (locked ≠ p.digest)) = true)
          (wireProtocol "HA member already voted for a conflicting membership change")
        slotIndex rt.state.selfSlot) = .ok slot := by
      simp only [bind_eq_ok, reject_eq_ok, not_any_ne]
      exact ⟨(), hp, (), hlock, slotIndex_eq_ok.mpr hslot⟩
    rw [hatt] at hok
    cases hok
  next sender hatt =>
    simp only [bind_eq_ok, reject_eq_ok, not_any_ne] at hatt
    obtain ⟨_, -, _, hlock, hsend⟩ := hatt
    obtain rfl : sender = slot := Fin.ext ((slotIndex_eq_ok.mp hsend).symm.trans hslot)
    rw [iff_of_true (show rt.state.LockAllows p.digest from hlock) trivial, true_and]
    obtain ⟨e, he⟩ | hnone | ⟨c, next, rt', hsome, -⟩ := tryCommitMembershipProposal_cases
      (rt.withState (rt.state.withOwnVote sender p.digest)) p true
    · simp only [withOwnVote] at he ⊢
      simp [he]
    · obtain ⟨after, hafter, -⟩ := h.persist_ok (withOwnVote_valid p.digest hv hslot)
      simp only [withOwnVote] at hnone hafter ⊢
      simp [hnone, hafter]
    · simp only [withOwnVote] at hsome ⊢
      simp [hsome]

theorem receiveMembershipVote_iff (h : HaReached ls rt)
    (hb : rt.state.requireEpochBoundaryForMembershipChange = .ok ())
    (hp : rt.state.validateMembershipProposal p = .ok ()) {sender : Fin 7}
    (hs : sender.val ∈ bits rt.state.members.activeMask) :
    (∃ r, (rt.receiveMembershipVote ⟨p, sender⟩ true).1 = .ok r) ↔
      (∀ d ∈ rt.state.membershipVotes sender, d = p.digest) ∧
        (rt.state.membershipVotes sender = none →
          HasRoom (rt.state.withPeerVote sender p.digest) p) := by
  have hfits := validateMembershipProposal_fits hp
  have hatt : (do
      rt.state.requireEpochBoundaryForMembershipChange
      rt.state.validateMembershipProposal p
      let bit ← memberSlotBit sender
      reject (p.activeMask &&& bit = 0) (.error .unknownSender)
      slotIndex sender) = .ok sender := by
    simp only [bind_eq_ok, reject_eq_ok]
    exact ⟨(), hb, (), hp, _, memberSlotBit_eq_ok.mpr ⟨sender.isLt, rfl⟩, (),
      hasBit_iff.mpr (hfits.activeMask ▸ hs), slotIndex_eq_ok.mpr rfl⟩
  rw [receiveMembershipVote, if_neg (Nat.not_lt.mpr hfits.generation.ge), hatt]
  dsimp only
  cases hheld : rt.state.membershipVotes sender with
  | some existing =>
    by_cases hsame : existing = p.digest
    · simp [hsame]
    · simp [hsame]
  | none =>
    have htry : _ ↔ HasRoom (rt.state.withPeerVote sender p.digest) p :=
      tryCommitMembershipProposal_succeeds_iff (rt.withState _)
        (withPeerVote_valid p.digest h.good.valid hs hheld) h.persist_ok hp
    rw [← htry]
    obtain ⟨e, he⟩ | hnone | ⟨c, next, rt', hsome, -⟩ := tryCommitMembershipProposal_cases
      (rt.withState (rt.state.withPeerVote sender p.digest)) p true
    · simp only [withPeerVote] at he ⊢
      simp [he]
    · simp only [withPeerVote] at hnone ⊢
      simp [hnone]
    · simp only [withPeerVote] at hsome ⊢
      simp [hsome]

/-- At an empty boundary a valid proposal can be voted for, unless the member has voted otherwise at
this boundary, exactly if no vote for an earlier boundary is held and the generation can be raised;
and so for the vote of an active peer. -/
theorem vote_binds_own_boundary_iff (h : HaReached ls rt)
    (hb : rt.state.requireEpochBoundaryForMembershipChange = .ok ())
    (hp : rt.state.validateMembershipProposal p = .ok ()) :
    ((¬VotedDifferently (ownProposals ls) p → ∃ r, (rt.castMembershipVote p true).1 = .ok r) ↔
      (¬VotedDifferently (ownProposals ls) p →
        ¬HoldsOutdated (ownProposals ls) rt.state.membershipVoteLock p ∧
          ∀ slot : Fin 7, rt.state.selfSlot = slot.val →
            HasRoom (rt.state.withOwnVote slot p.digest) p)) ∧
    ∀ sender : Fin 7, sender.val ∈ bits rt.state.members.activeMask →
      ((¬VotedDifferently (recordedProposals sender ls) p →
        ∃ r, (rt.receiveMembershipVote ⟨p, sender⟩ true).1 = .ok r) ↔
      (¬VotedDifferently (recordedProposals sender ls) p →
        ¬HoldsOutdated (recordedProposals sender ls) (rt.state.membershipVotes sender) p ∧
          (rt.state.membershipVotes sender = none →
            HasRoom (rt.state.withPeerVote sender p.digest) p))) := by
  have hgen := (validateMembershipProposal_fits hp).generation
  have hbacked := h.votesBacked
  refine ⟨forall_congr' fun hown => ?_, fun sender hs => forall_congr' fun hpeer => ?_⟩
  · have hlock : HeldBacked (ownProposals ls) p.membershipGeneration rt.state.membershipVoteLock :=
      hgen ▸ hbacked.lock
    rw [h.castMembershipVote_iff hp, ← hlock.allows_iff hown]
    rfl
  · have hvote : HeldBacked (recordedProposals sender ls) p.membershipGeneration
        (rt.state.membershipVotes sender) := hgen ▸ hbacked.votes sender
    rw [h.receiveMembershipVote_iff hb hp hs, ← hvote.allows_iff hpeer]

end HaReached

/-!
## A vote after another epoch
-/

namespace Operation

def votes (op : Operation W) (rt : HighAvailabilityRuntime W) : List (HaMembershipVote W) :=
  (op.message.toList ++ (op.apply rt).1.toOption.getD []).filterMap fun
    | .membershipVote v => some v
    | _ => none

def playVotes (script : List (HighAvailabilityRuntime W → List (Operation W)))
    (rt : HighAvailabilityRuntime W) : HighAvailabilityRuntime W × List (HaMembershipVote W) :=
  script.foldl (fun x calls =>
    (calls x.1).foldl (fun x op => ((op.apply x.1).2, op.votes x.1 ++ x.2)) x) (rt, [])

end Operation

open Operation

/-- A runtime can be reached with no other votes than some given ones. -/
def ReachedVoting (x : HighAvailabilityRuntime W × List (HaMembershipVote W))
    (ls : List (Label W)) : Prop :=
  HaReached ls x.1 ∧ ∀ l ∈ ls, ∀ v ∈ l.ballot, v ∈ x.2

namespace ReachedVoting

variable {x : HighAvailabilityRuntime W × List (HaMembershipVote W)} {ls : List (Label W)}

theorem not_votedDifferently (h : ReachedVoting x ls)
    (hvotes : ∀ v ∈ x.2, v.proposal.effectiveNonce ≠ p.effectiveNonce) (slot : ℕ) :
    ¬VotedDifferently (ownProposals ls) p ∧ ¬VotedDifferently (recordedProposals slot ls) p := by
  constructor
  · rintro ⟨q, hq, -, -, hnonce⟩
    simp only [ownProposals, List.mem_filterMap, Option.map_eq_some_iff] at hq
    obtain ⟨l, hl, v, hv, rfl⟩ := hq
    cases l <;> cases hv
    exact hvotes _ (h.2 _ hl _ rfl) hnonce
  · rintro ⟨q, hq, -, -, hnonce⟩
    simp only [recordedProposals, List.mem_filterMap, Option.map_eq_some_iff,
      Option.filter_eq_some_iff] at hq
    obtain ⟨l, hl, v, ⟨hv, -⟩, rfl⟩ := hq
    exact hvotes _ (h.2 _ hl _ hv) hnonce

theorem call (h : ReachedVoting x ls) (op : Operation W) :
    ∃ ls', ReachedVoting ((op.apply x.1).2, op.votes x.1 ++ x.2) ls' := by
  obtain ⟨ls', hs, hall, -, -, -, hcast⟩ := op.apply_explains x.1
  refine ⟨_, h.1.steps hs, fun l hl v hv => ?_⟩
  obtain hl | hl := List.mem_append.mp hl
  · refine List.mem_append_left _ (List.mem_filterMap.mpr ⟨.membershipVote v, ?_, rfl⟩)
    rw [List.mem_reverse] at hl
    cases l <;> cases hv
    · obtain ⟨messages, hok, hmem⟩ := hcast _ hl _ rfl
      rw [hok]
      exact List.mem_append_right _ hmem
    · rw [(hall _ hl).1 _ rfl]
      exact List.mem_cons_self
  · exact List.mem_append_right _ (h.2 l hl v hv)

theorem play (h : HaReached [] rt)
    (script : List (HighAvailabilityRuntime W → List (Operation W))) :
    ∃ ls, ReachedVoting (playVotes script rt) ls := by
  refine List.foldlRecOn (motive := fun x => ∃ ls, ReachedVoting x ls) script _ ⟨[], h, by simp⟩
    fun x hx calls _ => ?_
  refine List.foldlRecOn (motive := fun x => ∃ ls, ReachedVoting x ls) (calls x.1) _ hx
    fun y hy op _ => ?_
  obtain ⟨_, hy⟩ := hy
  exact hy.call op

theorem exists_of_check (groupId selfKey : W) (members : List (NodeIdentity W))
    (parameters : HighAvailabilityParameters)
    (script : List (HighAvailabilityRuntime W → List (Operation W)))
    {P : HighAvailabilityRuntime W × List (HaMembershipVote W) → Prop} [DecidablePred P]
    (h : ((HighAvailabilityRuntime.create (some .empty) groupId selfKey members parameters
      true).toOption.any fun rt => decide (P (playVotes script rt))) = true) :
    ∃ ls x, ReachedVoting x ls ∧ P x := by
  obtain ⟨rt, hrt, hp⟩ := CheckedSteps.exists_of_check (p := fun rt => P (playVotes script rt)) h
  obtain ⟨ls, hreach⟩ := play (.created (by simp) hrt) script
  exact ⟨ls, _, hreach, hp⟩

end ReachedVoting

open DigestWord in
/-- One of three members is absent for an epoch. Another one votes to suspend it, commits one more
epoch with the third one, and cannot vote for its suspension at that boundary. -/
theorem outdated_vote_stops_cast :
    ∃ ls, ∃ rt : HighAvailabilityRuntime DigestWord, ∃ p, HaReached ls rt ∧
      rt.state.requireEpochBoundaryForMembershipChange = .ok () ∧
      rt.state.validateMembershipProposal p = .ok () ∧
      ¬VotedDifferently (ownProposals ls) p ∧ (rt.castMembershipVote p true).1 =
        .error (wireProtocol "HA member already voted for a conflicting membership change") := by
  have hcheck : ∃ ls, ∃ x : HighAvailabilityRuntime DigestWord × List (HaMembershipVote DigestWord),
      ReachedVoting x ls ∧
      (∀ v ∈ x.2, v.proposal.effectiveNonce ≠ (x.1.ownProposal 2 .suspend).effectiveNonce) ∧
      x.1.state.requireEpochBoundaryForMembershipChange = .ok () ∧
      x.1.state.validateMembershipProposal (x.1.ownProposal 2 .suspend) = .ok () ∧
      (x.1.castMembershipVote (x.1.ownProposal 2 .suspend) true).1 =
        .error (wireProtocol "HA member already voted for a conflicting membership change") := by
    apply ReachedVoting.exists_of_check (key 0) (key 1) (numberedMembers key 3) (.new 6 1)
      (roundWith 1 [] ++ [fun _ => [.voteToSuspend 2 true]] ++ roundWith 1 [])
    decide +kernel
  obtain ⟨ls, x, h, hvotes, hb, hp, hcast⟩ := hcheck
  exact ⟨ls, x.1, _, h.1, hb, hp, (h.not_votedDifferently hvotes 0).1, hcast⟩

open DigestWord in
/-- At the first boundary after the absence the vote is cast, and the vote of the peer is counted. -/
theorem first_suspension_votes :
    ∃ ls, ∃ rt : HighAvailabilityRuntime DigestWord, HaReached ls rt ∧
      (∃ r, (rt.castMembershipVote (rt.ownProposal 2 .suspend) true).1 = .ok r) ∧
      ∃ r, (rt.receiveMembershipVote ⟨rt.ownProposal 2 .suspend, 1⟩ true).1 = .ok r := by
  have hcheck : ∃ ls, ∃ x : HighAvailabilityRuntime DigestWord × List (HaMembershipVote DigestWord),
      ReachedVoting x ls ∧
      (∀ v ∈ x.2, v.proposal.effectiveNonce ≠ (x.1.ownProposal 2 .suspend).effectiveNonce) ∧
      x.1.state.requireEpochBoundaryForMembershipChange = .ok () ∧
      x.1.state.validateMembershipProposal (x.1.ownProposal 2 .suspend) = .ok () ∧
      x.1.state.membershipVoteLock = none ∧ x.1.state.membershipVotes 1 = none ∧
      x.1.state.membershipGeneration = 0 ∧ 1 ∈ bits x.1.state.members.activeMask := by
    apply ReachedVoting.exists_of_check (key 0) (key 1) (numberedMembers key 3) (.new 6 1) (roundWith 1 [])
    decide +kernel
  obtain ⟨ls, x, h, hvotes, hb, hp, hlock, hnone, hgen, hactive⟩ := hcheck
  obtain ⟨hown, hpeer⟩ := h.not_votedDifferently hvotes 1
  obtain ⟨hcast, hreceive⟩ := h.1.vote_binds_own_boundary_iff hb hp
  refine ⟨ls, x.1, h.1, hcast.mpr (fun _ => ⟨?_, fun slot _ _ => ?_⟩) hown,
    (hreceive 1 hactive).mpr (fun _ => ⟨?_, fun _ _ => ?_⟩) hpeer⟩
  · rintro ⟨q, -, hheld, -⟩
    rw [hlock] at hheld
    cases hheld
  · rw [withOwnVote, hgen]
    decide
  · rintro ⟨q, -, hheld, -⟩
    rw [hnone] at hheld
    cases hheld
  · rw [withPeerVote, hgen]
    decide

end Blossom
