import Blossom.HaTransition
import Blossom.HaReplay
import Blossom.ConsecutiveList

/-!
# Reachable states validate

Full validation replays certificates, presence counters, epoch links and amendments from
the anchor. Every elementary transition keeps a state that passes it, so the states of
a run pass it after every call, whichever calls fail.
-/

namespace Blossom

open CheckedSteps BitMask ConsecutiveList

variable {W : Type} [ProtocolCrypto W]
variable {bound depth epoch head i nonce : ℕ}
  {amendments collected result : List (AmendmentRecord W)} {p : HaMembershipProposal W}

namespace HighAvailabilityRuntimeState

variable {s next : HighAvailabilityRuntimeState W}

/-- What full validation checks, part by part. -/
structure Valid (s : HighAvailabilityRuntimeState W) : Prop where
  parameters : s.parameters.validate = .ok ()
  members : s.members.validate = .ok ()
  self : (s.members.member s.selfSlot).isSome
  anchor : s.validateAnchor = .ok ()
  envelope : ∀ e ∈ s.epochs, s.MatchesEnvelope e ∧ e.hash = e.computeHash
  links : s.epochs.IsChain fun p e => s.validateLink p e = .ok ()
  votes : s.validateVotes = .ok ()
  certificates : s.validateCertificates = .ok ()
  amendments : ∀ a ∈ s.amendments, s.validateAmendmentStructure a = .ok ()
  tip : ∃ tip, s.epochs.getLast? = some tip ∧ s.RoundExtends tip ∧ s.validateReplay tip = .ok () ∧
    ∀ c ∈ s.checkpoint, c.throughEpoch.nonce ≤ tip.nonce - s.parameters.mutableEpochDepth

theorem validateEpochs_eq_ok {previous : Option (HaEpoch W)} {epochs : List (HaEpoch W)} :
    s.validateEpochs previous epochs = .ok () ↔
      (∀ e ∈ epochs, s.MatchesEnvelope e ∧ e.hash = e.computeHash) ∧
      (previous.toList ++ epochs).IsChain fun p e => s.validateLink p e = .ok () := by
  induction epochs generalizing previous with
  | nil => cases previous <;> simp [validateEpochs]
  | cons e rest ih =>
    cases previous with
    | none => simp [validateEpochs, ih]; tauto
    | some p => simp [validateEpochs, ih]; tauto

omit [ProtocolCrypto W] in
theorem checkpoint_any_iff {checkpoint : Option (HaHistoryCheckpoint W)} :
    (checkpoint.any fun c => decide (bound < c.throughEpoch.nonce)) = false ↔
      ∀ c ∈ checkpoint, c.throughEpoch.nonce ≤ bound := by
  cases checkpoint <;> simp

theorem validate_eq_ok : s.validate = .ok () ↔ s.Valid := by
  rw [validate]
  simp only [↓guard_bind_eq_ok, bind_eq_ok, reject_eq_ok, head, require_eq_ok, forM_eq_ok,
    List.forM_eq_forM, checkpoint_any_iff, not_not, Bool.not_eq_true, Option.isNone_eq_false_iff,
    validateEpochs_eq_ok]
  constructor
  · rintro ⟨hp, hm, hs, -, ha, ⟨henv, hlinks⟩, tip, ht, hck, hr, hv, hc, hrep, ham⟩
    exact ⟨hp, hm, hs, ha, henv, hlinks, hv, hc, ham, tip, ht, hr, hrep, hck⟩
  · rintro ⟨hp, hm, hs, ha, henv, hlinks, hv, hc, ham, tip, ht, hr, hrep, hck⟩
    exact ⟨hp, hm, hs, List.ne_nil_of_mem (List.mem_of_getLast? ht), ha, ⟨henv, hlinks⟩, tip, ht,
      hck, hr, hv, hc, hrep, ham⟩

theorem validateVotes_eq_ok : s.validateVotes = .ok () ↔
    (∀ i : Fin 7, s.members.memberCount ≤ i.val → s.membershipVotes i = none) ∧
      ∀ d ∈ s.membershipVoteLock, ∃ slot : Fin 7, s.selfSlot = slot.val ∧
        s.membershipVotes slot = some d := by
  simp only [validateVotes, bind_eq_ok, reject_eq_ok, forM_eq_ok, List.forM_eq_forM,
    List.mem_finRange, true_implies, not_and, Option.not_isSome_iff_eq_none]
  cases hl : s.membershipVoteLock with
  | none => simp
  | some d => simp [slotIndex_eq_ok]

/-- Only the identifier of the round matters. -/
theorem Valid.withRound (h : s.Valid) {round : HaRoundState W}
    (hid : round.roundId = s.round.roundId) : ({ s with round := round }).Valid := by
  obtain ⟨tip, ht, hr, hrep, hck⟩ := h.tip
  exact { h with tip := ⟨tip, ht, by simpa only [RoundExtends, hid] using hr, hrep, hck⟩ }

theorem Valid.withVotes (h : s.Valid) {lock : Option W} {votes : PerSlot (Option W)}
    (hv : ({ s with membershipVoteLock := lock, membershipVotes := votes }).validateVotes =
      .ok ()) : ({ s with membershipVoteLock := lock, membershipVotes := votes }).Valid :=
  { h with votes := hv }

theorem Valid.selfSlot_lt (h : s.Valid) : s.selfSlot < 7 ∧ s.selfSlot < s.members.memberCount := by
  obtain ⟨-, -, -, -, hdense⟩ := HaMemberSlots.validate_spec h.members
  have h7 : s.selfSlot < 7 := by
    by_contra hge
    have hself := h.self
    simp [HaMemberSlots.member, slotGet, hge] at hself
  exact ⟨h7, (hdense _ h7).mp h.self⟩

theorem withOwnVote_valid (digest : W) (h : s.Valid) {sender : Fin 7}
    (hs : s.selfSlot = sender.val) : (s.withOwnVote sender digest).Valid := by
  apply h.withVotes
  obtain ⟨hbeyond, -⟩ := validateVotes_eq_ok.mp h.votes
  refine validateVotes_eq_ok.mpr ⟨?_, ?_⟩
  · intro i hi
    have hne : i ≠ sender := by
      rintro rfl
      have hself := h.selfSlot_lt.2
      dsimp only at hi
      omega
    simpa [Function.update_of_ne hne] using hbeyond i hi
  · rintro d ⟨⟩
    exact ⟨sender, hs, by simp⟩

theorem withPeerVote_valid (digest : W) (h : s.Valid) {sender : Fin 7}
    (ha : sender.val ∈ bits s.members.activeMask) (hn : s.membershipVotes sender = none) :
    (s.withPeerVote sender digest).Valid := by
  refine h.withVotes ?_
  obtain ⟨hbeyond, hlock⟩ := validateVotes_eq_ok.mp h.votes
  obtain ⟨-, -, hsub, -⟩ := HaMemberSlots.validate_spec h.members
  have hlt := Finset.mem_range.mp (hsub ha)
  refine validateVotes_eq_ok.mpr ⟨?_, ?_⟩
  · intro i hi
    have hne : i ≠ sender := by
      rintro rfl
      dsimp only at hi
      omega
    simpa [Function.update_of_ne hne] using hbeyond i hi
  · intro d hd
    obtain ⟨slot, hs, hv⟩ := hlock d hd
    have hne : slot ≠ sender := by
      rintro rfl
      rw [hn] at hv
      cases hv
    exact ⟨slot, hs, by simp [Function.update_of_ne hne, hv]⟩

/-- A proposal that fits the current epoch boundary. -/
structure ProposalFits (s : HighAvailabilityRuntimeState W) (p : HaMembershipProposal W) :
    Prop where
  digest : p.digest = p.computeDigest
  groupId : p.groupId = s.groupId
  generation : p.membershipGeneration = s.membershipGeneration
  activeMask : p.activeMask = s.members.activeMask
  parameters : p.parametersHash = s.parameters.parametersHash
  nonce : p.effectiveNonce = s.round.roundId.nonce
  reactivates : p.action ≠ .suspend → s.members.isActive p.slot = false

theorem validateMembershipProposal_fits (h : s.validateMembershipProposal p = .ok ()) :
    s.ProposalFits p := by
  simp only [validateMembershipProposal, ↓guard_bind_eq_ok, reject_eq_ok, not_or, not_not] at h
  obtain ⟨⟨hd, hg, hgen, hm, hpar, hn⟩, h⟩ := h
  refine ⟨hd, hg, hgen, hm, hpar, hn, fun hact => ?_⟩
  cases ha : p.action with
  | suspend => exact absurd ha hact
  | reactivate n c r =>
    simp only [ha, ↓guard_bind_eq_ok, reject_eq_ok, Bool.not_eq_true] at h
    exact h.1

variable {c : HaMembershipCertificate W}

theorem certificateMask_eq {members : HaMemberSlots W}
    {presence presence' : HaPresenceTracker} (hp : s.ProposalFits c.proposal)
    (hm : s.members.validate = .ok ())
    (h : replayMembershipChange s.members presence c = .ok (members, presence')) :
    certificateMask s.members.activeMask c.proposal = .ok members.activeMask := by
  unfold replayMembershipChange at h
  unfold certificateMask
  cases ha : c.proposal.action with
  | suspend =>
    simp only [ha, bind_eq_ok, pure_eq_ok, Prod.mk.injEq] at h
    obtain ⟨m, hw, rfl, -⟩ := h
    obtain ⟨hact, hlt, hn, hc, -⟩ := HaMemberSlots.withSuspended_eq_ok hw
    have hbit := hasBit_iff.mpr ((HaMemberSlots.isActive_iff_mem hm).mp hact)
    rw [hn] at hc ⊢
    simp only [bind_eq_ok, memberSlotBit_eq_ok, reject_eq_ok, pure_eq_ok]
    exact ⟨_, ⟨hlt, rfl⟩, (), not_or.mpr ⟨hbit, not_lt.mpr hc⟩, rfl⟩
  | reactivate n x y =>
    simp only [ha, bind_eq_ok, pure_eq_ok, Prod.mk.injEq] at h
    obtain ⟨m, hw, rfl, -⟩ := h
    obtain ⟨hsome, hlt, hn, -⟩ := HaMemberSlots.withReactivated_eq_ok hw
    have hina := hp.reactivates (by simp [ha])
    have hbit : ¬hasBit s.members.activeMask c.proposal.slot := by
      rw [hasBit_iff, ← HaMemberSlots.isActive_iff_mem hm, hina]
      decide
    rw [hn]
    simp only [bind_eq_ok, memberSlotBit_eq_ok, reject_eq_ok, pure_eq_ok]
    exact ⟨_, ⟨hlt, rfl⟩, (), hbit, rfl⟩

theorem mem_bits_approvalMask :
    i ∈ bits (s.approvalMask p) ↔ i ∈ bits p.activeMask ∧
      ∃ slot : Fin 7, slot.val = i ∧ s.membershipVotes slot = some p.digest := by
  simp only [approvalMask, mem_bits_collect (show 7 ≤ 8 by decide), Bool.and_eq_true,
    decide_eq_true_eq, hasBit_iff]
  constructor
  · rintro ⟨slot, ⟨ha, hv⟩, rfl⟩
    exact ⟨ha, slot, rfl, hv⟩
  · rintro ⟨ha, slot, rfl, hv⟩
    exact ⟨slot, ⟨ha, hv⟩, rfl⟩

theorem validateCertificate_of_certifies (h : s.Valid)
    (hc : s.Certifies c next) : s.validateCertificate (s.membershipGeneration,
      s.members.activeMask) c = .ok (next.membershipGeneration, next.members.activeMask) := by
  have hp := validateMembershipProposal_fits hc.valid
  obtain ⟨members, presence, generation, head, round, hm, hg, -, rfl, -⟩ :=
    HighAvailabilityRuntime.certificateState_eq_ok hc.next_eq
  have hsub : bits c.approvalMask ⊆ bits s.members.activeMask := by
    intro i hi
    rw [hc.approval] at hi
    rw [← hp.activeMask]
    exact (mem_bits_approvalMask.mp hi).1
  have hmaj := hc.majority
  rw [HaMemberSlots.majority_eq h.members] at hmaj
  simp only [validateCertificate, bind_eq_ok, reject_eq_ok, pure_eq_ok, not_or, not_not, not_lt,
    Prod.mk.injEq]
  exact ⟨(), ⟨hp.digest, hp.groupId, hp.generation, hp.activeMask, hp.parameters,
    and_not_eq_zero_iff.mpr hsub, hmaj⟩, members.activeMask, certificateMask_eq hp h.members hm,
    generation, hg, rfl, rfl⟩

theorem validateLink_eq_ok {p e : HaEpoch W} : s.validateLink p e = .ok () ↔
    e.previousEpochHash = p.hash ∧ e.previousEpochNonce = some p.nonce ∧ e.nonce = p.nonce + 1 ∧
      e.validate s.members = .ok () := by
  simp only [validateLink, ↓guard_bind_eq_ok, reject_eq_ok, not_or, not_not, and_assoc]

theorem Valid.consecutive (h : s.Valid) : Consecutive HaEpoch.nonce s.epochs :=
  h.links.imp fun _ _ hl => (validateLink_eq_ok.mp hl).2.2.1

variable {tip : HaEpoch W}

theorem validateReplay_eq_ok : s.validateReplay tip = .ok () ↔
    ∃ replayed rest final,
      s.replayStart.overEpochs s.parameters s.membershipChanges s.epochs.tail =
        .ok (replayed, rest) ∧
      replayed.pending (tip.nonce + 1) rest = .ok final ∧
      final.generation = s.membershipGeneration ∧
      final.members.activeMask = s.members.activeMask ∧ final.presence = s.presence := by
  simp only [validateReplay, bind_eq_ok, reject_eq_ok, not_or, not_not, Prod.exists,
    exists_and_left]

omit [ProtocolCrypto W] in
theorem replayStart_keeps (s : HighAvailabilityRuntimeState W) :
    s.replayStart.KeepsIdentities s.members := by
  unfold replayStart
  split <;> rfl

theorem Valid.replay (h : s.Valid) : ∃ tip replayed rest,
    s.epochs.getLast? = some tip ∧ s.RoundExtends tip ∧
      s.replayStart.overEpochs s.parameters s.membershipChanges s.epochs.tail =
        .ok (replayed, rest) ∧
      replayed.pending (tip.nonce + 1) rest =
        .ok ⟨s.members, s.presence, s.membershipGeneration⟩ := by
  obtain ⟨tip, ht, hr, hrep, -⟩ := h.tip
  obtain ⟨replayed, rest, final, ho, hp, hg, hm, hpr⟩ := validateReplay_eq_ok.mp hrep
  have hk := HaReplay.pending_keeps (HaReplay.overEpochs_keeps s.replayStart_keeps ho) hp
  refine ⟨tip, replayed, rest, ht, hr, ho, ?_⟩
  have hfinal : final = ⟨s.members, s.presence, s.membershipGeneration⟩ := by
    obtain ⟨members, presence, generation⟩ := final
    rw [HaReplay.KeepsIdentities] at hk
    dsimp only at hk hg hm hpr
    rw [hk, hm, hg, hpr]
  rw [hp, hfinal]

def afterCertificate (s : HighAvailabilityRuntimeState W) (c : HaMembershipCertificate W)
    (mask : Mask) (presence : HaPresenceTracker) (generation : ℕ) (head : HaEpoch W) :
    HighAvailabilityRuntimeState W :=
  { s with
    members := { s.members with activeMask := mask }
    presence := presence
    membershipGeneration := generation
    membershipChanges := s.membershipChanges ++ [c]
    membershipVoteLock := none
    membershipVotes := fun _ => none
    round := .emptyRound
      { s.nextRoundId head with membershipGeneration := generation, activeMask := mask } }

theorem Certifies.spec (hc : s.Certifies c next) :
    ∃ mask presence head,
      replayMembershipChange s.members s.presence c =
        .ok ({ s.members with activeMask := mask }, presence) ∧
      ({ s.members with activeMask := mask } : HaMemberSlots W).validate = .ok () ∧
      nextGeneration s.membershipGeneration = .ok (s.membershipGeneration + 1) ∧
      s.epochs.getLast? = some head ∧
      next = s.afterCertificate c mask presence (s.membershipGeneration + 1) head := by
  obtain ⟨members, presence, generation, head, round, hm, hg, hh, hnext, hround⟩ :=
    HighAvailabilityRuntime.certificateState_eq_ok hc.next_eq
  obtain ⟨hid, hmv⟩ := replayMembershipChange_members hm
  obtain ⟨-, rfl⟩ := nextGeneration_eq_ok.mp hg
  obtain ⟨-, -, rfl⟩ := HaRoundState.new_eq_ok.mp hround
  obtain ⟨mask, rfl⟩ : ∃ mask, members = { s.members with activeMask := mask } := ⟨_, hid⟩
  refine ⟨mask, presence, head, hm, hmv, hg, hh, ?_⟩
  generalize hrid : next.nextRoundId head = roundId at hnext
  subst hnext
  rw [← hrid]
  rfl

theorem certificate_valid (h : s.Valid) (hc : s.Certifies c next) : next.Valid := by
  have hcert := validateCertificate_of_certifies h hc
  have hp := validateMembershipProposal_fits hc.valid
  obtain ⟨mask, presence, head, hm, hmv, hg, hh, rfl⟩ := hc.spec
  obtain ⟨tip, replayed, rest, ht, hr, ho, hpend⟩ := h.replay
  cases hh.symm.trans ht
  obtain ⟨tip', ht', -, -, hck⟩ := h.tip
  cases hh.symm.trans ht'
  have hnonce : c.proposal.effectiveNonce = head.nonce + 1 := by
    rw [hp.nonce]
    exact hr.2.2.2.2.2.2.2
  refine ⟨h.parameters, hmv, h.self, h.anchor, h.envelope, h.links, ?_, ?_, h.amendments, head, hh,
    ⟨rfl, rfl, rfl, rfl, rfl, rfl, rfl, rfl⟩, ?_, hck⟩
  · exact validateVotes_eq_ok.mpr ⟨fun _ _ => rfl, by simp [afterCertificate]⟩
  · -- the chain check runs over one certificate more
    have hold := h.certificates
    simp only [validateCertificates, bind_eq_ok, reject_eq_ok, not_not] at hold ⊢
    obtain ⟨reached, hfold, rfl⟩ := hold
    refine ⟨_, ?_, rfl⟩
    have happ : List.foldlM s.validateCertificate
        (s.replayStart.generation, s.replayStart.members.activeMask)
        (s.membershipChanges ++ [c]) =
          .ok (s.membershipGeneration + 1, mask) := by
      rw [List.foldlM_append, bind_eq_ok]
      refine ⟨_, hfold, ?_⟩
      rw [List.foldlM_cons, bind_eq_ok]
      exact ⟨_, hcert, rfl⟩
    exact happ
  · -- the certificate waits behind the epochs and is replayed last
    have hlater : ∀ e ∈ s.epochs.tail, e.nonce < c.proposal.effectiveNonce := by
      intro e he
      have hle := h.consecutive.le_last (List.mem_of_mem_tail he) hh
      omega
    refine validateReplay_eq_ok.mpr ⟨replayed, rest ++ [c], _,
      HaReplay.overEpochs_append_change hlater ho,
      HaReplay.pending_append.mpr ⟨_, hpend, hnonce, HaReplay.change_eq_ok.mpr
        ⟨_, presence, _, hm, hg, rfl⟩⟩, rfl, rfl, rfl⟩

variable {f : HaFinalizedRound W}

theorem fromFinalized_validateBlock {r : HaRoundState W} (hw : r.Wf)
    (hf : r.FinalizedWf f) (parameters : HighAvailabilityParameters) (i : Fin 7) :
    (HaEpoch.fromFinalized f r.blocks parameters).validateBlock i = .ok () := by
  have hrec := hw.received i
  rw [← hf.included] at hrec
  refine HaEpoch.validateBlock_eq_ok.mpr ⟨?_, ?_⟩
  · intro hin
    obtain ⟨b, hb⟩ := Option.isSome_iff_exists.mp (hrec.mp hin)
    refine ⟨b, hb, ?_⟩
    have hint := hw.intact i b hb
    rw [← hf.hashes i hin] at hint
    exact hint
  · intro hout
    exact Option.not_isSome_iff_eq_none.mp fun hsome => hout (hrec.mpr hsome)

theorem fromFinalized_roundId (hw : s.round.Wf)
    (hf : s.round.finalized = some f) (ht : s.RoundExtends tip) :
    (HaEpoch.fromFinalized f s.round.blocks s.parameters).roundId = s.round.roundId := by
  have hfw := hw.finalized f hf
  have hpar := ht.2.2.2.2.1
  have hz := hw.round_zero
  rw [← hfw.round_eq] at hpar hz ⊢
  simp only [HaEpoch.roundId, HaEpoch.fromFinalized, HaEpoch.withHash, Option.getD_some, ← hpar,
    ← hz]

theorem fromFinalized_valid (h : s.Valid) (hw : s.round.Wf)
    (hf : s.round.finalized = some f) (ht : s.RoundExtends tip) :
    s.MatchesEnvelope (.fromFinalized f s.round.blocks s.parameters) ∧
      s.validateLink tip (.fromFinalized f s.round.blocks s.parameters) = .ok () := by
  have hfw := hw.finalized f hf
  have hround := fromFinalized_roundId hw hf ht
  obtain ⟨hg, hfix, hgen, hmask, -, hprev, hprevn, hnonce⟩ := ht
  rw [← hfw.round_eq] at hg hfix hgen hmask hprev hprevn hnonce hround
  obtain ⟨-, hhi, hsub, -⟩ := HaMemberSlots.validate_spec h.members
  have hle : s.members.memberCount ≤ 8 := hhi.trans (by decide)
  refine ⟨⟨hg, hfix, rfl, rfl⟩, validateLink_eq_ok.mpr ⟨hprev, by rw [← hprevn]; rfl, ?_, ?_⟩⟩
  · exact hnonce
  simp only [HaEpoch.validate, bind_eq_ok, reject_eq_ok, not_or, not_not, not_lt, hround,
    List.forM_eq_forM, forM_eq_ok]
  refine ⟨(), h.parameters, (), rfl, (), hfix, (), ?_, (), ?_, (), rfl, (), ?_, (), ⟨?_, ?_⟩, (),
    ⟨hfw.presence, hfw.ordered⟩, fun i _ => fromFinalized_validateBlock hw hfw s.parameters i⟩
  · apply and_not_eq_zero_iff.mpr
    rw [bits_lowBits hle]
    exact (congrArg bits hmask).trans_subset hsub
  · have hsucc : f.roundId.previousEpochNonce + 1 = f.roundId.nonce := by omega
    simp [HaEpoch.fromFinalized, HaEpoch.withHash, hsucc]
  · rw [hfw.round_eq]
    exact hfw.candidate
  · apply and_not_eq_zero_iff.mpr
    have hact := hfw.active
    rw [← hfw.round_eq] at hact
    exact hact
  · have hq := hfw.quorum
    rw [← hfw.round_eq] at hq
    exact hq

section Commit

variable [AmendmentCodec W]

theorem collectAmendment_valid {t : Transaction W}
    (h : ∀ a ∈ collected, s.validateProposedAmendment a nonce = .ok ())
    (hc : s.collectAmendment nonce collected t = .ok result) :
    ∀ a ∈ result, s.validateProposedAmendment a nonce = .ok () := by
  simp only [collectAmendment, bind_eq_ok] at hc
  obtain ⟨decoded, -, hc⟩ := hc
  cases decoded with
  | none =>
    obtain rfl := pure_eq_ok.mp hc
    exact h
  | some a =>
    obtain ⟨hv, hc⟩ := guard_bind_eq_ok.mp hc
    split at hc
    · obtain rfl := pure_eq_ok.mp (guard_bind_eq_ok.mp hc).2
      exact h
    · obtain rfl := pure_eq_ok.mp hc
      exact List.forall_mem_append.mpr ⟨h, List.forall_mem_singleton.mpr hv⟩

theorem committedAmendments_valid {f : HaFinalizedRound W}
    (h : s.committedAmendments f = .ok amendments) :
    ∀ a ∈ amendments, s.validateProposedAmendment a f.roundId.nonce = .ok () := by
  refine foldlM_invariant (P := fun l => ∀ a ∈ l,
    s.validateProposedAmendment a f.roundId.nonce = .ok ()) ?_ (by simp) h
  intro acc slot next hacc hstep
  simp only [bind_eq_ok] at hstep
  obtain ⟨i, -, block, -, hstep⟩ := hstep
  exact foldlM_invariant (fun _ _ _ => collectAmendment_valid) hacc hstep

variable {a : AmendmentRecord W}

omit [AmendmentCodec W] in
theorem validateAmendmentStructure_eq_ok :
    s.validateAmendmentStructure a = .ok () ↔ (s.members.member a.originSlot).isSome ∧
      (∃ target, s.epochs.find? (fun e => decide (e.nonce = a.targetEpochNonce)) = some target ∧
        target.hash = a.targetEpochHash) ∧
      (∃ e ∈ s.epochs, e.nonce = a.containingEpochNonce) ∧
      a.targetEpochNonce < a.containingEpochNonce := by
  simp only [validateAmendmentStructure, ↓guard_bind_eq_ok, bind_eq_ok, reject_eq_ok, require_eq_ok,
    not_or, not_not, not_le, Bool.not_eq_false, List.any_eq_true, decide_eq_true_eq,
    Bool.not_eq_true, Option.isNone_eq_false_iff, ← and_assoc, exists_and_right, exists_const]

omit [ProtocolCrypto W] [AmendmentCodec W] in
theorem epochLifecycle_eq_sealed :
    epochLifecycle epoch head depth = .sealed ↔ depth ≤ head - epoch := by
  unfold epochLifecycle
  split <;> simp_all

omit [AmendmentCodec W] in
theorem validateProposedAmendment_eq_ok :
    s.validateProposedAmendment a nonce = .ok () ↔
      (a.containingEpochNonce = nonce ∧ a.targetEpochNonce < a.containingEpochNonce) ∧
      (s.members.member a.originSlot).isSome ∧
      (∃ target, s.epochs.find? (fun e => decide (e.nonce = a.targetEpochNonce)) = some target ∧
        target.hash = a.targetEpochHash) ∧
      (∃ head, s.epochs.getLast? = some head ∧
        head.nonce - a.targetEpochNonce < s.parameters.mutableEpochDepth) ∧
      ∀ existing ∈ s.amendments, existing.commandIdentity = a.commandIdentity →
        existing.recordHash = a.recordHash := by
  simp only [validateProposedAmendment, sealedNonce, head, ↓guard_bind_eq_ok, bind_eq_ok,
    reject_eq_ok, require_eq_ok, pure_eq_ok, forM_eq_ok, List.forM_eq_forM,
    epochLifecycle_eq_sealed, not_or, not_not, not_le, not_and, Bool.not_eq_true,
    Option.isNone_eq_false_iff, exists_const]
  constructor
  · rintro ⟨hnonce, horigin, target, hfind, hhash, head, hhead, _, -, hmut, hsame⟩
    exact ⟨hnonce, horigin, ⟨target, hfind, hhash⟩, ⟨head, hhead, hmut⟩, hsame⟩
  · rintro ⟨hnonce, horigin, ⟨target, hfind, hhash⟩, ⟨head, hhead, hmut⟩, hsame⟩
    exact ⟨hnonce, horigin, target, hfind, hhash, head, hhead, _, ⟨head, hhead, rfl⟩, hmut, hsame⟩

theorem commit_valid (h : s.Valid) (hw : s.round.Wf) {f : HaFinalizedRound W} {e : HaEpoch W}
    (hf : s.round.finalized = some f) (hc : s.commitState f = .ok (e, next)) : next.Valid := by
  obtain ⟨amendments, round, ham, hround, rfl, rfl⟩ :=
    HighAvailabilityRuntime.commitState_eq_ok hc
  obtain ⟨-, -, rfl⟩ := HaRoundState.new_eq_ok.mp hround
  obtain ⟨tip, replayed, rest, ht, hr, ho, hpend⟩ := h.replay
  obtain ⟨tip', ht', -, -, hck⟩ := h.tip
  cases ht.symm.trans ht'
  obtain ⟨henv, hlink⟩ := fromFinalized_valid h hw hf hr
  have hfw := hw.finalized f hf
  generalize he : HaEpoch.fromFinalized f s.round.blocks s.parameters = e at henv hlink ⊢
  obtain ⟨-, -, hnonce, -⟩ := validateLink_eq_ok.mp hlink
  have hne : s.epochs ≠ [] := List.ne_nil_of_mem (List.mem_of_getLast? ht)
  have hfin : f.roundId.nonce = e.nonce := by
    rw [← he]
    rfl
  refine ⟨h.parameters, h.members, h.self, ?_, ?_, ?_, h.votes, h.certificates, ?_, e, ?_,
    ⟨rfl, rfl, rfl, rfl, rfl, rfl, rfl, rfl⟩, ?_, ?_⟩
  · have hanchor := h.anchor
    simp only [validateAnchor, List.head?_append_of_ne_nil _ hne] at hanchor ⊢
    exact hanchor
  · refine List.forall_mem_append.mpr ⟨h.envelope, List.forall_mem_singleton.mpr ⟨henv, ?_⟩⟩
    rw [← he]
    rfl
  · refine h.links.append (.singleton e) ?_
    intro x hx y hy
    cases ht.symm.trans hx
    cases hy
    exact hlink
  · intro a ha
    apply validateAmendmentStructure_eq_ok.mpr
    obtain ⟨more, hmore, hsub⟩ :=
      HighAvailabilityRuntime.pushAmendments_eq s.amendments amendments
    rw [hmore] at ha
    rcases List.mem_append.mp ha with ha | ha
    · obtain ⟨horigin, ⟨target, hfind, hhash⟩, ⟨x, hx, hxn⟩, hlt⟩ :=
        validateAmendmentStructure_eq_ok.mp (h.amendments a ha)
      exact ⟨horigin, ⟨target, by rw [List.find?_append, hfind]; rfl, hhash⟩,
        ⟨x, List.mem_append_left _ hx, hxn⟩, hlt⟩
    · obtain ⟨⟨hcont, hlt⟩, horigin, ⟨target, hfind, hhash⟩, -⟩ :=
        validateProposedAmendment_eq_ok.mp (committedAmendments_valid ham a (hsub ha))
      exact ⟨horigin, ⟨target, by rw [List.find?_append, hfind]; rfl, hhash⟩,
        ⟨e, by simp, by rw [hcont, hfin]⟩, hlt⟩
  · simp
  · rw [← hnonce] at hpend
    have hgen : e.membershipGeneration = s.membershipGeneration := by
      rw [← he, ← hr.2.2.1, ← hfw.round_eq]
      rfl
    have hmask : e.activeMask = s.members.activeMask := by
      rw [← he, ← hr.2.2.2.1, ← hfw.round_eq]
      rfl
    have hover := HaReplay.overEpochs_append ho hpend hgen hmask
    rw [← List.tail_append_of_ne_nil hne] at hover
    exact validateReplay_eq_ok.mpr ⟨_, [], _, hover, rfl, rfl, rfl, rfl⟩
  · intro c hcm
    have hle := hck c hcm
    dsimp only
    omega

omit [AmendmentCodec W] in
theorem amended_valid (h : s.Valid) (ha : s.validateNewAmendment a = .ok ()) :
    ({ s with amendments := s.amendments ++ [a] }).Valid := by
  have hstruct := (guard_bind_eq_ok.mp ha).1
  exact { h with
    amendments := List.forall_mem_append.mpr ⟨h.amendments, List.forall_mem_singleton.mpr hstruct⟩ }

end Commit

end HighAvailabilityRuntimeState

end Blossom
