import Blossom.HaCluster
import Blossom.HaDurability
import Blossom.ReconfiguredLog

/-!
# What a member has done for good

The history of a member lists the epochs it has committed, the certificates it has applied, the
confirmations it has locked and the votes it has cast.
-/

namespace Blossom

open CheckedSteps BitMask ReconfiguredLog HaRoundState

variable {W : Type}
variable {s : HighAvailabilityRuntimeState W} {c : HaMembershipCertificate W}

structure HaHistory (W : Type) where
  epochs : List (HaEpoch W)
  certificates : List (HaMembershipCertificate W)
  locks : List (HaConfirm W)
  votes : List (HaMembershipVote W)

namespace HaHistory

def empty : HaHistory W := ⟨[], [], [], []⟩

def record (h : HaHistory W) : Label W → HaHistory W
  | .locked c => { h with locks := c :: h.locks }
  | .committed e => { h with epochs := h.epochs ++ [e] }
  | .voted v none => { h with votes := v :: h.votes }
  | .voted v (some c) =>
    { h with votes := v :: h.votes, certificates := h.certificates ++ [c] }
  | .recordedVote _ (some c) => { h with certificates := h.certificates ++ [c] }
  | _ => h

def changes (h : HaHistory W) : List (HaMembershipProposal W) :=
  h.certificates.map HaMembershipCertificate.proposal

/-- Nothing is ever removed from a history. -/
structure Le (h h' : HaHistory W) : Prop where
  epochs : h.epochs <+: h'.epochs
  certificates : h.certificates <+: h'.certificates
  locks : h.locks ⊆ h'.locks
  votes : h.votes ⊆ h'.votes

theorem Le.refl (h : HaHistory W) : h.Le h :=
  ⟨List.prefix_rfl, List.prefix_rfl, List.Subset.refl _, List.Subset.refl _⟩

theorem Le.trans {h h' h'' : HaHistory W} (a : h.Le h') (b : h'.Le h'') : h.Le h'' :=
  ⟨a.epochs.trans b.epochs, a.certificates.trans b.certificates, List.Subset.trans a.locks b.locks,
    List.Subset.trans a.votes b.votes⟩

theorem le_record (h : HaHistory W) (l : Label W) : h.Le (h.record l) := by
  cases l with
  | locked c =>
    exact ⟨List.prefix_rfl, List.prefix_rfl, List.subset_cons_self _ _, List.Subset.refl _⟩
  | committed e =>
    exact ⟨List.prefix_append _ _, List.prefix_rfl, List.Subset.refl _, List.Subset.refl _⟩
  | voted v c =>
    cases c with
    | none =>
      exact ⟨List.prefix_rfl, List.prefix_rfl, List.Subset.refl _, List.subset_cons_self _ _⟩
    | some c =>
      exact ⟨List.prefix_rfl, List.prefix_append _ _, List.Subset.refl _,
        List.subset_cons_self _ _⟩
  | recordedVote v c =>
    cases c with
    | none => exact .refl h
    | some c =>
      exact ⟨List.prefix_rfl, List.prefix_append _ _, List.Subset.refl _, List.Subset.refl _⟩
  | _ => exact .refl h

theorem record_of_volatile {h : HaHistory W} {l : Label W} (hl : l.persists = false) :
    h.record l = h := by
  cases l with
  | recordedVote v c =>
    cases c with
    | none => rfl
    | some c => cases hl
  | voted v c => cases hl
  | locked c => cases hl
  | committed e => cases hl
  | _ => rfl

end HaHistory

def HaMembershipProposal.applyTo (p : HaMembershipProposal W) (voters : Finset ℕ) : Finset ℕ :=
  match p.action with
  | .suspend => voters.erase p.slot
  | .reactivate .. => insert p.slot voters

/-- The active slots of a group after a list of membership changes. -/
def HaGenesis.voters (g : HaGenesis W) (changes : List (HaMembershipProposal W)) : Finset ℕ :=
  changes.foldl (fun voters p => p.applyTo voters) (Finset.range g.members.length)

theorem HaGenesis.voters_append (g : HaGenesis W) (changes : List (HaMembershipProposal W))
    (p : HaMembershipProposal W) : g.voters (changes ++ [p]) = p.applyTo (g.voters changes) := by
  simp [voters]

theorem HaGenesis.voters_adjacent (g : HaGenesis W) (changes : List (HaMembershipProposal W))
    (p : HaMembershipProposal W) : Adjacent (g.voters changes) (g.voters (changes ++ [p])) := by
  rw [voters_append]
  unfold HaMembershipProposal.applyTo
  cases p.action with
  | suspend => exact ⟨p.slot, .inr rfl⟩
  | reactivate a b c => exact ⟨p.slot, .inl rfl⟩

namespace HighAvailabilityRuntimeState

variable {g : HaGenesis W} {i : Fin 7} {h : HaHistory W} {s next : HighAvailabilityRuntimeState W}

/-- The state of the member in slot `i` reflects its history. -/
structure Follows (g : HaGenesis W) (i : Fin 7) (h : HaHistory W)
    (s : HighAvailabilityRuntimeState W) : Prop where
  self : s.selfSlot = i.val
  retained : s.epochs <:+ h.epochs
  changes : s.membershipChanges ⊆ h.certificates
  nonce : s.round.roundId.nonce = h.epochs.length
  generation : s.membershipGeneration = h.certificates.length
  active : bits s.members.activeMask = g.voters h.changes
  lock_le : ∀ c ∈ h.locks, c.roundId.nonce ≤ s.round.roundId.nonce
  locked : ∀ c ∈ h.locks, c.roundId.nonce = s.round.roundId.nonce →
    c.roundId = s.round.roundId ∧ s.round.confirmations i = some c.candidate.digest
  vote_le : ∀ v ∈ h.votes, v.proposal.membershipGeneration ≤ s.membershipGeneration
  voted : ∀ v ∈ h.votes, v.proposal.membershipGeneration = s.membershipGeneration →
    s.membershipVoteLock = some v.proposal.digest

theorem Follows.withRound (hf : s.Follows g i h) {round : HaRoundState W}
    (hid : round.roundId = s.round.roundId) (hc : round.confirmations i = s.round.confirmations i) :
    ({ s with round := round }).Follows g i h :=
  { hf with
    nonce := by rw [hid, hf.nonce]
    lock_le := by simpa [hid] using hf.lock_le
    locked := by simpa [hid, hc] using hf.locked }

theorem Follows.lock (hf : s.Follows g i h) {round : HaRoundState W} {c : HaConfirm W}
    (hid : round.roundId = s.round.roundId) (hround : c.roundId = s.round.roundId)
    (hconf : s.round.confirmations i = some c.candidate.digest ∨ s.round.confirmations i = none)
    (hc : round.confirmations i = some c.candidate.digest) :
    ({ s with round := round }).Follows g i { h with locks := c :: h.locks } := by
  refine { hf with nonce := by rw [hid, hf.nonce], lock_le := ?_, locked := ?_ }
  · intro c' hc'
    rcases List.mem_cons.mp hc' with rfl | hc'
    · rw [hround, hid]
    · rw [hid]
      exact hf.lock_le c' hc'
  · intro c' hc' hn
    rcases List.mem_cons.mp hc' with rfl | hc'
    · exact ⟨hround.trans hid.symm, hc⟩
    · rw [hid] at hn ⊢
      obtain ⟨hr, hold⟩ := hf.locked c' hc' hn
      refine ⟨hr, hc.trans ?_⟩
      rcases hconf with hconf | hconf
      · rw [← hconf, hold]
      · rw [hold] at hconf
        cases hconf

/-- The member has no lock in a round that is still empty. -/
theorem Follows.lock_lt (hf : s.Follows g i h) (hn : s.round.confirmations i = none) :
    ∀ c ∈ h.locks, c.roundId.nonce < s.round.roundId.nonce := by
  intro c hc
  refine lt_of_le_of_ne (hf.lock_le c hc) fun heq => ?_
  rw [(hf.locked c hc heq).2] at hn
  cases hn

end HighAvailabilityRuntimeState

variable [ProtocolCrypto W]

theorem bits_replayMembershipChange {members next : HaMemberSlots W}
    {presence presence' : HaPresenceTracker}
    (h : replayMembershipChange members presence c = .ok (next, presence')) :
    bits next.activeMask = c.proposal.applyTo (bits members.activeMask) := by
  rw [replayMembershipChange] at h
  rw [HaMembershipProposal.applyTo]
  cases hact : c.proposal.action with
  | suspend =>
    simp only [hact, bind_eq_ok, pure_eq_ok, Prod.mk.injEq] at h ⊢
    obtain ⟨m, hm, rfl, -⟩ := h
    obtain ⟨-, hlt, rfl, -⟩ := HaMemberSlots.withSuspended_eq_ok hm
    have hlt8 : c.proposal.slot < 8 := by omega
    rw [bits_and_not, bits_twoPow hlt8, Finset.sdiff_singleton_eq_erase]
  | reactivate through hash revision =>
    simp only [hact, bind_eq_ok, pure_eq_ok, Prod.mk.injEq] at h ⊢
    obtain ⟨m, hm, rfl, -⟩ := h
    obtain ⟨-, hlt, rfl, -⟩ := HaMemberSlots.withReactivated_eq_ok hm
    have hlt8 : c.proposal.slot < 8 := by omega
    rw [bits_or, bits_twoPow hlt8, Finset.union_comm]
    rfl

/-- The rules a member keeps: one lock for a nonce, one vote in a generation, and no vote at a
locked nonce in a later generation. -/
structure HaHistory.Wf (h : HaHistory W) : Prop where
  nonces : ∀ n (e : HaEpoch W), h.epochs[n]? = some e → e.nonce = n
  lock_unique : ∀ c ∈ h.locks, ∀ c' ∈ h.locks, c.roundId.nonce = c'.roundId.nonce →
    c.roundId = c'.roundId ∧ c.candidate.digest = c'.candidate.digest
  vote_digest : ∀ v ∈ h.votes, v.proposal.digest = v.proposal.computeDigest
  vote_unique : ∀ v ∈ h.votes, ∀ v' ∈ h.votes,
    v.proposal.membershipGeneration = v'.proposal.membershipGeneration →
      v.proposal.digest = v'.proposal.digest
  lock_final : ∀ c ∈ h.locks, ∀ v ∈ h.votes, v.proposal.effectiveNonce = c.roundId.nonce →
    v.proposal.membershipGeneration ≤ c.roundId.membershipGeneration

theorem HaHistory.wf_start {epochs : List (HaEpoch W)}
    (h : ∀ n (e : HaEpoch W), epochs[n]? = some e → e.nonce = n) : (⟨epochs, [], [], []⟩ : HaHistory W).Wf :=
  ⟨h, by simp, by simp, by simp, by simp⟩

namespace HighAvailabilityRuntimeState

variable {g : HaGenesis W} {i : Fin 7} {h : HaHistory W} {s next : HighAvailabilityRuntimeState W}

section

omit [ProtocolCrypto W]

/-- A membership vote is cast only while the round is empty. -/
theorem confirmations_of_boundary (hb : s.requireEpochBoundaryForMembershipChange = .ok ())
    (j : Fin 7) : s.round.confirmations j = none := by
  simp only [requireEpochBoundaryForMembershipChange, reject_eq_ok, not_or, not_exists] at hb
  exact Option.not_isSome_iff_eq_none.mp (hb.2.2.1 j)

/-- The member's own vote does not change a lock that it already holds. -/
theorem Follows.ownVote (hf : s.Follows g i h) {digest : W} (hl : s.LockAllows digest)
    (sender : Fin 7) : (s.withOwnVote sender digest).Follows g i h := by
  refine { hf with voted := ?_ }
  intro v hv hgen
  rw [hl _ (hf.voted v hv hgen)]
  rfl

theorem Follows.addVote (hf : s.Follows g i h) {v : HaMembershipVote W}
    (hgen : v.proposal.membershipGeneration = s.membershipGeneration)
    (hlock : s.membershipVoteLock = some v.proposal.digest) :
    s.Follows g i { h with votes := v :: h.votes } :=
  { hf with
    vote_le := List.forall_mem_cons.mpr ⟨hgen.le, hf.vote_le⟩
    voted := List.forall_mem_cons.mpr ⟨fun _ => hlock, hf.voted⟩ }

theorem Follows.peerVote (hf : s.Follows g i h) (sender : Fin 7) (digest : W) :
    (s.withPeerVote sender digest).Follows g i h :=
  { hf with }

end

/-- A certified change starts the next generation in an empty round. -/
theorem Follows.certify (hf : s.Follows g i h) (hv : s.Valid)
    (hn : s.round.confirmations i = none) (hc : s.Certifies c next) :
    next.Follows g i { h with certificates := h.certificates ++ [c] } := by
  obtain ⟨mask, presence, head, hm, -, -, hh, rfl⟩ := hc.spec
  obtain ⟨tip, ht, hr, -⟩ := hv.tip
  obtain rfl : head = tip := Option.some.inj (hh.symm.trans ht)
  have hnonce : s.round.roundId.nonce = head.nonce + 1 := hr.2.2.2.2.2.2.2
  have hlt := hf.lock_lt hn
  refine ⟨hf.self, hf.retained, ?_, ?_, ?_, ?_, ?_, ?_, ?_, ?_⟩
  · exact List.append_subset.mpr ⟨List.subset_append_of_subset_left _ hf.changes,
      List.subset_append_right _ _⟩
  · exact hnonce.symm.trans hf.nonce
  · simp [afterCertificate, hf.generation]
  · rw [HaHistory.changes, List.map_append, List.map_singleton, HaGenesis.voters_append,
      ← HaHistory.changes, ← hf.active]
    exact bits_replayMembershipChange hm
  · intro c' hc'
    have := hlt c' hc'
    simp only [afterCertificate, emptyRound, nextRoundId]
    omega
  · intro c' hc' heq
    have := hlt c' hc'
    simp only [afterCertificate, emptyRound, nextRoundId] at heq
    omega
  · intro v hv'
    exact (hf.vote_le v hv').trans (Nat.le_succ _)
  · intro v hv' hgen
    have := hf.vote_le v hv'
    simp only [afterCertificate] at hgen
    omega

theorem Follows.commit [AmendmentCodec W] (hf : s.Follows g i h) (hg : s.Good)
    {f : HaFinalizedRound W} {e : HaEpoch W} (hfin : s.round.finalized = some f)
    (hc : s.commitState f = .ok (e, next)) :
    next.Follows g i { h with epochs := h.epochs ++ [e] } ∧ e.nonce = h.epochs.length ∧
      e.membershipGeneration = h.certificates.length := by
  obtain ⟨amendments, round, -, hround, rfl, rfl⟩ :=
    HighAvailabilityRuntime.commitState_eq_ok hc
  obtain ⟨-, -, rfl⟩ := new_eq_ok.mp hround
  have hfw := hg.round.finalized f hfin
  obtain ⟨tip, -, hr, -⟩ := hg.valid.tip
  have hnonce : f.roundId.nonce = h.epochs.length := by rw [hfw.round_eq, hf.nonce]
  have hgen : f.roundId.membershipGeneration = h.certificates.length := by
    rw [hfw.round_eq, hr.2.2.1, hf.generation]
  have hlt : ∀ c ∈ h.locks, c.roundId.nonce < f.roundId.nonce + 1 := by
    intro c hc
    have := hf.lock_le c hc
    rw [hfw.round_eq]
    omega
  refine ⟨⟨hf.self, ?_, hf.changes, ?_, hf.generation, hf.active, ?_, ?_, hf.vote_le, hf.voted⟩,
    hnonce, hgen⟩
  · obtain ⟨old, hold⟩ := hf.retained
    exact ⟨old, by rw [← hold, List.append_assoc]⟩
  · simp [emptyRound, nextRoundId, HaEpoch.fromFinalized, HaEpoch.withHash, hnonce]
  · exact fun c hc => (hlt c hc).le
  · intro c hc heq
    exact absurd heq (hlt c hc).ne

end HighAvailabilityRuntimeState

open HighAvailabilityRuntime HighAvailabilityRuntimeState

variable {g : HaGenesis W} {i : Fin 7} {h : HaHistory W} {rt rt' : HighAvailabilityRuntime W}
  {l : Label W} [AmendmentCodec W]

/-- Every transition keeps the state in step with the history. A confirmation in the member's
own name can only be one that it has locked. -/
theorem Transition.follows (ht : Transition rt l rt') (hsnap : l.snapshot = none)
    (hg : rt.state.Good) (hf : rt.state.Follows g i h)
    (hsrc : ∀ c, l.source = some (.confirm c) → c.sender = i.val → c ∈ h.locks) :
    rt'.state.Follows g i (h.record l) := by
  cases ht with
  | built hs ha hr | dispatched ha hr =>
    exact hf.withRound (receiveDispatch_roundId hr)
      (congrFun (receiveDispatch_confirmations hr) i)
  | acknowledged hr hp =>
    rw [persist_state hp]
    obtain ⟨-, -, hr⟩ := acknowledge_eq_ok.mp hr
    exact hf.withRound (receiveAcknowledgement_roundId hr)
      (congrFun (receiveAcknowledgement_confirmations hr) i)
  | recordedAck hr =>
    exact hf.withRound (receiveAcknowledgement_roundId hr)
      (congrFun (receiveAcknowledgement_confirmations hr) i)
  | locked hr hp =>
    rw [persist_state hp]
    obtain ⟨hid, -, slot, hslot, hconf, hup⟩ := confirm_confirmations hr
    obtain rfl : slot = i := Fin.ext (hslot.symm.trans hf.self)
    exact hf.lock (confirm_roundId hr) hid hconf (by rw [hup, Function.update_self])
  | recordedConfirm hr =>
    rename_i c _ round
    obtain ⟨hid, sender, hse, ⟨-, hsame⟩ | ⟨hn, hup⟩⟩ :=
      receiveConfirmation_confirmations hr
    · exact hf.withRound (receiveConfirmation_roundId hr) (congrFun hsame i)
    · have hne : i ≠ sender := by
        rintro rfl
        have hlock := (hf.locked c (hsrc c rfl hse) (by rw [hid])).2
        rw [hn] at hlock
        cases hlock
      exact hf.withRound (receiveConfirmation_roundId hr)
        (by rw [hup, Function.update_of_ne hne])
  | committed hfin hc hp =>
    rw [persist_state hp]
    exact (hf.commit hg hfin hc).1
  | voted hv hs hl hp =>
    rw [persist_state hp]
    exact (hf.ownVote hl _).addVote (validateMembershipProposal_fits hv.proposal).generation rfl
  | votedCertificate hv hs hl hpr hc hp =>
    rw [persist_state hp]
    rename_i sender x next io
    have hvoted := (hf.ownVote hl sender).addVote
      (validateMembershipProposal_fits hv.proposal).generation rfl
    exact hvoted.certify (withOwnVote_valid _ hg.valid (hs.symm.trans hv.sender_eq))
      (confirmations_of_boundary hv.boundary i) hc
  | recordedVote hv ha hn =>
    rw [HaHistory.record_of_volatile rfl]
    exact hf.peerVote _ _
  | recordedCertificate hv ha hn hpr hc hp =>
    rw [persist_state hp]
    have hmask := (validateMembershipProposal_fits hv.proposal).activeMask
    exact (hf.peerVote _ _).certify (withPeerVote_valid _ hg.valid (hmask ▸ ha) hn)
      (confirmations_of_boundary hv.boundary i) hc
  | amended hv hp =>
    rw [persist_state hp]
    exact { hf with }
  | compacted hi h0 he hc hv hp =>
    rw [persist_state hp]
    exact { hf with
      retained := (List.drop_suffix _ _).trans hf.retained
      changes := List.Subset.trans (List.filter_subset_self _) hf.changes }
  | installed hs hp => cases hsnap

omit [AmendmentCodec W] in
/-- A vote keeps the rules: the vote lock allows one proposal in a generation, and the round
holds no lock yet. -/
theorem HaHistory.Wf.vote (hw : h.Wf) (hf : s.Follows g i h) {v : HaMembershipVote W}
    {sender : Fin 7} (hv : s.AcceptsVote v sender) (hl : s.LockAllows v.proposal.digest)
    (certificates : List (HaMembershipCertificate W)) :
    ({ h with votes := v :: h.votes, certificates := certificates } : HaHistory W).Wf := by
  have hfit := validateMembershipProposal_fits hv.proposal
  have hold : ∀ v' ∈ h.votes, v'.proposal.membershipGeneration =
      v.proposal.membershipGeneration → v'.proposal.digest = v.proposal.digest := by
    intro v' hv' hgen
    exact hl _ (hf.voted v' hv' (hgen.trans hfit.generation))
  refine ⟨hw.nonces, hw.lock_unique, ?_, ?_, ?_⟩
  · intro v' hv'
    rcases List.mem_cons.mp hv' with rfl | hv'
    · exact hfit.digest
    · exact hw.vote_digest v' hv'
  · intro v₁ h₁ v₂ h₂ hgen
    rcases List.mem_cons.mp h₁ with rfl | m₁ <;> rcases List.mem_cons.mp h₂ with rfl | m₂
    · rfl
    · exact (hold v₂ m₂ hgen.symm).symm
    · exact hold v₁ m₁ hgen
    · exact hw.vote_unique v₁ m₁ v₂ m₂ hgen
  · intro c hc v' hv' hn
    rcases List.mem_cons.mp hv' with rfl | hv'
    · have hlt := hf.lock_lt (confirmations_of_boundary hv.boundary i) c hc
      rw [hfit.nonce] at hn
      omega
    · exact hw.lock_final c hc v' hv' hn

omit [AmendmentCodec W] in
/-- A lock keeps the rules: a second one at the same nonce is the same one. -/
theorem HaHistory.Wf.lock (hw : h.Wf) (hf : s.Follows g i h) (hv : s.Valid) {c : HaConfirm W}
    (hid : c.roundId = s.round.roundId)
    (hconf : s.round.confirmations i = some c.candidate.digest ∨ s.round.confirmations i = none) :
    ({ h with locks := c :: h.locks } : HaHistory W).Wf := by
  have hold : ∀ c' ∈ h.locks, c'.roundId.nonce = c.roundId.nonce →
      c'.roundId = c.roundId ∧ c'.candidate.digest = c.candidate.digest := by
    intro c' hc' hn
    rw [hid] at hn ⊢
    obtain ⟨hr, hlock⟩ := hf.locked c' hc' hn
    refine ⟨hr, ?_⟩
    rcases hconf with hconf | hconf
    · exact Option.some.inj (hlock.symm.trans hconf)
    · rw [hlock] at hconf
      cases hconf
  refine ⟨hw.nonces, ?_, hw.vote_digest, hw.vote_unique, ?_⟩
  · intro c₁ h₁ c₂ h₂ hn
    rcases List.mem_cons.mp h₁ with rfl | m₁ <;> rcases List.mem_cons.mp h₂ with rfl | m₂
    · exact ⟨rfl, rfl⟩
    · obtain ⟨hr, hd⟩ := hold c₂ m₂ hn.symm
      exact ⟨hr.symm, hd.symm⟩
    · exact hold c₁ m₁ hn
    · exact hw.lock_unique c₁ m₁ c₂ m₂ hn
  · intro c' hc' v hv' hn
    rcases List.mem_cons.mp hc' with rfl | hc'
    · obtain ⟨tip, -, hr, -⟩ := hv.tip
      rw [hid, hr.2.2.1]
      exact hf.vote_le v hv'
    · exact hw.lock_final c' hc' v hv' hn

theorem Transition.wf (ht : Transition rt l rt') (hg : rt.state.Good)
    (hf : rt.state.Follows g i h) (hw : h.Wf) : (h.record l).Wf := by
  cases ht with
  | locked hr hp =>
    obtain ⟨hid, -, slot, hslot, hconf, -⟩ := confirm_confirmations hr
    obtain rfl : slot = i := Fin.ext (hslot.symm.trans hf.self)
    exact hw.lock hf hg.valid hid hconf
  | committed hfin hc hp =>
    refine ⟨?_, hw.lock_unique, hw.vote_digest, hw.vote_unique, hw.lock_final⟩
    intro n e he
    rcases getElem?_concat_cases he with ⟨-, he⟩ | ⟨rfl, rfl⟩
    · exact hw.nonces n e he
    · exact (hf.commit hg hfin hc).2.1
  | voted hv hs hl hp | votedCertificate hv hs hl hpr hc hp => exact hw.vote hf hv hl _
  | recordedCertificate hv ha hn hpr hc hp =>
    exact { hw with }
  | _ => exact hw

end Blossom
