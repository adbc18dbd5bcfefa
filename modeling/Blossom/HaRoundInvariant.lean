import Blossom.HaRoundSteps

/-!
# Well-formed rounds

The received mask names exactly the slots that hold an intact block, and a finalized
round carries a valid candidate of those blocks with a strict majority of recorded
confirmations. Every step of a round keeps this.
-/

namespace Blossom

open CheckedSteps BitMask MajorityQuorum

variable {W : Type} [ProtocolCrypto W]

namespace HaMemberSlots

variable {m : HaMemberSlots W}

/-- What `HaMemberSlots::validate` establishes about the masks and the slot table. -/
theorem validate_spec (h : m.validate = .ok ()) :
    minHaNodes ≤ m.memberCount ∧ m.memberCount ≤ maxHaNodes ∧
      bits m.activeMask ⊆ Finset.range m.memberCount ∧ minHaNodes ≤ countOnes m.activeMask ∧
      ∀ i < 7, (m.member i).isSome ↔ i < m.memberCount := by
  simp only [validate, ↓guard_bind_eq_ok, bind_eq_ok, reject_eq_ok, not_not, not_lt,
    List.forM_eq_forM, forM_eq_ok, List.mem_range] at h
  obtain ⟨_, ⟨hlo, hhi⟩, hmask, _, -, -, hcount, hslots⟩ := h
  have hle : m.memberCount ≤ 8 := hhi.trans (by decide)
  have hsub : bits m.activeMask ⊆ Finset.range m.memberCount := by
    rw [← bits_lowBits hle]
    exact and_not_eq_zero_iff.mp hmask
  refine ⟨hlo, hhi, hsub, ?_, ?_⟩
  · rwa [activeCount, countOnes, bits_and, bits_lowBits hle,
      Finset.inter_eq_left.mpr hsub] at hcount
  · intro i hi
    have hs := (guard_bind_eq_ok.mp (hslots i hi)).1
    rw [reject_eq_ok, not_not] at hs
    rw [hs, decide_eq_true_eq]

theorem bits_activeMask_new {members : List (NodeIdentity W)} {slots : HaMemberSlots W}
    (h : HaMemberSlots.new members = .ok slots) :
    bits slots.activeMask = Finset.range members.length := by
  simp only [HaMemberSlots.new, bind_eq_ok, reject_eq_ok, pure_eq_ok, not_not] at h
  obtain ⟨_, ⟨-, hhi⟩, _, -, hash, -, _, -, rfl⟩ := h
  exact bits_lowBits (hhi.trans (by decide))

theorem activeCount_eq (h : m.validate = .ok ()) : m.activeCount = countOnes m.activeMask := by
  obtain ⟨-, hhi, hsub, -⟩ := validate_spec h
  have hle : m.memberCount ≤ 8 := hhi.trans (by decide)
  rw [activeCount, countOnes, bits_and, bits_lowBits hle, Finset.inter_eq_left.mpr hsub, countOnes]

theorem majority_eq (h : m.validate = .ok ()) :
    m.majority = highAvailabilityMajority (countOnes m.activeMask) := by
  rw [HaMemberSlots.majority, activeCount_eq h]

theorem isActive_iff_mem (h : m.validate = .ok ()) {slot : ℕ} :
    m.isActive slot = true ↔ slot ∈ bits m.activeMask := by
  obtain ⟨-, hhi, hsub, -, hdense⟩ := validate_spec h
  rw [isActive_iff]
  constructor
  · exact fun h => h.2.1
  · intro hin
    have hlt : slot < m.memberCount := Finset.mem_range.mp (hsub hin)
    have h7 : slot < 7 := hlt.trans_le hhi
    exact ⟨h7, hin, (hdense slot h7).mpr hlt⟩

end HaMemberSlots

namespace HaRoundState

structure FinalizedWf (r : HaRoundState W) (f : HaFinalizedRound W) : Prop where
  round_eq : f.roundId = r.roundId
  candidate : f.candidate.validate r.roundId = .ok ()
  included : f.candidate.includedMask = r.receivedMask
  hashes : ∀ i : Fin 7, i.val ∈ bits f.candidate.includedMask →
    f.candidate.blockHashes i = r.blockHashes i
  presence : f.presenceMask = f.candidate.presenceMask
  ordered : f.orderedSlots = f.candidate.orderedSlots
  active : bits f.confirmationMask ⊆ bits r.roundId.activeMask
  confirmed : ∀ i ∈ bits f.confirmationMask, ∃ slot : Fin 7, slot.val = i ∧
    r.confirmations slot = some f.candidate.digest
  quorum : highAvailabilityMajority (countOnes r.roundId.activeMask) ≤
    countOnes f.confirmationMask
  locked : r.confirmedCandidate = some f.candidate.digest

/-- The invariant of a round. -/
structure Wf (r : HaRoundState W) : Prop where
  round_zero : r.roundId.round = 0
  received : ∀ i : Fin 7, i.val ∈ bits r.receivedMask ↔ (r.blocks i).isSome
  active : bits r.receivedMask ⊆ bits r.roundId.activeMask
  intact : ∀ i b, r.blocks i = some b → b.verifyUnsignedIntegrityWithHash (r.blockHashes i) = .ok ()
  finalized : ∀ f ∈ r.finalized, r.FinalizedWf f

variable {r round : HaRoundState W} {members : HaMemberSlots W}

theorem emptyRound_wf {roundId : HaRoundId W} (h : roundId.round = 0) :
    (emptyRound roundId).Wf where
  round_zero := h
  received := by simp [emptyRound]
  active := by simp [emptyRound]
  intact := by simp [emptyRound]
  finalized := by simp [emptyRound]

theorem new_eq_ok {roundId : HaRoundId W} :
    HaRoundState.new roundId members = .ok round ↔
      members.validate = .ok () ∧ roundId.validateFor members = .ok () ∧
        round = emptyRound roundId := by
  simp only [HaRoundState.new, guard_bind_eq_ok, pure_eq_ok, eq_comm (a := round)]

variable {sender slot : Fin 7}

theorem withBlock_wf (h : r.Wf) {d : HaDispatch W}
    (hm : members.validate = .ok ()) (hd : r.AdmitsDispatch members d slot)
    (hf : r.finalized = none) : (r.withBlock slot d).Wf where
  round_zero := h.round_zero
  received := by
    intro i
    have hlt : slot.val < 8 := by omega
    rw [withBlock, bits_or, Finset.mem_union, slotBit, bits_twoPow hlt, Finset.mem_singleton,
      h.received i]
    by_cases hi : i = slot
    · simp [hi]
    · have hv : i.val ≠ slot.val := fun e => hi (Fin.ext e)
      simp [hi, hv]
  active := by
    have hlt : slot.val < 8 := by omega
    have hact := (HaMemberSlots.isActive_iff_mem hm).mp hd.scope.active
    rw [hd.sender_eq, ← hd.scope.mask_eq] at hact
    rw [withBlock, bits_or, slotBit, bits_twoPow hlt]
    exact Finset.union_subset h.active (Finset.singleton_subset_iff.mpr hact)
  intact := by
    intro i b hb
    by_cases hi : i = slot
    · subst hi
      simp only [withBlock, Function.update_self, Option.some.injEq] at hb ⊢
      rw [← hb]
      exact hd.intact
    · simp only [withBlock, Function.update_of_ne hi] at hb ⊢
      exact h.intact i b hb
  finalized := by simp [withBlock, hf]

theorem receiveDispatch_wf (h : r.Wf) {d : HaDispatch W} {outcome : HaDispatchOutcome}
    (hm : members.validate = .ok ())
    (hr : r.receiveDispatch members d = .ok (outcome, round)) : round.Wf := by
  obtain ⟨slot, hd, ⟨-, rfl, -⟩ | ⟨-, rfl, -⟩ | ⟨-, rfl, -, -, hf⟩⟩ := receiveDispatch_cases hr
  · exact h
  · exact h
  · exact withBlock_wf h hm hd hf

theorem withReceipt_wf (h : r.Wf) (sender : Fin 7) (mask : Mask) : (r.withReceipt sender mask).Wf :=
  { h with finalized := fun f hf => { h.finalized f hf with } }

theorem receiveAcknowledgement_wf (h : r.Wf) {a : HaAcknowledge W}
    (hr : r.receiveAcknowledgement members a = .ok round) : round.Wf := by
  obtain ⟨sender, -, rfl⟩ := receiveAcknowledgement_eq_ok.mp hr
  exact withReceipt_wf h sender a.receivedMask

variable {digest : W}

theorem mem_bits_confirmationMask {i : ℕ} :
    i ∈ bits (r.confirmationMask digest) ↔
      i ∈ bits r.roundId.activeMask ∧
        ∃ slot : Fin 7, slot.val = i ∧ r.confirmations slot = some digest := by
  simp only [confirmationMask, mem_bits_collect (show 7 ≤ 8 by decide), Bool.and_eq_true,
    decide_eq_true_eq, hasBit_iff]
  constructor
  · rintro ⟨slot, ⟨ha, hc⟩, rfl⟩
    exact ⟨ha, slot, rfl, hc⟩
  · rintro ⟨ha, slot, rfl, hc⟩
    exact ⟨slot, ⟨ha, hc⟩, rfl⟩

omit [ProtocolCrypto W] in
/-- A confirmation recorded in an empty slot keeps every recorded confirmation. -/
theorem withConfirmation_confirmations (hn : r.confirmations sender = none) {d : W}
    (h : r.confirmations slot = some d) :
    (r.withConfirmation sender digest).confirmations slot = some d := by
  have hne : slot ≠ sender := by
    rintro rfl
    rw [hn] at h
    cases h
  simp [withConfirmation, Function.update_of_ne hne, h]

theorem withConfirmation_wf (h : r.Wf)
    (hn : r.confirmations sender = none) : (r.withConfirmation sender digest).Wf :=
  { h with
    finalized := fun f hf =>
      { h.finalized f hf with
        confirmed := fun i hi => by
          obtain ⟨slot, hs, hc⟩ := (h.finalized f hf).confirmed i hi
          exact ⟨slot, hs, withConfirmation_confirmations hn hc⟩ } }

variable {c : HaConfirm W}

theorem withFinalized_wf (h : r.Wf) (hm : members.validate = .ok ())
    (hc : r.AdmitsConfirmation members c sender)
    (hq : members.majority ≤ countOnes ((r.withConfirmation sender
      c.candidate.digest).confirmationMask c.candidate.digest)) :
    ((r.withConfirmation sender c.candidate.digest).withFinalized c.candidate).Wf := by
  rw [HaMemberSlots.majority_eq hm, ← hc.scope.mask_eq] at hq
  refine { h with finalized := fun f hf => ?_ }
  cases hf
  exact ⟨rfl, hc.candidate, hc.included, hc.hashes, rfl, rfl,
    fun i hi => (mem_bits_confirmationMask.mp hi).1,
    fun i hi => (mem_bits_confirmationMask.mp hi).2, hq, rfl⟩

theorem receiveConfirmation_wf (h : r.Wf) (hm : members.validate = .ok ())
    {f : Option (HaFinalizedRound W)}
    (hr : r.receiveConfirmation members c = .ok (f, round)) : round.Wf := by
  obtain ⟨sender, hc, he⟩ := receiveConfirmation_cases hr
  cases he with
  | repeated _ => exact h
  | recorded hn _ _ => exact withConfirmation_wf h hn
  | finalized _ _ hq => exact withFinalized_wf h hm hc hq

theorem receiveConfirmation_finalized {f : Option (HaFinalizedRound W)}
    (h : r.Wf) (hr : r.receiveConfirmation members c = .ok (f, round))
    (hs : c.sender = slot.val) (hn : r.confirmations slot = none) :
    ∀ g ∈ round.finalized, g.candidate.digest = c.candidate.digest := by
  obtain ⟨sender, hc, he⟩ := receiveConfirmation_cases hr
  obtain rfl : sender = slot := Fin.ext (hc.sender_eq.symm.trans hs)
  cases he with
  | repeated hsome =>
    rw [hn] at hsome
    cases hsome
  | recorded _ hl _ =>
    intro g hg
    exact hl _ (h.finalized g hg).locked
  | finalized _ _ _ =>
    rintro g ⟨⟩
    rfl

theorem withLock_wf (h : r.Wf)
    (hf : ∀ f ∈ r.finalized, f.candidate.digest = digest) : (r.withLock digest).Wf :=
  { h with
    finalized := fun f hm => { h.finalized f hm with locked := by rw [withLock, hf f hm] } }

theorem confirm_wf (h : r.Wf) (hm : members.validate = .ok ()) {sender : ℕ}
    (hr : r.confirm members sender = .ok (c, round)) : round.Wf := by
  obtain ⟨-, rfl, slot, hs, ⟨-, -, rfl⟩ | ⟨hn, f, next, hrec, rfl⟩⟩ := confirm_cases hr
  · exact h
  · exact withLock_wf (receiveConfirmation_wf h hm hrec)
      (receiveConfirmation_finalized h hrec hs hn)

end HaRoundState

end Blossom
