import Blossom.HaRound

/-!
# What one step of a round does

Inversion rules for the five functions that change a round: what a successful call has
checked, and which fields it changes.
-/

namespace Blossom

open CheckedSteps BitMask

variable {W : Type}
variable {f : Option (HaFinalizedRound W)} {outcome : HaDispatchOutcome}

theorem slotIndex_eq_ok {slot : ℕ} {i : Fin 7} : slotIndex slot = .ok i ↔ slot = i.val := by
  unfold slotIndex
  split
  · rw [Except.ok.injEq, Fin.ext_iff]
  · simp only [reduceCtorEq, false_iff]
    omega

theorem memberSlotBit_eq_ok {slot : ℕ} {bit : Mask} :
    memberSlotBit slot = .ok bit ↔ slot < 7 ∧ bit = slotBit slot := by
  unfold memberSlotBit maxHaNodes
  split
  · simp only [reduceCtorEq, false_iff, not_and]
    omega
  · next h =>
    rw [Except.ok.injEq, eq_comm, iff_and_self]
    omega

namespace HaMemberSlots

theorem isActive_iff {m : HaMemberSlots W} {slot : ℕ} :
    m.isActive slot = true ↔ slot < 7 ∧ slot ∈ bits m.activeMask ∧ (m.member slot).isSome := by
  unfold isActive
  split
  · rename_i bit h
    obtain ⟨hlt, rfl⟩ := memberSlotBit_eq_ok.mp h
    simp only [Bool.and_eq_true, decide_eq_true_eq, slotBit, hlt, true_and]
    rw [← and_twoPow_ne_zero_iff]
    rfl
  · rename_i e h
    have hge : ¬slot < 7 := fun hlt => by
      rw [memberSlotBit_eq_ok.mpr ⟨hlt, rfl⟩] at h
      cases h
    simp [hge]

end HaMemberSlots

variable [ProtocolCrypto W]

theorem HaEpoch.validateBlock_eq_ok {e : HaEpoch W} {i : Fin 7} :
    e.validateBlock i = .ok () ↔
      (i.val ∈ bits e.candidate.includedMask → ∃ b, e.blocks i = some b ∧
        b.verifyUnsignedIntegrityWithHash (e.candidate.blockHashes i) = .ok ()) ∧
      (i.val ∉ bits e.candidate.includedMask → e.blocks i = none) := by
  unfold validateBlock
  by_cases h : i.val ∈ bits e.candidate.includedMask
  · simp [h]
  · simp [h]

namespace HaRoundState

variable {r round : HaRoundState W} {members : HaMemberSlots W}

structure InScope (r : HaRoundState W) (members : HaMemberSlots W) (roundId : HaRoundId W)
    (sender : ℕ) : Prop where
  round_eq : roundId = r.roundId
  membership_eq : r.roundId.fixedMembershipHash = members.fixedIdentityHash
  mask_eq : r.roundId.activeMask = members.activeMask
  nonce_eq : r.roundId.nonce = r.roundId.previousEpochNonce + 1
  active : members.isActive sender = true

variable {sender : ℕ}

theorem validateMessageScope_eq_ok {roundId : HaRoundId W} :
    r.validateMessageScope members roundId sender = .ok () ↔
      r.InScope members roundId sender := by
  simp only [validateMessageScope, HaRoundId.validateFor, validateSender, guard_bind_eq_ok,
    reject_eq_ok, not_or, not_not, Bool.not_eq_false]
  constructor
  · rintro ⟨rfl, ⟨⟨h₁, h₂⟩, h₃⟩, h₄⟩
    exact ⟨rfl, h₁, h₂, h₃, h₄⟩
  · rintro ⟨rfl, h₁, h₂, h₃, h₄⟩
    exact ⟨rfl, ⟨⟨h₁, h₂⟩, h₃⟩, h₄⟩

def withBlock (r : HaRoundState W) (slot : Fin 7) (d : HaDispatch W) : HaRoundState W :=
  { r with
    blocks := Function.update r.blocks slot (some d.block)
    blockHashes := Function.update r.blockHashes slot d.blockHash
    receivedMask := r.receivedMask ||| slotBit slot }

structure AdmitsDispatch (r : HaRoundState W) (members : HaMemberSlots W) (d : HaDispatch W)
    (slot : Fin 7) : Prop where
  scope : r.InScope members d.roundId d.sender
  sender_eq : d.sender = slot.val
  validator : ∃ member, members.member d.sender = some member ∧
    d.block.body.validator = member.publicKey
  lastEpoch : d.block.body.lastEpoch = r.roundId.previousEpochHash
  nonce : d.block.body.nonce = r.roundId.nonce
  intact : d.block.verifyUnsignedIntegrityWithHash d.blockHash = .ok ()

theorem receiveDispatch_cases {d : HaDispatch W}
    (h : r.receiveDispatch members d = .ok (outcome, round)) :
    ∃ slot, r.AdmitsDispatch members d slot ∧
      ((outcome = .duplicate ∧ round = r ∧ (r.blocks slot).isSome ∧
          r.blockHashes slot = d.blockHash) ∨
        (outcome = .late r.roundId.nonce ∧ round = r ∧ r.blocks slot = none ∧
          (r.confirmedCandidate.isSome ∨ r.finalized.isSome)) ∨
        (outcome = .accepted ∧ round = r.withBlock slot d ∧ r.blocks slot = none ∧
          r.confirmedCandidate = none ∧ r.finalized = none)) := by
  simp only [receiveDispatch, ↓guard_bind_eq_ok, bind_eq_ok, require_eq_ok, reject_eq_ok,
    not_not] at h
  obtain ⟨_, hscope, member, hm, hv, hl, hn, hi, slot, hslot, h⟩ := h
  have hse := slotIndex_eq_ok.mp hslot
  refine ⟨slot, ⟨validateMessageScope_eq_ok.mp hscope, hse, ⟨member, hm, hv⟩, hl, hn, hi⟩, ?_⟩
  split at h
  · rename_i existing hb
    split at h
    · rename_i heq
      cases h
      exact .inl ⟨rfl, rfl, by simp [hb], heq.1⟩
    · cases h
  · rename_i hb
    split at h
    · rename_i hlate
      cases h
      exact .inr (.inl ⟨rfl, rfl, hb, hlate⟩)
    · rename_i hopen
      simp only [bind_eq_ok, pure_eq_ok, Prod.mk.injEq] at h
      obtain ⟨bit, hbit, rfl, rfl⟩ := h
      obtain ⟨-, rfl⟩ := memberSlotBit_eq_ok.mp hbit
      simp only [not_or, Option.not_isSome_iff_eq_none] at hopen
      refine .inr (.inr ⟨rfl, ?_, hb, hopen.1, hopen.2⟩)
      rw [withBlock, hse]

def ReceiptsMatch (r : HaRoundState W) (a : HaAcknowledge W) : Prop :=
  ∀ i : Fin 7, (i.val ∈ bits a.receivedMask →
      (r.blocks i).isSome ∧ a.blockHashes i = r.blockHashes i) ∧
    (i.val ∉ bits a.receivedMask → a.blockHashes i = default)

variable {a : HaAcknowledge W}

theorem forM_validateReceipt_eq_ok :
    forM (List.finRange 7) (r.validateReceipt a) = .ok () ↔ r.ReceiptsMatch a := by
  simp only [forM_eq_ok, List.mem_finRange, true_implies, ReceiptsMatch]
  apply forall_congr'
  intro i
  unfold validateReceipt
  by_cases h : i.val ∈ bits a.receivedMask
  · simp [h, ← Option.ne_none_iff_isSome]
  · simp [h]

def withReceipt (r : HaRoundState W) (sender : Fin 7) (mask : Mask) : HaRoundState W :=
  { r with acknowledgements := Function.update r.acknowledgements sender mask }

/-- An acknowledgement that the round accepts from slot `sender`. -/
structure AdmitsReceipt (r : HaRoundState W) (members : HaMemberSlots W) (a : HaAcknowledge W)
    (sender : Fin 7) : Prop where
  scope : r.InScope members a.roundId a.sender
  sender_eq : a.sender = sender.val
  active : bits a.receivedMask ⊆ bits r.roundId.activeMask
  receipts : r.ReceiptsMatch a
  monotone : bits (r.acknowledgements sender) ⊆ bits a.receivedMask

theorem receiveAcknowledgement_eq_ok :
    r.receiveAcknowledgement members a = .ok round ↔
      ∃ sender, r.AdmitsReceipt members a sender ∧ round = r.withReceipt sender a.receivedMask := by
  rw [receiveAcknowledgement]
  simp only [↓guard_bind_eq_ok, bind_eq_ok, pure_eq_ok, reject_eq_ok, not_not, List.forM_eq_forM,
    validateMessageScope_eq_ok, slotIndex_eq_ok, forM_validateReceipt_eq_ok]
  constructor
  · rintro ⟨hs, ha, hr, sender, hi, hm, rfl⟩
    exact ⟨sender, ⟨hs, hi, and_not_eq_zero_iff.mp ha, hr, and_not_eq_zero_iff.mp hm⟩, rfl⟩
  · rintro ⟨sender, ⟨hs, hi, ha, hr, hm⟩, rfl⟩
    exact ⟨hs, and_not_eq_zero_iff.mpr ha, hr, sender, hi, and_not_eq_zero_iff.mpr hm, rfl⟩

def ownReceipt (r : HaRoundState W) (sender : ℕ) : HaAcknowledge W :=
  ⟨r.roundId, sender, r.receivedMask, maskedHashes r.receivedMask r.blockHashes⟩

theorem acknowledge_eq_ok :
    r.acknowledge members sender = .ok (a, round) ↔
      members.isActive sender = true ∧ a = r.ownReceipt sender ∧
        r.receiveAcknowledgement members a = .ok round := by
  simp only [acknowledge, validateSender, bind_eq_ok, pure_eq_ok, reject_eq_ok, Prod.mk.injEq,
    Bool.not_eq_false, exists_const]
  constructor
  · rintro ⟨hs, next, hr, rfl, rfl⟩
    exact ⟨hs, rfl, hr⟩
  · rintro ⟨hs, rfl, hr⟩
    exact ⟨hs, round, hr, rfl, rfl⟩

def withConfirmation (r : HaRoundState W) (sender : Fin 7) (digest : W) : HaRoundState W :=
  { r with confirmations := Function.update r.confirmations sender (some digest) }

def finalizedRound (r : HaRoundState W) (candidate : HaCandidate W) : HaFinalizedRound W where
  roundId := r.roundId
  candidate := candidate
  confirmationMask := r.confirmationMask candidate.digest
  presenceMask := candidate.presenceMask
  orderedSlots := candidate.orderedSlots

def withFinalized (r : HaRoundState W) (candidate : HaCandidate W) : HaRoundState W :=
  { r with
    confirmedCandidate := some candidate.digest
    finalized := some (r.finalizedRound candidate) }

/-- A confirmation of exactly the blocks the round holds, all of them available. -/
structure AdmitsConfirmation (r : HaRoundState W) (members : HaMemberSlots W) (c : HaConfirm W)
    (sender : Fin 7) : Prop where
  scope : r.InScope members c.roundId c.sender
  sender_eq : c.sender = sender.val
  candidate : c.candidate.validate r.roundId = .ok ()
  included : c.candidate.includedMask = r.receivedMask
  available : bits c.candidate.includedMask ⊆ bits (r.availableMask members)
  hashes : ∀ i : Fin 7, i.val ∈ bits c.candidate.includedMask →
    c.candidate.blockHashes i = r.blockHashes i

/-- What recording an admitted confirmation does. -/
inductive ConfirmationEffect (r : HaRoundState W) (members : HaMemberSlots W)
    (c : HaConfirm W) (sender : Fin 7) :
    Option (HaFinalizedRound W) → HaRoundState W → Prop where
  | repeated (h : r.confirmations sender = some c.candidate.digest) :
      ConfirmationEffect r members c sender r.finalized r
  | recorded (h : r.confirmations sender = none)
      (hl : ∀ locked ∈ r.confirmedCandidate, locked = c.candidate.digest)
      (hq : countOnes ((r.withConfirmation sender c.candidate.digest).confirmationMask
        c.candidate.digest) < members.majority) :
      ConfirmationEffect r members c sender none (r.withConfirmation sender c.candidate.digest)
  | finalized (h : r.confirmations sender = none)
      (hl : ∀ locked ∈ r.confirmedCandidate, locked = c.candidate.digest)
      (hq : members.majority ≤ countOnes ((r.withConfirmation sender
        c.candidate.digest).confirmationMask c.candidate.digest)) :
      ConfirmationEffect r members c sender
        (some ((r.withConfirmation sender c.candidate.digest).finalizedRound c.candidate))
        ((r.withConfirmation sender c.candidate.digest).withFinalized c.candidate)

variable {c : HaConfirm W}

theorem receiveConfirmation_cases (h : r.receiveConfirmation members c = .ok (f, round)) :
    ∃ sender, r.AdmitsConfirmation members c sender ∧
      r.ConfirmationEffect members c sender f round := by
  simp only [receiveConfirmation, bind_eq_ok, reject_eq_ok, not_not, List.forM_eq_forM,
    ↓guard_bind_eq_ok, forM_eq_ok, List.mem_finRange, true_implies, hasBit_iff, not_and] at h
  obtain ⟨_, hs, hv, hi, ha, hh, sender, hslot, h⟩ := h
  refine ⟨sender, ⟨validateMessageScope_eq_ok.mp hs, slotIndex_eq_ok.mp hslot, hv, hi,
    and_eq_right_iff.mp ha, hh⟩, ?_⟩
  split at h
  · rename_i existing hc
    split at h
    · rename_i heq
      subst heq
      cases h
      exact .repeated hc
    · cases h
  · rename_i hc
    simp only [guard_bind_eq_ok, reject_eq_ok, not_any_ne] at h
    obtain ⟨hl, h⟩ := h
    split at h
    · rename_i hq
      cases h
      exact .finalized hc hl hq
    · rename_i hq
      cases h
      exact .recorded hc hl (Nat.lt_of_not_le hq)

def ownConfirmation (r : HaRoundState W) (members : HaMemberSlots W) (sender : ℕ) : HaConfirm W :=
  ⟨r.roundId, sender, r.ownCandidate members⟩

def withLock (r : HaRoundState W) (digest : W) : HaRoundState W :=
  { r with confirmedCandidate := some digest }

/-- A member confirms what it holds: again, if it is locked on the same candidate, or for
the first time, by recording its own confirmation. -/
theorem confirm_cases (h : r.confirm members sender = .ok (c, round)) :
    members.isActive sender = true ∧ c = r.ownConfirmation members sender ∧
      ∃ slot : Fin 7, sender = slot.val ∧
        ((r.confirmations slot = some c.candidate.digest ∧
            r.confirmedCandidate = some c.candidate.digest ∧ round = r) ∨
          (r.confirmations slot = none ∧ ∃ f next, r.receiveConfirmation members c = .ok (f, next) ∧
            round = next.withLock c.candidate.digest)) := by
  simp only [confirm, validateSender, bind_eq_ok, reject_eq_ok, Bool.not_eq_false] at h
  obtain ⟨_, hs, _, hav, slot, hslot, h⟩ := h
  refine ⟨hs, ?_⟩
  split at h
  · rename_i existing hc
    simp only [ite_error_eq_ok, not_or, not_not, pure_eq_ok, Prod.mk.injEq] at h
    obtain ⟨⟨rfl, hlock⟩, rfl, rfl⟩ := h
    exact ⟨rfl, slot, slotIndex_eq_ok.mp hslot, .inl ⟨hc, hlock, rfl⟩⟩
  · rename_i hc
    simp only [bind_eq_ok, pure_eq_ok, Prod.exists, Prod.mk.injEq] at h
    obtain ⟨f, next, hr, rfl, rfl⟩ := h
    exact ⟨rfl, slot, slotIndex_eq_ok.mp hslot, .inr ⟨hc, f, next, hr, rfl⟩⟩

theorem receiveDispatch_confirmations {d : HaDispatch W}
    (h : r.receiveDispatch members d = .ok (outcome, round)) :
    round.confirmations = r.confirmations := by
  obtain ⟨slot, -, ⟨-, rfl, -⟩ | ⟨-, rfl, -⟩ | ⟨-, rfl, -⟩⟩ := receiveDispatch_cases h <;> rfl

theorem receiveAcknowledgement_confirmations (h : r.receiveAcknowledgement members a = .ok round) :
    round.confirmations = r.confirmations := by
  obtain ⟨sender, -, rfl⟩ := receiveAcknowledgement_eq_ok.mp h
  rfl

theorem receiveConfirmation_confirmations (h : r.receiveConfirmation members c = .ok (f, round)) :
    c.roundId = r.roundId ∧ ∃ sender : Fin 7, c.sender = sender.val ∧
      (r.confirmations sender = some c.candidate.digest ∧ round.confirmations = r.confirmations ∨
        r.confirmations sender = none ∧ round.confirmations =
          Function.update r.confirmations sender (some c.candidate.digest)) := by
  obtain ⟨sender, hc, he⟩ := receiveConfirmation_cases h
  refine ⟨hc.scope.round_eq, sender, hc.sender_eq, ?_⟩
  cases he with
  | repeated hs => exact .inl ⟨hs, rfl⟩
  | recorded hn _ _ => exact .inr ⟨hn, rfl⟩
  | finalized hn _ _ => exact .inr ⟨hn, rfl⟩

theorem confirm_confirmations (h : r.confirm members sender = .ok (c, round)) :
    c.roundId = r.roundId ∧ c.sender = sender ∧ ∃ slot : Fin 7, sender = slot.val ∧
      (r.confirmations slot = some c.candidate.digest ∨ r.confirmations slot = none) ∧
      round.confirmations = Function.update r.confirmations slot (some c.candidate.digest) := by
  obtain ⟨-, hc, slot, hs, ⟨hrec, -, rfl⟩ | ⟨hn, f, next, hr, rfl⟩⟩ := confirm_cases h
  · refine ⟨by rw [hc]; rfl, by rw [hc]; rfl, slot, hs, .inl hrec, ?_⟩
    rw [← hrec, Function.update_eq_self]
  · obtain ⟨-, sender', hse, ⟨hsome, -⟩ | ⟨-, hup⟩⟩ := receiveConfirmation_confirmations hr
    all_goals
      obtain rfl : slot = sender' := by
        rw [hc] at hse
        exact Fin.ext (hs.symm.trans hse)
    · rw [hn] at hsome
      cases hsome
    · exact ⟨by rw [hc]; rfl, by rw [hc]; rfl, slot, hs, .inr hn, hup⟩

end HaRoundState

end Blossom
