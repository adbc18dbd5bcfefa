import Blossom.HaState
import Blossom.HaRoundInvariant

/-!
# Replaying history

How the replay of certificates and epochs grows when a certificate or an epoch is
appended: a certificate for the next boundary waits behind the epochs already there, and
the next epoch consumes exactly the certificates that wait for it.
-/

namespace Blossom

open CheckedSteps BitMask

variable {W : Type} [ProtocolCrypto W]

def HaReplay.KeepsIdentities (r : HaReplay W) (members : HaMemberSlots W) : Prop :=
  r.members = { members with activeMask := r.members.activeMask }

theorem nextGeneration_eq_ok {g next : ℕ} :
    nextGeneration g = .ok next ↔ g + 1 < 2 ^ 64 ∧ next = g + 1 := by
  unfold nextGeneration
  split
  · next h => rw [Except.ok.injEq, eq_comm, and_iff_right h]
  · next h => simp only [reduceCtorEq, h, false_and]

theorem HaMemberSlots.withSuspended_eq_ok {m next : HaMemberSlots W} {slot : ℕ}
    (h : m.withSuspended slot = .ok next) :
    m.isActive slot = true ∧ slot < 7 ∧
      next = { m with activeMask := m.activeMask &&& ~~~slotBit slot } ∧
      minHaNodes ≤ countOnes next.activeMask ∧ next.validate = .ok () := by
  simp only [withSuspended, bind_eq_ok, reject_eq_ok, pure_eq_ok, Bool.not_eq_false, not_lt] at h
  obtain ⟨_, ha, bit, hb, _, hc, _, hv, rfl⟩ := h
  obtain ⟨hlt, rfl⟩ := memberSlotBit_eq_ok.mp hb
  exact ⟨ha, hlt, rfl, hc, hv⟩

theorem HaMemberSlots.withReactivated_eq_ok {m next : HaMemberSlots W} {slot : ℕ}
    (h : m.withReactivated slot = .ok next) :
    (m.member slot).isSome ∧ slot < 7 ∧
      next = { m with activeMask := m.activeMask ||| slotBit slot } ∧ next.validate = .ok () := by
  simp only [withReactivated, bind_eq_ok, reject_eq_ok, pure_eq_ok, Bool.not_eq_true,
    Option.isNone_eq_false_iff] at h
  obtain ⟨_, hm, bit, hb, _, hv, rfl⟩ := h
  obtain ⟨hlt, rfl⟩ := memberSlotBit_eq_ok.mp hb
  exact ⟨hm, hlt, rfl, hv⟩

theorem replayMembershipChange_members {members next : HaMemberSlots W}
    {presence presence' : HaPresenceTracker} {c : HaMembershipCertificate W}
    (h : replayMembershipChange members presence c = .ok (next, presence')) :
    next = { members with activeMask := next.activeMask } ∧ next.validate = .ok () := by
  unfold replayMembershipChange at h
  split at h
  all_goals
    simp only [bind_eq_ok, pure_eq_ok, Prod.mk.injEq] at h
    obtain ⟨m, hm, rfl, -⟩ := h
  · obtain ⟨-, -, hn, -, hv⟩ := HaMemberSlots.withSuspended_eq_ok hm
    exact ⟨by rw [hn], hv⟩
  · obtain ⟨-, -, hn, hv⟩ := HaMemberSlots.withReactivated_eq_ok hm
    exact ⟨by rw [hn], hv⟩

namespace HaReplay

variable {r r' : HaReplay W} {members : HaMemberSlots W} {c : HaMembershipCertificate W}
  {changes rest : List (HaMembershipCertificate W)} {parameters : HighAvailabilityParameters}

theorem change_eq_ok : r.change c = .ok r' ↔
    ∃ members presence generation,
      replayMembershipChange r.members r.presence c = .ok (members, presence) ∧
      nextGeneration r.generation = .ok generation ∧ r' = ⟨members, presence, generation⟩ := by
  simp only [change, bind_eq_ok, pure_eq_ok, Prod.exists, exists_and_left, eq_comm (a := r')]

theorem change_keeps (hk : r.KeepsIdentities members) (h : r.change c = .ok r') :
    r'.KeepsIdentities members := by
  obtain ⟨m, p, g, hm, -, rfl⟩ := change_eq_ok.mp h
  have hid := (replayMembershipChange_members hm).1
  rw [hk] at hid
  exact hid

variable {nonce : ℕ}

theorem changesAt_keeps (hk : r.KeepsIdentities members)
    (h : r.changesAt nonce changes = .ok (r', rest)) : r'.KeepsIdentities members := by
  induction changes generalizing r with
  | nil =>
    cases h
    exact hk
  | cons c changes ih =>
    unfold changesAt at h
    split at h
    · rw [bind_eq_ok] at h
      obtain ⟨mid, hc, h⟩ := h
      exact ih (change_keeps hk hc) h
    · cases h
      exact hk

variable {epochs : List (HaEpoch W)}

theorem overEpochs_keeps (hk : r.KeepsIdentities members)
    (h : r.overEpochs parameters changes epochs = .ok (r', rest)) : r'.KeepsIdentities members := by
  induction epochs generalizing r changes with
  | nil =>
    cases h
    exact hk
  | cons e epochs ih =>
    simp only [overEpochs, bind_eq_ok, Prod.exists] at h
    obtain ⟨mid, left, hc, _, -, h⟩ := h
    have hmid := changesAt_keeps hk hc
    exact ih (r := mid.observe parameters e) hmid h

theorem pending_keeps (hk : r.KeepsIdentities members)
    (h : r.pending nonce changes = .ok r') : r'.KeepsIdentities members := by
  induction changes generalizing r with
  | nil =>
    cases h
    exact hk
  | cons c changes ih =>
    simp only [pending, bind_eq_ok] at h
    obtain ⟨_, -, mid, hc, h⟩ := h
    exact ih (change_keeps hk hc) h

/-- The epoch at the pending boundary consumes every certificate that waits for it. -/
theorem changesAt_of_pending (h : r.pending nonce changes = .ok r') :
    r.changesAt nonce changes = .ok (r', []) := by
  induction changes generalizing r with
  | nil =>
    cases h
    rfl
  | cons c changes ih =>
    simp only [pending, bind_eq_ok, reject_eq_ok, not_not] at h
    obtain ⟨_, he, mid, hc, h⟩ := h
    simp only [changesAt, he, if_true, bind_eq_ok]
    exact ⟨mid, hc, ih h⟩

theorem pending_append :
    r.pending nonce (changes ++ [c]) = .ok r' ↔
      ∃ mid, r.pending nonce changes = .ok mid ∧ c.proposal.effectiveNonce = nonce ∧
        mid.change c = .ok r' := by
  induction changes generalizing r with
  | nil => simp [pending]
  | cons d changes ih =>
    simp only [List.cons_append, pending, bind_eq_ok, ih]
    tauto

/-- A certificate for a later boundary waits behind the ones replayed at `nonce`. -/
theorem changesAt_append (hc : nonce < c.proposal.effectiveNonce)
    (h : r.changesAt nonce changes = .ok (r', rest)) :
    r.changesAt nonce (changes ++ [c]) = .ok (r', rest ++ [c]) := by
  induction changes generalizing r with
  | nil =>
    cases h
    simp [changesAt, hc.ne']
  | cons d changes ih =>
    rw [List.cons_append]
    unfold changesAt at h ⊢
    split at h
    · rename_i he
      rw [bind_eq_ok] at h
      obtain ⟨mid, hd, h⟩ := h
      rw [if_pos he, bind_eq_ok]
      exact ⟨mid, hd, ih h⟩
    · rename_i he
      cases h
      rw [if_neg he]
      rfl

theorem overEpochs_append_change (hc : ∀ e ∈ epochs, e.nonce < c.proposal.effectiveNonce)
    (h : r.overEpochs parameters changes epochs = .ok (r', rest)) :
    r.overEpochs parameters (changes ++ [c]) epochs = .ok (r', rest ++ [c]) := by
  induction epochs generalizing r changes with
  | nil =>
    cases h
    rfl
  | cons e epochs ih =>
    simp only [overEpochs, bind_eq_ok, Prod.exists, reject_eq_ok, not_or] at h ⊢
    obtain ⟨mid, left, hat, _, ⟨hany, hg, hm⟩, h⟩ := h
    have hlt := hc e List.mem_cons_self
    refine ⟨mid, left ++ [c], changesAt_append hlt hat, (), ⟨?_, hg, hm⟩,
      ih (fun x hx => hc x (List.mem_cons_of_mem e hx)) h⟩
    cases left with
    | nil => simpa using hlt.le
    | cons d left => simpa using hany

theorem overEpochs_append {e : HaEpoch W} {final : HaReplay W}
    (h : r.overEpochs parameters changes epochs = .ok (r', rest))
    (hp : r'.pending e.nonce rest = .ok final) (hg : e.membershipGeneration = final.generation)
    (hm : e.activeMask = final.members.activeMask) :
    r.overEpochs parameters changes (epochs ++ [e]) =
      .ok (final.observe parameters e, []) := by
  induction epochs generalizing r changes with
  | nil =>
    cases h
    simp only [List.nil_append, overEpochs, bind_eq_ok, Prod.exists, reject_eq_ok]
    exact ⟨final, [], changesAt_of_pending hp, (), by simp [hg, hm], rfl⟩
  | cons x epochs ih =>
    simp only [List.cons_append, overEpochs, bind_eq_ok, Prod.exists] at h ⊢
    obtain ⟨mid, left, hat, _, hok, h⟩ := h
    exact ⟨mid, left, hat, (), hok, ih h⟩

end HaReplay

end Blossom
