import Blossom.HaAmendments

/-!
# Repeated confirmations

A member that has confirmed a candidate is locked on it and admits no further dispatch. The presence
mask of the candidate is however computed from the acknowledgements, which still arrive, so that the
member can confirm again only while no member acknowledges for the first time.
-/

namespace Blossom

open CheckedSteps BitMask HighAvailabilityRuntime

variable {W : Type} [ProtocolCrypto W] {c : HaConfirm W} {members : HaMemberSlots W}
  {r first : HaRoundState W}

/-- The round of a member that is locked on a candidate of the round `first`. -/
structure LockedOn (c : HaConfirm W) (first : HaRoundState W) (r : HaRoundState W) : Prop where
  round_eq : r.roundId = first.roundId
  received : r.receivedMask = first.receivedMask
  hashes : r.blockHashes = first.blockHashes
  lock : r.confirmedCandidate = some c.candidate.digest
  own : ∀ slot : Fin 7, c.sender = slot.val → r.confirmations slot = some c.candidate.digest
  unfinished : r.finalized = none
  receipts : ∀ i, bits (first.acknowledgements i) ⊆ bits (r.acknowledgements i)

namespace HaRoundState

omit [ProtocolCrypto W] in
theorem mem_bits_availableMask {i : ℕ} : i ∈ bits (r.availableMask members) ↔
    ∃ block : Fin 7, (block.val ∈ bits r.receivedMask ∧
      members.majority ≤ (r.acknowledgers block).length) ∧ block.val = i := by
  rw [availableMask, mem_bits_collect (by decide)]
  simp

omit [ProtocolCrypto W] in
theorem mem_bits_presence {i : ℕ} : i ∈ bits (r.certifiedPresenceCandidateMask members) ↔
    i ∈ bits (r.availableMask members) ∨ ∃ slot : Fin 7,
      (slot.val ∈ bits r.roundId.activeMask ∧ r.acknowledgements slot ≠ 0) ∧ slot.val = i := by
  rw [certifiedPresenceCandidateMask, bits_or, Finset.mem_union, mem_bits_collect (by decide)]
  simp

end HaRoundState

namespace LockedOn

open HaRoundState

variable {round : HaRoundState W}

theorem dispatch (h : LockedOn c first r) {d : HaDispatch W} {outcome : HaDispatchOutcome}
    (hr : r.receiveDispatch members d = .ok (outcome, round)) :
    LockedOn c first round := by
  obtain ⟨slot, -, ⟨-, rfl, -⟩ | ⟨-, rfl, -⟩ | ⟨-, -, -, hunlocked, -⟩⟩ := receiveDispatch_cases hr
  · exact h
  · exact h
  · rw [h.lock] at hunlocked
    cases hunlocked

theorem acknowledgement (h : LockedOn c first r) {a : HaAcknowledge W}
    (hr : r.receiveAcknowledgement members a = .ok round) : LockedOn c first round := by
  obtain ⟨sender, hadmits, rfl⟩ := receiveAcknowledgement_eq_ok.mp hr
  refine { h with receipts := fun i => ?_ }
  by_cases hi : i = sender
  · subst hi
    simpa [withReceipt] using (h.receipts i).trans hadmits.monotone
  · simpa [withReceipt, Function.update_of_ne hi] using h.receipts i

theorem confirmation (h : LockedOn c first r) {c' : HaConfirm W} {f : Option (HaFinalizedRound W)}
    (hr : r.receiveConfirmation members c' = .ok (f, round))
    (hopen : round.finalized = none) : LockedOn c first round := by
  obtain ⟨sender, -, heffect⟩ := receiveConfirmation_cases hr
  cases heffect with
  | repeated => exact h
  | recorded hnone =>
    refine { h with own := fun slot hslot => ?_ }
    have hown := h.own slot hslot
    have hne : slot ≠ sender := by
      rintro rfl
      rw [hnone] at hown
      cases hown
    simpa [withConfirmation, Function.update_of_ne hne] using hown
  | finalized => cases hopen

omit [ProtocolCrypto W] in
theorem availableMask_eq (h : LockedOn c first r)
    (hall : bits first.receivedMask ⊆ bits (first.availableMask members)) :
    bits (r.availableMask members) = bits first.receivedMask := by
  ext i
  rw [mem_bits_availableMask]
  constructor
  · rintro ⟨block, ⟨hrcv, -⟩, rfl⟩
    exact h.received ▸ hrcv
  · intro hi
    obtain ⟨block, ⟨hrcv, hmajority⟩, rfl⟩ := mem_bits_availableMask.mp (hall hi)
    refine ⟨block, ⟨h.received ▸ hrcv, hmajority.trans ?_⟩, rfl⟩
    apply List.Sublist.length_le
    apply List.monotone_filter_right
    intro sender hsend
    simp only [Bool.and_eq_true, decide_eq_true_eq, hasBit_iff] at hsend ⊢
    rw [h.round_eq]
    exact ⟨hsend.1, h.receipts sender hsend.2⟩

/-- The candidate is the same if no further member has acknowledged. -/
theorem ownCandidate_eq_iff (h : LockedOn c first r)
    (hall : bits first.receivedMask ⊆ bits (first.availableMask members)) :
    r.ownCandidate members = first.ownCandidate members ↔ ∀ slot : Fin 7,
      slot.val ∈ bits r.roundId.activeMask → r.acknowledgements slot ≠ 0 →
        slot.val ∈ bits (first.ownCandidate members).presenceMask := by
  have hpres : (r.ownCandidate members).presenceMask = r.certifiedPresenceCandidateMask members :=
    rfl
  have hpres' : (first.ownCandidate members).presenceMask =
      first.certifiedPresenceCandidateMask members := rfl
  constructor
  · intro hsame slot hact hrcpt
    rw [← hsame, hpres, mem_bits_presence]
    exact .inr ⟨slot, ⟨hact, hrcpt⟩, rfl⟩
  · intro hknown
    have hmask : r.certifiedPresenceCandidateMask members =
        first.certifiedPresenceCandidateMask members := by
      apply bits_injective
      ext i
      rw [hpres'] at hknown
      rw [mem_bits_presence, h.availableMask_eq hall]
      constructor
      · rintro (hi | ⟨slot, ⟨hact, hrcpt⟩, rfl⟩)
        · exact mem_bits_presence.mpr (.inl (hall hi))
        · exact hknown slot hact hrcpt
      · intro hi
        rcases mem_bits_presence.mp hi with hi | ⟨slot, ⟨hact, hrcpt⟩, rfl⟩
        · obtain ⟨block, ⟨hrcv, -⟩, rfl⟩ := mem_bits_availableMask.mp hi
          exact .inl hrcv
        · refine .inr ⟨slot, ⟨h.round_eq ▸ hact, fun hzero => hrcpt ?_⟩, rfl⟩
          have hempty := h.receipts slot
          rw [eq_zero_iff.mp hzero, Finset.subset_empty] at hempty
          exact eq_zero_iff.mpr hempty
    rw [ownCandidate, ownCandidate, hmask, h.round_eq, h.received, h.hashes]

theorem of_confirm {sender : ℕ}
    (hr : r.confirm members sender = .ok (c, round)) (hopen : round.finalized = none) :
    LockedOn c round round ∧ members.isActive sender = true ∧
      c = round.ownConfirmation members sender ∧ round.receivedMask ≠ 0 ∧
      bits round.receivedMask ⊆ bits (round.availableMask members) := by
  obtain ⟨hact, hown, slot, hslot, hcases⟩ := confirm_cases hr
  have hready : r.receivedMask ≠ 0 ∧ bits r.receivedMask ⊆ bits (r.availableMask members) := by
    simp only [HaRoundState.confirm, bind_eq_ok, reject_eq_ok, not_or, not_not] at hr
    obtain ⟨_, -, _, ⟨hzero, hall⟩, -⟩ := hr
    exact ⟨hzero, and_eq_right_iff.mp hall⟩
  have hsend : c.sender = slot.val := by rw [hown, ← hslot]; rfl
  obtain ⟨hconfirmed, hlock, rfl⟩ | ⟨hnone, f, next, hrcv, rfl⟩ := hcases
  · refine ⟨⟨rfl, rfl, rfl, hlock, fun i hi => ?_, hopen, fun i => subset_rfl⟩, hact, hown, hready⟩
    rwa [Fin.ext (hi.symm.trans hsend)]
  · obtain ⟨sender', hadmits, heffect⟩ := receiveConfirmation_cases hrcv
    obtain rfl : sender' = slot := Fin.ext (hadmits.sender_eq.symm.trans hsend)
    cases heffect with
    | repeated hsome =>
      rw [hnone] at hsome
      cases hsome
    | recorded =>
      refine ⟨⟨rfl, rfl, rfl, rfl, fun i hi => ?_, hopen, fun i => subset_rfl⟩, hact, hown, hready⟩
      rw [Fin.ext (hi.symm.trans hsend)]
      simp [withLock, withConfirmation]
    | finalized => cases hopen

/-- A locked member confirms again, or finds that the candidate has changed. -/
theorem confirm_eq (h : LockedOn c first r) {slot : Fin 7} (hslot : c.sender = slot.val)
    (hact : members.isActive c.sender = true) (hrcv : first.receivedMask ≠ 0)
    (hall : bits first.receivedMask ⊆ bits (first.availableMask members)) :
    r.confirm members c.sender = if c.candidate.digest = (r.ownCandidate members).digest then
        .ok (⟨r.roundId, c.sender, r.ownCandidate members⟩, r)
      else
        .error (wireProtocol
          "HA durable confirmation lock does not match recoverable round state") := by
  have havail : r.availableMask members &&& r.receivedMask = r.receivedMask := by
    rw [and_eq_right_iff, h.availableMask_eq hall, h.received]
  have hindex : slotIndex c.sender = .ok slot := slotIndex_eq_ok.mpr hslot
  have hzero : ¬r.receivedMask = 0#8 := h.received ▸ hrcv
  by_cases hdigest : c.candidate.digest = (r.ownCandidate members).digest
  · simp [HaRoundState.confirm, HaRoundState.validateSender, reject, hact, havail, hzero,
      hindex, h.own slot hslot, h.lock, hdigest, bind, Except.bind, pure, Except.pure]
  · simp [HaRoundState.confirm, HaRoundState.validateSender, reject, hact, havail, hzero,
      hindex, h.own slot hslot, h.lock, hdigest, bind, Except.bind]

end LockedOn

/-!
## Messages and restarts after a confirmation
-/

variable [AmendmentCodec W] {ls : List (Label W)} {rt rt' mid : HighAvailabilityRuntime W}

/-- What a member receives in a round that stays open, with restarts in between. -/
inductive StaysOpen (rt : HighAvailabilityRuntime W) : HighAvailabilityRuntime W → Prop
  | refl : StaysOpen rt rt
  | received {mid : HighAvailabilityRuntime W} {m : HaMessage W} {io : Bool} (h : StaysOpen rt mid)
      (hm : ∀ v, m ≠ .membershipVote v)
      (hround : (mid.receiveMessage m io).2.state.round.roundId = rt.state.round.roundId)
      (hopen : (mid.receiveMessage m io).2.state.round.finalized = none) :
      StaysOpen rt (mid.receiveMessage m io).2
  | reopened {mid rt' : HighAvailabilityRuntime W} {store : HaDurableStore W} {groupId selfKey : W}
      {members : List (NodeIdentity W)} {parameters : HighAvailabilityParameters} {io : Bool}
      (h : StaysOpen rt mid) (hstore : mid.store = some store)
      (ho : openStore store groupId selfKey members parameters io = .ok rt') : StaysOpen rt rt'

/-- What a member in the state `s` keeps while it is locked. -/
def KeepsLock (c : HaConfirm W) (s : HighAvailabilityRuntimeState W) (m : HaDurableMetadata W) :
    Prop :=
  m.members = s.members ∧ m.selfSlot = s.selfSlot ∧ LockedOn c s.round m.round

theorem KeepsLock.received {s : HighAvailabilityRuntimeState W} (h : Sound (KeepsLock c s) mid)
    {m : HaMessage W} {io : Bool} (hm : ∀ v, m ≠ .membershipVote v)
    (hround : (mid.receiveMessage m io).2.state.round.roundId = s.round.roundId)
    (hopen : (mid.receiveMessage m io).2.state.round.finalized = none) :
    Sound (KeepsLock c s) (mid.receiveMessage m io).2 := by
  obtain ⟨hmems, hself, hlocked⟩ := h.memory
  have hnext {round : HaRoundState W} (hid : round.roundId = mid.state.round.roundId)
      (hr : LockedOn c s.round round) : Sound (KeepsLock c s) (mid.withRound round) :=
    h.withState (h.valid.withRound hid) ⟨hmems, hself, hr⟩
  cases m with
  | handshake handshake =>
    rw [receiveMessage]
    split <;> exact h
  | membershipVote v => exact absurd rfl (hm v)
  | dispatch d =>
    rw [receiveMessage, receiveDispatch]
    split
    · split <;> exact h
    · dsimp only
      split
      · rename_i hr
        simp only [↓guard_bind_eq_ok] at hr
        exact hnext (HaRoundState.receiveDispatch_roundId hr.2) (hlocked.dispatch hr.2)
      · exact h
  | acknowledge a =>
    rw [receiveMessage, receiveAcknowledgement]
    split
    · split <;> exact h
    · split
      · rename_i hr
        exact hnext (HaRoundState.receiveAcknowledgement_roundId hr) (hlocked.acknowledgement hr)
      · exact h
  | confirm c' =>
    have hcases : (mid.receiveMessage (.confirm c') io).2 = mid ∨ ∃ f round,
        mid.state.round.receiveConfirmation mid.state.members c' = .ok (f, round) ∧
        (mid.receiveMessage (.confirm c') io).2 =
          ((mid.withRound round).commitFinalizedRound io).2 := by
      rw [receiveMessage, receiveConfirmation]
      split
      · split
        · exact .inl rfl
        · split <;> exact .inl rfl
      · split
        · exact .inl rfl
        · rename_i f round hr
          refine .inr ⟨f, round, hr, ?_⟩
          split <;> simp [*]
    obtain hsame | ⟨f, round, hr, hout⟩ := hcases
    · rwa [hsame]
    rw [hout] at hround hopen ⊢
    have hid := HaRoundState.receiveConfirmation_roundId hr
    obtain hsame | ⟨e, hcommit⟩ := commitFinalizedRound_cases (mid.withRound round) io
    · rw [hsame] at hopen ⊢
      exact hnext hid (hlocked.confirmation hr hopen)
    · -- a commit would have moved on to the next round
      cases hcommit with
      | @committed _ f' _ _ _ hf hc hp =>
        obtain ⟨_, _, -, hnew, rfl, rfl⟩ := commitState_eq_ok hc
        obtain ⟨-, -, rfl⟩ := HaRoundState.new_eq_ok.mp hnew
        have hf' : f'.roundId = mid.state.round.roundId := by
          obtain ⟨_, -, heffect⟩ := HaRoundState.receiveConfirmation_cases hr
          cases heffect with
          | repeated | recorded => exact absurd (hlocked.unfinished.symm.trans hf) (by simp)
          | finalized => cases hf; rfl
        rw [persist_state hp, ← hlocked.round_eq] at hround
        have hnonce : f'.roundId.nonce + 1 = mid.state.round.roundId.nonce :=
          congrArg HaRoundId.nonce hround
        rw [hf'] at hnonce
        omega

theorem KeepsLock.staysOpen (h : Sound (KeepsLock c rt.state) rt) (hs : StaysOpen rt rt') :
    Sound (KeepsLock c rt.state) rt' := by
  induction hs with
  | refl => exact h
  | received _ hm hround hopen ih => exact KeepsLock.received ih hm hround hopen
  | reopened _ hstore ho ih => exact (ih.openStore hstore ho).1

theorem HaReached.locks (h : HaReached ls rt) {io commitIo : Bool}
    (hc : rt.confirm io commitIo = (.ok (c, none), rt')) :
    Sound (KeepsLock c rt'.state) rt' ∧ rt'.state.members.isActive rt'.state.selfSlot = true ∧
      c = rt'.state.round.ownConfirmation rt'.state.members rt'.state.selfSlot ∧
      rt'.state.round.receivedMask ≠ 0 ∧ bits rt'.state.round.receivedMask ⊆
        bits (rt'.state.round.availableMask rt'.state.members) := by
  rw [HighAvailabilityRuntime.confirm] at hc
  split at hc
  · cases hc
  rename_i c' round hr
  split at hc
  · cases hc
  rename_i mid hper
  split at hc
  · rename_i epoch rt'' hcommit
    simp only [Prod.mk.injEq, Except.ok.injEq] at hc
    obtain ⟨⟨rfl, rfl⟩, rfl⟩ := hc
    have hstate := persist_state hper
    have hopen : mid.state.round.finalized = none ∧ rt'' = mid := by
      unfold commitFinalizedRound at hcommit
      split at hcommit
      · rename_i hnone
        cases hcommit
        exact ⟨hnone, rfl⟩
      · split at hcommit
        · cases hcommit
        · split at hcommit <;> cases hcommit
    obtain ⟨hopen, rfl⟩ := hopen
    rw [hstate] at hopen ⊢
    obtain ⟨hlocked, hrest⟩ := LockedOn.of_confirm hr hopen
    have hvalid := h.good.valid.withRound (HaRoundState.confirm_roundId hr)
    exact ⟨h.kept.persisted hvalid ⟨rfl, rfl, hlocked⟩ hper, hrest⟩
  · cases hc

/-- A member that has confirmed a candidate and then receives messages and restarts, confirms the
candidate again exactly if no member outside its presence mask has acknowledged since. -/
theorem HaReached.confirm_again_iff (h : HaReached ls rt) {io commitIo : Bool}
    (hc : rt.confirm io commitIo = (.ok (c, none), mid)) (hs : StaysOpen mid rt') :
    (rt'.confirm true true).1 = .ok (c, none) ↔ ∀ slot : Fin 7,
      slot.val ∈ bits rt'.state.round.roundId.activeMask →
        rt'.state.round.acknowledgements slot ≠ 0 → slot.val ∈ bits c.candidate.presenceMask := by
  obtain ⟨hsound, hactive, hown, hreceived, hall⟩ := h.locks hc
  have hsender : c.sender = mid.state.selfSlot := by rw [hown]; rfl
  have hkept := KeepsLock.staysOpen hsound hs
  obtain ⟨hmembers, hself, hlocked⟩ : rt'.state.members = mid.state.members ∧
    rt'.state.selfSlot = mid.state.selfSlot ∧ LockedOn c mid.state.round rt'.state.round := hkept.memory
  have hcandidate : c.candidate = mid.state.round.ownCandidate mid.state.members := by rw [hown]; rfl
  have hsame := hlocked.ownCandidate_eq_iff hall
  rw [← hcandidate] at hsame
  have hslot : c.sender = (⟨_, hsound.valid.selfSlot_lt.1⟩ : Fin 7).val := hsender
  have hconfirm := hlocked.confirm_eq hslot (hsender ▸ hactive) hreceived hall
  have hopen := hlocked.unfinished
  obtain ⟨rt'', hpersist, hstate⟩ := hkept.persist_ok hkept.valid
  rw [← hsame, HighAvailabilityRuntime.confirm, hself, hmembers, ← hsender, hconfirm]
  by_cases hdigest : c.candidate.digest = (rt'.state.round.ownCandidate mid.state.members).digest
  · have hcommit : rt''.commitFinalizedRound true = (.ok none, rt'') := by
      rw [commitFinalizedRound, hstate, hopen]
    have hwrite : (rt'.withRound rt'.state.round).persist true = .ok rt'' := hpersist
    rw [if_pos hdigest]
    simp only [hwrite, hcommit, Except.ok.injEq, Prod.mk.injEq, and_true]
    constructor
    · intro heq
      rw [← heq]
    · intro heq
      rw [heq, hlocked.round_eq]
      exact (congrArg (HaConfirm.mk _ _) hcandidate).trans (by rw [hsender]; exact hown.symm)
  · rw [if_neg hdigest]
    constructor
    · intro h
      cases h
    · intro heq
      exact absurd (congrArg HaCandidate.digest heq).symm hdigest

omit [ProtocolCrypto W] [AmendmentCodec W] in
theorem eq_of_mem_toOption {α : Type} {x : Outcome W α} {a : α} (h : a ∈ x.1.toOption) :
    x = (.ok a, x.2) := by
  obtain ⟨_ | _, _⟩ := x <;> simp_all [Except.toOption]

open DigestWord Operation in
/-- A member of three offers a block that it and one peer acknowledge. -/
def DigestWord.offeredRound : List (HighAvailabilityRuntime DigestWord → List (Operation DigestWord)) :=
  [fun _ => [.buildDispatch [] 0, .acknowledge true], echo 1 (.acknowledge true)]

open DigestWord in
/-- The third member acknowledges after the first one has confirmed. -/
theorem late_receipt_stops_confirm :
    ∃ ls, ∃ rt mid rt' : HighAvailabilityRuntime DigestWord, ∃ c, HaReached ls rt ∧
      rt.confirm true true = (.ok (c, none), mid) ∧ StaysOpen mid rt' ∧
        (rt'.confirm true true).1 = .error
          (wireProtocol "HA durable confirmation lock does not match recoverable round state") := by
  have hcheck : ∃ ls, ∃ rt : HighAvailabilityRuntime DigestWord, HaReached ls rt ∧
      ∃ c ∈ (rt.confirm true true).1.toOption, c.2 = none ∧
        let mid := (rt.confirm true true).2
        let rt' := (mid.receiveMessage (.acknowledge (rt.state.round.ownReceipt 2)) true).2
        rt'.state.round.roundId = mid.state.round.roundId ∧ rt'.state.round.finalized = none ∧
          (rt'.confirm true true).1 = .error
            (wireProtocol "HA durable confirmation lock does not match recoverable round state") := by
    apply exists_reached_of_check (key 0) (key 1) (numberedMembers key 3) (.new 6 6) offeredRound
    decide +kernel
  obtain ⟨ls, rt, h, ⟨c, _⟩, hc, rfl, hround, hopen, hfails⟩ := hcheck
  exact ⟨ls, rt, _, _, c, h, eq_of_mem_toOption hc, .received .refl (by simp) hround hopen, hfails⟩

open DigestWord in
theorem repeated_receipt_confirms_again :
    ∃ ls, ∃ rt mid rt' : HighAvailabilityRuntime DigestWord, ∃ c, HaReached ls rt ∧
      rt.confirm true true = (.ok (c, none), mid) ∧ StaysOpen mid rt' ∧
        (rt'.confirm true true).1 = .ok (c, none) := by
  have hcheck : ∃ ls, ∃ rt : HighAvailabilityRuntime DigestWord, HaReached ls rt ∧
      ∃ c ∈ (rt.confirm true true).1.toOption, c.2 = none ∧
        let mid := (rt.confirm true true).2
        let rt' := (mid.receiveMessage (.acknowledge (rt.state.round.ownReceipt 1)) true).2
        rt'.state.round.roundId = mid.state.round.roundId ∧ rt'.state.round.finalized = none ∧
          ∀ slot : Fin 7, slot.val ∈ bits rt'.state.round.roundId.activeMask →
            rt'.state.round.acknowledgements slot ≠ 0 →
              slot.val ∈ bits c.1.candidate.presenceMask := by
    apply exists_reached_of_check (key 0) (key 1) (numberedMembers key 3) (.new 6 6) offeredRound
    decide +kernel
  obtain ⟨ls, rt, h, ⟨c, _⟩, hc, rfl, hround, hopen, hknown⟩ := hcheck
  have hconfirm := eq_of_mem_toOption hc
  have hs : StaysOpen (rt.confirm true true).2 _ := .received .refl (by simp) hround hopen
  exact ⟨ls, rt, _, _, c, h, hconfirm, hs, (h.confirm_again_iff hconfirm hs).mpr hknown⟩

/-- A dispatch that is handed out is recorded exactly if the round already has its block or has none
from this member and is open. -/
theorem HaReached.buildDispatch_recorded_iff (h : HaReached ls rt)
    {transactions : List (Transaction W)} {created : ℕ} {d : HaDispatch W}
    (hb : rt.buildDispatch transactions created = (.ok d, rt')) :
    ∃ slot : Fin 7, rt'.state.selfSlot = slot.val ∧
      (rt'.state.round.blocks slot = some d.block ∧ rt'.state.round.blockHashes slot = d.blockHash ∧
          slot.val ∈ bits rt'.state.round.receivedMask ↔
        rt.state.round.blocks slot = some d.block ∨ rt.state.round.blocks slot = none ∧
          rt.state.round.confirmedCandidate = none ∧ rt.state.round.finalized = none) := by
  unfold HighAvailabilityRuntime.buildDispatch at hb
  dsimp only at hb
  split at hb
  case h_2 => cases hb
  case h_1 d' round hattempt =>
    cases hb
    simp only [bind_eq_ok, require_eq_ok, pure_eq_ok, Prod.exists, Prod.mk.injEq] at hattempt
    obtain ⟨_, -, member, -, outcome, _, hreceive, rfl, rfl⟩ := hattempt
    obtain ⟨slot, hadmits, hcases⟩ := HaRoundState.receiveDispatch_cases hreceive
    have hwf := HaRoundState.receiveDispatch_wf h.good.round h.good.valid.members hreceive
    refine ⟨slot, hadmits.sender_eq, ?_⟩
    rcases hcases with ⟨-, rfl, hsome, hhash⟩ | ⟨-, rfl, hnone, hlate⟩ | ⟨-, rfl, hnone, hopen⟩
    · have hbit := (hwf.received slot).mpr hsome
      refine ⟨fun hr => .inl hr.1, fun hr => ⟨hr.resolve_right fun hn => ?_, hhash, hbit⟩⟩
      simp [hn.1] at hsome
    · refine iff_of_false (fun hr => by cases hnone.symm.trans hr.1) ?_
      rintro (hr | ⟨-, hlock, hfinal⟩)
      · cases hnone.symm.trans hr
      · simp [hlock, hfinal] at hlate
    · refine iff_of_true ⟨Function.update_self .., Function.update_self .., ?_⟩ (.inr ⟨hnone, hopen⟩)
      exact (hwf.received slot).mpr (by simp [HaRoundState.withBlock])

open DigestWord in
theorem fresh_dispatch_recorded :
    ∃ ls, ∃ rt rt' : HighAvailabilityRuntime DigestWord, ∃ d, HaReached ls rt ∧
      rt.buildDispatch [] 0 = (.ok d, rt') ∧
        ∃ slot : Fin 7, rt'.state.selfSlot = slot.val ∧ rt'.state.round.blocks slot = some d.block := by
  have hcheck : ∃ ls, ∃ rt : HighAvailabilityRuntime DigestWord, HaReached ls rt ∧
      (rt.buildDispatch [] 0).1.isOk = true ∧ (∀ slot, rt.state.round.blocks slot = none) ∧
        rt.state.round.confirmedCandidate = none ∧ rt.state.round.finalized = none := by
    apply exists_reached_of_check (key 0) (key 1) (numberedMembers key 3) (.new 6 6) []
    decide +kernel
  obtain ⟨ls, rt, h, hok, hnone, hopen⟩ := hcheck
  obtain ⟨d, hd⟩ := CheckedSteps.exists_of_isOk hok
  have hbuild : rt.buildDispatch [] 0 = (.ok d, _) := Prod.ext hd rfl
  obtain ⟨slot, hslot, hiff⟩ := h.buildDispatch_recorded_iff hbuild
  exact ⟨ls, rt, _, d, h, hbuild, slot, hslot, (hiff.mpr (.inr ⟨hnone slot, hopen⟩)).1⟩

open DigestWord Operation in
/-- A member of three locks the candidate with the block of a peer only. -/
def DigestWord.peerRound : List (HighAvailabilityRuntime DigestWord → List (Operation DigestWord)) :=
  [fun rt => ((rt.withState { rt.state with selfSlot := 1 }).buildDispatch [] 0).1.toOption.toList.map
      fun d => .receiveMessage (.dispatch d) true,
    fun _ => [.acknowledge true], echo 1 (.acknowledge true), fun _ => [.confirm true true]]

open DigestWord in
theorem late_dispatch_not_recorded :
    ∃ ls, ∃ rt : HighAvailabilityRuntime DigestWord, HaReached ls rt ∧
      rt.state.round.confirmedCandidate.isSome ∧ (rt.buildDispatch [] 0).1.isOk = true ∧
        (rt.buildDispatch [] 0).2.state.round.blocks 0 = none ∧ rt.state.selfSlot = 0 := by
  apply exists_reached_of_check (key 0) (key 1) (numberedMembers key 3) (.new 6 6) peerRound
  decide +kernel

end Blossom
