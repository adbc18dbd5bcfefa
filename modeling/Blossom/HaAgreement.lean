import Blossom.HaHistory

/-!
# Agreement

The histories of the members of a cluster form a log with a changing electorate: a committed epoch
has the locks of a strict majority of its generation, and an applied certificate has the votes of
one.
-/

namespace Blossom

open CheckedSteps BitMask MajorityQuorum ReconfiguredLog HighAvailabilityRuntime HaRoundState
  HighAvailabilityRuntimeState

variable {W : Type}
variable {i j : Fin 7} {next : HighAvailabilityRuntimeState W}

def HaHistory.replica (h : HaHistory W) : Replica (HaMembershipProposal W) (HaEpoch W) :=
  ⟨h.changes, h.epochs⟩

def ballots (H : PerSlot (HaHistory W)) :
    Ballots ℕ (HaMembershipProposal W) (HaRoundId W × W) where
  voted x k p := ∃ i : Fin 7, i.val = x ∧ ∃ v ∈ (H i).votes, v.proposal = p ∧
    p.membershipGeneration = k
  confirmed x k n key := ∃ i : Fin 7, i.val = x ∧ ∃ c ∈ (H i).locks,
    key = (c.roundId, c.candidate.digest) ∧ c.roundId.membershipGeneration = k ∧
      c.roundId.nonce = n

/-- The histories after member `i` has made a transition. -/
def recordAt (H : PerSlot (HaHistory W)) (i : Fin 7) (l : Label W) : PerSlot (HaHistory W) :=
  Function.update H i ((H i).record l)

@[simp] theorem recordAt_self (H : PerSlot (HaHistory W)) (i : Fin 7) (l : Label W) :
    recordAt H i l i = (H i).record l := Function.update_self ..

@[simp] theorem recordAt_of_ne (H : PerSlot (HaHistory W)) (l : Label W) (hne : j ≠ i) :
    recordAt H i l j = H j := Function.update_of_ne hne ..

theorem forall_recordAt {H : PerSlot (HaHistory W)} {l : Label W} {P : Fin 7 → HaHistory W → Prop}
    (hself : P i ((H i).record l)) (hother : ∀ j, P j (H j)) : ∀ j, P j (recordAt H i l j) :=
  (Function.forall_update_iff H P).mpr ⟨hself, fun j _ => hother j⟩

def Grow (H H' : PerSlot (HaHistory W)) : Prop := ∀ j, (H j).Le (H' j)

theorem grow_recordAt (H : PerSlot (HaHistory W)) (i : Fin 7) (l : Label W) :
    Grow H (recordAt H i l) :=
  forall_recordAt (P := fun j h => (H j).Le h) ((H i).le_record l) fun j => .refl (H j)

theorem Grow.ballots {H H' : PerSlot (HaHistory W)} (h : Grow H H') :
    (ballots H).Extends (ballots H') where
  voted := by
    rintro x k p ⟨i, hi, v, hv, hp⟩
    exact ⟨i, hi, v, (h i).votes hv, hp⟩
  confirmed := by
    rintro x k n key ⟨i, hi, c, hc, hk⟩
    exact ⟨i, hi, c, (h i).locks hc, hk⟩

/-- The recorded confirmations and votes of a state were made by their members. -/
structure Backs (H : PerSlot (HaHistory W)) (s : HighAvailabilityRuntimeState W) : Prop where
  confirmations : ∀ j d, s.round.confirmations j = some d →
    ∃ c ∈ (H j).locks, c.roundId = s.round.roundId ∧ c.candidate.digest = d
  votes : ∀ j d, s.membershipVotes j = some d → ∃ v ∈ (H j).votes, v.proposal.digest = d

def HaMessage.SentBy (H : PerSlot (HaHistory W)) : HaMessage W → Prop
  | .confirm c => ∃ j : Fin 7, c.sender = j.val ∧ c ∈ (H j).locks
  | .membershipVote v => ∃ j : Fin 7, v.sender = j.val ∧ v ∈ (H j).votes
  | _ => True

variable {H H' : PerSlot (HaHistory W)} {s : HighAvailabilityRuntimeState W}

theorem HaMessage.SentBy.mono (h : Grow H H') {m : HaMessage W} (hm : m.SentBy H) :
    m.SentBy H' := by
  cases m with
  | confirm c =>
    obtain ⟨j, hj, hc⟩ := hm
    exact ⟨j, hj, (h j).locks hc⟩
  | membershipVote v =>
    obtain ⟨j, hj, hv⟩ := hm
    exact ⟨j, hj, (h j).votes hv⟩
  | _ => trivial

theorem Backs.mono (h : Grow H H') (hb : Backs H s) : Backs H' s where
  confirmations := by
    intro j d hd
    obtain ⟨c, hc, hr⟩ := hb.confirmations j d hd
    exact ⟨c, (h j).locks hc, hr⟩
  votes := by
    intro j d hd
    obtain ⟨v, hv, hr⟩ := hb.votes j d hd
    exact ⟨v, (h j).votes hv, hr⟩

theorem Backs.withRound (hb : Backs H s) {round : HaRoundState W}
    (hid : round.roundId = s.round.roundId)
    (hc : round.confirmations = s.round.confirmations) : Backs H { s with round := round } where
  confirmations := by simpa [hid, hc] using hb.confirmations
  votes := hb.votes

theorem Backs.confirmed (hb : Backs H s) {round : HaRoundState W} {c : HaConfirm W}
    (hid : round.roundId = s.round.roundId) (hround : c.roundId = s.round.roundId)
    (hup : round.confirmations = Function.update s.round.confirmations j (some c.candidate.digest))
    (hc : c ∈ (H j).locks) : Backs H { s with round := round } where
  confirmations := by
    intro k d hd
    dsimp only at hd ⊢
    rw [hid]
    by_cases hk : k = j
    · subst hk
      rw [hup, Function.update_self, Option.some.injEq] at hd
      exact ⟨c, hc, hround, hd⟩
    · rw [hup, Function.update_of_ne hk] at hd
      exact hb.confirmations k d hd
  votes := hb.votes

theorem Backs.voted (hb : Backs H s) {lock : Option W} {v : HaMembershipVote W}
    (hv : v ∈ (H j).votes) : Backs H { s with
      membershipVoteLock := lock
      membershipVotes := Function.update s.membershipVotes j (some v.proposal.digest) } where
  confirmations := hb.confirmations
  votes := by
    intro k d hd
    dsimp only at hd
    by_cases hk : k = j
    · subst hk
      rw [Function.update_self, Option.some.injEq] at hd
      exact ⟨v, hv, hd⟩
    · rw [Function.update_of_ne hk] at hd
      exact hb.votes k d hd

/-- The state in which a transition counts votes: its own vote is recorded already. -/
theorem Backs.withOwnVote (hb : Backs H s) {v : HaMembershipVote W}
    (certificate : Option (HaMembershipCertificate W)) :
    Backs (recordAt H i (.voted v certificate)) (s.withOwnVote i v.proposal.digest) := by
  refine (hb.mono (grow_recordAt H i _)).voted ?_
  cases certificate <;> simp [HaHistory.record]

theorem Backs.of_empty (hc : s.round.confirmations = fun _ => none)
    (hv : s.membershipVotes = fun _ => none) : Backs H s :=
  ⟨by simp [hc], by simp [hv]⟩

variable [ProtocolCrypto W]

/-- How the histories of a group are read as a log. -/
def HaGenesis.reading (g : HaGenesis W) :
    Reading ℕ (HaMembershipProposal W) (HaEpoch W) (HaRoundId W × W) where
  voters := g.voters
  position := HaMembershipProposal.effectiveNonce
  generation := HaEpoch.membershipGeneration
  key e := (e.roundId, e.candidate.digest)

omit [ProtocolCrypto W] in
theorem HaMembershipAction.fields_injective {a b : HaMembershipAction W}
    (h : a.fields = b.fields) : a = b := by
  cases a <;> cases b <;> simp_all [HaMembershipAction.fields]

theorem HaMembershipProposal.eq_of_digest (hinj : HashInjective W) {p q : HaMembershipProposal W}
    (hp : p.digest = p.computeDigest) (hq : q.digest = q.computeDigest)
    (h : p.digest = q.digest) : p = q := by
  have hfields := hinj (hp.symm.trans (h.trans hq))
  obtain ⟨group, gen, mask, par, nonce, slot, action, digest⟩ := p
  obtain ⟨group', gen', mask', par', nonce', slot', action', digest'⟩ := q
  simp only [bodyFields, List.cons_append, List.nil_append, List.cons.injEq, Field.word.injEq,
    Field.num.injEq, true_and, BitVec.toNat_inj] at hfields
  obtain ⟨rfl, rfl, rfl, rfl, rfl, rfl, haction⟩ := hfields
  obtain rfl := HaMembershipAction.fields_injective haction
  obtain rfl : digest = digest' := h
  rfl

/-- Members that keep the rules cast faithful ballots. -/
theorem ballots_faithful (hinj : HashInjective W) (g : HaGenesis W) (hw : ∀ i, (H i).Wf) :
    Faithful g.reading (ballots H) where
  vote_unique := by
    rintro x k p p' ⟨i, rfl, v, hv, rfl, hk⟩ ⟨j, hj, v', hv', rfl, hk'⟩
    obtain rfl : j = i := Fin.ext hj
    exact HaMembershipProposal.eq_of_digest hinj ((hw j).vote_digest v hv)
      ((hw j).vote_digest v' hv') ((hw j).vote_unique v hv v' hv' (hk.trans hk'.symm))
  confirm_unique := by
    rintro x k k' n key key' ⟨i, rfl, c, hc, rfl, hk, hn⟩ ⟨j, hj, c', hc', rfl, hk', hn'⟩
    obtain rfl : j = i := Fin.ext hj
    obtain ⟨hr, hd⟩ := (hw j).lock_unique c hc c' hc' (hn.trans hn'.symm)
    exact ⟨by rw [← hk, ← hk', hr], by rw [hr, hd]⟩
  confirm_final := by
    rintro x k k' n key p ⟨i, rfl, c, hc, rfl, hk, hn⟩ ⟨j, hj, v, hv, rfl, hk'⟩ hpos
    obtain rfl : j = i := Fin.ext hj
    rw [← hk, ← hk']
    exact (hw j).lock_final c hc v hv (hpos.trans hn.symm)

/-- An epoch that the hash covers completely. -/
structure HaEpoch.Hashed (e : HaEpoch W) : Prop where
  hash : e.hash = e.computeHash
  presence : e.presenceMask = e.candidate.presenceMask
  digest : e.candidate.digest = candidateDigest e.roundId e.candidate.includedMask
    e.candidate.presenceMask e.candidate.blockHashes
  previous : e.previousEpochNonce.isSome

theorem HaEpoch.Hashed.hash_eq (hinj : HashInjective W) {e e' : HaEpoch W} (h : e.Hashed)
    (h' : e'.Hashed) (hr : e.roundId = e'.roundId)
    (hd : e.candidate.digest = e'.candidate.digest) : e.hash = e'.hash := by
  have hpres : e.presenceMask = e'.presenceMask := by
    have hcand := hd
    rw [h.digest, h'.digest, hr] at hcand
    have hfields := hinj hcand
    simp only [List.cons_append, List.append_assoc, List.cons.injEq, true_and,
      List.append_cancel_left_eq, List.nil_append, Field.num.injEq, BitVec.toNat_inj] at hfields
    rw [h.presence, h'.presence, hfields.2.1]
  have hprev : e.previousEpochNonce = e'.previousEpochNonce := by
    obtain ⟨n, hn⟩ := Option.isSome_iff_exists.mp h.previous
    obtain ⟨n', hn'⟩ := Option.isSome_iff_exists.mp h'.previous
    have hget := congrArg HaRoundId.previousEpochNonce hr
    simp only [HaEpoch.roundId, hn, hn', Option.getD_some] at hget
    rw [hn, hn', hget]
  simp only [HaEpoch.roundId, HaRoundId.mk.injEq] at hr
  obtain ⟨hgroup, hfixed, hgen, hmask, hpar, hhash, -, hnonce, -⟩ := hr
  rw [h.hash, h'.hash, computeHash, computeHash, hgroup, hfixed, hgen, hmask, hpar, hhash, hnonce,
    hprev, hd, hpres]

theorem HaCandidate.validate_digest {c : HaCandidate W} {roundId : HaRoundId W}
    (h : c.validate roundId = .ok ()) :
    c.digest = candidateDigest roundId c.includedMask c.presenceMask c.blockHashes := by
  simp only [HaCandidate.validate, bind_eq_ok, reject_eq_ok, not_not] at h
  obtain ⟨_, -, _, -, _, -, hd⟩ := h
  exact hd

section Transitions

variable [AmendmentCodec W] {g : HaGenesis W} {i : Fin 7} {rt rt' : HighAvailabilityRuntime W}
  {l : Label W}

theorem Transition.backs (ht : Transition rt l rt') (hsnap : l.snapshot = none)
    (hf : rt.state.Follows g i (H i)) (hb : Backs H rt.state)
    (hsrc : ∀ m ∈ l.source, m.SentBy H) : Backs (recordAt H i l) rt'.state := by
  have hgrow := grow_recordAt H i l
  cases ht with
  | built hs ha hr | dispatched ha hr =>
    exact (hb.mono hgrow).withRound (receiveDispatch_roundId hr)
      (receiveDispatch_confirmations hr)
  | acknowledged hr hp =>
    rw [persist_state hp]
    obtain ⟨-, -, hr⟩ := acknowledge_eq_ok.mp hr
    exact (hb.mono hgrow).withRound (receiveAcknowledgement_roundId hr)
      (receiveAcknowledgement_confirmations hr)
  | recordedAck hr =>
    exact (hb.mono hgrow).withRound (receiveAcknowledgement_roundId hr)
      (receiveAcknowledgement_confirmations hr)
  | locked hr hp =>
    rw [persist_state hp]
    obtain ⟨hid, -, slot, hslot, -, hup⟩ := confirm_confirmations hr
    obtain rfl : slot = i := Fin.ext (hslot.symm.trans hf.self)
    exact (hb.mono hgrow).confirmed (confirm_roundId hr) hid hup
      (by simp [HaHistory.record])
  | recordedConfirm hr =>
    obtain ⟨hid, sender, hse, ⟨-, hsame⟩ | ⟨-, hup⟩⟩ :=
      receiveConfirmation_confirmations hr
    · exact (hb.mono hgrow).withRound (receiveConfirmation_roundId hr) hsame
    · obtain ⟨j, hj, hc⟩ := hsrc _ rfl
      obtain rfl : sender = j := Fin.ext (hse.symm.trans hj)
      exact (hb.mono hgrow).confirmed (receiveConfirmation_roundId hr) hid hup
        ((hgrow sender).locks hc)
  | committed hfin hc hp =>
    rw [persist_state hp]
    obtain ⟨amendments, round, -, hround, -, rfl⟩ := commitState_eq_ok hc
    obtain ⟨-, -, rfl⟩ := new_eq_ok.mp hround
    exact ⟨by simp [withState, emptyRound], (hb.mono hgrow).votes⟩
  | voted hv hs hl hp =>
    rename_i v sender io
    rw [persist_state hp]
    obtain rfl : sender = i := Fin.ext (hv.sender_eq.symm.trans (hs.trans hf.self))
    exact hb.withOwnVote none
  | recordedVote hv ha hn =>
    obtain ⟨j, hj, hvote⟩ := hsrc _ rfl
    obtain rfl : _ = j := Fin.ext (hv.sender_eq.symm.trans hj)
    exact (hb.mono hgrow).voted ((hgrow _).votes hvote)
  | votedCertificate hv hs hl hpr hc hp | recordedCertificate hv ha hn hpr hc hp =>
    rw [persist_state hp]
    obtain ⟨mask, presence, head, -, -, -, -, rfl⟩ := hc.spec
    exact .of_empty rfl rfl
  | amended hv hp | compacted hi h0 he hc hv hp =>
    rw [persist_state hp]
    exact ⟨(hb.mono hgrow).confirmations, (hb.mono hgrow).votes⟩
  | installed hs hp => cases hsnap

omit [AmendmentCodec W] in
theorem HighAvailabilityRuntimeState.Follows.voters_eq {h : HaHistory W} (hf : s.Follows g i h) (hv : s.Valid) :
    bits s.round.roundId.activeMask = g.voters h.changes := by
  obtain ⟨tip, -, hr, -⟩ := hv.tip
  rw [hr.2.2.2.1, hf.active]

/-- A committed epoch extends the replica of its member, with the locks of a majority. -/
theorem committed_backed {f : HaFinalizedRound W} {e : HaEpoch W} (hf : s.Follows g i (H i))
    (hg : s.Good) (hb : Backs H s) (hfin : s.round.finalized = some f)
    (hc : s.commitState f = .ok (e, next)) (h : Backed g.reading (ballots H) (H i).replica) :
    Backed g.reading (ballots H) ⟨(H i).changes, (H i).epochs ++ [e]⟩ ∧ e.Hashed := by
  obtain ⟨tip, -, hr, -⟩ := hg.valid.tip
  obtain ⟨-, -, hgen⟩ := hf.commit hg hfin hc
  have hfw := hg.round.finalized f hfin
  have hround := fromFinalized_roundId hg.round hfin hr
  obtain ⟨amendments, round, -, -, rfl, -⟩ := commitState_eq_ok hc
  have hchg : (H i).changes.length = (H i).certificates.length := List.length_map ..
  have hmaj : IsMajority (g.voters (H i).changes) (bits f.confirmationMask) := by
    rw [← hf.voters_eq hg.valid]
    exact ⟨hfw.active, hfw.quorum⟩
  refine ⟨h.append_entry (hgen.trans hchg.symm) hmaj ?_, rfl, hfw.presence, ?_, rfl⟩
  · intro x hx
    obtain ⟨slot, rfl, hconf⟩ := hfw.confirmed x hx
    obtain ⟨c, hc, hcr, hcd⟩ := hb.confirmations slot _ hconf
    refine ⟨slot, rfl, c, hc, ?_, ?_, ?_⟩
    · rw [hcr, hcd]
      exact Prod.ext hround rfl
    · rw [hcr, hr.2.2.1, hf.generation]
      exact hchg.symm
    · rw [hcr, hf.nonce]
      rfl
  · rw [hround]
    exact HaCandidate.validate_digest hfw.candidate

/-- A certificate of generation `k` that a strict majority of the voters of that generation has
approved. -/
structure Approved (g : HaGenesis W) (H : PerSlot (HaHistory W)) (h : HaHistory W) (k : ℕ)
    (c : HaMembershipCertificate W) : Prop where
  generation : c.proposal.membershipGeneration = k
  electorate : bits c.proposal.activeMask = g.voters (h.changes.take k)
  active : bits c.approvalMask ⊆ bits c.proposal.activeMask
  majority : highAvailabilityMajority (countOnes c.proposal.activeMask) ≤ countOnes c.approvalMask
  approved : ∀ x ∈ bits c.approvalMask, ∃ j : Fin 7, j.val = x ∧
    ∃ v ∈ (H j).votes, v.proposal = c.proposal

omit [ProtocolCrypto W] [AmendmentCodec W] in
theorem Approved.mono (hgrow : Grow H H') {h h' : HaHistory W} (hle : h.Le h') {k : ℕ}
    (hk : k ≤ h.certificates.length) {c : HaMembershipCertificate W} (ha : Approved g H h k c) :
    Approved g H' h' k c where
  generation := ha.generation
  electorate := by
    obtain ⟨rest, hrest⟩ := hle.certificates
    rw [ha.electorate, HaHistory.changes, HaHistory.changes, ← hrest, List.map_append,
      List.take_append_of_le_length (by simpa using hk)]
  active := ha.active
  majority := ha.majority
  approved := by
    intro x hx
    obtain ⟨j, hj, v, hv, hp⟩ := ha.approved x hx
    exact ⟨j, hj, v, (hgrow j).votes hv, hp⟩

omit [AmendmentCodec W] in
theorem HighAvailabilityRuntimeState.Certifies.approved (hinj : HashInjective W) {h : HaHistory W}
    {c : HaMembershipCertificate W} (hc : s.Certifies c next) (hv : s.Valid)
    (hf : s.Follows g i h) (hb : Backs H s) (hw : ∀ j, (H j).Wf) :
    Approved g H h h.certificates.length c := by
  have hfit := validateMembershipProposal_fits hc.valid
  refine ⟨hfit.generation.trans hf.generation, ?_, ?_, ?_, ?_⟩
  · rw [List.take_of_length_le (by simp [HaHistory.changes]), hfit.activeMask, hf.active]
  · intro x hx
    rw [hc.approval] at hx
    exact (mem_bits_approvalMask.mp hx).1
  · rw [hfit.activeMask, ← HaMemberSlots.majority_eq hv.members]
    exact hc.majority
  · intro x hx
    rw [hc.approval] at hx
    obtain ⟨-, slot, rfl, hvote⟩ := mem_bits_approvalMask.mp hx
    obtain ⟨v, hv', hd⟩ := hb.votes slot _ hvote
    exact ⟨slot, rfl, v, hv', HaMembershipProposal.eq_of_digest hinj
      ((hw slot).vote_digest v hv') hfit.digest hd⟩

omit [ProtocolCrypto W] [AmendmentCodec W] in
theorem Approved.backed {c : HaMembershipCertificate W} {h : HaHistory W}
    (ha : Approved g H h h.certificates.length c)
    (hpos : c.proposal.effectiveNonce = h.epochs.length)
    (hb : Backed g.reading (ballots H) h.replica) :
    Backed g.reading (ballots H) ⟨h.changes ++ [c.proposal], h.epochs⟩ := by
  have hlen : h.changes.length = h.certificates.length := List.length_map ..
  have hvoters : bits c.proposal.activeMask = g.voters h.changes := by
    rw [ha.electorate, List.take_of_length_le hlen.le]
  have hmaj : IsMajority (g.voters h.changes) (bits c.approvalMask) := by
    rw [← hvoters]
    exact ⟨ha.active, ha.majority⟩
  refine hb.append_change hpos hmaj ?_
  · intro x hx
    obtain ⟨j, hj, v, hv, hp⟩ := ha.approved x hx
    exact ⟨j, hj, v, hv, hp, ha.generation.trans hlen.symm⟩

end Transitions

namespace Cluster

variable {g : HaGenesis W} {c c' : Cluster W} {i : Fin 7} {rt rt' : HighAvailabilityRuntime W}

/-- What the histories say about the state of the member in slot `i`. -/
structure Recorded (g : HaGenesis W) (H : PerSlot (HaHistory W)) (i : Fin 7)
    (s : HighAvailabilityRuntimeState W) : Prop where
  follows : s.Follows g i (H i)
  backs : Backs H s

structure Inv (g : HaGenesis W) (H : PerSlot (HaHistory W)) (c : Cluster W) : Prop where
  wf : ∀ i, (H i).Wf
  backed : ∀ i, Backed g.reading (ballots H) (H i).replica
  approved : ∀ i k x, (H i).certificates[k]? = some x → Approved g H (H i) k x
  root : ∀ i e, (H i).epochs[0]? = some e → ∃ members, HaMemberSlots.new g.members = .ok members ∧
    e = .genesis g.groupId members g.parameters
  hashed : ∀ i n e, n ≠ 0 → (H i).epochs[n]? = some e → e.Hashed
  absent : ∀ i, c.node i = none → H i = .empty
  node : ∀ i rt, c.node i = some rt → Durably (fun s => s.Good ∧ Recorded g H i s) rt
  sent : ∀ m ∈ c.sent, m.SentBy H

theorem inv_initial (g : HaGenesis W) : Inv g (fun _ => .empty) initial where
  wf := fun _ => HaHistory.wf_start (by simp)
  backed := fun _ => .empty
  approved := by simp [HaHistory.empty]
  root := by simp [HaHistory.empty]
  hashed := by simp [HaHistory.empty]
  absent := fun _ _ => rfl
  node := by simp [initial]
  sent := by simp [initial]

section Step

variable [AmendmentCodec W] {l : Label W}

/-- What one transition adds to the history of its member is backed by the histories. -/
theorem Inv.extended (hinj : HashInjective W) (hi : Inv g H c) (hrt : c.node i = some rt)
    (ht : Transition rt l rt') (hwf : ∀ j, (recordAt H i l j).Wf)
    (hsrc : ∀ m ∈ l.source, m.SentBy H) :
    Backed g.reading (ballots (recordAt H i l)) ((H i).record l).replica ∧
      (∀ k x, ((H i).record l).certificates[k]? = some x →
        Approved g (recordAt H i l) ((H i).record l) k x) ∧
      ∀ n e, n ≠ 0 → ((H i).record l).epochs[n]? = some e → e.Hashed := by
  obtain ⟨hg, hrec⟩ := (hi.node i rt hrt).memory
  have hgrow := grow_recordAt H i l
  have hbacked := (hi.backed i).mono hgrow.ballots
  have happr : ∀ k x, (H i).certificates[k]? = some x →
      Approved g (recordAt H i l) ((H i).record l) k x := by
    intro k x hx
    exact (hi.approved i k x hx).mono hgrow ((H i).le_record l)
      (List.getElem?_eq_some_iff.mp hx).1.le
  -- a new certificate is approved by the votes recorded when it was made
  have hcert : ∀ {t next x}, HighAvailabilityRuntimeState.Certifies t x next → t.Valid →
      t.Follows g i (H i) → Backs (recordAt H i l) t →
      ((H i).record l).certificates = (H i).certificates ++ [x] →
      ((H i).record l).epochs = (H i).epochs →
      Backed g.reading (ballots (recordAt H i l)) ((H i).record l).replica ∧
        (∀ k y, ((H i).record l).certificates[k]? = some y →
          Approved g (recordAt H i l) ((H i).record l) k y) ∧
        ∀ n e, n ≠ 0 → ((H i).record l).epochs[n]? = some e → e.Hashed := by
    intro t next x hx hv hf hb hcerts hepochs
    have ha := hx.approved hinj hv hf hb hwf
    have hpos : x.proposal.effectiveNonce = (H i).epochs.length := by
      rw [(validateMembershipProposal_fits hx.valid).nonce, hf.nonce]
    refine ⟨?_, ?_, by rw [hepochs]; exact hi.hashed i⟩
    · have := ha.backed hpos hbacked
      rwa [HaHistory.replica, HaHistory.changes, hcerts, hepochs, List.map_append]
    · intro k y hy
      rw [hcerts] at hy
      rcases getElem?_concat_cases hy with ⟨-, hy⟩ | ⟨rfl, rfl⟩
      · exact happr k y hy
      · exact ha.mono (fun j => .refl _) ((H i).le_record l) le_rfl
  cases ht with
  | committed hfin hc hp =>
    obtain ⟨hb, hh⟩ := committed_backed hrec.follows hg hrec.backs hfin hc (hi.backed i)
    refine ⟨hb.mono hgrow.ballots, happr, ?_⟩
    intro n e hn he
    rcases getElem?_concat_cases he with ⟨-, he⟩ | ⟨-, rfl⟩
    · exact hi.hashed i n e hn he
    · exact hh
  | votedCertificate hv hs hl hpr hc hp =>
    rename_i v sender x next io
    obtain rfl : sender = i := Fin.ext (hv.sender_eq.symm.trans (hs.trans hrec.follows.self))
    exact hcert hc (withOwnVote_valid _ hg.valid (hs.symm.trans hv.sender_eq))
      (hrec.follows.ownVote hl _) (hrec.backs.withOwnVote _) rfl rfl
  | recordedCertificate hv ha hn hpr hc hp =>
    have hmask := (validateMembershipProposal_fits hv.proposal).activeMask
    obtain ⟨j, hj, hvote⟩ := hsrc _ rfl
    obtain rfl : _ = j := Fin.ext (hv.sender_eq.symm.trans hj)
    exact hcert hc (withPeerVote_valid _ hg.valid (hmask ▸ ha) hn) (hrec.follows.peerVote _ _)
      ((hrec.backs.mono hgrow).voted ((hgrow _).votes hvote)) rfl rfl
  | _ => exact ⟨hbacked, happr, hi.hashed i⟩

omit [AmendmentCodec W] in
theorem Inv.root_extended (hi : Inv g H c) (hrt : c.node i = some rt) {e : HaEpoch W}
    (he : ((H i).record l).epochs[0]? = some e) : (H i).epochs[0]? = some e := by
  obtain ⟨hg, hrec⟩ := (hi.node i rt hrt).memory
  obtain ⟨tip, htip, -⟩ := hg.valid.tip
  have hmem := hrec.follows.retained.subset (List.mem_of_getLast? htip)
  obtain ⟨rest, hrest⟩ := ((H i).le_record l).epochs
  rwa [← hrest, List.getElem?_append_left (List.length_pos_of_mem hmem)] at he

theorem Inv.transition (hinj : HashInjective W) (hi : Inv g H c) (hrt : c.node i = some rt)
    (ht : Transition rt l rt') (hsnap : l.snapshot = none)
    (hsrc : ∀ m ∈ l.source, m.SentBy H) : Inv g (recordAt H i l) (c.withNode i rt') := by
  have hgrow := grow_recordAt H i l
  have hnode := hi.node i rt hrt
  obtain ⟨hg, hrec⟩ := hnode.memory
  have hfol : rt'.state.Follows g i ((H i).record l) := by
    refine ht.follows hsnap hg hrec.follows ?_
    intro x hx hself
    obtain ⟨j, hj, hlock⟩ := hsrc _ hx
    obtain rfl : j = i := Fin.ext (hj.symm.trans hself)
    exact hlock
  have hwf : ∀ j, (recordAt H i l j).Wf :=
    forall_recordAt (P := fun _ h => h.Wf) (ht.wf hg hrec.follows (hi.wf i)) hi.wf
  obtain ⟨hbacked, happr, hhashed⟩ := hi.extended hinj hrt ht hwf hsrc
  refine ⟨hwf, ?_, ?_, ?_, ?_, ?_, ?_, fun m hm => (hi.sent m hm).mono hgrow⟩
  · exact forall_recordAt (P := fun _ h => Backed g.reading (ballots (recordAt H i l)) h.replica)
      hbacked fun j => (hi.backed j).mono hgrow.ballots
  · refine forall_recordAt (P := fun _ h => ∀ k x, h.certificates[k]? = some x →
      Approved g (recordAt H i l) h k x) happr fun j k x hx => ?_
    exact (hi.approved j k x hx).mono hgrow (.refl _) (List.getElem?_eq_some_iff.mp hx).1.le
  · exact forall_recordAt (P := fun _ h => ∀ e, h.epochs[0]? = some e → ∃ members,
      HaMemberSlots.new g.members = .ok members ∧ e = .genesis g.groupId members g.parameters)
      (fun e he => hi.root i e (hi.root_extended hrt he)) hi.root
  · exact forall_recordAt (P := fun _ h => ∀ n (e : HaEpoch W), n ≠ 0 → h.epochs[n]? = some e → e.Hashed)
      hhashed hi.hashed
  · intro j hj
    obtain ⟨hne, hj⟩ := withNode_eq_none.mp hj
    rw [recordAt_of_ne H l hne]
    exact hi.absent j hj
  · intro j rt₂ hj
    rcases withNode_eq_some.mp hj with ⟨rfl, rfl⟩ | ⟨hne, hj⟩
    · refine hnode.advance ht (by simp [hsnap]) ⟨by rwa [recordAt_self],
        ht.backs hsnap hrec.follows hrec.backs hsrc⟩ ?_
      intro hvol p hp
      refine ⟨?_, hp.backs.mono hgrow⟩
      rw [recordAt_self, HaHistory.record_of_volatile hvol]
      exact hp.follows
    · refine (hi.node j rt₂ hj).mono ?_
      rintro t ⟨htg, htr⟩
      refine ⟨htg, ?_, htr.backs.mono hgrow⟩
      rw [recordAt_of_ne H l hne]
      exact htr.follows

theorem output_sentBy (hf : rt.state.Follows g i (H i)) (ht : Transition rt l rt') :
    ∀ m ∈ l.output, m.SentBy (recordAt H i l) := by
  intro m hm
  cases ht with
  | built hs ha hr | acknowledged hr hp =>
    cases hm
    trivial
  | locked hr hp =>
    cases hm
    obtain ⟨-, hs, -⟩ := confirm_confirmations hr
    exact ⟨i, hs.trans hf.self, by simp [HaHistory.record]⟩
  | voted hv hs hl hp | votedCertificate hv hs hl hpr hc hp =>
    cases hm
    exact ⟨i, hs.trans hf.self, by simp [HaHistory.record]⟩
  | _ => cases hm

theorem votes_recordAt (hf : rt.state.Follows g i (H i)) (ht : Transition rt l rt') (j : Fin 7) :
    ∀ v ∈ (recordAt H i l j).votes, v ∈ (H j).votes ∨ v.sender = j.val ∧ v ∈ l.vote := by
  refine forall_recordAt (P := fun j h => ∀ v ∈ h.votes, v ∈ (H j).votes ∨
    v.sender = j.val ∧ v ∈ l.vote) ?_ (fun _ _ hv => .inl hv) j
  intro v hv
  cases ht with
  | voted hv' hs hl hp | votedCertificate hv' hs hl hpr hc hp =>
    rcases List.mem_cons.mp hv with rfl | hv
    · exact .inr ⟨hs.trans hf.self, rfl⟩
    · exact .inl hv
  | _ => exact .inl hv

/-- A sequence of transitions of one member keeps the invariant, hands out only what the member
has done and casts only the votes of its labels. -/
theorem Inv.steps (hinj : HashInjective W) {ls : List (Label W)} (hs : Steps rt ls rt')
    (hi : Inv g H c) (hrt : c.node i = some rt)
    (hls : ∀ l ∈ ls, l.snapshot = none ∧ ∀ m ∈ l.source, m ∈ c.sent) :
    ∃ H', Grow H H' ∧ Inv g H' (c.withNode i rt') ∧ (∀ l ∈ ls, ∀ m ∈ l.output, m.SentBy H') ∧
      ∀ j, ∀ v ∈ (H' j).votes, v ∈ (H j).votes ∨ v.sender = j.val ∧ ∃ l ∈ ls, v ∈ l.vote := by
  induction hs generalizing c H with
  | refl rt =>
    refine ⟨H, fun j => .refl _, ?_, by simp, fun j v hv => .inl hv⟩
    have hsame : c.withNode i rt = c := by
      simp [withNode, ← hrt]
    rwa [hsame]
  | cons ht hs ih =>
    rename_i rt mid rt' l ls
    obtain ⟨⟨hsnap, hsrc⟩, hrest⟩ := List.forall_mem_cons.mp hls
    have hf := (hi.node i rt hrt).memory.2.follows
    have hmid := hi.transition hinj hrt ht hsnap fun m hm => hi.sent m (hsrc m hm)
    obtain ⟨H', hgrow, hinv, hout, hvotes⟩ := ih hmid (by simp [withNode]) hrest
    refine ⟨H', fun j => (grow_recordAt H i l j).trans (hgrow j), ?_, ?_, ?_⟩
    · simpa [withNode] using hinv
    · refine List.forall_mem_cons.mpr ⟨?_, hout⟩
      exact fun m hm => (output_sentBy hf ht m hm).mono hgrow
    · intro j v hv
      rcases hvotes j v hv with hv | ⟨hse, l', hl', hv⟩
      · rcases votes_recordAt hf ht j v hv with hv | ⟨hse, hv⟩
        · exact .inl hv
        · exact .inr ⟨hse, l, List.mem_cons_self, hv⟩
      · exact .inr ⟨hse, l', List.mem_cons_of_mem l hl', hv⟩

end Step

end Cluster

end Blossom
