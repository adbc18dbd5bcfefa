import Blossom.Quorum

/-!
# The counts of verifications and proposals

What the counts of a round say about the votes recorded so far: how many members hold each hash,
which hash has its supermajority and whether a supermajority can still come about.
-/

namespace Blossom

open OrderedMap MajorityQuorum VoteTally VoteTally.Tally

variable {W : Type} [LinearOrder W]

/-- The counts, the reported hash and the report that no hash can get its supermajority are those
of the latest verifications. -/
structure VerifCount.Exact (voters : Finset W) (c : VerifCount W) : Prop where
  counted : c.tally.Counted Verification.candidate
  reported h : c.consensusHash = some h ↔
    voters.card - voters.card / 3 ≤ (c.tally.supporters Verification.candidate h).card
  impossible : c.consensusIsStillPossible = false ↔
    ¬c.tally.CanReach Verification.candidate voters (voters.card - voters.card / 3)

structure PropCount.Exact (voters : Finset W) (c : PropCount W) : Prop where
  counted : c.tally.Counted Proposal.candidate
  impossible : c.consensus = some false ↔
    ¬c.tally.CanReach Proposal.candidate voters (voters.card - voters.card / 3)

def VerifCount.recordAll (n : ℕ) (recorded : List (Verification W)) : VerifCount W :=
  recorded.foldl VerifCount.record (.init n)

def PropCount.recordAll (n : ℕ) (recorded : List (Proposal W)) : PropCount W :=
  recorded.foldl PropCount.record (.init n)

section Collects

variable {V : Type} {c : VoteCount V W} {candidate : V → Option W} {voters : Finset W}

/-- A count of votes of some voters, with the thresholds of their number. -/
structure VoteCount.Collects (voters : Finset W) (c : VoteCount V W) : Prop where
  senders : c.tally.votes.keys.toFinset ⊆ voters
  quorum : c.quorum = voters.card
  supermajority : c.supermajority = voters.card - voters.card / 3

theorem VoteCount.collects_init : (init voters.card : VoteCount V W).Collects voters := by
  refine ⟨fun voter hvoter => ?_, rfl, rfl⟩
  obtain ⟨_, hvote⟩ := mem_keys.mp hvoter
  simp [init, Tally.empty] at hvote

theorem VoteCount.Collects.recordBy {wrap : ℕ → ℕ} {voter : W} {vote : V} (hc : c.Collects voters)
    (hvoter : voter ∈ voters) :
    ({ c with tally := c.tally.recordBy wrap candidate voter vote } : VoteCount V W).Collects
      voters := by
  refine { hc with senders := fun other hother => ?_ }
  obtain ⟨_, hother⟩ := mem_keys.mp hother
  obtain ⟨rfl, -⟩ | ⟨-, hother⟩ := lookup_insert_eq_some.mp hother
  · exact hvoter
  · exact hc.senders (mem_keys.mpr ⟨_, hother⟩)

theorem counted_empty : (Tally.empty : Tally W V W).Counted candidate := by
  intro h
  simp [Tally.empty, supporters]

end Collects

namespace VerifCount

variable {voters : Finset W} {c : VerifCount W} {recorded : List (Verification W)}

theorem collects_recordAll (h : ∀ v ∈ recorded, v.header.sender ∈ voters) :
    (recordAll voters.card recorded).Collects voters :=
  List.foldlRecOn recorded _ VoteCount.collects_init fun _ hc v hv => hc.recordBy (h v hv)

theorem counted_recordAll (hsmall : ∀ before, before <+: recorded → ∀ h,
      ((recordAll voters.card before).tally.supporters Verification.candidate h).card < 256) :
    (recordAll voters.card recorded).tally.Counted Verification.candidate := by
  induction recorded using List.reverseRecOn with
  | nil => exact counted_empty
  | append_singleton recorded v ih =>
    have hcounted := ih fun before hbefore => hsmall before (hbefore.trans (List.prefix_append ..))
    have hlast := hsmall _ (List.prefix_refl _)
    rw [recordAll, List.foldl_append] at hlast ⊢
    exact hcounted.recordBy fun h => Nat.mod_eq_of_lt (hlast h)

theorem getD_recordAll_lt (h : W) :
    ((recordAll voters.card recorded).tally.count[h]?).getD 0 < 256 :=
  List.foldlRecOn (motive := fun c : VerifCount W => ∀ h : W, (c.tally.count[h]?).getD 0 < 256)
    recorded _ (by simp [VoteCount.init, Tally.empty])
    (fun _ hc _ _ _ => getD_recordBy_lt (fun n => Nat.mod_lt n (by simp)) hc) h

theorem exact_of_counted (hvoters : voters.Nonempty) (hc : c.Collects voters)
    (hcounted : c.tally.Counted Verification.candidate) : c.Exact voters where
  counted := hcounted
  reported h := by
    have hcard := hvoters.card_pos
    rw [VoteCount.consensusHash, hc.supermajority]
    exact hcounted.consensusHash_eq_some_iff hc.senders (by omega)
  impossible := by
    rw [← Bool.not_eq_true, not_iff_not, canReach_iff hc.senders, ← hc.supermajority, ← hc.quorum]
    unfold consensusIsStillPossible
    dsimp only
    cases hhash : c.consensusHash with
    | some h =>
      have hle := hcounted.le_card_supporters hhash
      exact iff_of_true rfl ⟨h, by omega⟩
    | none =>
      rw [Option.isSome_none, Bool.false_or]
      split
      · next hempty =>
        have hzero (h : W) : (c.tally.supporters Verification.candidate h).card = 0 := by
          rw [← hcounted h, Std.ExtTreeMap.isEmpty_iff.mp hempty]
          rfl
        simp only [hzero, Nat.zero_add, decide_eq_true_eq]
        exact ⟨fun hle => ⟨hvoters.choose, hle⟩, fun ⟨_, hle⟩ => hle⟩
      · next hempty => exact hcounted.any_values_iff fun hbad => absurd hbad hempty

end VerifCount

namespace PropCount

variable {voters : Finset W} {c : PropCount W} {recorded : List (Proposal W)}

theorem collects_recordAll (h : ∀ p ∈ recorded, p.header.sender ∈ voters) :
    (recordAll voters.card recorded).Collects voters :=
  List.foldlRecOn recorded _ VoteCount.collects_init fun _ hc p hp => hc.recordBy (h p hp)

theorem counted_recordAll : (recordAll voters.card recorded).tally.Counted Proposal.candidate :=
  List.foldlRecOn (motive := fun c : PropCount W => c.tally.Counted Proposal.candidate)
    recorded _ counted_empty fun _ hc _ _ => hc.record

/-- The proposals are reported to fail once a supermajority of the members proposed and no hash
can get its supermajority. -/
theorem consensus_eq_some_false_iff (hvoters : voters.Nonempty) (hc : c.Collects voters)
    (hcounted : c.tally.Counted Proposal.candidate) :
    c.consensus = some false ↔ voters.card - voters.card / 3 ≤ c.tally.votes.size ∧
      ¬c.tally.CanReach Proposal.candidate voters (voters.card - voters.card / 3) := by
  have hcard := hvoters.card_pos
  rw [canReach_iff hc.senders, ← hc.supermajority, ← hc.quorum]
  unfold consensus
  dsimp only
  split
  · next hlen => exact iff_of_false nofun fun ⟨hle, _⟩ => absurd hlen (not_lt.mpr hle)
  · next hlen =>
    have hrest : c.tally.count.isEmpty = true → c.quorum - c.tally.votes.size < c.supermajority := by
      have := hc.supermajority
      have := hc.quorum
      omega
    rw [← hcounted.any_values_iff hrest]
    split
    · next hany =>
      obtain ⟨n, hn, hle⟩ := List.any_eq_true.mp hany
      simp only [decide_eq_true_eq] at hle
      refine iff_of_false nofun fun ⟨_, hnever⟩ => hnever (List.any_eq_true.mpr ⟨n, hn, ?_⟩)
      simp only [decide_eq_true_eq]
      omega
    · split
      · next hany => exact iff_of_false nofun fun ⟨_, hnever⟩ => hnever hany
      · next hany => exact iff_of_true rfl ⟨not_lt.mp hlen, hany⟩

end PropCount

/-- The counts, the reported hash and the report that no hash can win are exact after every
recorded vote as long as no hash gets 256 verifications and no set of proposals fails before a
supermajority of the members proposed. -/
theorem vote_counts_exact_iff {voters : Finset W} (hvoters : voters.Nonempty)
    {verifications : List (Verification W)} {proposals : List (Proposal W)}
    (hverif : ∀ v ∈ verifications, v.header.sender ∈ voters)
    (hprop : ∀ p ∈ proposals, p.header.sender ∈ voters) :
    ((∀ recorded, recorded <+: verifications →
        (VerifCount.recordAll voters.card recorded).Exact voters) ∧
      ∀ recorded, recorded <+: proposals →
        (PropCount.recordAll voters.card recorded).Exact voters) ↔
    (∀ recorded, recorded <+: verifications → ∀ h, ((VerifCount.recordAll voters.card
        recorded).tally.supporters Verification.candidate h).card < 256) ∧
      ∀ recorded, recorded <+: proposals →
        voters.card - voters.card / 3 ≤ (PropCount.recordAll voters.card recorded).tally.votes.size ∨
        (PropCount.recordAll voters.card recorded).tally.CanReach Proposal.candidate voters
          (voters.card - voters.card / 3) := by
  refine and_congr ⟨fun hexact recorded hrecorded h => ?_, fun hsmall recorded hrecorded => ?_⟩
    (forall₂_congr fun recorded hrecorded => ?_)
  · rw [← (hexact recorded hrecorded).counted h]
    exact VerifCount.getD_recordAll_lt h
  · exact VerifCount.exact_of_counted hvoters
      (VerifCount.collects_recordAll fun v hv => hverif v (hrecorded.subset hv))
      (VerifCount.counted_recordAll fun before hbefore => hsmall before (hbefore.trans hrecorded))
  · have hiff := PropCount.consensus_eq_some_false_iff hvoters
      (PropCount.collects_recordAll fun p hp => hprop p (hrecorded.subset hp))
      PropCount.counted_recordAll
    constructor
    · intro hexact
      by_contra hearly
      rw [not_or] at hearly
      exact hearly.1 (hiff.mp (hexact.impossible.mpr hearly.2)).1
    · intro hdecided
      refine ⟨PropCount.counted_recordAll, hiff.trans ⟨And.right, fun hnever => ⟨?_, hnever⟩⟩⟩
      exact hdecided.resolve_right hnever

/-- The verification of one member for the hash zero. -/
def verificationOf (sender : ℕ) : Verification ℕ :=
  ⟨⟨sender, 0, 0, 0, ⟨0, 0⟩⟩, ⟨0, ∅⟩⟩

/-- In a quorum of 258 members the 256th verification of a hash sets its count to zero. -/
theorem verifications_of_large_quorum_wrap :
    ¬(VerifCount.recordAll 258 ((List.range 256).map verificationOf)).Exact (Finset.range 258) := by
  intro hexact
  have hcount := hexact.counted 0
  revert hcount
  decide +kernel

/-- The proposal of one member for the hash zero. -/
def proposalOf (sender : ℕ) : Proposal ℕ :=
  ⟨⟨sender, 0, 0, 0, ⟨0, 0⟩⟩, ⟨true, none, some 0, none, none, none⟩⟩

/-- Two of three members verified one hash and then proposed it, and the counts say so. -/
theorem two_votes_counted :
    (VerifCount.recordAll 3 [verificationOf 0, verificationOf 1]).Exact (Finset.range 3) ∧
      (PropCount.recordAll 3 [proposalOf 0, proposalOf 1]).Exact (Finset.range 3) := by
  have hverif : ∀ v ∈ [verificationOf 0, verificationOf 1], v.header.sender ∈ Finset.range 3 := by
    decide
  have hprop : ∀ p ∈ [proposalOf 0, proposalOf 1], p.header.sender ∈ Finset.range 3 := by decide
  have hzero : ∀ recorded ∈ [proposalOf 0, proposalOf 1].inits,
      ∀ entry ∈ (PropCount.recordAll 3 recorded).tally.votes.toList,
        Proposal.candidate entry.2 = some 0 := by decide
  have hexact := (vote_counts_exact_iff ⟨0, by decide⟩ hverif hprop).mpr
    ⟨fun recorded hrecorded h => ?_, fun recorded hrecorded => ?_⟩
  · exact ⟨hexact.1 _ (List.prefix_refl _), hexact.2 _ (List.prefix_refl _)⟩
  · have hcollects := VerifCount.collects_recordAll fun v hv => hverif v (hrecorded.subset hv)
    exact (Finset.card_le_card (supporters_subset hcollects.senders)).trans_lt (by decide)
  · refine .inr ⟨fun _ => some 0, fun voter vote hvote => ?_, 0, by decide⟩
    exact (hzero recorded (List.mem_inits _ _ |>.mpr hrecorded) (voter, vote)
      (Std.ExtTreeMap.mem_toList_iff_getElem?_eq_some.mpr hvote)).symm

end Blossom
