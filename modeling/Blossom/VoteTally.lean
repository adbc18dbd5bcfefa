import Blossom.OrderedMap

/-!
# Tallies of votes

A tally keeps the last vote of every voter and, for every candidate, how many votes it
has. A vote may name no candidate. The counts are kept up to date as votes replace each
other.
-/

namespace Blossom.VoteTally

open OrderedMap

variable {K V H : Type} [LinearOrder K] [LinearOrder H]

structure Tally (K V H : Type) [LinearOrder K] [LinearOrder H] where
  votes : BTreeMap K V
  count : BTreeMap H ℕ
  deriving DecidableEq

/-- Take one vote from a candidate; a candidate without votes has no entry. -/
def decrementCount (counts : BTreeMap H ℕ) (candidate : H) : BTreeMap H ℕ :=
  match counts[candidate]? with
  | some n => if 1 < n then counts.insert candidate (n - 1) else counts.erase candidate
  | none => counts

def incrementCount (counts : BTreeMap H ℕ) (candidate : H) : BTreeMap H ℕ :=
  counts.insert candidate ((counts[candidate]?).getD 0 + 1)

namespace Tally

def empty : Tally K V H := ⟨∅, ∅⟩

/-- The counts without the vote of a voter. -/
def withdraw (candidate : V → Option H) (t : Tally K V H) (voter : K) : BTreeMap H ℕ :=
  match (t.votes[voter]?).bind candidate with
  | some previous => decrementCount t.count previous
  | none => t.count

/-- Record a vote with counters that may wrap. -/
def recordBy (wrap : ℕ → ℕ) (candidate : V → Option H) (t : Tally K V H) (voter : K) (vote : V) :
    Tally K V H where
  votes := t.votes.insert voter vote
  count := match candidate vote with
    | some h => (t.withdraw candidate voter).insert h
        (wrap (((t.withdraw candidate voter)[h]?).getD 0 + 1))
    | none => t.withdraw candidate voter

def record (candidate : V → Option H) (t : Tally K V H) (voter : K) (vote : V) : Tally K V H :=
  t.recordBy id candidate voter vote

def consensusHash (t : Tally K V H) (required : ℕ) : Option H :=
  (t.count.toList.find? fun entry => decide (required ≤ entry.2)).map Prod.fst

section

variable (candidate : V → Option H) (t : Tally K V H)

/-- The voters whose recorded vote is for a candidate. -/
def supporters (h : H) : Finset K :=
  {voter ∈ t.votes.keys.toFinset | (t.votes[voter]?).bind candidate = some h}

/-- Every candidate is counted for the votes of its supporters. -/
def Counted : Prop :=
  ∀ h, (t.count[h]?).getD 0 = (t.supporters candidate h).card

/-- The votes still to come can bring some candidate to a threshold. -/
def CanReach (voters : Finset K) (required : ℕ) : Prop :=
  ∃ final : K → Option H,
    (∀ voter vote, t.votes[voter]? = some vote → final voter = candidate vote) ∧
    ∃ h, required ≤ {voter ∈ voters | final voter = some h}.card

end

variable {candidate : V → Option H} {t : Tally K V H}

theorem mem_supporters {h : H} {voter : K} :
    voter ∈ t.supporters candidate h ↔ (t.votes[voter]?).bind candidate = some h := by
  rw [supporters, Finset.mem_filter, mem_keys, and_iff_right_iff_imp]
  intro hvote
  obtain ⟨vote, hget, -⟩ := Option.bind_eq_some_iff.mp hvote
  exact ⟨vote, hget⟩

theorem getD_incrementCount (counts : BTreeMap H ℕ) (next h : H) :
    ((incrementCount counts next)[h]?).getD 0 =
      (counts[h]?).getD 0 + if next = h then 1 else 0 := by
  rw [incrementCount, lookup_insert]
  split
  · next heq => simp [heq]
  · simp

theorem getD_decrementCount (counts : BTreeMap H ℕ) (previous h : H) :
    ((decrementCount counts previous)[h]?).getD 0 =
      (counts[h]?).getD 0 - if previous = h then 1 else 0 := by
  unfold decrementCount
  grind [lookup_insert, lookup_erase]

section Record

variable {wrap : ℕ → ℕ} {voter : K} {vote : V} {h : H}

/-- A new vote moves its voter to the supporters of the new candidate. -/
theorem card_supporters_recordBy :
    ((t.recordBy wrap candidate voter vote).supporters candidate h).card =
      ((t.supporters candidate h).erase voter).card + if candidate vote = some h then 1 else 0 := by
  have hmem (other : K) : other ∈ (t.recordBy wrap candidate voter vote).supporters candidate h ↔
      if other = voter then candidate vote = some h else other ∈ t.supporters candidate h := by
    rw [mem_supporters, mem_supporters, recordBy, lookup_insert]
    grind
  split
  · next hvote =>
    rw [← Finset.card_insert_of_notMem (Finset.notMem_erase voter _)]
    congr 1
    ext other
    by_cases hother : other = voter <;> simp [hmem, hother, hvote]
  · next hvote =>
    rw [Nat.add_zero]
    congr 1
    ext other
    by_cases hother : other = voter <;> simp [hmem, hother, hvote]

theorem Counted.withdraw (ht : t.Counted candidate) :
    ((t.withdraw candidate voter)[h]?).getD 0 = ((t.supporters candidate h).erase voter).card := by
  rw [Tally.withdraw]
  cases hprev : (t.votes[voter]?).bind candidate with
  | none => rw [Finset.erase_eq_of_notMem (by simp [mem_supporters, hprev]), ← ht h]
  | some previous =>
    dsimp only
    rw [getD_decrementCount, ht h]
    split
    · next heq => rw [Finset.card_erase_of_mem (mem_supporters.mpr (heq ▸ hprev))]
    · next hne =>
      rw [Nat.sub_zero, Finset.erase_eq_of_notMem (by simp [mem_supporters, hprev, hne])]

/-- The counts stay right as long as the counters do not wrap. -/
theorem Counted.recordBy (ht : t.Counted candidate)
    (hwrap : ∀ h, wrap ((t.recordBy wrap candidate voter vote).supporters candidate h).card =
      ((t.recordBy wrap candidate voter vote).supporters candidate h).card) :
    (t.recordBy wrap candidate voter vote).Counted candidate := by
  intro h
  have hcard := hwrap h
  rw [card_supporters_recordBy, ← ht.withdraw] at hcard ⊢
  unfold Tally.recordBy
  cases hvote : candidate vote with
  | none => simp
  | some next =>
    simp only [hvote, lookup_insert, Option.some.injEq] at hcard ⊢
    split
    · next heq => simpa [heq] using hcard
    · rfl

theorem Counted.record (ht : t.Counted candidate) :
    (t.record candidate voter vote).Counted candidate :=
  ht.recordBy fun _ => rfl

theorem getD_recordBy_lt {bound : ℕ} (hwrap : ∀ n, wrap n < bound)
    (ht : ∀ h : H, (t.count[h]?).getD 0 < bound) :
    ((t.recordBy wrap candidate voter vote).count[h]?).getD 0 < bound := by
  have hwithdraw : ((t.withdraw candidate voter)[h]?).getD 0 < bound := by
    unfold Tally.withdraw
    split
    · rw [getD_decrementCount]
      exact (Nat.sub_le _ _).trans_lt (ht h)
    · exact ht h
  unfold Tally.recordBy
  dsimp only
  split
  · rw [lookup_insert]
    split
    · exact hwrap _
    · exact hwithdraw
  · exact hwithdraw

end Record

section Threshold

variable {voters : Finset K} {required : ℕ} {h : H}

theorem Counted.le_card_supporters (ht : t.Counted candidate)
    (hc : t.consensusHash required = some h) : required ≤ (t.supporters candidate h).card := by
  rw [consensusHash] at hc
  obtain ⟨⟨h', n⟩, hfind, rfl⟩ := Option.map_eq_some_iff.mp hc
  have hle : required ≤ n := by simpa using List.find?_some hfind
  have hget := Std.ExtTreeMap.mem_toList_iff_getElem?_eq_some.mp (List.mem_of_find?_eq_some hfind)
  rwa [← ht h', hget]

theorem supporters_subset (hvoters : t.votes.keys.toFinset ⊆ voters) :
    t.supporters candidate h ⊆ voters :=
  (Finset.filter_subset _ _).trans hvoters

/-- More than half of the voters support at most one candidate. -/
theorem supporters_unique (hvoters : t.votes.keys.toFinset ⊆ voters)
    (hrequired : voters.card < 2 * required) {h' : H}
    (hh : required ≤ (t.supporters candidate h).card)
    (hh' : required ≤ (t.supporters candidate h').card) : h = h' := by
  by_contra hne
  have hdisjoint : Disjoint (t.supporters candidate h) (t.supporters candidate h') := by
    rw [Finset.disjoint_left]
    intro voter hvoter hvoter'
    rw [mem_supporters] at hvoter hvoter'
    exact hne (Option.some_inj.mp (hvoter.symm.trans hvoter'))
  have hcard := Finset.card_le_card
    (Finset.union_subset (supporters_subset hvoters) (supporters_subset hvoters) :
      t.supporters candidate h ∪ t.supporters candidate h' ⊆ voters)
  rw [Finset.card_union_of_disjoint hdisjoint] at hcard
  omega

theorem Counted.consensusHash_eq_some_iff (ht : t.Counted candidate)
    (hvoters : t.votes.keys.toFinset ⊆ voters) (hrequired : voters.card < 2 * required) :
    t.consensusHash required = some h ↔ required ≤ (t.supporters candidate h).card := by
  refine ⟨ht.le_card_supporters, fun hle => ?_⟩
  cases hc : t.consensusHash required with
  | some h' => rw [supporters_unique hvoters hrequired hle (ht.le_card_supporters hc)]
  | none =>
    rw [consensusHash, Option.map_eq_none_iff, List.find?_eq_none] at hc
    obtain ⟨n, hn⟩ : ∃ n, t.count[h]? = some n := by
      cases hn : t.count[h]? with
      | some n => exact ⟨n, rfl⟩
      | none =>
        have hzero := ht h
        rw [hn, Option.getD_none] at hzero
        omega
    have hcount := ht h
    rw [hn, Option.getD_some] at hcount
    have hsmall := hc (h, n) (Std.ExtTreeMap.mem_toList_iff_getElem?_eq_some.mpr hn)
    simp only [decide_eq_true_eq] at hsmall
    omega

/-- The missing voters reach a threshold by all joining one candidate. -/
theorem canReach_iff (hvoters : t.votes.keys.toFinset ⊆ voters) :
    t.CanReach candidate voters required ↔
      ∃ h, required ≤ (t.supporters candidate h).card + (voters.card - t.votes.size) := by
  set recorded := t.votes.keys.toFinset
  have hmissing : (voters \ recorded).card = voters.card - t.votes.size := by
    rw [Finset.card_sdiff_of_subset hvoters, card_keys]
  rw [← hmissing]
  constructor
  · intro ⟨final, hfinal, h, hle⟩
    refine ⟨h, hle.trans ((Finset.card_le_card fun voter hvoter => ?_).trans
      (Finset.card_union_le _ _))⟩
    obtain ⟨hvoter, hh⟩ := Finset.mem_filter.mp hvoter
    by_cases hrecorded : voter ∈ recorded
    · obtain ⟨vote, hvote⟩ := mem_keys.mp hrecorded
      apply Finset.mem_union_left
      rw [mem_supporters, hvote, ← hh, hfinal voter vote hvote, Option.bind_some]
    · exact Finset.mem_union_right _ (Finset.mem_sdiff.mpr ⟨hvoter, hrecorded⟩)
  · intro ⟨h, hle⟩
    have hdisjoint : Disjoint (t.supporters candidate h) (voters \ recorded) :=
      Finset.disjoint_sdiff.mono_left (Finset.filter_subset _ _)
    rw [← Finset.card_union_of_disjoint hdisjoint] at hle
    refine ⟨fun voter => if voter ∈ recorded then (t.votes[voter]?).bind candidate else some h,
      fun voter vote hvote => ?_, h, hle.trans (Finset.card_le_card fun voter hvoter => ?_)⟩
    · exact (if_pos (mem_keys.mpr ⟨vote, hvote⟩)).trans (by rw [hvote, Option.bind_some])
    · rcases Finset.mem_union.mp hvoter with hsupports | hmissing
      · exact Finset.mem_filter.mpr ⟨supporters_subset hvoters hsupports,
          (if_pos (Finset.mem_of_mem_filter voter hsupports)).trans (mem_supporters.mp hsupports)⟩
      · obtain ⟨hvoter, hnew⟩ := Finset.mem_sdiff.mp hmissing
        exact Finset.mem_filter.mpr ⟨hvoter, if_neg hnew⟩

/-- Some count with the missing votes added reaches a threshold as soon as a candidate can; a
candidate without a count can only if the missing votes are enough. -/
theorem Counted.any_values_iff {rest : ℕ} (ht : t.Counted candidate)
    (hrest : t.count.isEmpty = true → rest < required) :
    ((values t.count).any fun n => decide (required ≤ n + rest)) = true ↔
      ∃ h, required ≤ (t.supporters candidate h).card + rest := by
  simp only [List.any_eq_true, decide_eq_true_eq, mem_values]
  constructor
  · rintro ⟨n, ⟨h, hn⟩, hle⟩
    refine ⟨h, ?_⟩
    rwa [← ht h, hn]
  · rintro ⟨h, hle⟩
    rw [← ht h] at hle
    cases hn : t.count[h]? with
    | some n => exact ⟨n, ⟨h, hn⟩, by simpa [hn] using hle⟩
    | none =>
      rw [hn, Option.getD_none] at hle
      cases hempty : t.count.isEmpty with
      | true =>
        have := hrest hempty
        omega
      | false =>
        obtain ⟨k, hk⟩ := isEmpty_eq_false_iff.mp hempty
        obtain ⟨n, hn⟩ := contains_iff.mp hk
        exact ⟨n, ⟨k, hn⟩, by omega⟩

end Threshold

end Tally

end Blossom.VoteTally
