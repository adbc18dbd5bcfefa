import Mathlib.Data.Finset.Card
import Mathlib.Tactic.Linarith

/-!
# Majorities and supermajorities intersect

Counting facts behind every voting argument: two strict majorities of one set meet,
two strict majorities of sets that differ by one element meet, and two
supermajorities share more members than a Byzantine minority can hold.
-/

namespace Blossom.MajorityQuorum

variable {α : Type*} [DecidableEq α]

def majority (n : ℕ) : ℕ := n / 2 + 1

def supermajorityCount (total : ℕ) : ℕ := total - total / 3

/-- Enough votes for a supermajority, and no more than there are voters. -/
def hasSupermajority (total count : ℕ) : Bool :=
  0 < total ∧ count ≤ total ∧ supermajorityCount total ≤ count

/-- A subset of the voters that reaches a strict majority. -/
def IsMajority (voters quorum : Finset α) : Prop :=
  quorum ⊆ voters ∧ majority voters.card ≤ quorum.card

variable {a b s : Finset α}

/-- Two sets whose sizes exceed their union's size share an element. -/
theorem exists_common (ha : a ⊆ s) (hb : b ⊆ s)
    (h : s.card < a.card + b.card) : ∃ x ∈ a, x ∈ b := by
  have hu : (a ∪ b).card ≤ s.card := Finset.card_le_card (Finset.union_subset ha hb)
  have hi := Finset.card_union_add_card_inter a b
  have hp : 0 < (a ∩ b).card := by omega
  obtain ⟨x, hx⟩ := Finset.card_pos.mp hp
  exact ⟨x, Finset.mem_of_mem_inter_left hx, Finset.mem_of_mem_inter_right hx⟩

theorem IsMajority.exists_common (ha : IsMajority s a) (hb : IsMajority s b) :
    ∃ x ∈ a, x ∈ b := by
  apply MajorityQuorum.exists_common ha.1 hb.1
  have h₁ := ha.2
  have h₂ := hb.2
  unfold majority at h₁ h₂
  omega

/-- Majorities of two electorates that differ by one voter still meet. -/
theorem IsMajority.exists_common_insert {x : α} (hx : x ∉ s)
    (ha : IsMajority s a) (hb : IsMajority (insert x s) b) : ∃ y ∈ a, y ∈ b := by
  apply MajorityQuorum.exists_common (ha.1.trans (Finset.subset_insert x s)) hb.1
  have h₁ := ha.2
  have h₂ := hb.2
  rw [Finset.card_insert_of_notMem hx] at h₂ ⊢
  unfold majority at h₁ h₂
  omega

/-- Majorities before and after one voter leaves still meet. -/
theorem IsMajority.exists_common_erase {x : α} (hx : x ∈ s)
    (ha : IsMajority s a) (hb : IsMajority (s.erase x) b) : ∃ y ∈ a, y ∈ b := by
  have hs : insert x (s.erase x) = s := Finset.insert_erase hx
  rw [← hs] at ha
  obtain ⟨y, hyb, hya⟩ := hb.exists_common_insert (Finset.notMem_erase x s) ha
  exact ⟨y, hya, hyb⟩

/-- Two subsets share an honest member when their sizes exceed the size of the whole set
together with the number of its faulty members. -/
theorem exists_honest_common {honest : α → Prop} [DecidablePred honest] (ha : a ⊆ s) (hb : b ⊆ s)
    (h : s.card + (s.filter fun x => ¬honest x).card < a.card + b.card) :
    ∃ x ∈ a, x ∈ b ∧ honest x := by
  have hu : (a ∪ b).card ≤ s.card := Finset.card_le_card (Finset.union_subset ha hb)
  have hi := Finset.card_union_add_card_inter a b
  by_contra hnone
  have hfaulty : a ∩ b ⊆ s.filter fun x => ¬honest x := by
    intro x hx
    rw [Finset.mem_inter] at hx
    rw [Finset.mem_filter]
    exact ⟨ha hx.1, fun honest => hnone ⟨x, hx.1, hx.2, honest⟩⟩
  have hle := Finset.card_le_card hfaulty
  omega

end Blossom.MajorityQuorum
