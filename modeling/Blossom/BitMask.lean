import Mathlib.Data.Finset.Card
import Mathlib.Data.List.FinRange
import Mathlib.Data.Nat.Bitwise

/-!
# Bit masks as finite sets

A fixed-width mask is read as the set of its bit positions. Every mask test of a
program becomes a statement about that set, and the population count its
cardinality.
-/

namespace Blossom.BitMask

variable {w : ℕ}
variable {a b m : BitVec w}

/-- The positions of the bits set in a mask. -/
def bits (m : BitVec w) : Finset ℕ := (Finset.range w).filter (fun i => m.getLsbD i = true)

def countOnes (m : BitVec w) : ℕ := (bits m).card

def lowBits (w n : ℕ) : BitVec w := BitVec.ofNat w (2 ^ n - 1)

variable {i n : ℕ}

theorem mem_bits : i ∈ bits m ↔ m.getLsbD i = true := by
  simp only [bits, Finset.mem_filter, Finset.mem_range, and_iff_right_iff_imp]
  exact BitVec.lt_of_getLsbD

theorem lt_of_mem_bits (h : i ∈ bits m) : i < w :=
  BitVec.lt_of_getLsbD (mem_bits.mp h)

@[simp] theorem bits_zero : bits (0#w) = ∅ := by
  ext i
  simp [mem_bits]

@[simp] theorem bits_and (a b : BitVec w) : bits (a &&& b) = bits a ∩ bits b := by
  ext i
  simp [mem_bits]

@[simp] theorem bits_or (a b : BitVec w) : bits (a ||| b) = bits a ∪ bits b := by
  ext i
  simp [mem_bits]

@[simp] theorem bits_and_not (a b : BitVec w) : bits (a &&& ~~~b) = bits a \ bits b := by
  ext i
  by_cases h : i < w
  · simp [mem_bits, h]
  · simp [mem_bits, BitVec.getLsbD_of_ge _ _ (Nat.le_of_not_lt h)]

theorem bits_twoPow (h : i < w) : bits (BitVec.twoPow w i) = {i} := by
  ext j
  simp [mem_bits, h, eq_comm]

theorem mem_bits_lowBits (h : n ≤ w) : i ∈ bits (lowBits w n) ↔ i < n := by
  simp only [mem_bits, lowBits, BitVec.getLsbD_ofNat, Nat.testBit_two_pow_sub_one,
    Bool.and_eq_true, decide_eq_true_eq, and_iff_right_iff_imp]
  omega

theorem bits_lowBits (h : n ≤ w) : bits (lowBits w n) = Finset.range n := by
  ext i
  rw [mem_bits_lowBits h, Finset.mem_range]

theorem bits_injective : Function.Injective (bits : BitVec w → Finset ℕ) := by
  intro a b h
  apply BitVec.eq_of_getLsbD_eq
  intro i _
  have hi : i ∈ bits a ↔ i ∈ bits b := by rw [h]
  rw [mem_bits, mem_bits] at hi
  exact Bool.eq_iff_iff.mpr hi

theorem eq_zero_iff : m = 0#w ↔ bits m = ∅ := by
  constructor
  · rintro rfl
    exact bits_zero
  · intro h
    exact bits_injective (by rw [h, bits_zero])

theorem and_not_eq_zero_iff : a &&& ~~~b = 0#w ↔ bits a ⊆ bits b := by
  rw [eq_zero_iff, bits_and_not, Finset.sdiff_eq_empty_iff_subset]

theorem and_eq_right_iff : a &&& b = b ↔ bits b ⊆ bits a := by
  rw [← bits_injective.eq_iff, bits_and, Finset.inter_eq_right]

theorem and_twoPow_eq_zero_iff : m &&& BitVec.twoPow w i = 0#w ↔ i ∉ bits m := by
  rw [eq_zero_iff, bits_and]
  by_cases h : i < w
  · rw [bits_twoPow h, Finset.inter_singleton]
    by_cases hi : i ∈ bits m <;> simp [hi]
  · have hi : i ∉ bits m := fun hm => h (lt_of_mem_bits hm)
    have hz : bits (BitVec.twoPow w i) = ∅ := by
      ext j
      simp [mem_bits, h]
    simp [hi, hz]

theorem and_twoPow_ne_zero_iff : m &&& BitVec.twoPow w i ≠ 0#w ↔ i ∈ bits m := by
  rw [Ne, and_twoPow_eq_zero_iff, not_not]

def collect (w : ℕ) {n : ℕ} (p : Fin n → Bool) : BitVec w :=
  (List.finRange n).foldl (fun m i => if p i then m ||| BitVec.twoPow w i else m) 0#w

theorem mem_bits_foldl_collect {p : Fin n → Bool} (hn : n ≤ w) (xs : List (Fin n))
    (m : BitVec w) {j : ℕ} :
    j ∈ bits (xs.foldl (fun m i => if p i then m ||| BitVec.twoPow w i else m) m) ↔
      j ∈ bits m ∨ ∃ i ∈ xs, p i = true ∧ i.val = j := by
  induction xs generalizing m with
  | nil => simp
  | cons i xs ih =>
    have hi : i.val < w := by omega
    rw [List.foldl_cons, ih]
    by_cases hp : p i
    · simp only [hp, if_true, bits_or, bits_twoPow hi, Finset.mem_union, Finset.mem_singleton,
        List.mem_cons, exists_eq_or_imp, true_and, or_assoc, @eq_comm ℕ j]
    · simp [hp]

theorem mem_bits_collect {p : Fin n → Bool} (hn : n ≤ w) {j : ℕ} :
    j ∈ bits (collect w p) ↔ ∃ i : Fin n, p i = true ∧ i.val = j := by
  rw [collect, mem_bits_foldl_collect hn]
  simp

end Blossom.BitMask
