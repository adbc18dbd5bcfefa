import Mathlib.Tactic.Ring
import Mathlib.Tactic.Linarith

/-!
# Lines of a grid

Positions are numbers. A line of a block length and a stride has the positions of one
block that leave one remainder modulo the stride; with a block of `width` strides it has
`width` positions.
-/

namespace Blossom.GridLines

def SameLine (block stride x y : ℕ) : Prop := x / block = y / block ∧ x % stride = y % stride

variable {block stride width n x y z : ℕ}

theorem SameLine.refl (x : ℕ) : SameLine block stride x x := ⟨rfl, rfl⟩

theorem SameLine.symm (h : SameLine block stride x y) : SameLine block stride y x :=
  ⟨h.1.symm, h.2.symm⟩

theorem SameLine.trans (h : SameLine block stride x y) (h' : SameLine block stride y z) :
    SameLine block stride x z := ⟨h.1.trans h'.1, h.2.trans h'.2⟩

def lineStart (block stride x : ℕ) : ℕ := x - x % block + x % stride

theorem lineStart_eq (block stride x : ℕ) :
    lineStart block stride x = block * (x / block) + x % stride := by
  have h := Nat.div_add_mod x block
  rw [lineStart]
  omega

theorem exists_member_iff (hwidth : 0 < width) (hstride : 0 < stride) :
    (∃ member < width, lineStart (width * stride) stride x + member * stride = y) ↔
      SameLine (width * stride) stride x y := by
  have hpos : 0 < width * stride := Nat.mul_pos hwidth hstride
  rw [lineStart_eq]
  constructor
  · rintro ⟨member, hmem, rfl⟩
    have hlow := Nat.mod_lt x hstride
    have hinside : x % stride + member * stride < width * stride := by
      calc x % stride + member * stride < stride + member * stride := by omega
        _ = (member + 1) * stride := by ring
        _ ≤ width * stride := Nat.mul_le_mul_right stride hmem
    constructor
    · rw [add_assoc, Nat.mul_add_div hpos, Nat.div_eq_of_lt hinside, add_zero]
    · rw [show width * stride * (x / (width * stride)) + x % stride + member * stride =
        x % stride + stride * (width * (x / (width * stride)) + member) by ring,
        Nat.add_mul_mod_self_left, Nat.mod_mod]
  · rintro ⟨hblock, hrest⟩
    refine ⟨y % (width * stride) / stride, ?_, ?_⟩
    · rw [Nat.div_lt_iff_lt_mul hstride]
      exact Nat.mod_lt y hpos
    · have hy := Nat.div_add_mod y (width * stride)
      have hm := Nat.div_add_mod (y % (width * stride)) stride
      rw [Nat.mod_mul_left_mod] at hm
      rw [hblock, hrest, Nat.mul_comm (y % (width * stride) / stride)]
      omega

theorem lt_of_div_eq (hdvd : block ∣ n) (hx : x < n) (h : z / block = x / block) : z < n := by
  obtain ⟨count, rfl⟩ := hdvd
  have hpos : 0 < block := Nat.pos_of_mul_pos_right (Nat.zero_lt_of_lt hx)
  rw [mul_comm] at hx ⊢
  rw [← Nat.div_lt_iff_lt_mul hpos] at hx ⊢
  omega

/-- A block meets every line whose stride is at most the block length. -/
theorem exists_in_block (hstride : 0 < stride) (hle : stride ≤ block) (x y : ℕ) :
    ∃ z, z / block = x / block ∧ z % stride = y % stride := by
  set start := block * (x / block) with hstart
  set shift := (y + (stride - start % stride)) % stride with hshift
  have hlow : shift < stride := Nat.mod_lt _ hstride
  refine ⟨start + shift, ?_, ?_⟩
  · have hinside : shift < block := hlow.trans_le hle
    rw [hstart, Nat.mul_add_div (Nat.zero_lt_of_lt hinside), Nat.div_eq_of_lt hinside,
      Nat.add_zero]
  · have hrest := Nat.mod_lt start hstride
    have hdiv := Nat.div_add_mod start stride
    have hsum : start + (y + (stride - start % stride)) =
        y + stride * (start / stride + 1) := by
      rw [mul_add, mul_one]
      omega
    rw [hshift, Nat.add_mod_mod, hsum, Nat.add_mul_mod_self_left]

/-- Within a block of `width` strides, the line through `y` meets the stride of `x`. -/
theorem exists_in_stride (hstride : 0 < stride) (h : x / (width * stride) = y / (width * stride)) :
    ∃ z, z / stride = x / stride ∧ SameLine (width * stride) stride z y := by
  obtain ⟨z, hz, hrest⟩ := exists_in_block hstride le_rfl x y
  refine ⟨z, hz, ?_, hrest⟩
  rw [← h, mul_comm width, ← Nat.div_div_eq_div_mul, ← Nat.div_div_eq_div_mul, hz]

end Blossom.GridLines
