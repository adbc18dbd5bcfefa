import Mathlib.Data.List.Chain
import Mathlib.Data.List.Range

/-!
# Consecutively numbered lists

A list in which every element's number is one more than its predecessor's. The number of
an element is then the first number plus its position.
-/

namespace Blossom.ConsecutiveList

variable {α : Type}

/-- Each element's number follows its predecessor's. -/
def Consecutive (f : α → ℕ) (l : List α) : Prop := l.IsChain fun a b => f b = f a + 1

variable {f : α → ℕ} {l : List α}

theorem Consecutive.getElem? (h : Consecutive f l) {first x : α} {i : ℕ}
    (hf : l.head? = some first) (hx : l[i]? = some x) : f x = f first + i := by
  induction l generalizing first i with
  | nil => cases hf
  | cons a l ih =>
    obtain rfl : a = first := by simpa using hf
    cases i with
    | zero =>
      obtain rfl : a = x := by simpa using hx
      rfl
    | succ i =>
      rw [List.getElem?_cons_succ] at hx
      cases l with
      | nil => simp at hx
      | cons b l =>
        obtain ⟨hab, htail⟩ := List.isChain_cons_cons.mp h
        have hb := @ih htail b i rfl hx
        omega

theorem Consecutive.eq_of_eq (h : Consecutive f l) {x y : α} (hx : x ∈ l) (hy : y ∈ l)
    (he : f x = f y) : x = y := by
  obtain ⟨i, hi⟩ := List.getElem?_of_mem hx
  obtain ⟨j, hj⟩ := List.getElem?_of_mem hy
  cases l with
  | nil => simp at hx
  | cons a l =>
    have h₁ := h.getElem? rfl hi
    have h₂ := h.getElem? rfl hj
    obtain rfl : i = j := by omega
    rw [hi] at hj
    exact Option.some.inj hj

theorem Consecutive.le_last (h : Consecutive f l) {x last : α} (hx : x ∈ l)
    (hl : l.getLast? = some last) : f x ≤ f last := by
  obtain ⟨i, hi⟩ := List.getElem?_of_mem hx
  cases l with
  | nil => simp at hx
  | cons a l =>
    have h₁ := h.getElem? rfl hi
    rw [List.getLast?_eq_getElem?] at hl
    have h₂ := h.getElem? rfl hl
    have hlt : i < (a :: l).length := (List.getElem?_eq_some_iff.mp hi).1
    omega

theorem Consecutive.first_le (h : Consecutive f l) {x first : α} (hx : x ∈ l)
    (hf : l.head? = some first) : f first ≤ f x := by
  obtain ⟨i, hi⟩ := List.getElem?_of_mem hx
  have := h.getElem? hf hi
  omega

theorem exists_getElem?_of_isChain {R : α → α → Prop} {l : List α} (h : l.IsChain R) {i : ℕ} {y : α}
    (hy : l[i + 1]? = some y) : ∃ x, l[i]? = some x ∧ R x y := by
  obtain ⟨hlt, rfl⟩ := List.getElem?_eq_some_iff.mp hy
  exact ⟨l[i], List.getElem?_eq_getElem _, List.isChain_iff_getElem.mp h i hlt⟩

end Blossom.ConsecutiveList
