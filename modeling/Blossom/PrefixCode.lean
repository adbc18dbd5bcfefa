import Mathlib.Data.List.Basic

/-!
# Prefix codes

An encoding into lists of symbols from which the encoded value and the rest of the
input can be read back. Concatenations and sequences of such encodings are injective.
-/

namespace Blossom

variable {α β σ : Type}

/-- No code word continues another one. -/
def PrefixCode (f : α → List σ) : Prop :=
  ∀ a b r s, f a ++ r = f b ++ s → a = b ∧ r = s

namespace PrefixCode

theorem injective {f : α → List σ} (hf : PrefixCode f) : Function.Injective f := by
  intro a b h
  exact (hf a b [] [] (by rw [h])).1

theorem append_eq_iff {f : α → List σ} (hf : PrefixCode f) {a b : α} {r s : List σ} :
    f a ++ r = f b ++ s ↔ a = b ∧ r = s :=
  ⟨hf a b r s, fun h => by rw [h.1, h.2]⟩

/-- Two sequences of one length with the same code are equal, and so are the rests. -/
theorem flatMap_append {f : α → List σ} (hf : PrefixCode f) {xs ys : List α} {r s : List σ}
    (hl : xs.length = ys.length) (h : xs.flatMap f ++ r = ys.flatMap f ++ s) :
    xs = ys ∧ r = s := by
  induction xs generalizing ys with
  | nil =>
    cases ys with
    | nil => exact ⟨rfl, h⟩
    | cons y ys => simp at hl
  | cons x xs ih =>
    cases ys with
    | nil => simp at hl
    | cons y ys =>
      rw [List.flatMap_cons, List.flatMap_cons, List.append_assoc, List.append_assoc] at h
      obtain ⟨hxy, h⟩ := hf x y _ _ h
      obtain ⟨hs, hr⟩ := ih (by simpa using hl) h
      exact ⟨by rw [hxy, hs], hr⟩

/-- A code without empty words needs no length in front of a sequence. -/
theorem flatMap_injective {f : α → List σ} (hf : PrefixCode f) (hne : ∀ a, f a ≠ []) :
    Function.Injective (List.flatMap f) := by
  intro xs ys h
  induction xs generalizing ys with
  | nil =>
    cases ys with
    | nil => rfl
    | cons y ys =>
      rw [List.flatMap_nil, List.flatMap_cons] at h
      exact absurd (List.append_eq_nil_iff.mp h.symm).1 (hne y)
  | cons x xs ih =>
    cases ys with
    | nil =>
      rw [List.flatMap_nil, List.flatMap_cons] at h
      exact absurd (List.append_eq_nil_iff.mp h).1 (hne x)
    | cons y ys =>
      rw [List.flatMap_cons, List.flatMap_cons] at h
      obtain ⟨hxy, h⟩ := hf x y _ _ h
      rw [hxy, ih h]

end PrefixCode

end Blossom
