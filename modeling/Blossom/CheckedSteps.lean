import Mathlib.Data.List.Basic
import Mathlib.Data.List.Forall2

/-!
# Checked sequential computations

Inversion rules for programs that run a sequence of guards and stop at the first
one that fails. A successful run has passed every guard in its path.
-/

namespace Blossom.CheckedSteps

variable {ε α β : Type}

/-- Stop with `e` when the guard `p` is met. -/
def reject (p : Prop) [Decidable p] (e : ε) : Except ε Unit :=
  if p then .error e else .ok ()

/-- Unwrap an optional value or stop with `e`. -/
def require (x : Option α) (e : ε) : Except ε α :=
  match x with
  | some a => .ok a
  | none => .error e

variable {x : Except ε α} {xs : List α} {a : α} {e : ε}

@[simp] theorem bind_eq_ok {f : α → Except ε β} {b : β} :
    (x >>= f) = .ok b ↔ ∃ a, x = .ok a ∧ f a = .ok b := by
  cases x with
  | error e => simp [bind, Except.bind]
  | ok a => simp [bind, Except.bind]

/-- A guard in front of a computation has to pass first. -/
@[simp high] theorem guard_bind_eq_ok {x : Except ε Unit} {f : Unit → Except ε β} {b : β} :
    (x >>= f) = .ok b ↔ x = .ok () ∧ f () = .ok b := by
  cases x with
  | error e => simp [bind, Except.bind]
  | ok a => simp [bind, Except.bind]

@[simp] theorem pure_eq_ok {a b : α} : (pure a : Except ε α) = .ok b ↔ a = b := by
  simp [pure, Except.pure]

@[simp] theorem reject_eq_ok {p : Prop} [Decidable p] {u : Unit} : reject p e = .ok u ↔ ¬p := by
  by_cases h : p <;> simp [reject, h]

@[simp] theorem require_eq_ok {x : Option α} : require x e = .ok a ↔ x = some a := by
  cases x <;> simp [require]

/-- A loop of guards succeeds exactly when each of its iterations does. -/
@[simp] theorem forM_eq_ok {f : α → Except ε Unit} {u : Unit} :
    forM xs f = .ok u ↔ ∀ x ∈ xs, f x = .ok () := by
  induction xs with
  | nil => simp
  | cons x xs ih => simp [List.forM_cons, ih]

@[simp] theorem ite_error_eq_ok {p : Prop} [Decidable p] :
    (if p then .error e else x) = .ok a ↔ ¬p ∧ x = .ok a := by
  by_cases h : p <;> simp [h]

/-- What every iteration of a loop with an accumulator keeps holds of its result. -/
theorem foldlM_invariant {P : β → Prop} {f : β → α → Except ε β} {init result : β}
    (step : ∀ acc x next, P acc → f acc x = .ok next → P next) (hinit : P init)
    (h : xs.foldlM f init = .ok result) : P result := by
  induction xs generalizing init with
  | nil =>
    rw [List.foldlM_nil, pure_eq_ok] at h
    exact h ▸ hinit
  | cons x xs ih =>
    rw [List.foldlM_cons, bind_eq_ok] at h
    obtain ⟨next, hx, h⟩ := h
    exact ih (step init x next hinit hx) h

theorem exists_of_isOk (h : x.isOk = true) : ∃ a, x = .ok a := by
  cases x with
  | error e => cases h
  | ok a => exact ⟨a, rfl⟩

theorem exists_of_check {p : α → Prop} [DecidablePred p]
    (h : (x.toOption.any fun a => decide (p a)) = true) : ∃ a, x = .ok a ∧ p a := by
  cases x with
  | error e => cases h
  | ok a => exact ⟨a, rfl, of_decide_eq_true h⟩

theorem exists_of_foldlM {f : β → α → Except ε β} {init result : β}
    (h : xs.foldlM f init = .ok result) {x : α} (hx : x ∈ xs) : ∃ acc next, f acc x = .ok next := by
  induction xs generalizing init with
  | nil => cases hx
  | cons y xs ih =>
    rw [List.foldlM_cons, bind_eq_ok] at h
    obtain ⟨next, hy, h⟩ := h
    rcases List.mem_cons.mp hx with rfl | hx
    · exact ⟨init, next, hy⟩
    · exact ih h hx

/-- Two loops whose iterations cannot return different values do not return different values. -/
theorem foldlM_unique {f g : β → α → Except ε β} {init a b : β}
    (step : ∀ acc x a b, f acc x = .ok a → g acc x = .ok b → a = b)
    (ha : xs.foldlM f init = .ok a) (hb : xs.foldlM g init = .ok b) : a = b := by
  induction xs generalizing init with
  | nil =>
    rw [List.foldlM_nil, pure_eq_ok] at ha hb
    exact ha.symm.trans hb
  | cons x xs ih =>
    rw [List.foldlM_cons, bind_eq_ok] at ha hb
    obtain ⟨next, hx, ha⟩ := ha
    obtain ⟨next', hx', hb⟩ := hb
    rw [step init x next next' hx hx'] at ha
    exact ih ha hb

/-- A loop that ends without a property it began with loses the property in one iteration. -/
theorem exists_lost_of_foldl {P : β → Prop} {f : β → α → β} {init : β} (hinit : P init)
    (hlost : ¬P (xs.foldl f init)) :
    ∃ before x after, xs = before ++ x :: after ∧ P (before.foldl f init) ∧
      ¬P (f (before.foldl f init) x) := by
  induction xs generalizing init with
  | nil => exact absurd hinit hlost
  | cons x xs ih =>
    by_cases hnext : P (f init x)
    · obtain ⟨before, y, after, rfl, hbefore, hafter⟩ := ih hnext hlost
      exact ⟨x :: before, y, after, rfl, hbefore, hafter⟩
    · exact ⟨[], x, xs, rfl, hinit, hnext⟩

theorem mapM_eq_ok {f : α → Except ε β} {ys : List β} :
    xs.mapM f = .ok ys ↔ List.Forall₂ (fun x y => f x = .ok y) xs ys := by
  induction xs generalizing ys with
  | nil =>
    rw [List.mapM_nil, pure_eq_ok, List.forall₂_nil_left_iff, eq_comm]
  | cons x xs ih =>
    rw [List.mapM_cons, bind_eq_ok, List.forall₂_cons_left_iff]
    constructor
    · rintro ⟨y, hy, h⟩
      obtain ⟨rest, hrest, h⟩ := bind_eq_ok.mp h
      exact ⟨y, rest, hy, ih.mp hrest, (pure_eq_ok.mp h).symm⟩
    · rintro ⟨y, rest, hy, hrest, rfl⟩
      exact ⟨y, hy, bind_eq_ok.mpr ⟨rest, ih.mpr hrest, rfl⟩⟩

/-- Every failure of `x` is of the kind `p`. -/
def FailsOnly (p : ε → Prop) (x : Except ε α) : Prop := ∀ e, x = .error e → p e

section FailsOnly

variable {p : ε → Prop}

@[simp] theorem failsOnly_ok : FailsOnly p (.ok a : Except ε α) := nofun

@[simp] theorem failsOnly_pure : FailsOnly p (pure a : Except ε α) := nofun

@[simp] theorem failsOnly_error : FailsOnly p (.error e : Except ε α) ↔ p e := by
  simp [FailsOnly]

@[simp] theorem failsOnly_bind {f : α → Except ε β} :
    FailsOnly p (x >>= f) ↔ FailsOnly p x ∧ ∀ a, x = .ok a → FailsOnly p (f a) := by
  cases x with
  | error e => simp [FailsOnly, bind, Except.bind]
  | ok a => simp [FailsOnly, bind, Except.bind]

@[simp] theorem failsOnly_map {f : α → β} : FailsOnly p (f <$> x) ↔ FailsOnly p x := by
  cases x <;> simp [FailsOnly, Functor.map, Except.map]

@[simp] theorem failsOnly_require {x : Option α} :
    FailsOnly p (require x e) ↔ (x = none → p e) := by
  cases x <;> simp [require]

@[simp] theorem FailsOnly.mapM {f : α → Except ε β} (h : ∀ x ∈ xs, FailsOnly p (f x)) :
    FailsOnly p (xs.mapM f) := by
  induction xs with
  | nil => exact failsOnly_pure
  | cons x xs ih =>
    obtain ⟨hx, hxs⟩ := List.forall_mem_cons.mp h
    rw [List.mapM_cons, failsOnly_bind]
    exact ⟨hx, fun _ _ => failsOnly_bind.mpr ⟨ih hxs, fun _ _ => failsOnly_pure⟩⟩

@[simp] theorem FailsOnly.foldlM {f : β → α → Except ε β} {init : β}
    (h : ∀ x ∈ xs, ∀ acc, FailsOnly p (f acc x)) : FailsOnly p (xs.foldlM f init) := by
  induction xs generalizing init with
  | nil => exact failsOnly_pure
  | cons x xs ih =>
    obtain ⟨hx, hxs⟩ := List.forall_mem_cons.mp h
    rw [List.foldlM_cons, failsOnly_bind]
    exact ⟨hx init, fun _ _ => ih hxs⟩

end FailsOnly

theorem not_any_ne [DecidableEq α] {x : Option α} :
    ¬(x.any fun b => decide (b ≠ a)) = true ↔ ∀ b ∈ x, b = a := by
  cases x <;> simp

end Blossom.CheckedSteps
