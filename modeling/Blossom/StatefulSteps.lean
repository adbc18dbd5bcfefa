import Blossom.CheckedSteps
import Mathlib.Logic.Relation

/-!
# Computations on a mutable state

A computation changes a state step by step and may fail; a failure keeps the changes made
before it. `Run R s m Q` says that from the state `s` the computation `m` changes the
state by steps of `R` only, and that a value it returns satisfies `Q` with the state it
leaves.
-/

namespace Blossom.StatefulSteps

open CheckedSteps

variable {σ ε α β γ : Type} {R : σ → σ → Prop}

/-- A computation that may fail and whose failures keep the changes made so far. -/
abbrev Action (σ ε α : Type) := EStateM ε σ α

/-- The state a computation leaves, whether or not it fails. -/
def after (m : Action σ ε α) (s : σ) : σ :=
  match m s with
  | .ok _ s' => s'
  | .error _ s' => s'

def returned (m : Action σ ε α) (s : σ) : Option α :=
  match m s with
  | .ok a _ => some a
  | .error _ _ => none

/-- A check that reads no state. -/
def check (x : Except ε α) : Action σ ε α := fun s =>
  match x with
  | .ok a => .ok a s
  | .error e => .error e s

/-- A read of the state that may fail. -/
def reading (f : σ → Except ε α) : Action σ ε α := fun s =>
  match f s with
  | .ok a => .ok a s
  | .error e => .error e s

/-- A computation whose failure is not passed on. -/
def attempt (m : Action σ ε α) : Action σ ε (Option α) := fun s =>
  match m s with
  | .ok a s' => .ok (some a) s'
  | .error _ s' => .ok none s'

def Run (R : σ → σ → Prop) (s : σ) (m : Action σ ε α) (Q : α → σ → Prop) : Prop :=
  match m s with
  | .ok a s' => Relation.ReflTransGen R s s' ∧ Q a s'
  | .error _ s' => Relation.ReflTransGen R s s'

section Rules

variable {s : σ} {Q : α → σ → Prop} {Q' : β → σ → Prop} {m : Action σ ε α} {f : α → Action σ ε β}
  {a : α} {e : ε}

theorem Run.pure (h : Q a s) : Run (ε := ε) R s (pure a) Q := ⟨.refl, h⟩

theorem Run.throw : Run R s (throw e : Action σ ε α) Q := Relation.ReflTransGen.refl

theorem Run.bind (hm : Run R s m Q) (hf : ∀ a s', Q a s' → Run R s' (f a) Q') :
    Run R s (m >>= f) Q' := by
  simp only [Run, Bind.bind, EStateM.bind] at hm ⊢
  cases h : m s with
  | error e s' => simpa only [h] using hm
  | ok a s' =>
    simp only [h] at hm
    have hrest := hf a s' hm.2
    simp only [Run] at hrest
    cases h' : f a s' with
    | error e s'' =>
      simp only [h'] at hrest ⊢
      exact hm.1.trans hrest
    | ok b s'' =>
      simp only [h'] at hrest ⊢
      exact ⟨hm.1.trans hrest.1, hrest.2⟩

theorem Run.bind_pure {f : α → β} (hm : Run R s m Q) :
    Run R s (m >>= fun a => Pure.pure (f a)) fun _ _ => True :=
  hm.bind fun _ _ _ => Run.pure trivial

theorem Run.mono {P : α → σ → Prop} (hm : Run R s m P) (h : ∀ a s', P a s' → Q a s') :
    Run R s m Q := by
  simp only [Run] at hm ⊢
  cases hs : m s with
  | error e s' => simpa only [hs] using hm
  | ok a s' =>
    simp only [hs] at hm ⊢
    exact ⟨hm.1, h a s' hm.2⟩

variable {s' t : σ}

theorem Run.ofSet {Q : PUnit → σ → Prop} (hR : Relation.ReflTransGen R s s')
    (h : Q ⟨⟩ s') : Run (ε := ε) R s (set s') Q := ⟨hR, h⟩

theorem Run.check {x : Except ε α} (h : ∀ a, x = .ok a → Q a s) : Run R s (check x) Q := by
  simp only [Run, StatefulSteps.check]
  cases x with
  | error e => exact .refl
  | ok a => exact ⟨.refl, h a rfl⟩

theorem Run.reading {f : σ → Except ε α} (h : ∀ a, f s = .ok a → Q a s) :
    Run R s (reading f) Q := by
  simp only [Run, StatefulSteps.reading]
  cases hf : f s with
  | error e => exact .refl
  | ok a => exact ⟨.refl, h a hf⟩

theorem Run.bind_get {f : σ → Action σ ε β} (h : Run R s (f s) Q') : Run R s (get >>= f) Q' := h

theorem Run.bind_set {f : PUnit → Action σ ε β} (hR : Relation.ReflTransGen R s s')
    (h : Run R s' (f ⟨⟩) Q') : Run R s (set s' >>= f) Q' := by
  refine Run.bind (Run.ofSet (Q := fun _ t => t = s') hR rfl) ?_
  rintro _ _ rfl
  exact h

theorem Run.bind_modify {g : σ → σ} {f : PUnit → Action σ ε β}
    (hR : Relation.ReflTransGen R s (g s)) (h : Run R (g s) (f ⟨⟩) Q') :
    Run R s (modify g >>= f) Q' := Run.bind_set hR h

theorem Run.bind_check {x : Except ε α} (h : ∀ a, x = .ok a → Run R s (f a) Q') :
    Run R s (StatefulSteps.check x >>= f) Q' := by
  refine Run.bind (Run.check (Q := fun a t => t = s ∧ x = .ok a) fun a ha => ⟨rfl, ha⟩) ?_
  rintro a _ ⟨rfl, ha⟩
  exact h a ha

theorem Run.bind_reading {g : σ → Except ε α} (h : ∀ a, g s = .ok a → Run R s (f a) Q') :
    Run R s (StatefulSteps.reading g >>= f) Q' := by
  refine Run.bind (Run.reading (Q := fun a t => t = s ∧ g s = .ok a) fun a ha => ⟨rfl, ha⟩) ?_
  rintro a _ ⟨rfl, ha⟩
  exact h a ha

theorem Run.attempt {Q : Option α → σ → Prop} (hm : Run R s m fun a => Q (some a))
    (hnone : ∀ e s', m s = .error e s' → Q none s') : Run R s (attempt m) Q := by
  simp only [Run, StatefulSteps.attempt] at hm ⊢
  cases h : m s with
  | error e s' =>
    simp only [h] at hm
    exact ⟨hm, hnone e s' h⟩
  | ok a s' => simpa only [h] using hm

theorem Run.forM {xs : List α} {f : α → Action σ ε PUnit} {I : σ → Prop} (hI : I s)
    (h : ∀ x ∈ xs, ∀ s', I s' → Run R s' (f x) fun _ => I) :
    Run R s (xs.forM f) fun _ => I := by
  induction xs generalizing s with
  | nil => exact Run.pure hI
  | cons x xs ih =>
    refine Run.bind (h x List.mem_cons_self s hI) fun _ s' hI' => ?_
    exact ih hI' fun y hy => h y (List.mem_cons_of_mem x hy)

/-- What the steps of a run carry along holds of the state it leaves. -/
theorem Run.carry {P : σ → Prop} (hstep : ∀ a b, R a b → P a → P b) (hs : P s) (h : Run R s m Q) :
    Run R s m fun _ => P := by
  have hall (t : σ) (hsteps : Relation.ReflTransGen R s t) : P t := by
    induction hsteps with
    | refl => exact hs
    | tail _ hlast ih => exact hstep _ _ hlast ih
  simp only [Run] at h ⊢
  cases hm : m s with
  | error e t => simpa only [hm] using h
  | ok a t =>
    simp only [hm] at h ⊢
    exact ⟨h.1, hall t h.1⟩

theorem Run.of_ok (h : Run R s m Q) (hm : m s = .ok a t) : Relation.ReflTransGen R s t ∧ Q a t := by
  simpa only [Run, hm] using h

theorem Run.of_error (h : Run R s m Q) (hm : m s = .error e t) : Relation.ReflTransGen R s t := by
  simpa only [Run, hm] using h

/-- Every state change of a computation is a sequence of steps. -/
theorem Run.after (h : Run R s m Q) : Relation.ReflTransGen R s (after m s) := by
  simp only [Run, StatefulSteps.after] at h ⊢
  cases hm : m s with
  | error e s' => simpa only [hm] using h
  | ok a s' =>
    simp only [hm] at h
    exact h.1

theorem bind_get (f : σ → Action σ ε β) : (get >>= f) s = f s s := rfl

theorem bind_of_ok (h : m s = .ok a s') (f : α → Action σ ε β) : (m >>= f) s = f a s' := by
  change EStateM.bind m f s = f a s'
  rw [EStateM.bind, h]

theorem bind_of_error (h : m s = .error e s') (f : α → Action σ ε β) :
    (m >>= f) s = .error e s' := by
  change EStateM.bind m f s = .error e s'
  rw [EStateM.bind, h]

theorem bind_returns {b : β} :
    (m >>= f) s = .ok b t ↔ ∃ a s', m s = .ok a s' ∧ f a s' = .ok b t := by
  cases h : m s with
  | error e s' =>
    rw [bind_of_error h]
    constructor
    · intro hbad
      cases hbad
    · rintro ⟨a, s'', hbad, -⟩
      cases hbad
  | ok a s' =>
    rw [bind_of_ok h]
    constructor
    · exact fun hf => ⟨a, s', rfl, hf⟩
    · rintro ⟨a', s'', hsame, hf⟩
      cases hsame
      exact hf

theorem bind_fails :
    (m >>= f) s = .error e t ↔
      m s = .error e t ∨ ∃ a s', m s = .ok a s' ∧ f a s' = .error e t := by
  cases h : m s with
  | error e' s' => simp [bind_of_error h]
  | ok a s' => simp [bind_of_ok h, and_assoc]

theorem check_fails {x : Except ε α} :
    StatefulSteps.check x s = .error e t ↔ x = .error e ∧ t = s := by
  cases x with
  | error e' => simp [StatefulSteps.check, eq_comm]
  | ok a => simp [StatefulSteps.check]

theorem reading_fails {f : σ → Except ε α} :
    StatefulSteps.reading f s = .error e t ↔ f s = .error e ∧ t = s := by
  unfold StatefulSteps.reading
  cases f s with
  | error e' => simp [eq_comm]
  | ok a => simp

theorem check_returns {x : Except ε α} : StatefulSteps.check x s = .ok a t ↔ x = .ok a ∧ t = s := by
  cases x with
  | error e => simp [StatefulSteps.check]
  | ok b => simp [StatefulSteps.check, eq_comm]

theorem reading_returns {f : σ → Except ε α} :
    StatefulSteps.reading f s = .ok a t ↔ f s = .ok a ∧ t = s := by
  unfold StatefulSteps.reading
  cases f s with
  | error e => simp
  | ok b => simp [eq_comm]

theorem bind_reject {p : Prop} [Decidable p] (h : ¬p) (f : Unit → Action σ ε β) :
    (StatefulSteps.check (reject p e) >>= f) s = f () s :=
  bind_of_ok (check_returns.mpr ⟨reject_eq_ok.mpr h, rfl⟩) f

theorem bind_require {x : Option α} (h : x = some a) (f : α → Action σ ε β) :
    (StatefulSteps.check (require x e) >>= f) s = f a s :=
  bind_of_ok (check_returns.mpr ⟨require_eq_ok.mpr h, rfl⟩) f

theorem returned_eq_some : returned m s = some a ↔ ∃ t, m s = .ok a t := by
  unfold returned
  cases m s <;> simp

theorem after_of_ok (h : m s = .ok a t) : StatefulSteps.after m s = t := by
  rw [StatefulSteps.after, h]

theorem after_of_error (h : m s = .error e t) : StatefulSteps.after m s = t := by
  rw [StatefulSteps.after, h]

/-- A computation that only passes on the one value of another one leaves what that one leaves. -/
theorem after_of_bind_pure {m' : Action σ ε β} {b : β} (heq : m' s = (m >>= f) s)
    (hm : ∀ a' t, m s = .ok a' t → a' = a) (hf : f a = pure b) :
    StatefulSteps.after m' s = StatefulSteps.after m s ∧ ∀ b' t, m' s = .ok b' t → b' = b := by
  cases h : m s with
  | error e t =>
    rw [bind_of_error h] at heq
    exact ⟨by rw [after_of_error heq, after_of_error h], fun _ _ hok => by cases heq.symm.trans hok⟩
  | ok a' t =>
    obtain rfl := hm a' t h
    rw [bind_of_ok h, hf] at heq
    exact ⟨by rw [after_of_ok heq, after_of_ok h],
      fun _ _ hok => by cases heq.symm.trans hok; rfl⟩

/-- Steps that compose are one step. -/
theorem Run.after_self (hrefl : ∀ a, R a a) (htrans : ∀ {a b c}, R a b → R b c → R a c)
    (h : Run R s m Q) : R s (StatefulSteps.after m s) := by
  have hsteps := h.after
  generalize StatefulSteps.after m s = s' at hsteps
  induction hsteps with
  | refl => exact hrefl s
  | tail _ hstep ih => exact htrans ih hstep

theorem Run.after_congr {γ : Type} {g : σ → γ} (h : Run (fun a b => g b = g a) s m Q) :
    g (StatefulSteps.after m s) = g s :=
  Run.after_self (R := fun a b => g b = g a) (fun _ => rfl) (fun hab hbc => hbc.trans hab) h

theorem Run.after_eq (h : Run Eq s m Q) : StatefulSteps.after m s = s :=
  (h.after_self (fun _ => rfl) Eq.trans).symm

theorem after_get_check (f : σ → Except ε α) :
    StatefulSteps.after (get >>= fun s' => StatefulSteps.check (f s')) s = s := by
  change (match StatefulSteps.check (f s) s with
    | .ok _ s' => s'
    | .error _ s' => s') = s
  cases f s <;> rfl

end Rules

end Blossom.StatefulSteps
