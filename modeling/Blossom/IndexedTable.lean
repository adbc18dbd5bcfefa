import Mathlib.Data.List.Basic
import Mathlib.Data.List.Range
import Mathlib.Tactic.Ring

/-!
# Tables keyed by consecutive indices

A list kept in a sorted key-value table, one row for each position. Appending inserts a
row at the length, and replacing a suffix removes the old rows from its start on and
inserts the new ones.
-/

namespace Blossom.IndexedTable

variable {α : Type}

/-- The rows of a list whose first element has key `k`. -/
def numbered (k : ℕ) : List α → List (ℕ × α)
  | [] => []
  | x :: xs => (k, x) :: numbered (k + 1) xs

/-- Reads the rows back if their keys are `k`, `k + 1`, and so on. -/
def unnumber (k : ℕ) : List (ℕ × α) → Option (List α)
  | [] => some []
  | (j, x) :: rows => if j = k then (unnumber (k + 1) rows).map (x :: ·) else none

def insertRow (k : ℕ) (v : α) : List (ℕ × α) → List (ℕ × α)
  | [] => [(k, v)]
  | (j, w) :: rows =>
    if k < j then (k, v) :: (j, w) :: rows
    else if k = j then (k, v) :: rows
    else (j, w) :: insertRow k v rows

def removeRow (k : ℕ) (rows : List (ℕ × α)) : List (ℕ × α) := rows.filter fun r => decide (r.1 ≠ k)

def removeRange (start stop : ℕ) (rows : List (ℕ × α)) : List (ℕ × α) :=
  (List.range' start (stop - start)).foldl (fun rows k => removeRow k rows) rows

def insertFrom (start : ℕ) : List α → List (ℕ × α) → List (ℕ × α)
  | [], rows => rows
  | v :: vs, rows => insertFrom (start + 1) vs (insertRow start v rows)

/-- The number of leading positions at which two lists are related. -/
def commonLength (same : α → α → Bool) (old new : List α) : ℕ :=
  ((old.zip new).takeWhile fun p => same p.1 p.2).length

@[simp] theorem unnumber_numbered (k : ℕ) (xs : List α) :
    unnumber k (numbered k xs) = some xs := by
  induction xs generalizing k with
  | nil => rfl
  | cons x xs ih => simp [numbered, unnumber, ih]

theorem numbered_append (k : ℕ) (xs ys : List α) :
    numbered k (xs ++ ys) = numbered k xs ++ numbered (k + xs.length) ys := by
  induction xs generalizing k with
  | nil => simp [numbered]
  | cons x xs ih =>
    have hk : k + 1 + xs.length = k + (xs.length + 1) := by ring
    simp [numbered, ih, hk]

theorem insertRow_numbered (k : ℕ) (v : α) (xs : List α) :
    insertRow (k + xs.length) v (numbered k xs) = numbered k (xs ++ [v]) := by
  induction xs generalizing k with
  | nil => rfl
  | cons x xs ih =>
    have hlt : ¬k + (x :: xs).length < k := by omega
    have hne : ¬k + (x :: xs).length = k := by simp
    have hk : k + (x :: xs).length = k + 1 + xs.length := by simp; ring
    simp only [numbered, insertRow, List.cons_append, if_neg hlt, if_neg hne]
    rw [hk, ih]

theorem insertFrom_numbered (xs ys : List α) :
    insertFrom xs.length ys (numbered 0 xs) = numbered 0 (xs ++ ys) := by
  induction ys generalizing xs with
  | nil => simp [insertFrom]
  | cons y ys ih =>
    have hone : insertRow xs.length y (numbered 0 xs) = numbered 0 (xs ++ [y]) := by
      simpa using insertRow_numbered 0 y xs
    have hlen : xs.length + 1 = (xs ++ [y]).length := by simp
    rw [insertFrom, hone, hlen, ih]
    simp

theorem le_key_of_mem_numbered {k : ℕ} {xs : List α} {r : ℕ × α} (h : r ∈ numbered k xs) :
    k ≤ r.1 ∧ r.1 < k + xs.length := by
  induction xs generalizing k with
  | nil => simp [numbered] at h
  | cons x xs ih =>
    rcases List.mem_cons.mp h with rfl | h
    · simp
    · have hr := ih h
      simp only [List.length_cons]
      omega

theorem foldl_removeRow_range (n start : ℕ) (rows : List (ℕ × α)) :
    (List.range' start n).foldl (fun rows k => removeRow k rows) rows =
      rows.filter fun r => decide (r.1 < start ∨ start + n ≤ r.1) := by
  induction n generalizing start rows with
  | zero =>
    have hall : ∀ r ∈ rows, decide (r.1 < start ∨ start + 0 ≤ r.1) = true := by
      intro r _
      simp only [decide_eq_true_eq]
      omega
    rw [List.filter_eq_self.mpr hall]
    rfl
  | succ n ih =>
    rw [List.range'_succ, List.foldl_cons, ih, removeRow, List.filter_filter]
    apply List.filter_congr
    intro r _
    rw [← Bool.decide_and, decide_eq_decide]
    omega

theorem removeRange_numbered {start : ℕ} {xs : List α} (h : start ≤ xs.length) :
    removeRange start xs.length (numbered 0 xs) = numbered 0 (xs.take start) := by
  have hsplit : numbered 0 xs =
      numbered 0 (xs.take start) ++ numbered start (xs.drop start) := by
    have happ := numbered_append 0 (xs.take start) (xs.drop start)
    rwa [List.take_append_drop, List.length_take, Nat.min_eq_left h, Nat.zero_add] at happ
  rw [removeRange, foldl_removeRow_range, Nat.add_sub_cancel' h, hsplit, List.filter_append,
    List.filter_eq_self.mpr, List.filter_eq_nil_iff.mpr, List.append_nil]
  · intro r hr
    have hk := le_key_of_mem_numbered hr
    rw [List.length_drop] at hk
    simp only [decide_eq_true_eq]
    omega
  · intro r hr
    have hk := le_key_of_mem_numbered hr
    rw [List.length_take] at hk
    simp only [decide_eq_true_eq]
    omega

theorem replace_suffix {start : ℕ} {xs : List α} (ys : List α) (h : start ≤ xs.length) :
    insertFrom start ys (removeRange start xs.length (numbered 0 xs)) =
      numbered 0 (xs.take start ++ ys) := by
  have hlen : (xs.take start).length = start := by simp [h]
  have hins := insertFrom_numbered (xs.take start) ys
  rwa [hlen, ← removeRange_numbered h] at hins

theorem commonLength_le (same : α → α → Bool) (old new : List α) :
    commonLength same old new ≤ old.length ∧ commonLength same old new ≤ new.length := by
  have h : commonLength same old new ≤ (old.zip new).length := (List.takeWhile_sublist _).length_le
  rw [List.length_zip] at h
  omega

/-- Related elements at one position of the two lists are equal. -/
def Agree (same : α → α → Bool) (old new : List α) : Prop :=
  ∀ (i : ℕ) (x y : α), old[i]? = some x → new[i]? = some y → same x y = true → x = y

theorem agree_of_mem {same : α → α → Bool} {old new : List α}
    (h : ∀ x ∈ old, ∀ y ∈ new, same x y = true → x = y) : Agree same old new :=
  fun _ x y hx hy => h x (List.mem_of_getElem? hx) y (List.mem_of_getElem? hy)

theorem take_commonLength {same : α → α → Bool} {old new : List α} (h : Agree same old new) :
    old.take (commonLength same old new) = new.take (commonLength same old new) := by
  induction old generalizing new with
  | nil => simp [commonLength]
  | cons x old ih =>
    cases new with
    | nil => simp [commonLength]
    | cons y new =>
      by_cases hs : same x y = true
      · have hxy := h 0 x y rfl rfl hs
        have ht := @ih new fun i a b ha hb => h (i + 1) a b ha hb
        have hc : commonLength same (x :: old) (y :: new) = commonLength same old new + 1 := by
          simp [commonLength, hs]
        rw [hc, List.take_succ_cons, List.take_succ_cons, hxy, ht]
      · simp [commonLength, hs]

end Blossom.IndexedTable
