import Blossom.MajorityQuorum
import Mathlib.Data.List.TakeDrop

/-!
# Logs with a changing electorate

Replicas decide one entry for each position of a log. Between two entries the set of voters may
change, one member at a time; the number of changes is the generation.
-/

namespace Blossom.ReconfiguredLog

open MajorityQuorum

variable {M P E K : Type*} [DecidableEq M]
variable {k m n : ℕ} {d e e' : E} {a b q s t : Finset M} {changes l l' : List P}

/-- Voter sets that differ in at most one member. -/
def Adjacent (s t : Finset M) : Prop := ∃ x, t = insert x s ∨ t = s.erase x

theorem Adjacent.exists_common (h : Adjacent s t) (ha : IsMajority s a) (hb : IsMajority t b) :
    ∃ y ∈ a, y ∈ b := by
  obtain ⟨x, rfl | rfl⟩ := h
  · by_cases hx : x ∈ s
    · rw [Finset.insert_eq_of_mem hx] at hb
      exact ha.exists_common hb
    · exact ha.exists_common_insert hx hb
  · by_cases hx : x ∈ s
    · exact ha.exists_common_erase hx hb
    · rw [Finset.erase_eq_of_notMem hx] at hb
      exact ha.exists_common hb

/-- How changes and entries are read: the voters after a list of changes, the position before
which a change took effect, the generation an entry was decided in and its identity. -/
structure Reading (M P E K : Type*) where
  voters : List P → Finset M
  position : P → ℕ
  generation : E → ℕ
  key : E → K

/-- What the members have done: votes for changes by generation, confirmations of entries by
generation and position. -/
structure Ballots (M P K : Type*) where
  voted : M → ℕ → P → Prop
  confirmed : M → ℕ → ℕ → K → Prop

/-- What one replica has recorded. -/
structure Replica (P E : Type*) where
  changes : List P
  entries : List E

variable (read : Reading M P E K) (ballots : Ballots M P K)

/-- No member has voted or confirmed twice, and a member that has confirmed an entry does not
vote at its position in a later generation. -/
structure Faithful : Prop where
  vote_unique : ∀ {x g p p'}, ballots.voted x g p → ballots.voted x g p' → p = p'
  confirm_unique : ∀ {x g g' n k k'}, ballots.confirmed x g n k → ballots.confirmed x g' n k' →
    g = g' ∧ k = k'
  confirm_final : ∀ {x g g' n k p}, ballots.confirmed x g n k → ballots.voted x g' p →
    read.position p = n → g' ≤ g

def Certified (changes : List P) : Prop :=
  ∀ k p, changes[k]? = some p →
    ∃ q, IsMajority (read.voters (changes.take k)) q ∧ ∀ x ∈ q, ballots.voted x k p

/-- The record of a replica is backed by ballots, and an entry has the generation of the changes
that took effect before it. -/
structure Backed (r : Replica P E) : Prop where
  certified : Certified read ballots r.changes
  position_le : ∀ p ∈ r.changes, read.position p ≤ r.entries.length
  generation_le : ∀ e ∈ r.entries, read.generation e ≤ r.changes.length
  applied : ∀ {k p n e}, r.changes[k]? = some p → r.entries[n]? = some e →
    (read.position p ≤ n ↔ k < read.generation e)
  decided : ∀ {n e}, n ≠ 0 → r.entries[n]? = some e →
    ∃ q, IsMajority (read.voters (r.changes.take (read.generation e))) q ∧
      ∀ x ∈ q, ballots.confirmed x (read.generation e) n (read.key e)

/-- `later` has every ballot that `ballots` has. -/
structure Ballots.Extends (later : Ballots M P K) : Prop where
  voted : ∀ {x g p}, ballots.voted x g p → later.voted x g p
  confirmed : ∀ {x g n k}, ballots.confirmed x g n k → later.confirmed x g n k

variable {read ballots}

theorem getElem?_concat_cases {α : Type*} {l : List α} {x y : α} (h : (l ++ [x])[k]? = some y) :
    k < l.length ∧ l[k]? = some y ∨ k = l.length ∧ x = y := by
  rcases Nat.lt_trichotomy k l.length with hk | rfl | hk
  · rw [List.getElem?_append_left hk] at h
    exact .inl ⟨hk, h⟩
  · rw [List.getElem?_concat_length, Option.some.injEq] at h
    exact .inr ⟨rfl, h⟩
  · rw [List.getElem?_eq_none (by simpa using Nat.succ_le_of_lt hk)] at h
    cases h

section Recording

variable {later : Ballots M P K} {r : Replica P E}

section

omit [DecidableEq M]

theorem Certified.mono (hext : ballots.Extends later) (h : Certified read ballots changes) :
    Certified read later changes := by
  intro k p hp
  obtain ⟨q, hq, hvote⟩ := h k p hp
  exact ⟨q, hq, fun x hx => hext.voted (hvote x hx)⟩

theorem Backed.mono (hext : ballots.Extends later) (h : Backed read ballots r) :
    Backed read later r where
  certified := h.certified.mono hext
  position_le := h.position_le
  generation_le := h.generation_le
  applied := h.applied
  decided := by
    intro n e hn he
    obtain ⟨q, hq, hconf⟩ := h.decided hn he
    exact ⟨q, hq, fun x hx => hext.confirmed (hconf x hx)⟩

theorem Backed.empty : Backed read ballots ⟨[], []⟩ := by
  constructor <;> simp [Certified]

theorem Backed.root (h : read.generation e = 0) : Backed read ballots ⟨[], [e]⟩ := by
  refine ⟨by simp [Certified], by simp, by simp [h], by simp, ?_⟩
  intro n d hn hd
  have hlt := (List.getElem?_eq_some_iff.mp hd).1
  simp only [List.length_singleton] at hlt
  omega

/-- A change that a majority has voted for takes effect at the next position. -/
theorem Backed.append_change (h : Backed read ballots r) {p : P}
    (hpos : read.position p = r.entries.length) (hq : IsMajority (read.voters r.changes) q)
    (hvote : ∀ x ∈ q, ballots.voted x r.changes.length p) :
    Backed read ballots ⟨r.changes ++ [p], r.entries⟩ where
  certified := by
    intro k p' hp'
    rcases getElem?_concat_cases hp' with ⟨hk, hp'⟩ | ⟨rfl, rfl⟩
    · rw [List.take_append_of_le_length hk.le]
      exact h.certified k p' hp'
    · rw [List.take_left]
      exact ⟨q, hq, hvote⟩
  position_le := by
    intro p' hp'
    rcases List.mem_append.mp hp' with hp' | hp'
    · exact h.position_le p' hp'
    · rw [List.mem_singleton.mp hp', hpos]
  generation_le := by
    intro e he
    simpa using (h.generation_le e he).trans (Nat.le_succ _)
  applied := by
    intro k p' n e hp' he
    have hn : n < r.entries.length := (List.getElem?_eq_some_iff.mp he).1
    have hgen := h.generation_le e (List.mem_of_getElem? he)
    rcases getElem?_concat_cases hp' with ⟨-, hp'⟩ | ⟨rfl, rfl⟩
    · exact h.applied hp' he
    · rw [hpos]
      omega
  decided := by
    intro n e hn he
    obtain ⟨q, hq, hconf⟩ := h.decided hn he
    rw [← List.take_append_of_le_length (h.generation_le e (List.mem_of_getElem? he))] at hq
    exact ⟨q, hq, hconf⟩

theorem Backed.append_entry (h : Backed read ballots r)
    (hgen : read.generation e = r.changes.length) (hq : IsMajority (read.voters r.changes) q)
    (hconf : ∀ x ∈ q, ballots.confirmed x r.changes.length r.entries.length (read.key e)) :
    Backed read ballots ⟨r.changes, r.entries ++ [e]⟩ where
  certified := h.certified
  position_le := fun p hp => by simpa using (h.position_le p hp).trans (Nat.le_succ _)
  generation_le := by
    intro d hd
    rcases List.mem_append.mp hd with hd | hd
    · exact h.generation_le d hd
    · rw [List.mem_singleton.mp hd, hgen]
  applied := by
    intro k p n d hp hd
    rcases getElem?_concat_cases hd with ⟨-, hd⟩ | ⟨rfl, rfl⟩
    · exact h.applied hp hd
    · have hk : k < r.changes.length := (List.getElem?_eq_some_iff.mp hp).1
      have hle := h.position_le p (List.mem_of_getElem? hp)
      rw [hgen]
      exact ⟨fun _ => hk, fun _ => hle⟩
  decided := by
    intro n d hn hd
    rcases getElem?_concat_cases hd with ⟨-, hd⟩ | ⟨rfl, rfl⟩
    · exact h.decided hn hd
    · rw [hgen, List.take_length]
      exact ⟨q, hq, hconf⟩

end

end Recording

/-- Two certified lists of changes agree as far as both go. -/
theorem Certified.take_eq (hf : Faithful read ballots) (h : Certified read ballots l)
    (h' : Certified read ballots l') (hk : k ≤ l.length) (hk' : k ≤ l'.length) :
    l.take k = l'.take k := by
  induction k with
  | zero => simp
  | succ k ih =>
    have hpre := ih (by omega) (by omega)
    have hp : l[k]? = some l[k] := List.getElem?_eq_getElem hk
    have hp' : l'[k]? = some l'[k] := List.getElem?_eq_getElem hk'
    obtain ⟨q, hq, hvote⟩ := h k _ hp
    obtain ⟨q', hq', hvote'⟩ := h' k _ hp'
    rw [← hpre] at hq'
    obtain ⟨x, hx, hx'⟩ := hq.exists_common hq'
    have heq := hf.vote_unique (hvote x hx) (hvote' x hx')
    rw [List.take_succ_eq_append_getElem hk, List.take_succ_eq_append_getElem hk', hpre, heq]

theorem Certified.getElem?_eq (hf : Faithful read ballots) (h : Certified read ballots l)
    (h' : Certified read ballots l') {p p' : P} (hp : l[k]? = some p) (hp' : l'[k]? = some p') :
    p = p' := by
  have hk := (List.getElem?_eq_some_iff.mp hp).1
  have hk' := (List.getElem?_eq_some_iff.mp hp').1
  have htake := h.take_eq hf h' (k := k + 1) hk hk'
  have heq : (l.take (k + 1))[k]? = (l'.take (k + 1))[k]? := by rw [htake]
  simpa [hp, hp'] using heq

variable {r r' : Replica P E}

omit [DecidableEq M] in
theorem Backed.generation_mono (h : Backed read ballots r) (hd : r.entries[m]? = some d)
    (he : r.entries[n]? = some e) (hmn : m ≤ n) : read.generation d ≤ read.generation e := by
  by_contra hlt
  have hle := h.generation_le d (List.mem_of_getElem? hd)
  have hp : r.changes[read.generation e]? = some r.changes[read.generation e] :=
    List.getElem?_eq_getElem (by omega)
  have hpos := (h.applied hp hd).mpr (by omega)
  have := (h.applied hp he).mp (hpos.trans hmn)
  omega

/-- If the replicas have the same generations below position `n`, the entry of one of them at
`n` cannot be of a later generation: the majority that confirmed the earlier one reaches into
the majority that acted at `n` in the next generation. -/
theorem Backed.generation_le_of_below (hf : Faithful read ballots)
    (hadj : ∀ l p, Adjacent (read.voters l) (read.voters (l ++ [p]))) (h : Backed read ballots r)
    (h' : Backed read ballots r') (hn : n ≠ 0)
    (hbelow : ∀ m < n, ∀ d d', r.entries[m]? = some d → r'.entries[m]? = some d' →
      read.generation d = read.generation d')
    (he : r.entries[n]? = some e) (he' : r'.entries[n]? = some e') :
    read.generation e' ≤ read.generation e := by
  by_contra hlt
  rw [not_le] at hlt
  have hlen : n < r.entries.length := (List.getElem?_eq_some_iff.mp he).1
  have hlen' : n < r'.entries.length := (List.getElem?_eq_some_iff.mp he').1
  have hchg := h.generation_le e (List.mem_of_getElem? he)
  have hchg' := h'.generation_le e' (List.mem_of_getElem? he')
  have hp : r'.changes[read.generation e]? = some r'.changes[read.generation e] :=
    List.getElem?_eq_getElem (by omega)
  have hpos := (h'.applied hp he').mpr hlt
  rcases hpos.lt_or_eq with hm | hm
  · -- the change took effect at an earlier position, where the generations already differ
    have hd : r.entries[read.position r'.changes[read.generation e]]? = some _ :=
      List.getElem?_eq_getElem (hm.trans hlen)
    have hd' : r'.entries[read.position r'.changes[read.generation e]]? = some _ :=
      List.getElem?_eq_getElem (hm.trans hlen')
    have hgen := hbelow _ hm _ _ hd hd'
    have hmono := h.generation_mono hd he hm.le
    have hnew := (h'.applied hp hd').mp le_rfl
    omega
  · -- the change took effect right before position `n`
    obtain ⟨q, hq, hconf⟩ := h.decided hn he
    rw [h.certified.take_eq hf h'.certified hchg (by omega)] at hq
    have hvoters := hadj (r'.changes.take (read.generation e)) r'.changes[read.generation e]
    rw [← List.take_succ_eq_append_getElem (by omega)] at hvoters
    rcases (Nat.succ_le_of_lt hlt).lt_or_eq with hnext | hnext
    · have hp₂ : r'.changes[read.generation e + 1]? = some r'.changes[read.generation e + 1] :=
        List.getElem?_eq_getElem (by omega)
      have hpos₂ := (h'.applied hp₂ he').mpr hnext
      have hpos_eq : read.position r'.changes[read.generation e + 1] = n := by
        by_contra hne
        have hm₂ : read.position r'.changes[read.generation e + 1] < n := by omega
        have hd : r'.entries[read.position r'.changes[read.generation e + 1]]? = some _ :=
          List.getElem?_eq_getElem (hm₂.trans hlen')
        have hnew := (h'.applied hp₂ hd).mp le_rfl
        have hold := (h'.applied hp hd).mpr (by omega)
        omega
      obtain ⟨q₂, hq₂, hvote⟩ := h'.certified _ _ hp₂
      obtain ⟨x, hx, hx₂⟩ := hvoters.exists_common hq hq₂
      have := hf.confirm_final (hconf x hx) (hvote x hx₂) hpos_eq
      omega
    · obtain ⟨q₂, hq₂, hconf₂⟩ := h'.decided hn he'
      rw [← hnext] at hq₂ hconf₂
      obtain ⟨x, hx, hx₂⟩ := hvoters.exists_common hq hq₂
      have := (hf.confirm_unique (hconf x hx) (hconf₂ x hx₂)).1
      omega

/-- Replicas that start from one entry agree on every entry. -/
theorem Backed.key_eq (hf : Faithful read ballots)
    (hadj : ∀ l p, Adjacent (read.voters l) (read.voters (l ++ [p])))
    (hkey : ∀ e e', read.key e = read.key e' → read.generation e = read.generation e')
    (h : Backed read ballots r) (h' : Backed read ballots r')
    (hroot : ∀ e e', r.entries[0]? = some e → r'.entries[0]? = some e' → read.key e = read.key e')
    (he : r.entries[n]? = some e) (he' : r'.entries[n]? = some e') : read.key e = read.key e' := by
  induction n using Nat.strong_induction_on generalizing e e' with
  | _ n ih =>
    rcases eq_or_ne n 0 with rfl | hn
    · exact hroot e e' he he'
    have hgen : read.generation e = read.generation e' := by
      apply le_antisymm
      · exact h'.generation_le_of_below hf hadj h hn
          (fun m hm d d' hd hd' => (hkey _ _ (ih m hm hd' hd)).symm) he' he
      · exact h.generation_le_of_below hf hadj h' hn
          (fun m hm d d' hd hd' => hkey _ _ (ih m hm hd hd')) he he'
    obtain ⟨q, hq, hconf⟩ := h.decided hn he
    obtain ⟨q', hq', hconf'⟩ := h'.decided hn he'
    have hle := h.generation_le e (List.mem_of_getElem? he)
    have hle' := h'.generation_le e' (List.mem_of_getElem? he')
    rw [← hgen] at hq' hconf' hle'
    rw [← h.certified.take_eq hf h'.certified hle hle'] at hq'
    obtain ⟨x, hx, hx'⟩ := hq.exists_common hq'
    exact (hf.confirm_unique (hconf x hx) (hconf' x hx')).2

end Blossom.ReconfiguredLog
