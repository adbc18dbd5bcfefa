import Mathlib.Order.Compare
import Mathlib.Data.Finset.Card
import Mathlib.Data.List.Pairwise
import Mathlib.Data.List.Sort

/-!
# Ordered maps and sets

The ordered map of the standard library, at the order of its keys. Two maps with the
same entries are equal, the entries come in the order of their keys, and every fact is
read off a lookup.
-/

namespace Blossom.OrderedMap

variable {K V : Type} [LinearOrder K]
variable {entries : List (K × V)} {v w : V}

/-- The order of the keys decides their equality, whatever equality test the type has. -/
instance lawfulEqCmp : Std.LawfulEqCmp (compare : K → K → Ordering) :=
  ⟨fun h => compare_eq_iff_eq.mp h⟩

instance transCmp : Std.TransCmp (compare : K → K → Ordering) :=
  letI : BEq K := instBEqOfDecidableEq
  inferInstance

abbrev BTreeMap (K V : Type) [LinearOrder K] := Std.ExtTreeMap K V compare

abbrev BTreeSet (K : Type) [LinearOrder K] := Std.ExtTreeSet K compare

instance lawfulSet : LawfulBEq (BTreeSet K) := inferInstance

def values (m : BTreeMap K V) : List V := m.toList.map Prod.snd

variable {m : BTreeMap K V} {k : K} {v : V}

theorem mem_values : v ∈ values m ↔ ∃ k : K, m[k]? = some v := by
  simp [values, Std.ExtTreeMap.mem_toList_iff_getElem?_eq_some]

theorem values_filter (t : BTreeMap K V) (p : V → Bool) :
    (values t).filter p = values (t.filter fun _ v => p v) := by
  simp [values, Std.ExtTreeMap.toList_filter, List.filter_map, Function.comp_def]

theorem map_eq_iff_keys_values {m n : BTreeMap K V} :
    (m.keys = n.keys ∧ values m = values n) ↔ m = n := by
  constructor
  · rintro ⟨hk, hv⟩
    rw [← Std.ExtTreeMap.map_fst_toList_eq_keys, ← Std.ExtTreeMap.map_fst_toList_eq_keys] at hk
    apply Std.ExtTreeMap.toList_inj.mp
    rw [← List.zip_unzip m.toList, ← List.zip_unzip n.toList]
    simp only [List.unzip_eq_map]
    rw [hk]
    exact congrArg _ hv
  · rintro rfl
    exact ⟨rfl, rfl⟩

theorem lookup_insert (m : BTreeMap K V) (k a : K) (v : V) :
    (m.insert k v)[a]? = if k = a then some v else m[a]? := by
  simp [Std.ExtTreeMap.getElem?_insert]

theorem lookup_insert_eq_some {k a : K} :
    (m.insert k v)[a]? = some w ↔ k = a ∧ v = w ∨ k ≠ a ∧ m[a]? = some w := by
  rw [lookup_insert]
  split <;> simp [*]

theorem lookup_insert_of_new {k a : K} (hnew : m[k]? = none) (h : m[a]? = some w) :
    (m.insert k v)[a]? = some w := by
  refine lookup_insert_eq_some.mpr (.inr ⟨?_, h⟩)
  rintro rfl
  exact nomatch hnew.symm.trans h

theorem lookup_erase (m : BTreeMap K V) (k a : K) :
    (m.erase k)[a]? = if k = a then none else m[a]? := by
  simp [Std.ExtTreeMap.getElem?_erase]

theorem lookup_erase_eq_some {k a : K} : (m.erase k)[a]? = some w ↔ k ≠ a ∧ m[a]? = some w := by
  rw [lookup_erase]
  split <;> simp [*]

theorem contains_iff : m.contains k = true ↔ ∃ v, m[k]? = some v := by
  rw [Std.ExtTreeMap.contains_iff_mem, Std.ExtTreeMap.mem_iff_isSome_getElem?,
    Option.isSome_iff_exists]

theorem isEmpty_eq_false_iff : m.isEmpty = false ↔ ∃ k : K, m.contains k = true := by
  rw [Bool.eq_false_iff, ne_eq, Std.ExtTreeMap.isEmpty_iff,
    Std.ExtTreeMap.eq_empty_iff_forall_not_mem, not_forall_not]
  simp only [Std.ExtTreeMap.mem_iff_contains]

theorem mem_keys : k ∈ m.keys.toFinset ↔ ∃ v, m[k]? = some v := by
  rw [List.mem_toFinset, Std.ExtTreeMap.mem_keys, Std.ExtTreeMap.mem_iff_isSome_getElem?,
    Option.isSome_iff_exists]

theorem card_keys (m : BTreeMap K V) : m.keys.toFinset.card = m.size := by
  rw [List.toFinset_card_of_nodup, Std.ExtTreeMap.length_keys]
  exact Std.ExtTreeMap.distinct_keys.imp fun h hne => h (compare_eq_iff_eq.mpr hne)

theorem card_elements (s : BTreeSet K) : s.toList.toFinset.card = s.size := by
  rw [List.toFinset_card_of_nodup, Std.ExtTreeSet.length_toList]
  exact Std.ExtTreeSet.distinct_toList.imp fun h hne => h (compare_eq_iff_eq.mpr hne)

variable {V' : Type}

theorem mem_of_lookup_ofList (h : (Std.ExtTreeMap.ofList entries compare)[k]? = some v) :
    (k, v) ∈ entries := by
  have hinsert : ∀ (rest : List (K × V)) (m : BTreeMap K V), (m.insertMany rest)[k]? = some v →
      (k, v) ∈ rest ∨ m[k]? = some v := by
    intro rest
    induction rest with
    | nil => exact fun m h => .inr (by simpa using h)
    | cons entry rest ih =>
      intro m h
      rw [Std.ExtTreeMap.insertMany_cons] at h
      rcases ih _ h with h | h
      · exact .inl (List.mem_cons_of_mem _ h)
      · obtain ⟨rfl, rfl⟩ | ⟨-, h⟩ := lookup_insert_eq_some.mp h
        · exact .inl List.mem_cons_self
        · exact .inr h
  rw [Std.ExtTreeMap.ofList_eq_insertMany_empty] at h
  rcases hinsert entries ∅ h with h | h
  · exact h
  · simp at h

theorem pairwise_toList_ne (t : BTreeMap K V) : t.toList.Pairwise fun a b => a.1 ≠ b.1 :=
  Std.ExtTreeMap.distinct_keys_toList.imp fun h hne => h (by simp [hne])

theorem lookup_ofList_iff (h : entries.Pairwise fun a b => a.1 ≠ b.1) :
    (Std.ExtTreeMap.ofList entries compare)[k]? = some v ↔ (k, v) ∈ entries := by
  refine ⟨mem_of_lookup_ofList, fun hmem => ?_⟩
  refine Std.ExtTreeMap.getElem?_ofList_of_mem (compare_eq_iff_eq.mpr rfl) ?_ hmem
  exact h.imp fun hne heq => hne (compare_eq_iff_eq.mp heq)

theorem ofList_toList (m : BTreeMap K V) : Std.ExtTreeMap.ofList m.toList compare = m := by
  apply Std.ExtTreeMap.ext_getElem?
  intro k
  cases h : m[k]? with
  | some v =>
    exact (lookup_ofList_iff (pairwise_toList_ne m)).mpr
      (Std.ExtTreeMap.mem_toList_iff_getElem?_eq_some.mpr h)
  | none =>
    cases h' : (Std.ExtTreeMap.ofList m.toList compare)[k]? with
    | none => rfl
    | some v =>
      have hmem := mem_of_lookup_ofList h'
      rw [Std.ExtTreeMap.mem_toList_iff_getElem?_eq_some, h] at hmem
      cases hmem

/-- A loop over entries with distinct keys updates each key once, from its first value. -/
theorem lookup_foldl_update (f : K → V → Option V' → V') (entries : List (K × V))
    (hd : entries.Pairwise fun a b => a.1 ≠ b.1) (m : BTreeMap K V') (k : K) :
    (entries.foldl (fun acc e => acc.insert e.1 (f e.1 e.2 acc[e.1]?)) m)[k]? =
      match entries.find? fun e => e.1 = k with
      | some e => some (f e.1 e.2 m[k]?)
      | none => m[k]? := by
  induction entries generalizing m with
  | nil => rfl
  | cons e entries ih =>
    rw [List.pairwise_cons] at hd
    rw [List.foldl_cons, ih hd.2, lookup_insert]
    by_cases hk : e.1 = k
    · have hnone : entries.find? (fun e => e.1 = k) = none := by
        simp only [List.find?_eq_none, decide_eq_true_eq]
        exact fun e' he' h => hd.1 e' he' (hk.trans h.symm)
      simp [hk, hnone]
    · simp [hk]

theorem find?_toList (t : BTreeMap K V) (k : K) :
    t.toList.find? (fun e => e.1 = k) = t[k]?.map fun v => (k, v) := by
  cases hv : t[k]? with
  | none =>
    simp only [Option.map_none, List.find?_eq_none, decide_eq_true_eq]
    rintro ⟨k', v⟩ he rfl
    rw [Std.ExtTreeMap.mem_toList_iff_getElem?_eq_some, hv] at he
    cases he
  | some v =>
    have hmem : (k, v) ∈ t.toList := Std.ExtTreeMap.mem_toList_iff_getElem?_eq_some.mpr hv
    cases hf : t.toList.find? (fun e => e.1 = k) with
    | none =>
      rw [List.find?_eq_none] at hf
      simpa using hf (k, v) hmem
    | some e =>
      have he := List.mem_of_find?_eq_some hf
      have hk : e.1 = k := by simpa using List.find?_some hf
      obtain ⟨k', v'⟩ := e
      cases hk
      rw [Std.ExtTreeMap.mem_toList_iff_getElem?_eq_some, hv] at he
      cases he
      rfl

theorem foldl_insert_toList (t : BTreeMap K V) :
    t.toList.foldl (fun acc e => acc.insert e.1 e.2) ∅ = t := by
  apply Std.ExtTreeMap.ext_getElem?
  intro k
  rw [lookup_foldl_update (fun _ v _ => v) t.toList (pairwise_toList_ne t), find?_toList]
  cases t[k]? <;> simp

/-- A loop over the values of a map that stores each under its own key. -/
theorem lookup_foldl_values (key : V → K) (f : V → Option V' → V') (t : BTreeMap K V)
    (hkey : ∀ k v, t[k]? = some v → key v = k) (m : BTreeMap K V') (k : K) :
    ((values t).foldl (fun acc v => acc.insert (key v) (f v acc[key v]?)) m)[k]? =
      match t[k]? with
      | some v => some (f v m[k]?)
      | none => m[k]? := by
  have hfold : (values t).foldl (fun acc v => acc.insert (key v) (f v acc[key v]?)) m =
      t.toList.foldl (fun acc e => acc.insert e.1 (f e.2 acc[e.1]?)) m := by
    rw [values, List.foldl_map]
    apply List.foldl_ext
    rintro acc ⟨k, v⟩ he
    rw [Std.ExtTreeMap.mem_toList_iff_getElem?_eq_some] at he
    rw [hkey k v he]
  rw [hfold, lookup_foldl_update (fun _ => f) t.toList (pairwise_toList_ne t), find?_toList]
  cases t[k]? <;> rfl

/-- The entries of a map and a list with the same entries in the order of their keys. -/
theorem toList_eq_of_mem_iff {t : BTreeMap K V} (hsorted : entries.Pairwise fun a b => a.1 < b.1)
    (h : ∀ k v, t[k]? = some v ↔ (k, v) ∈ entries) : t.toList = entries := by
  have hkeys : t.toList.Pairwise fun a b => a.1 < b.1 :=
    Std.ExtTreeMap.ordered_keys_toList.imp fun h => compare_lt_iff_lt.mp h
  have hnodup {l : List (K × V)} (hl : l.Pairwise fun a b => a.1 < b.1) : l.Nodup := by
    refine List.Pairwise.imp (fun {a b} hlt heq => ?_) hl
    rw [heq] at hlt
    exact lt_irrefl _ hlt
  refine List.Perm.eq_of_pairwise (fun a b _ _ hab hba => absurd hab (lt_asymm hba)) hkeys hsorted
    ((List.perm_ext_iff_of_nodup (hnodup hkeys) (hnodup hsorted)).mpr fun e => ?_)
  rw [Std.ExtTreeMap.mem_toList_iff_getElem?_eq_some (k := e.1) (v := e.2)]
  exact h e.1 e.2

theorem toList_insert_last {t : BTreeMap K V} (h : ∀ a b, t[a]? = some b → a < k) :
    (t.insert k v).toList = t.toList ++ [(k, v)] := by
  have hmem {a : K} {b : V} : (a, b) ∈ t.toList ↔ t[a]? = some b :=
    Std.ExtTreeMap.mem_toList_iff_getElem?_eq_some
  refine toList_eq_of_mem_iff ?_ fun a b => ?_
  · rw [List.pairwise_append]
    refine ⟨Std.ExtTreeMap.ordered_keys_toList.imp fun h => compare_lt_iff_lt.mp h,
      List.pairwise_singleton _ _, fun e he e' he' => ?_⟩
    rw [List.mem_singleton] at he'
    exact he' ▸ h e.1 e.2 (hmem.mp he)
  · rw [lookup_insert, List.mem_append, hmem, List.mem_singleton, Prod.mk.injEq]
    split_ifs with hk
    · subst hk
      constructor
      · intro hb
        exact .inr ⟨rfl, (Option.some.inj hb).symm⟩
      · rintro (hb | ⟨-, rfl⟩)
        · exact absurd (h k b hb) (lt_irrefl k)
        · rfl
    · constructor
      · exact .inl
      · rintro (hb | ⟨rfl, -⟩)
        · exact hb
        · exact absurd rfl hk

section Numbered

variable {m : BTreeMap ℕ V} {xs : List V}

/-- The map holds the elements of the list at the positions 1, 2, and so on. -/
def Numbers (m : BTreeMap ℕ V) (xs : List V) : Prop :=
  ∀ p : ℕ, m[p]? = if p = 0 then none else xs[p - 1]?

theorem numbers_empty : Numbers (∅ : BTreeMap ℕ V) [] := by
  intro p
  simp

theorem Numbers.snoc (h : Numbers m xs) (v : V) :
    Numbers (m.insert (xs.length + 1) v) (xs ++ [v]) := by
  intro p
  rw [lookup_insert, h p]
  rcases p with _ | p
  · simp
  · rw [Nat.add_sub_cancel]
    by_cases hp : xs.length = p
    · subst hp
      simp
    · have hne : ¬xs.length + 1 = p + 1 := by omega
      rw [if_neg hne]
      rcases lt_or_gt_of_ne hp with hlt | hlt
      · rw [List.getElem?_eq_none hlt.le, List.getElem?_eq_none (by simp; omega)]
      · rw [List.getElem?_append_left hlt]

theorem Numbers.lookup_succ (h : Numbers m xs) (p : ℕ) : m[p + 1]? = xs[p]? := by
  rw [h (p + 1)]
  simp

theorem Numbers.lookup_zero (h : Numbers m xs) : m[0]? = none := h 0

theorem Numbers.eq_some (h : Numbers m xs) {p : ℕ} (hv : m[p]? = some v) :
    ∃ q, p = q + 1 ∧ xs[q]? = some v := by
  rcases p with _ | q
  · rw [h.lookup_zero] at hv
    cases hv
  · exact ⟨q, rfl, (h.lookup_succ q).symm.trans hv⟩

theorem Numbers.mem_values (h : Numbers m xs) : v ∈ values m ↔ v ∈ xs := by
  rw [OrderedMap.mem_values, List.mem_iff_getElem?]
  constructor
  · rintro ⟨p, hp⟩
    obtain ⟨q, -, hq⟩ := h.eq_some hp
    exact ⟨q, hq⟩
  · rintro ⟨q, hq⟩
    exact ⟨q + 1, (h.lookup_succ q).trans hq⟩

theorem Numbers.size (h : Numbers m xs) : m.size = xs.length := by
  have hentries : m.toList = (xs.zipIdx 1).map fun entry => (entry.2, entry.1) := by
    refine toList_eq_of_mem_iff ?_ fun p v => ?_
    · rw [List.pairwise_map, List.pairwise_iff_getElem]
      intro i j hi hj hij
      simpa using hij
    · rw [List.mem_map]
      constructor
      · intro hv
        obtain ⟨q, rfl, hq⟩ := h.eq_some hv
        refine ⟨(v, q + 1), List.mk_mem_zipIdx_iff_le_and_getElem?_sub.mpr ⟨?_, ?_⟩, rfl⟩
        · omega
        · rwa [Nat.add_sub_cancel]
      · rintro ⟨⟨w, q⟩, hq, heq⟩
        cases heq
        rw [List.mk_mem_zipIdx_iff_le_and_getElem?_sub] at hq
        rw [h q, if_neg (by omega)]
        exact hq.2
  rw [← Std.ExtTreeMap.length_toList, hentries]
  simp

end Numbered

end Blossom.OrderedMap
