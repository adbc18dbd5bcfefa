import Blossom.OrderedEngine
import Mathlib.Data.List.Chain

/-!
# The chains of the origins

The references of an origin form a hash chain with consecutive sequence ranges: first those that
have a position, then those that are still to get one.
-/

namespace Blossom

open CheckedSteps OrderedMap

variable {W : Type} [ProtocolCrypto W]

namespace BatchReference

variable {r r' : BatchReference W} {hash : W}

theorem validate_of_hash (h : r.hash = .ok hash) :
    r.validate = .ok () ∧ protocolHash (.tag .batchReference :: r.fields) = hash := by
  rw [BatchReference.hash, guard_bind_eq_ok, pure_eq_ok] at h
  exact h

theorem first_le_last (h : r.hash = .ok hash) : r.firstOriginSequence ≤ r.lastOriginSequence := by
  have hvalid := (validate_of_hash h).1
  rw [validate] at hvalid
  simp only [↓guard_bind_eq_ok, reject_eq_ok, not_or, not_lt] at hvalid
  exact hvalid.2.2.2.2.1.2.2

theorem eq_of_hash (hinj : HashInjective W) (h : r.hash = .ok hash) (h' : r'.hash = .ok hash) :
    r = r' := by
  have hfields := hinj ((validate_of_hash h).2.trans (validate_of_hash h').2.symm)
  rw [List.cons.injEq] at hfields
  have heq := hfields.2
  simp only [fields, strFields, List.cons_append, List.nil_append, List.cons.injEq,
    Field.num.injEq, Field.word.injEq, Field.bytes.injEq, and_true] at heq
  cases r
  cases r'
  simp only [mk.injEq]
  tauto

def Linked (r r' : BatchReference W) : Prop :=
  r.hash = .ok r'.previousOriginReferenceHash ∧
    r'.firstOriginSequence = r.lastOriginSequence + 1

end BatchReference

open BatchReference GlobalOrderedEngine

/-- The references of an origin: those with a position, and those that are still to get one. -/
structure OriginChain (W : Type) where
  finals : List (ℕ × BatchReference W)
  pending : List (BatchReference W)

namespace OriginChain

def references (chain : OriginChain W) : List (BatchReference W) :=
  chain.finals.map Prod.snd ++ chain.pending

structure WellFormed (key : OrderedOrigin W) (chain : OriginChain W) : Prop where
  linked : List.IsChain Linked chain.references
  first : ∀ r ∈ chain.references.head?, r.previousOriginReferenceHash = default
  origin : ∀ r ∈ chain.references, originKey r = key
  valid : ∀ r ∈ chain.references, ∃ hash, r.hash = .ok hash
  ascending : (chain.finals.map Prod.fst).Pairwise (· < ·)

variable {key : OrderedOrigin W} {chain : OriginChain W}

def Precedes (r r' : BatchReference W) : Prop :=
  r.lastOriginSequence < r'.firstOriginSequence ∧ r'.firstOriginSequence ≤ r'.lastOriginSequence

omit [ProtocolCrypto W] in
theorem Precedes.trans {r₁ r₂ r₃ : BatchReference W} (h : Precedes r₁ r₂) (h' : Precedes r₂ r₃) :
    Precedes r₁ r₃ := by
  unfold Precedes at *
  omega

instance : IsTrans (BatchReference W) Precedes := ⟨fun _ _ _ h h' => h.trans h'⟩

/-- Along a chain the sequence ranges are disjoint and ascend. -/
theorem WellFormed.ranges (h : WellFormed key chain) : chain.references.Pairwise Precedes := by
  refine List.isChain_iff_pairwise.mp (h.linked.imp_of_mem_imp fun r r' _ hr' hlink => ?_)
  obtain ⟨hash, hhash⟩ := h.valid r' hr'
  have hle := first_le_last hhash
  have hnext := hlink.2
  exact ⟨by omega, hle⟩

theorem WellFormed.nodup (h : WellFormed key chain) : chain.references.Nodup := by
  refine List.Pairwise.imp_of_mem (fun {r r'} hr _ hlt heq => ?_) h.ranges
  obtain ⟨hash, hhash⟩ := h.valid r hr
  have hle := first_le_last hhash
  have hbefore := hlt.1
  rw [← heq] at hbefore
  omega

def extended (chain : OriginChain W) (r : BatchReference W) : OriginChain W :=
  { chain with pending := chain.pending ++ [r] }

omit [ProtocolCrypto W] in
theorem references_extended (r : BatchReference W) :
    (chain.extended r).references = chain.references ++ [r] := by
  simp [extended, references]

variable {r : BatchReference W} {rest : List (BatchReference W)}

theorem WellFormed.extended {hash : W} (h : WellFormed key chain) (hr : r.hash = .ok hash)
    (hkey : originKey r = key)
    (hfirst : chain.references = [] → r.previousOriginReferenceHash = default)
    (hnext : ∀ last ∈ chain.references.getLast?, Linked last r) :
    WellFormed key (chain.extended r) := by
  refine ⟨?_, ?_, ?_, ?_, h.ascending⟩
  · rw [references_extended, List.isChain_append]
    refine ⟨h.linked, List.isChain_singleton r, fun last hlast r' hr' => ?_⟩
    rw [List.head?_cons, Option.mem_some_iff] at hr'
    exact hr' ▸ hnext last hlast
  · rw [references_extended]
    intro r' hr'
    rcases List.eq_nil_or_concat chain.references with hnil | ⟨front, last, hconcat⟩
    · rw [hnil, List.nil_append, List.head?_cons, Option.mem_some_iff] at hr'
      exact hr' ▸ hfirst hnil
    · apply h.first r'
      rw [hconcat, List.concat_eq_append] at hr' ⊢
      simpa using hr'
  · rw [references_extended, List.forall_mem_append, List.forall_mem_singleton]
    exact ⟨h.origin, hkey⟩
  · rw [references_extended, List.forall_mem_append, List.forall_mem_singleton]
    exact ⟨h.valid, hash, hr⟩

def advanced (chain : OriginChain W) (p : ℕ) (r : BatchReference W)
    (rest : List (BatchReference W)) : OriginChain W :=
  ⟨chain.finals ++ [(p, r)], rest⟩

omit [ProtocolCrypto W] in
theorem references_advanced {p : ℕ} (h : chain.pending = r :: rest) :
    (chain.advanced p r rest).references = chain.references := by
  simp [advanced, references, h]

theorem WellFormed.advanced {p : ℕ} (h : WellFormed key chain) (hpend : chain.pending = r :: rest)
    (hlater : ∀ q ∈ chain.finals.map Prod.fst, q < p) :
    WellFormed key (chain.advanced p r rest) := by
  have hsame : (chain.advanced p r rest).references = chain.references :=
    references_advanced hpend
  refine ⟨hsame ▸ h.linked, hsame ▸ h.first, hsame ▸ h.origin, hsame ▸ h.valid, ?_⟩
  rw [OriginChain.advanced, List.map_append, List.pairwise_append]
  refine ⟨h.ascending, List.pairwise_singleton _ _, fun q hq q' hq' => ?_⟩
  rw [List.map_singleton, List.mem_singleton] at hq'
  exact hq' ▸ hlater q hq

end OriginChain

/-- The tables in which an engine keeps track of its origins. -/
structure OriginTables (W : Type) [LinearOrder W] where
  available : BTreeMap W (AvailabilityCertificate W)
  tails : BTreeMap (OrderedOrigin W) (W × ℕ)
  positions : BTreeMap ℕ W

namespace OriginTables

variable {t : OriginTables W} {chains : OrderedOrigin W → OriginChain W}

structure Has (t : OriginTables W) (chains : OrderedOrigin W → OriginChain W) : Prop where
  wellFormed : ∀ key, (chains key).WellFormed key
  tails : ∀ key, t.tails[key]? = none ∧ (chains key).references = [] ∨
    ∃ r hash, (chains key).references.getLast? = some r ∧ r.hash = .ok hash ∧
      t.tails[key]? = some (hash, r.lastOriginSequence)
  positions : ∀ (p : ℕ) (hash : W), t.positions[p]? = some hash ↔
    ∃ key r, (p, r) ∈ (chains key).finals ∧ r.hash = .ok hash
  available : ∀ (hash : W) (a : AvailabilityCertificate W), t.available[hash]? = some a →
    a.reference.hash = .ok hash ∧ a.reference ∈ (chains (originKey a.reference)).references

theorem Has.empty : Has (⟨∅, ∅, ∅⟩ : OriginTables W) fun _ => ⟨[], []⟩ := by
  refine ⟨fun key => ⟨List.isChain_nil, by simp [OriginChain.references],
    by simp [OriginChain.references], by simp [OriginChain.references], List.Pairwise.nil⟩,
    fun key => .inl ⟨by simp, rfl⟩, by simp, by simp⟩

variable {hash : W} {r : BatchReference W}

theorem Has.offer (h : t.Has chains) {a : AvailabilityCertificate W}
    (hhash : a.reference.hash = .ok hash)
    (hexp : (a.reference.previousOriginReferenceHash, a.reference.firstOriginSequence) =
      match t.tails[originKey a.reference]? with
      | some (last, sequence) => (last, sequence + 1)
      | none => (default, a.reference.firstOriginSequence)) :
    Has { t with
        available := t.available.insert hash a
        tails := t.tails.insert (originKey a.reference) (hash, a.reference.lastOriginSequence) }
      (Function.update chains (originKey a.reference)
        ((chains (originKey a.reference)).extended a.reference)) := by
  set key := originKey a.reference with hkey
  set chain := chains key with hchain
  have hfirst : chain.references = [] → a.reference.previousOriginReferenceHash = default := by
    intro hnil
    rcases h.tails key with ⟨htail, -⟩ | ⟨r, last, hlast, -⟩
    · rw [htail] at hexp
      exact congrArg Prod.fst hexp
    · rw [← hchain, hnil] at hlast
      cases hlast
  have hnext : ∀ last ∈ chain.references.getLast?, Linked last a.reference := by
    intro last hlast
    rcases h.tails key with ⟨-, hnil⟩ | ⟨r, lastHash, hr, hrhash, htail⟩
    · rw [← hchain] at hnil
      rw [hnil] at hlast
      cases hlast
    · rw [← hchain] at hr
      rw [Option.mem_def, hr] at hlast
      cases hlast
      rw [htail] at hexp
      have hprev : a.reference.previousOriginReferenceHash = lastHash :=
        congrArg Prod.fst hexp
      have hsequence : a.reference.firstOriginSequence = last.lastOriginSequence + 1 :=
        congrArg Prod.snd hexp
      exact ⟨hprev ▸ hrhash, hsequence⟩
  have hmono := (Function.forall_update_iff chains (a := key) (b := chain.extended a.reference)
    fun k next => (chains k).references ⊆ next.references).mpr ⟨by
      rw [OriginChain.references_extended]
      exact List.subset_append_left _ _, fun k _ => List.Subset.refl _⟩
  have hfinals := (Function.forall_update_iff chains (a := key) (b := chain.extended a.reference)
    fun k next => next.finals = (chains k).finals).mpr ⟨rfl, fun _ _ => rfl⟩
  refine ⟨(Function.forall_update_iff chains fun k next => next.WellFormed k).mpr
    ⟨(h.wellFormed key).extended hhash rfl hfirst hnext, fun k _ => h.wellFormed k⟩,
    fun k => ?_, fun p hash' => ?_, fun hash' b hb => ?_⟩
  · by_cases hk : k = key
    · subst hk
      rw [Function.update_self, OriginChain.references_extended, lookup_insert, if_pos rfl]
      exact .inr ⟨a.reference, hash, List.getLast?_concat, hhash, rfl⟩
    · rw [Function.update_of_ne hk, lookup_insert, if_neg (Ne.symm hk)]
      exact h.tails k
  · simp only [hfinals]
    exact h.positions p hash'
  · obtain ⟨rfl, rfl⟩ | ⟨-, hb⟩ := lookup_insert_eq_some.mp hb
    · refine ⟨hhash, ?_⟩
      rw [← hkey, Function.update_self, OriginChain.references_extended]
      exact List.mem_append_right _ (List.mem_singleton_self _)
    · obtain ⟨hbhash, hmem⟩ := h.available hash' b hb
      exact ⟨hbhash, hmono _ hmem⟩

/-- No reference has the hash that stands for a missing predecessor. -/
def HashNonzero (W : Type) [ProtocolCrypto W] : Prop :=
  ∀ fields : List (Field W), protocolHash fields ≠ default

theorem Has.pending_eq (h : t.Has chains) (hinj : HashInjective W) (hzero : HashNonzero W)
    (hr : r.hash = .ok hash) (hmem : r ∈ (chains (originKey r)).references)
    (hpred : r.previousOriginReferenceHash = default ∨ r.previousOriginReferenceHash ∈ values t.positions)
    (hunordered : hash ∉ values t.positions) :
    ∃ rest, (chains (originKey r)).pending = r :: rest := by
  have hwell := h.wellFormed (originKey r)
  set chain := chains (originKey r) with hchain
  have hfinals {q : ℕ} {k : OrderedOrigin W} {r' : BatchReference W} {hash' : W}
      (hq : (q, r') ∈ (chains k).finals) (hr' : r'.hash = .ok hash') :
      hash' ∈ values t.positions :=
    mem_values.mpr ⟨q, (h.positions q hash').mpr ⟨k, r', hq, hr'⟩⟩
  have hpend : r ∈ chain.pending := by
    rw [OriginChain.references, List.mem_append, List.mem_map] at hmem
    rcases hmem with ⟨⟨q, r'⟩, hq, rfl⟩ | hmem
    · exact absurd (hfinals hq hr) hunordered
    · exact hmem
  obtain ⟨front, rest, hsplit⟩ := List.append_of_mem hpend
  rcases List.eq_nil_or_concat front with rfl | ⟨front, x, rfl⟩
  · exact ⟨rest, hsplit⟩
  · -- the reference before it in the chain is its predecessor, which has a position already
    have hreferences : chain.references =
        (chain.finals.map Prod.snd ++ front) ++ x :: r :: rest := by
      rw [OriginChain.references, hsplit, List.concat_eq_append]
      simp
    have hlink : Linked x r := by
      have hlinked := hwell.linked
      rw [hreferences, List.isChain_append_cons_cons] at hlinked
      exact hlinked.2.1
    have hx : x ∈ chain.references := by
      rw [hreferences]
      exact List.mem_append_right _ List.mem_cons_self
    have hord : r.previousOriginReferenceHash ∈ values t.positions := by
      refine hpred.resolve_left fun hfirst => ?_
      have hhash := (validate_of_hash hlink.1).2
      exact hzero _ (hhash.trans hfirst)
    obtain ⟨q, hq⟩ := mem_values.mp hord
    obtain ⟨k, x', hx', hxhash⟩ := (h.positions q _).mp hq
    obtain rfl := eq_of_hash hinj hxhash hlink.1
    have hk : k = originKey r := by
      have hmem' : x' ∈ (chains k).references :=
        List.mem_append_left _ (List.mem_map.mpr ⟨_, hx', rfl⟩)
      exact ((h.wellFormed k).origin x' hmem').symm.trans (hwell.origin x' hx)
    subst hk
    -- it cannot be in the chain a second time
    have hnodup := hwell.nodup
    rw [hreferences, List.nodup_append] at hnodup
    have hfinal : x' ∈ chain.finals.map Prod.snd ++ front :=
      List.mem_append_left _ (List.mem_map.mpr ⟨_, hx', rfl⟩)
    exact absurd rfl (hnodup.2.2 x' hfinal x' List.mem_cons_self)

theorem Has.order (h : t.Has chains) {p : ℕ} {rest : List (BatchReference W)}
    (hr : r.hash = .ok hash) (hpend : (chains (originKey r)).pending = r :: rest)
    (hlater : ∀ (q : ℕ) (hash' : W), t.positions[q]? = some hash' → q < p) :
    Has { t with positions := t.positions.insert p hash }
      (Function.update chains (originKey r) ((chains (originKey r)).advanced p r rest)) := by
  have hwell := h.wellFormed (originKey r)
  set key := originKey r with hkey
  set chain := chains key with hchain
  have hreferences := (Function.forall_update_iff chains (a := key) (b := chain.advanced p r rest)
    fun k next => next.references = (chains k).references).mpr
    ⟨OriginChain.references_advanced hpend, fun _ _ => rfl⟩
  have hfinals {k : OrderedOrigin W} {q : ℕ} {r' : BatchReference W} :
      (q, r') ∈ (Function.update chains key (chain.advanced p r rest) k).finals ↔
        (q, r') ∈ (chains k).finals ∨ k = key ∧ q = p ∧ r' = r := by
    by_cases hk : k = key
    · subst hk
      rw [Function.update_self, OriginChain.advanced, List.mem_append, List.mem_singleton,
        Prod.mk.injEq]
      simp [hchain]
    · rw [Function.update_of_ne hk]
      simp [hk]
  refine ⟨(Function.forall_update_iff chains fun k next => next.WellFormed k).mpr
    ⟨hwell.advanced hpend fun q hq => ?_, fun k _ => h.wellFormed k⟩,
    fun k => ?_, fun q hash' => ?_, fun hash' b hb => ?_⟩
  · obtain ⟨⟨q, r'⟩, hmem, rfl⟩ := List.mem_map.mp hq
    obtain ⟨hash', hhash'⟩ := hwell.valid r' (List.mem_append_left _ (List.mem_map_of_mem hmem))
    exact hlater q hash' ((h.positions q hash').mpr ⟨key, r', hmem, hhash'⟩)
  · rw [hreferences]
    exact h.tails k
  · rw [lookup_insert]
    simp only [hfinals]
    split_ifs with hq
    · subst hq
      constructor
      · intro hsome
        cases hsome
        exact ⟨key, r, .inr ⟨rfl, rfl, rfl⟩, hr⟩
      · rintro ⟨k, r', hmem | ⟨-, -, rfl⟩, hhash'⟩
        · exact absurd (hlater p hash' ((h.positions p hash').mpr ⟨k, r', hmem, hhash'⟩))
            (lt_irrefl p)
        · rw [hr, Except.ok.injEq] at hhash'
          rw [hhash']
    · rw [h.positions q hash']
      constructor
      · rintro ⟨k, r', hmem, hhash'⟩
        exact ⟨k, r', .inl hmem, hhash'⟩
      · rintro ⟨k, r', hmem | ⟨-, rfl, -⟩, hhash'⟩
        · exact ⟨k, r', hmem, hhash'⟩
        · exact absurd rfl hq
  · rw [hreferences]
    exact h.available hash' b hb

end OriginTables

end Blossom
