import Blossom.OrderedEngine

/-!
# The log of order certificates

What the engine is for, without its tables: a log of certificates for the positions 1, 2, and so on,
each naming the hash of the one before it, and a watermark up to which the references of the log
have been applied.
-/

namespace Blossom

open CheckedSteps OrderedMap

variable {W : Type}

/-- The tables in which the engine and its store agree. -/
structure OrderedImage (W : Type) [LinearOrder W] where
  available : BTreeMap W (AvailabilityCertificate W)
  finalized : BTreeMap ℕ (OrderCertificate W)
  positions : BTreeMap ℕ W
  last : ℕ
  tail : W
  applied : ℕ

section Image

variable [ProtocolCrypto W]

def GlobalOrderedEngine.image (e : GlobalOrderedEngine W) : OrderedImage W where
  available := e.available
  finalized := e.finalized
  positions := e.finalReferenceByPosition
  last := e.lastFinalizedPosition
  tail := e.lastOrderCertificateHash
  applied := e.appliedWatermark

def DurableAdmissionStore.image (s : DurableAdmissionStore W) : OrderedImage W where
  available := s.availableReferences
  finalized := s.finalizedPositions
  positions := s.positionReferences
  last := (s.orderedMetadata.map DurableOrderedMetadata.lastFinalizedPosition).getD 0
  tail := (s.orderedMetadata.map DurableOrderedMetadata.lastOrderCertificateHash).getD default
  applied := (s.orderedMetadata.map DurableOrderedMetadata.appliedWatermark).getD 0

def orderTail (log : List (OrderCertificate W)) : W :=
  (log.getLast?.map OrderCertificate.hash).getD default

@[simp] theorem orderTail_snoc (log : List (OrderCertificate W)) (c : OrderCertificate W) :
    orderTail (log ++ [c]) = c.hash := by
  simp [orderTail]

def orderedReferences (log : List (OrderCertificate W)) : List W :=
  log.map fun c => c.statement.referenceHash

@[simp] theorem orderedReferences_snoc (log : List (OrderCertificate W)) (c : OrderCertificate W) :
    orderedReferences (log ++ [c]) = orderedReferences log ++ [c.statement.referenceHash] := by
  simp [orderedReferences]

inductive OrderChain : List (OrderCertificate W) → Prop where
  | nil : OrderChain []
  | snoc {log : List (OrderCertificate W)} {c : OrderCertificate W} (chain : OrderChain log)
      (position : c.statement.position = log.length + 1)
      (previous : c.statement.previousOrderCertificateHash = orderTail log) :
      OrderChain (log ++ [c])

variable {c : OrderCertificate W}

theorem OrderChain.entry {log : List (OrderCertificate W)} (h : OrderChain log) {i : ℕ}
    (hc : log[i]? = some c) : c.statement.position = i + 1 ∧
      c.statement.previousOrderCertificateHash = orderTail (log.take i) := by
  induction h with
  | nil => simp at hc
  | @snoc log d chain position previous ih =>
    rcases Nat.lt_trichotomy i log.length with hlt | heq | hgt
    · rw [List.getElem?_append_left hlt] at hc
      rw [List.take_append_of_le_length hlt.le]
      exact ih hc
    · subst heq
      rw [List.getElem?_concat_length] at hc
      cases hc
      rw [List.take_left]
      exact ⟨position, previous⟩
    · rw [List.getElem?_eq_none (by simp; omega)] at hc
      cases hc

namespace OrderedImage

variable {i j : OrderedImage W} {log : List (OrderCertificate W)}

def offer (i : OrderedImage W) (hash : W) (c : AvailabilityCertificate W) : OrderedImage W :=
  { i with available := i.available.insert hash c }

def order (i : OrderedImage W) (c : OrderCertificate W) : OrderedImage W :=
  { i with
    finalized := i.finalized.insert c.statement.position c
    positions := i.positions.insert c.statement.position c.statement.referenceHash
    last := c.statement.position
    tail := c.hash }

def apply (i : OrderedImage W) (c : OrderCertificate W) : OrderedImage W :=
  { i with
    applied := c.statement.position
    available := i.available.erase c.statement.referenceHash }

/-- The log that an image holds in its tables. -/
structure Represents (i : OrderedImage W) (log : List (OrderCertificate W)) : Prop where
  chain : OrderChain log
  finalized : Numbers i.finalized log
  positions : Numbers i.positions (orderedReferences log)
  last : i.last = log.length
  tail : i.tail = orderTail log
  applied : i.applied ≤ log.length
  bounded : log.length ≤ maxCounter

structure Orderly (i : OrderedImage W) (log : List (OrderCertificate W)) : Prop where
  unique : (orderedReferences log).Nodup
  pending : ∀ hash ∈ (orderedReferences log).drop i.applied, i.available.contains hash = true

/-- One change of the tables. What is new under `fresh` is what the engine does not check:
that the reference has no position yet and that the watermark can still advance. -/
inductive Advance (fresh : Prop) (i : OrderedImage W) : OrderedImage W → Prop where
  | offer (hash : W) (c : AvailabilityCertificate W) : Advance fresh i (i.offer hash c)
  | order (c : OrderCertificate W) (position : c.statement.position = i.last + 1)
      (previous : c.statement.previousOrderCertificateHash = i.tail) (bound : i.last < maxCounter)
      (available : i.available.contains c.statement.referenceHash = true)
      (unordered : fresh → c.statement.referenceHash ∉ values i.positions) :
      Advance fresh i (i.order c)
  | apply (c : OrderCertificate W)
      (next : i.finalized[min (i.applied + 1) maxCounter]? = some c)
      (room : fresh → i.applied < maxCounter) : Advance fresh i (i.apply c)

abbrev Advances (fresh : Prop) : OrderedImage W → OrderedImage W → Prop :=
  Relation.ReflTransGen (Advance fresh)

theorem Represents.empty (h : i.finalized = ∅) (hp : i.positions = ∅) (hl : i.last = 0)
    (ht : i.tail = default) (ha : i.applied = 0) : i.Represents [] where
  chain := .nil
  finalized := h ▸ numbers_empty
  positions := hp ▸ numbers_empty
  last := hl
  tail := ht
  applied := ha.le
  bounded := Nat.zero_le _

theorem Represents.order (h : i.Represents log) (position : c.statement.position = i.last + 1)
    (previous : c.statement.previousOrderCertificateHash = i.tail) (bound : i.last < maxCounter) :
    (i.order c).Represents (log ++ [c]) := by
  rw [h.last] at position bound
  refine ⟨.snoc h.chain position (previous.trans h.tail), ?_, ?_, ?_, ?_, ?_, ?_⟩
  · have hsnoc := h.finalized.snoc c
    rwa [← position] at hsnoc
  · have hsnoc := h.positions.snoc c.statement.referenceHash
    rw [orderedReferences, List.length_map, ← position] at hsnoc
    rw [orderedReferences_snoc]
    exact hsnoc
  · simpa [OrderedImage.order] using position
  · simp [OrderedImage.order]
  · have happ := h.applied
    simp only [OrderedImage.order, List.length_append, List.length_singleton]
    omega
  · rw [List.length_append]
    exact bound

theorem Represents.tail_eq (h : i.Represents log) :
    i.tail = (i.finalized[i.last]?.map OrderCertificate.hash).getD default := by
  rw [h.tail, h.last]
  rcases List.eq_nil_or_concat log with rfl | ⟨front, c, rfl⟩
  · rw [List.length_nil, h.finalized.lookup_zero]
    rfl
  · rw [List.concat_eq_append] at h ⊢
    rw [List.length_append, List.length_singleton, h.finalized.lookup_succ,
      List.getElem?_concat_length, orderTail_snoc]
    rfl

theorem Represents.next (h : i.Represents log)
    (hc : i.finalized[min (i.applied + 1) maxCounter]? = some c) :
    ∃ k, min (i.applied + 1) maxCounter = k + 1 ∧ log[k]? = some c ∧ c.statement.position = k + 1 ∧
      k < log.length := by
  obtain ⟨k, hk, hlog⟩ := h.finalized.eq_some hc
  exact ⟨k, hk, hlog, (h.chain.entry hlog).1, (List.getElem?_eq_some_iff.mp hlog).1⟩

theorem Represents.next_position (h : i.Represents log)
    (hc : i.finalized[min (i.applied + 1) maxCounter]? = some c) :
    i.applied ≤ c.statement.position ∧ c.statement.position ≤ i.applied + 1 ∧
      i.finalized[c.statement.position]? = some c := by
  obtain ⟨k, hk, -, hpos, hlt⟩ := h.next hc
  have happ := h.applied
  have hbdd := h.bounded
  rw [hk, ← hpos] at hc
  exact ⟨by omega, by omega, hc⟩

theorem Represents.applied_le_last (h : i.Represents log) : i.applied ≤ i.last :=
  h.last ▸ h.applied

theorem Represents.apply (h : i.Represents log)
    (hc : i.finalized[min (i.applied + 1) maxCounter]? = some c) : (i.apply c).Represents log := by
  obtain ⟨k, -, -, hpos, hlt⟩ := h.next hc
  refine { h with applied := ?_ }
  rw [OrderedImage.apply, hpos]
  exact hlt

theorem Advance.represents {fresh : Prop} (h : i.Represents log) (ha : Advance fresh i j) :
    ∃ log', j.Represents log' := by
  cases ha with
  | offer hash c =>
    exact ⟨log, { h with }⟩
  | order c position previous bound => exact ⟨_, h.order position previous bound⟩
  | apply c next => exact ⟨log, h.apply next⟩

theorem Advances.represents {fresh : Prop} (h : i.Represents log) (ha : Advances fresh i j) :
    ∃ log', j.Represents log' := by
  induction ha with
  | refl => exact ⟨log, h⟩
  | tail _ hlast ih =>
    obtain ⟨mid, hmid⟩ := ih
    exact hlast.represents hmid

theorem mem_contains_insert {m : BTreeMap W (AvailabilityCertificate W)} {hash key : W}
    {c : AvailabilityCertificate W} (h : m.contains hash = true) :
    (m.insert key c).contains hash = true := by
  rw [Std.ExtTreeMap.contains_insert, h, Bool.or_true]

theorem Advance.orderly (h : i.Represents log) (ho : i.Orderly log) (ha : Advance True i j) :
    ∃ log', j.Represents log' ∧ j.Orderly log' := by
  cases ha with
  | offer hash c =>
    exact ⟨log, { h with }, ho.unique, fun key hkey => mem_contains_insert (ho.pending key hkey)⟩
  | order c position previous bound available unordered =>
    refine ⟨_, h.order position previous bound, ?_, ?_⟩
    · have hnew : c.statement.referenceHash ∉ orderedReferences log := by
        rw [← h.positions.mem_values]
        exact unordered trivial
      rw [orderedReferences_snoc]
      exact List.Nodup.append ho.unique (List.nodup_singleton _) (by simpa using hnew)
    · intro key hkey
      have hle : i.applied ≤ (orderedReferences log).length := by
        simpa [orderedReferences] using h.applied
      rw [orderedReferences_snoc] at hkey
      change key ∈ (orderedReferences log ++ [c.statement.referenceHash]).drop i.applied at hkey
      rw [List.drop_append_of_le_length hle, List.mem_append, List.mem_singleton] at hkey
      rcases hkey with hkey | rfl
      · exact ho.pending key hkey
      · exact available
  | apply c next room =>
    refine ⟨log, h.apply next, ho.unique, ?_⟩
    obtain ⟨k, hk, hlog, hpos, hlt⟩ := h.next next
    have hroom := room trivial
    have hka : k = i.applied := by omega
    subst hka
    have href : (orderedReferences log)[i.applied]? = some c.statement.referenceHash := by
      simp [orderedReferences, hlog]
    intro key hkey
    have hkey' : key ∈ (orderedReferences log).drop (i.applied + 1) := by
      simpa [OrderedImage.apply, hpos] using hkey
    -- the applied reference does not come back later in the log
    have hne : c.statement.referenceHash ≠ key := by
      rintro rfl
      obtain ⟨n, hn⟩ := List.mem_iff_getElem?.mp hkey'
      rw [List.getElem?_drop] at hn
      have hidx := (List.getElem?_inj (List.getElem?_eq_some_iff.mp href).1 ho.unique).mp
        (href.trans hn.symm)
      omega
    have hpend : i.available.contains key = true := by
      apply ho.pending
      rw [List.drop_eq_getElem_cons (List.getElem?_eq_some_iff.mp href).1]
      exact List.mem_cons_of_mem _ hkey'
    change (i.available.erase c.statement.referenceHash).contains key = true
    rw [Std.ExtTreeMap.contains_erase, hpend, Bool.and_true]
    simpa [compare_eq_iff_eq] using hne

theorem Advances.orderly (h : i.Represents log) (ho : i.Orderly log) (ha : Advances True i j) :
    ∃ log', j.Represents log' ∧ j.Orderly log' := by
  induction ha with
  | refl => exact ⟨log, h, ho⟩
  | tail _ hlast ih =>
    obtain ⟨mid, hmid, homid⟩ := ih
    exact hlast.orderly hmid homid

end OrderedImage

end Image

end Blossom
