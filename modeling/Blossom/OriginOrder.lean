import Blossom.OriginChains
import Blossom.OrderedReopen
import Blossom.OrderedCalls

/-!
# The order of one origin

The engine extends the chain of an origin when a reference becomes available, and finalizes a
reference only after its predecessor, so the finalized references of an origin are a part of its
chain from the start on, in its order.
-/

namespace Blossom

open CheckedSteps OrderedMap OrderedImage BatchReference GlobalOrderedEngine

variable {W : Type} [ProtocolCrypto W]
variable {op : OrderedOperation W} {Q : DurableAdmissionStore W → Prop}
  {E P : GlobalOrderedEngine W → Prop} {log : List (OrderCertificate W)}

namespace GlobalOrderedEngine

variable {e e' : GlobalOrderedEngine W} {c : OrderedEngineConfig W}

def originTables (e : GlobalOrderedEngine W) : OriginTables W :=
  ⟨e.available, e.lastOriginReference, e.finalReferenceByPosition⟩

theorem checkOriginExtension_spec {r : BatchReference W} (h : e.checkOriginExtension r = .ok ()) :
    e.available.size < maxPipelinedAvailabilityWindows * e.validators.size ∧
    (r.previousOriginReferenceHash, r.firstOriginSequence) =
      (match e.lastOriginReference[originKey r]? with
      | some (last, sequence) => (last, min (sequence + 1) maxCounter)
      | none => (default, r.firstOriginSequence)) ∧
    ∀ a ∈ values e.available, r.conflictsWith a.reference = false := by
  rw [checkOriginExtension] at h
  simp only [↓guard_bind_eq_ok, reject_eq_ok, not_le, not_not] at h
  refine ⟨h.1, h.2.1, fun a ha => ?_⟩
  by_contra hconflict
  exact h.2.2 (List.any_eq_true.mpr ⟨a, ha, Bool.not_eq_false _ ▸ hconflict⟩)

theorem Step.hasChains (hs : Step True True e e') (hinj : HashInjective W)
    (hzero : OriginTables.HashNonzero W) (hlater : e.NoLater) (hstored : Stored c e)
    (h : ∃ chains, e.originTables.Has chains) : ∃ chains, e'.originTables.Has chains := by
  cases hs with
  | bind | keep | touch | contract | committee => exact h
  | offer hash a offers =>
    obtain ⟨chains, hchains⟩ := h
    refine ⟨_, hchains.offer offers.hash_eq ?_⟩
    obtain ⟨-, hexp, -⟩ := checkOriginExtension_spec offers.extension
    rw [hexp]
    change _ = match e.lastOriginReference[originKey a.reference]? with
      | some (last, sequence) => (last, sequence + 1)
      | none => (default, a.reference.firstOriginSequence)
    cases htail : e.lastOriginReference[originKey a.reference]? with
    | none => rfl
    | some tail =>
      have hroom := offers.sequence trivial tail htail
      dsimp only
      rw [min_eq_left (Nat.succ_le_of_lt hroom)]
  | order d orders =>
    obtain ⟨chains, hchains⟩ := h
    obtain ⟨r, hr, hpred⟩ := orders.predecessor
    obtain ⟨a, ha⟩ := contains_iff.mp orders.available
    obtain ⟨hhash, hmem⟩ := hchains.available _ a ha
    have hra : r = a.reference := by
      rcases hr with hr | ⟨b, hb, rfl⟩
      · exact eq_of_hash hinj hr hhash
      · rw [ha] at hb
        cases hb
        rfl
    subst hra
    have hknown : a.reference.previousOriginReferenceHash = default ∨
        a.reference.previousOriginReferenceHash ∈ values e.finalReferenceByPosition := by
      rcases hpred with hfirst | hpos | hcont
      · exact .inl hfirst
      · exact .inr hpos
      · rw [hstored.hashes, Std.ExtTreeSet.contains_ofList, List.contains_iff_mem] at hcont
        exact .inr hcont
    obtain ⟨rest, hpend⟩ :=
      hchains.pending_eq hinj hzero hhash hmem hknown (orders.unordered trivial)
    refine ⟨_, hchains.order hhash hpend fun q hash' hq => ?_⟩
    by_contra hle
    rw [orders.position] at hle
    have hnone := hlater q (by omega)
    change e.finalReferenceByPosition[q]? = some hash' at hq
    rw [hnone] at hq
    cases hq
  | apply d completion applies =>
    obtain ⟨chains, hchains⟩ := h
    exact ⟨chains, { hchains with
      available := fun hash a ha => hchains.available hash a (lookup_erase_eq_some.mp ha).2 }⟩

/-- The finalized references of one origin: all of them, in the order of their positions,
each one linked to the one before it, from the first of the chain on. -/
structure OriginOrder (e : GlobalOrderedEngine W) (key : OrderedOrigin W)
    (finals : List (ℕ × BatchReference W)) : Prop where
  complete : ∀ (p : ℕ) (r : BatchReference W), (p, r) ∈ finals ↔ originKey r = key ∧
    ∃ hash, e.finalReferenceByPosition[p]? = some hash ∧ r.hash = .ok hash
  ascending : (finals.map Prod.fst).Pairwise (· < ·)
  linked : List.IsChain Linked (finals.map Prod.snd)
  disjoint : (finals.map Prod.snd).Pairwise OriginChain.Precedes
  first : ∀ r ∈ (finals.map Prod.snd).head?, r.previousOriginReferenceHash = default

def OriginsOrdered (e : GlobalOrderedEngine W) : Prop :=
  ∀ key, ∃ finals, e.OriginOrder key finals

theorem originsOrdered_of_hasChains (hinj : HashInjective W)
    (h : ∃ chains, e.originTables.Has chains) : e.OriginsOrdered := by
  obtain ⟨chains, hchains⟩ := h
  intro key
  have hwell := hchains.wellFormed key
  refine ⟨(chains key).finals, fun p r => ?_, hwell.ascending, hwell.linked.left_of_append,
    hwell.ranges.sublist (List.sublist_append_left _ _), fun r hr => ?_⟩
  · constructor
    · intro hmem
      have href : r ∈ (chains key).references :=
        List.mem_append_left _ (List.mem_map.mpr ⟨_, hmem, rfl⟩)
      obtain ⟨hash, hhash⟩ := hwell.valid r href
      exact ⟨hwell.origin r href, hash, (hchains.positions p hash).mpr ⟨key, r, hmem, hhash⟩, hhash⟩
    · rintro ⟨rfl, hash, hpos, hhash⟩
      obtain ⟨k, r', hmem, hhash'⟩ := (hchains.positions p hash).mp hpos
      obtain rfl := eq_of_hash hinj hhash hhash'
      have href : r ∈ (chains k).references :=
        List.mem_append_left _ (List.mem_map.mpr ⟨_, hmem, rfl⟩)
      rw [(hchains.wellFormed k).origin r href]
      exact hmem
  · apply hwell.first r
    rw [OriginChain.references, List.head?_append, Option.mem_def.mp hr]
    rfl

/-- The batch that `apply_contiguous_to` hands to the application, if it comes to that. -/
def delivery (e : GlobalOrderedEngine W) : Option (OrderedBatch W) :=
  match e.nextToApply with
  | .ok (some (certificate, availability)) =>
    match e.store.loadBatch availability.reference with
    | .ok (some batch) => some ⟨certificate.statement.referenceHash, availability.reference, batch,
        certificate.statement.position⟩
    | _ => none
  | _ => none

/-- A call changes the engine only if a delivery is completed. -/
theorem applyContiguousTo_cases (e : GlobalOrderedEngine W)
    (application : OrderedBatch W → Result (List (List UInt8))) (io : Bool) :
    (e.applyContiguousTo application io).2 = e ∨ ∃ b c completion, e.delivery = some b ∧
      e.Applies False c completion ∧ c.statement.referenceHash = b.referenceHash ∧
      c.statement.position = b.watermark ∧
      (e.applyContiguousTo application io).2 = e.applied c completion := by
  unfold delivery
  dsimp only [applyContiguousTo]
  split
  · exact .inl rfl
  · exact .inl rfl
  · next c a hnext =>
    obtain ⟨hc, ha⟩ := nextToApply_eq_some hnext
    split
    · exact .inl rfl
    · exact .inl rfl
    · next batch hbatch =>
      split
      · exact .inl rfl
      · next completion hcomp =>
        obtain ⟨hreference, hwm, hvalid⟩ := completionOf_spec hcomp
        unfold GlobalOrderedEngine.commit
        split
        · exact .inl rfl
        · next s hs =>
          rw [DurableAdmissionStore.persistOrderedDelta_eq_ok] at hs
          obtain ⟨-, rfl⟩ := hs
          exact .inr ⟨⟨_, a.reference, batch, _⟩, c, completion, by simp only [hnext, hbatch],
            ⟨hc, contains_iff.mpr ⟨a, ha⟩, hreference, hwm, ⟨_, hvalid⟩, False.elim⟩, rfl, rfl, rfl⟩

theorem delivery_watermark {b : OrderedBatch W} (hlog : e.image.Represents log)
    (hroom : e.appliedWatermark < maxCounter) (h : e.delivery = some b) :
    b.watermark = e.appliedWatermark + 1 := by
  unfold delivery at h
  split at h
  · next c a hnext =>
    split at h
    · cases h
      obtain ⟨k, hk, -, hpos, -⟩ := hlog.next (nextToApply_eq_some hnext).1
      change min (e.appliedWatermark + 1) maxCounter = k + 1 at hk
      change c.statement.position = _
      omega
    · cases h
  · cases h

def CompletionsBounded (s : DurableAdmissionStore W) : Prop :=
  ∀ (hash : W) (completion : AppliedCompletion W), s.appliedCompletions[hash]? = some completion →
    completion.watermark ≤ s.image.applied

theorem Step.completionsBounded {fresh room : Prop} (hs : Step fresh room e e')
    (hlog : e.image.Represents log) (hd : e.Durable) (h : CompletionsBounded e.store) :
    CompletionsBounded e'.store := by
  have happ : e.store.image.applied = e.appliedWatermark :=
    congrArg OrderedImage.applied hd.mirrored
  unfold CompletionsBounded at h
  rw [happ] at h
  cases hs with
  | bind | keep =>
    exact fun hash completion hfound => (h hash completion hfound).trans happ.ge
  | touch | offer | order | contract | committee => exact h
  | apply d completion applies =>
    intro hash found hfound
    obtain ⟨-, rfl⟩ | ⟨-, hfound⟩ := lookup_insert_eq_some.mp hfound
    · exact applies.watermark.le
    · exact (h hash found hfound).trans (hlog.next_position applies.next).1

/-- What every step of an engine with a durable log keeps is kept by a call. -/
theorem Steps.preserves {fresh room : Prop} (hs : Steps fresh room e e') (hd : e.Durable)
    (hlog : ∃ log, e.image.Represents log)
    (step : ∀ {e₁ e₂ : GlobalOrderedEngine W} {log : List (OrderCertificate W)},
      Step fresh room e₁ e₂ → e₁.Durable → e₁.image.Represents log → P e₁ → P e₂)
    (h : P e) : P e' := by
  have hall : P e' ∧ e'.Durable ∧ ∃ log, e'.image.Represents log := by
    induction hs with
    | refl => exact ⟨h, hd, hlog⟩
    | tail _ hstep ih =>
      obtain ⟨hP, hdur, log, hlog⟩ := ih
      have heffect := hstep.effect hdur
      exact ⟨step hstep hdur hlog hP, heffect.durable, heffect.advances.represents hlog⟩
  exact hall.1

end GlobalOrderedEngine

namespace OrderedNode

variable [ReferenceCodec W]

def Kept : OrderedNode W → Prop
  | running e => ∃ c, Stored c e
  | stopped s => s.Clean

omit [ReferenceCodec W] in
theorem Kept.clean {n : OrderedNode W} (h : n.Kept) : n.store.Clean := by
  cases n with
  | running e =>
    obtain ⟨c, hstored⟩ := h
    exact hstored.clean
  | stopped s => exact h

omit [ReferenceCodec W] in
theorem kept_opened {s : DurableAdmissionStore W} (hs : s.Clean) (c : OrderedEngineConfig W)
    (bindIo : W → Bool) :
    (opened (newWithApplicationContract s c bindIo)).Kept ∧
      ∃ scope, (∀ known ∈ s.protocolScope, scope = some known) ∧
        (opened (newWithApplicationContract s c bindIo)).store =
          { s with protocolScope := scope } := by
  obtain ⟨scope, hkeep, hstore, hengine⟩ := opened_cases s c bindIo
  cases hres : newWithApplicationContract s c bindIo with
  | mk result store =>
    rw [hres] at hstore hengine
    cases result with
    | error f =>
      obtain rfl : store = _ := hstore
      exact ⟨hs, scope, hkeep, rfl⟩
    | ok e =>
      obtain ⟨hsame, hopens⟩ := hengine e rfl
      exact ⟨⟨c, hopens.stored hs⟩, scope, hkeep, hsame⟩

variable {allowed : GlobalOrderedEngine W → OrderedOperation W → Prop} {n : OrderedNode W}

/-- What every step and every opening of a node keep, one operation keeps. `E` is what the
steps keep of the engine besides. -/
theorem Kept.perform (fresh room : Prop) (hkept : n.Kept) (hdur : n.Durable)
    (hlog : ∃ log, n.image.Represents log)
    (hallowed : ∀ e, n = running e →
      (fresh → OrderedOperation.Fresh e op) ∧ (room → OrderedOperation.InRange e op))
    (scope : ∀ {s : DurableAdmissionStore W} scope, (∀ known ∈ s.protocolScope, scope = some known) →
      Q s → Q { s with protocolScope := scope })
    (step : ∀ {c : OrderedEngineConfig W} {e₁ e₂ : GlobalOrderedEngine W}
      {log : List (OrderCertificate W)}, Step fresh room e₁ e₂ → e₁.Durable →
      e₁.image.Represents log → Stored c e₁ → Stored c e₂ → E e₁ → Q e₁.store →
      E e₂ ∧ Q e₂.store)
    (hE : ∀ e, n = running e → E e) (hQ : Q n.store) :
    (op.perform n).Kept ∧ Q (op.perform n).store := by
  unfold OrderedOperation.perform
  split
  · next config bindIo =>
    obtain ⟨hopened, new, hkeep, hscope⟩ := kept_opened hkept.clean config bindIo
    refine ⟨hopened, ?_⟩
    rw [hscope]
    exact scope new hkeep hQ
  · cases n with
    | stopped s => exact ⟨hkept, hQ⟩
    | running e =>
      obtain ⟨c, hstored⟩ := hkept
      obtain ⟨hfresh, hroom⟩ := hallowed e rfl
      obtain ⟨log, hlog⟩ := hlog
      have hsteps := op.call_steps (noLater_of_represents hlog) hfresh hroom
      have hall : Stored c (op.call e) ∧ E (op.call e) ∧ Q (op.call e).store := by
        refine hsteps.preserves (P := fun e => Stored c e ∧ E e ∧ Q e.store)
          ⟨hdur.mirrored, hdur.started⟩ ⟨log, hlog⟩ ?_ ⟨hstored, hE e rfl, hQ⟩
        rintro e₁ e₂ log hstep hdur hlog ⟨hstored₁, hE₁, hQ₁⟩
        have hstored₂ := hstep.stored (noLater_of_represents hlog) hstored₁
        exact ⟨hstored₂, step hstep hdur hlog hstored₁ hstored₂ hE₁ hQ₁⟩
      exact ⟨⟨c, hall.1⟩, hall.2.2⟩

theorem Reaches.store_induct (fresh room : Prop) (h : Reaches allowed n)
    (hall : ∀ e op, allowed e op →
      (fresh → OrderedOperation.Fresh e op) ∧ (room → OrderedOperation.InRange e op))
    (start : ∀ holder site generation, Q (.openStore holder site generation))
    (scope : ∀ {s : DurableAdmissionStore W} scope, Q s → Q { s with protocolScope := scope })
    (step : ∀ {c : OrderedEngineConfig W} {e₁ e₂ : GlobalOrderedEngine W}
      {log : List (OrderCertificate W)}, Step fresh room e₁ e₂ → e₁.Durable →
      e₁.image.Represents log → Stored c e₁ → Stored c e₂ → Q e₁.store → Q e₂.store) :
    n.Kept ∧ Q n.store := by
  induction h with
  | start holder site generation =>
    exact ⟨fun _ => ⟨rfl, rfl, rfl, rfl, rfl⟩, start holder site generation⟩
  | @step n reached op admitted ih =>
    obtain ⟨hkept, hQ⟩ := ih
    obtain ⟨hdur, hlog⟩ := reached.represents
    exact hkept.perform fresh room (E := fun _ => True) hdur hlog
      (fun e he => hall e op (admitted e he)) (fun new _ => scope new)
      (fun hstep hdur hlog hstored₁ hstored₂ _ hQ =>
        ⟨trivial, step hstep hdur hlog hstored₁ hstored₂ hQ⟩)
      (fun _ _ => trivial) hQ

/-- The calls after which the order of the origins is kept. -/
def KeepsOrigins (e : GlobalOrderedEngine W) (op : OrderedOperation W) : Prop :=
  op.Fresh e ∧ op.InRange e

theorem Reaches.hasChains {e : GlobalOrderedEngine W} (h : Reaches KeepsOrigins (.running e))
    (hinj : HashInjective W) (hzero : OriginTables.HashNonzero W) :
    ∃ chains, e.originTables.Has chains := by
  have htables {c : OrderedEngineConfig W} {e : GlobalOrderedEngine W} (hstored : Stored c e) :
      (⟨e.store.availableReferences, e.store.originTails, e.store.positionReferences⟩ :
        OriginTables W) = e.originTables := by
    rw [hstored.available, hstored.origins, hstored.positions]
    rfl
  obtain ⟨⟨c, hstored⟩, hchains⟩ : (running e).Kept ∧ ∃ chains, OriginTables.Has
      ⟨e.store.availableReferences, e.store.originTails, e.store.positionReferences⟩ chains := by
    refine h.store_induct True True
      (Q := fun s => ∃ chains, OriginTables.Has
        ⟨s.availableReferences, s.originTails, s.positionReferences⟩ chains)
      (fun e op hop => ⟨fun _ => hop.1, fun _ => hop.2⟩) (fun _ _ _ => ⟨_, .empty⟩)
      (fun _ hQ => hQ) ?_
    intro c e₁ e₂ log hstep _ hlog hstored₁ hstored₂ hQ
    rw [htables hstored₁] at hQ
    rw [htables hstored₂]
    exact hstep.hasChains hinj hzero (noLater_of_represents hlog) hstored₁ hQ
  rw [htables hstored] at hchains
  exact hchains

theorem Reaches.completionsBounded (h : Reaches allowed n) : CompletionsBounded n.store := by
  refine (h.store_induct False False (fun _ _ _ => ⟨False.elim, False.elim⟩) ?_ (fun _ hQ => hQ)
    fun hstep hdur hlog _ _ hQ => hstep.completionsBounded hlog hdur hQ).2
  intro holder site generation hash completion hcomp
  simp [DurableAdmissionStore.openStore] at hcomp

/-- Each delivery of a run with its position, and whether its completion is durable after it. -/
def delivered (n : OrderedNode W) (op : OrderedOperation W) : Option (ℕ × Bool) :=
  match n, op with
  | .running e, .applyContiguousTo _ _ => e.delivery.map fun b => (b.watermark,
      (op.perform n).store.appliedCompletions[b.referenceHash]?.any fun completion =>
        completion.watermark = b.watermark)
  | _, _ => none

def deliveries : List (OrderedOperation W) → OrderedNode W → List (ℕ × Bool)
  | [], _ => []
  | op :: ops, n => (delivered n op).toList ++ deliveries ops (op.perform n)

/-- The deliveries from a watermark on: each is of the next position, and the watermark moves
on exactly when the completion is durable. -/
def InOrder : ℕ → List (ℕ × Bool) → Prop
  | _, [] => True
  | watermark, (p, durable) :: rest =>
    p = watermark + 1 ∧ InOrder (if durable then p else watermark) rest

def Admitted (allowed : GlobalOrderedEngine W → OrderedOperation W → Prop) :
    List (OrderedOperation W) → OrderedNode W → Prop
  | [], _ => True
  | op :: ops, n => (∀ e, n = .running e → allowed e op) ∧ Admitted allowed ops (op.perform n)

theorem perform_applied (h : Reaches allowed n)
    (hop : ∀ e application io, n = .running e → op ≠ .applyContiguousTo application io) :
    (op.perform n).image.applied = n.image.applied := by
  obtain ⟨hdur, -⟩ := h.represents
  unfold OrderedOperation.perform
  split
  · next config bindIo =>
    obtain ⟨-, himage⟩ := durable_opened hdur.started
      (newWithApplicationContract_reopened hdur.started config bindIo)
    rw [himage, hdur.mirrored]
  · cases n with
    | stopped s => rfl
    | running e =>
      exact OrderedOperation.call_applied fun application io => hop e application io rfl

/-- One call delivers the position after the watermark or nothing, and the watermark moves on
exactly when the completion of the delivery is durable. -/
theorem delivered_spec (h : Reaches allowed n) (hfresh : ∀ e, n = .running e → op.Fresh e) :
    match delivered n op with
    | none => (op.perform n).image.applied = n.image.applied
    | some (p, durable) => p = n.image.applied + 1 ∧
        (op.perform n).image.applied = if durable then p else n.image.applied := by
  obtain ⟨hdur, log, hlog⟩ := h.represents
  by_cases hop : ∃ e application io, n = .running e ∧ op = .applyContiguousTo application io
  · obtain ⟨e, application, io, rfl, rfl⟩ := hop
    have hroom : e.appliedWatermark < maxCounter := hfresh e rfl
    have hmirrored : e.store.image.applied = e.appliedWatermark :=
      congrArg OrderedImage.applied hdur.mirrored
    have hbdd := h.completionsBounded
    change CompletionsBounded e.store at hbdd
    unfold CompletionsBounded at hbdd
    rw [hmirrored] at hbdd
    have hcall := e.applyContiguousTo_cases application io
    unfold delivered
    dsimp only
    cases hdelivery : e.delivery with
    | none =>
      obtain hsame | ⟨b, c, completion, hb, -⟩ := hcall
      · exact congrArg appliedWatermark hsame
      · cases hdelivery.symm.trans hb
    | some b =>
      have hwm := delivery_watermark hlog hroom hdelivery
      refine ⟨hwm, ?_⟩
      change (e.applyContiguousTo application io).2.appliedWatermark =
        if ((e.applyContiguousTo application io).2.store.appliedCompletions[b.referenceHash]?.any
          fun completion => completion.watermark = b.watermark) = true then b.watermark
        else e.appliedWatermark
      rcases hcall with hsame | ⟨b', c, completion, hb, happlies, hreference, hpos, hnext⟩
      · rw [hsame, if_neg]
        intro hdur
        rw [Option.any_eq_true] at hdur
        obtain ⟨completion, hcomp, heq⟩ := hdur
        have hle := hbdd _ completion hcomp
        rw [decide_eq_true_eq] at heq
        omega
      · cases hdelivery.symm.trans hb
        rw [hnext, if_pos]
        · exact hpos
        · change ((e.store.appliedCompletions.insert completion.referenceHash
            completion)[b.referenceHash]?.any _) = true
          rw [lookup_insert, if_pos (happlies.referenceHash.trans hreference), Option.any_some,
            decide_eq_true_eq, happlies.watermark, hpos]
  · have hnone : delivered n op = none := by
      unfold delivered
      split
      · exact absurd ⟨_, _, _, rfl, rfl⟩ hop
      · rfl
    rw [hnone]
    exact perform_applied h fun e application io hn hop' => hop ⟨e, application, io, hn, hop'⟩

theorem deliveries_inOrder (hall : ∀ e op, allowed e op → OrderedOperation.Fresh e op)
    (h : Reaches allowed n) (ops : List (OrderedOperation W)) (ha : Admitted allowed ops n) :
    InOrder n.image.applied (deliveries ops n) := by
  induction ops generalizing n with
  | nil => trivial
  | cons op ops ih =>
    have hspec := delivered_spec h fun e he => hall e op (ha.1 e he)
    have hrest := ih (h.step op ha.1) ha.2
    rw [deliveries]
    cases hd : delivered n op with
    | none =>
      rw [hd] at hspec
      rw [hspec] at hrest
      exact hrest
    | some delivery =>
      rw [hd] at hspec
      rw [hspec.2] at hrest
      exact ⟨hspec.1, hrest⟩

instance (e : GlobalOrderedEngine W) : (op : OrderedOperation W) → Decidable (op.InRange e)
  | .markAvailable a _ _ | .markAvailableWithBatch _ a _ _ _ =>
    decidable_of_iff (e.lastOriginReference[originKey a.reference]?.all
      fun tail => tail.2 < maxCounter)
      (by simp [OrderedOperation.InRange, Option.all_eq_true])
  | .storeBatch .. | .finalize .. | .finalizeTrusted .. | .finalizeTrustedEpoch ..
  | .applyContiguousTo .. | .activateApplicationContract .. | .activateCommitteeTransition ..
  | .reopen .. => inferInstanceAs (Decidable True)

instance (e : GlobalOrderedEngine W) (op : OrderedOperation W) : Decidable (KeepsOrigins e op) :=
  inferInstanceAs (Decidable (op.Fresh e ∧ op.InRange e))

end OrderedNode

theorem FreeWord.hash_nonzero : OriginTables.HashNonzero FreeWord := by
  intro fields h
  cases h

end Blossom
