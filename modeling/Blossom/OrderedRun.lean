import Blossom.OrderLog
import Blossom.OrderedSteps

/-!
# Runs of an ordered engine

A node runs an engine over its store. Every call of the engine, whichever of its transactions
commit, and every reopening of the store with any configuration is one operation.
-/

namespace Blossom

open CheckedSteps OrderedMap OrderedImage GlobalOrderedEngine

variable {W : Type} [ProtocolCrypto W]
variable {log : List (OrderCertificate W)} {c : OrderedEngineConfig W}

/-- The store holds the tables of the engine. -/
def GlobalOrderedEngine.Mirrored (e : GlobalOrderedEngine W) : Prop := e.store.image = e.image

def emptyImage : OrderedImage W := ⟨∅, ∅, ∅, 0, default, 0⟩

def DurableAdmissionStore.Started (s : DurableAdmissionStore W) : Prop :=
  s.orderedMetadata = none → s.image = emptyImage

namespace DurableAdmissionStore

variable {s s' : DurableAdmissionStore W}

/-- What a delta makes of the tables. -/
def writeImage (i : OrderedImage W) (delta : OrderedStateDelta W) : OrderedImage W where
  available := upsertAll (delta.availableRemovals.foldl (fun table hash => table.erase hash)
    i.available) delta.availableUpserts
  finalized := upsertAll i.finalized delta.finalizedUpserts
  positions := upsertAll i.positions delta.positionUpserts
  last := delta.metadata.lastFinalizedPosition
  tail := delta.metadata.lastOrderCertificateHash
  applied := delta.metadata.appliedWatermark

theorem written_image (s : DurableAdmissionStore W) (delta : OrderedStateDelta W)
    (completion : Option (AppliedCompletion W)) :
    (s.written delta completion).image = writeImage s.image delta := rfl

theorem withTransition_image (s : DurableAdmissionStore W) (metadata : DurableOrderedMetadata W)
    (c : CommitteeTransitionCertificate W) :
    (s.withTransition metadata c).image =
      { s.image with
        last := metadata.lastFinalizedPosition
        tail := metadata.lastOrderCertificateHash
        applied := metadata.appliedWatermark } := rfl

end DurableAdmissionStore

namespace GlobalOrderedEngine

variable {e e' : GlobalOrderedEngine W}

/-- An engine that keeps its tables in its store. -/
structure Durable (e : GlobalOrderedEngine W) : Prop where
  mirrored : e.Mirrored
  started : e.store.Started

/-- What one call does to the tables. -/
structure Effect (fresh : Prop) (e e' : GlobalOrderedEngine W) : Prop where
  advances : Advances fresh e.image e'.image
  durable : e'.Durable

variable {fresh room : Prop}

theorem Effect.refl (h : e.Durable) : Effect fresh e e := ⟨.refl, h⟩

theorem Effect.trans {e₁ e₂ e₃ : GlobalOrderedEngine W} (h : Effect fresh e₁ e₂)
    (h' : Effect fresh e₂ e₃) : Effect fresh e₁ e₃ :=
  ⟨h.advances.trans h'.advances, h'.durable⟩

/-- A change of the tables that a delta writes into the store. -/
theorem Effect.written (h : e.Durable) (next : GlobalOrderedEngine W)
    {delta : OrderedStateDelta W} {completion : Option (AppliedCompletion W)}
    (ha : Advances fresh e.image next.image)
    (hi : DurableAdmissionStore.writeImage e.image delta = next.image) :
    Effect fresh e { next with store := e.store.written delta completion } := by
  refine ⟨ha, Eq.trans ?_ hi, nofun⟩
  rw [DurableAdmissionStore.written_image, h.mirrored]

theorem Step.effect (hs : Step fresh room e e') (h : e.Durable) : Effect fresh e e' := by
  cases hs with
  | bind | keep => exact ⟨.refl, h.mirrored, h.started⟩
  | touch => exact .written h e .refl rfl
  | offer hash a offers => exact .written h (e.offered hash a) (.single (.offer hash a)) rfl
  | order c orders =>
    exact .written h (e.withFinalized c) (.single (.order c orders.position orders.previous
      orders.bound orders.available orders.unordered)) rfl
  | apply c completion applies =>
    exact .written h (e.withApplied c.statement.position c.statement.referenceHash)
      (.single (.apply c applies.next applies.room)) rfl
  | contract route spec check => exact .written h (e.contracted route spec) .refl rfl
  | committee c check known =>
    refine ⟨.refl, ?_, nofun⟩
    change (e.store.withTransition _ c).image = e.image
    rw [DurableAdmissionStore.withTransition_image, h.mirrored]
    rfl

theorem Steps.effect (hs : Steps fresh room e e') (h : e.Durable) : Effect fresh e e' := by
  induction hs with
  | refl => exact .refl h
  | tail _ hstep ih => exact ih.trans (hstep.effect ih.durable)

theorem noLater_of_represents (h : e.image.Represents log) : e.NoLater := by
  intro p hp
  cases hc : e.finalReferenceByPosition[p]? with
  | none => rfl
  | some hash =>
    have hlast : e.lastFinalizedPosition = log.length := h.last
    obtain ⟨i, rfl, hi⟩ := h.positions.eq_some hc
    have hlt := (List.getElem?_eq_some_iff.mp hi).1
    rw [orderedReferences, List.length_map] at hlt
    omega

theorem restoreCommitteeHistory_image
    (h : e.restoreCommitteeHistory = .ok e') : e'.image = e.image ∧ e'.store = e.store := by
  rw [restoreCommitteeHistory] at h
  split_ifs at h
  · rw [pure_eq_ok] at h
    exact h ▸ ⟨rfl, rfl⟩
  · simp only [bind_eq_ok] at h
    obtain ⟨scope, -, hfold⟩ := h
    refine foldlM_invariant (P := fun e' => e'.image = e.image ∧ e'.store = e.store) ?_
      ⟨rfl, rfl⟩ hfold
    intro acc entry next hacc hstep
    rw [restoreCommittee] at hstep
    simp only [↓guard_bind_eq_ok, pure_eq_ok] at hstep
    obtain ⟨-, -, rfl⟩ := hstep
    exact hacc

/-- The loop over the durable availability binds the scope, unless it is bound already, and
changes nothing else. -/
theorem bindDurableAvailability_store (e : GlobalOrderedEngine W)
    (metadata : DurableOrderedMetadata W) (bindIo : W → Bool)
    (entries : List (W × AvailabilityCertificate W)) (s : DurableAdmissionStore W) :
    ∃ scope, (∀ known ∈ s.protocolScope, scope = some known) ∧
      (e.bindDurableAvailability metadata bindIo entries s).2 =
        { s with protocolScope := scope } := by
  induction entries generalizing s with
  | nil => exact ⟨s.protocolScope, fun _ h => h, rfl⟩
  | cons entry rest ih =>
    rw [bindDurableAvailability]
    split
    · exact ⟨s.protocolScope, fun _ h => h, rfl⟩
    · split
      · exact ⟨s.protocolScope, fun _ h => h, rfl⟩
      · next bound hbound =>
        rw [DurableAdmissionStore.bindProtocolScope_eq_ok] at hbound
        obtain ⟨hfree, -, rfl⟩ := hbound
        obtain ⟨scope, hkeep, hstore⟩ := ih (s.bound
          (entry.2.reference.clusterId, entry.2.reference.consensusGroupId))
        refine ⟨scope, fun known hknown => ?_, hstore⟩
        rw [hfree known hknown]
        exact hkeep _ rfl

theorem authorize_spec (e : GlobalOrderedEngine W) :
    e.authorize.2 = e.store ∧ ∀ e', e.authorize.1 = .ok e' → e' = e := by
  unfold authorize
  split_ifs
  · refine ⟨rfl, fun e' h => ?_⟩
    cases h
    rfl
  · refine ⟨rfl, fun e' h => ?_⟩
    cases h

/-- A store that was opened, and the engine over it if there is one. -/
structure Reopened (s : DurableAdmissionStore W)
    (r : Result (GlobalOrderedEngine W) × DurableAdmissionStore W) : Prop where
  image : r.2.image = s.image
  metadata : r.2.orderedMetadata = s.orderedMetadata
  engine : ∀ e, r.1 = .ok e → e.image = s.image ∧ e.store = r.2

variable {s : DurableAdmissionStore W}

theorem loadMetadata_spec {metadata : Option (DurableOrderedMetadata W)}
    (h : loadMetadata s c = .ok metadata) : s.orderedMetadata = metadata := by
  rw [loadMetadata, guard_bind_eq_ok, DurableAdmissionStore.loadOrderedState] at h
  have hstate := h.2
  split at hstate
  · next hnone =>
    rw [pure_eq_ok] at hstate
    exact hnone.trans hstate
  · next m hsome =>
    rw [guard_bind_eq_ok, guard_bind_eq_ok, pure_eq_ok] at hstate
    exact hsome.trans hstate.2.2

/-- The engines that opening a store gives. -/
inductive Opens (s : DurableAdmissionStore W) (c : OrderedEngineConfig W) :
    GlobalOrderedEngine W → Prop
  | empty (metadata : s.orderedMetadata = none) : Opens s c (c.emptyEngine s)
  | restored {metadata : DurableOrderedMetadata W} {e : GlobalOrderedEngine W}
      (scope : Option (W × W)) (durable : s.orderedMetadata = some metadata)
      (committees : (c.emptyEngine s).restoreCommitteeHistory = .ok e)
      (parameters : e.checkDurableParameters metadata = .ok ())
      (chain : { e with store := { s with protocolScope := scope } }.checkDurableChain metadata =
        .ok ()) :
      Opens s c ({ e with store := { s with protocolScope := scope } }.installDurableState metadata)

/-- Opening changes the store by no more than a scope that was not bound before. -/
theorem opened_cases (s : DurableAdmissionStore W) (c : OrderedEngineConfig W)
    (bindIo : W → Bool) : ∃ scope, (∀ known ∈ s.protocolScope, scope = some known) ∧
      (newWithApplicationContract s c bindIo).2 = { s with protocolScope := scope } ∧
      ∀ e, (newWithApplicationContract s c bindIo).1 = .ok e →
        e.store = { s with protocolScope := scope } ∧ Opens s c e := by
  unfold newWithApplicationContract
  split
  · exact ⟨s.protocolScope, fun _ h => h, rfl, nofun⟩
  · next hload =>
    obtain ⟨hstore, hengine⟩ := authorize_spec (c.emptyEngine s)
    refine ⟨s.protocolScope, fun _ h => h, hstore, fun e h => ?_⟩
    obtain rfl := hengine e h
    exact ⟨rfl, .empty (loadMetadata_spec hload)⟩
  · next metadata hload =>
    split
    · exact ⟨s.protocolScope, fun _ h => h, rfl, nofun⟩
    · next e₁ hrestored =>
      obtain rfl : e₁.store = s := (restoreCommitteeHistory_image hrestored).2
      unfold restore
      split
      · exact ⟨_, fun _ h => h, rfl, nofun⟩
      · next hparameters =>
        obtain ⟨scope, hkeep, hbound⟩ := bindDurableAvailability_store e₁ metadata bindIo
          e₁.store.availableReferences.toList e₁.store
        refine ⟨scope, hkeep, ?_⟩
        split
        · next heq =>
          rw [heq] at hbound
          exact ⟨hbound, nofun⟩
        · next bound heq =>
          rw [heq] at hbound
          obtain rfl : bound = _ := hbound
          split
          · exact ⟨rfl, nofun⟩
          · next hchain =>
            obtain ⟨hstore, hengine⟩ := authorize_spec
              (installDurableState { e₁ with store := _ } metadata)
            refine ⟨hstore, fun e h => ?_⟩
            obtain rfl := hengine e h
            exact ⟨rfl, .restored scope (loadMetadata_spec hload) hrestored hparameters hchain⟩

/-- Opening an engine gives it the tables of the store. -/
theorem newWithApplicationContract_reopened (hs : s.Started) (c : OrderedEngineConfig W)
    (bindIo : W → Bool) : Reopened s (newWithApplicationContract s c bindIo) := by
  obtain ⟨scope, -, hstore, hengine⟩ := opened_cases s c bindIo
  refine ⟨by rw [hstore]; rfl, by rw [hstore], fun e he => ?_⟩
  obtain ⟨hsame, hopens⟩ := hengine e he
  refine ⟨?_, hsame.trans hstore.symm⟩
  cases hopens with
  | empty hnone =>
    rw [hs hnone]
    rfl
  | restored scope hsome =>
    rw [DurableAdmissionStore.image, hsome]
    rfl

end GlobalOrderedEngine

inductive OrderedNode (W : Type) [ProtocolCrypto W] where
  | running (e : GlobalOrderedEngine W)
  | stopped (s : DurableAdmissionStore W)

inductive OrderedOperation (W : Type) [ProtocolCrypto W] where
  | storeBatch (reference : BatchReference W) (batch : CommandBatch) (io : Bool)
  | markAvailable (certificate : AvailabilityCertificate W) (bindIo io : Bool)
  | markAvailableWithBatch (batch : CommandBatch) (certificate : AvailabilityCertificate W)
      (storeIo bindIo io : Bool)
  | finalize (certificate : OrderCertificate W) (io : Bool)
  | finalizeTrusted (statement : OrderStatement W) (io : Bool)
  | finalizeTrustedEpoch (epoch : Epoch W) (io : Bool)
  | applyContiguousTo (application : OrderedBatch W → Result (List (List UInt8))) (io : Bool)
  | activateApplicationContract (routeGeneration commandSpecVersion : ℕ) (io : Bool)
  | activateCommitteeTransition (certificate : CommitteeTransitionCertificate W) (io : Bool)
  | reopen (config : OrderedEngineConfig W) (bindIo : W → Bool)

namespace OrderedNode

def store : OrderedNode W → DurableAdmissionStore W
  | running e => e.store
  | stopped s => s

def image : OrderedNode W → OrderedImage W
  | running e => e.image
  | stopped s => s.image

def opened (r : Result (GlobalOrderedEngine W) × DurableAdmissionStore W) : OrderedNode W :=
  match r with
  | (.ok e, _) => running e
  | (.error _, s) => stopped s

end OrderedNode

namespace OrderedOperation

variable [ReferenceCodec W]

def call (e : GlobalOrderedEngine W) : OrderedOperation W → GlobalOrderedEngine W
  | storeBatch r b io => (e.storeBatch r b io).2
  | markAvailable c bindIo io => (e.markAvailable c bindIo io).2
  | markAvailableWithBatch b c storeIo bindIo io =>
    (e.markAvailableWithBatch b c storeIo bindIo io).2
  | finalize c io => (e.finalize c io).2
  | finalizeTrusted s io => (e.finalizeTrusted s io).2
  | finalizeTrustedEpoch epoch io => (e.finalizeTrustedEpoch epoch io).2
  | applyContiguousTo application io => (e.applyContiguousTo application io).2
  | activateApplicationContract r c io => (e.activateApplicationContract r c io).2
  | activateCommitteeTransition c io => (e.activateCommitteeTransition c io).2
  | reopen .. => e

def perform (n : OrderedNode W) (op : OrderedOperation W) : OrderedNode W :=
  match op with
  | reopen config bindIo =>
    .opened (GlobalOrderedEngine.newWithApplicationContract n.store config bindIo)
  | op =>
    match n with
    | .running e => .running (op.call e)
    | .stopped s => .stopped s

/-- The calls after which a reference still has one position: one that finalizes the next
position names a reference without a position, and one that applies has a next position to
count. -/
def Fresh (e : GlobalOrderedEngine W) : OrderedOperation W → Prop
  | finalize c _ => c.statement.position = e.lastFinalizedPosition + 1 →
      c.statement.referenceHash ∉ values e.finalReferenceByPosition
  | finalizeTrusted s _ => s.position = e.lastFinalizedPosition + 1 →
      s.referenceHash ∉ values e.finalReferenceByPosition
  | applyContiguousTo .. => e.appliedWatermark < maxCounter
  | _ => True

instance (e : GlobalOrderedEngine W) : (op : OrderedOperation W) → Decidable (op.Fresh e)
  | finalize .. => inferInstanceAs (Decidable (_ → _ ∉ values e.finalReferenceByPosition))
  | finalizeTrusted .. => inferInstanceAs (Decidable (_ → _ ∉ values e.finalReferenceByPosition))
  | applyContiguousTo .. => inferInstanceAs (Decidable (e.appliedWatermark < maxCounter))
  | storeBatch .. | markAvailable .. | markAvailableWithBatch .. | finalizeTrustedEpoch ..
  | activateApplicationContract .. | activateCommitteeTransition .. | reopen .. =>
    inferInstanceAs (Decidable True)

/-- The calls after which the ranges of an origin are still consecutive: its sequences have
not run out. -/
def InRange (e : GlobalOrderedEngine W) : OrderedOperation W → Prop
  | markAvailable a _ _ | markAvailableWithBatch _ a _ _ _ =>
    ∀ tail, e.lastOriginReference[GlobalOrderedEngine.originKey a.reference]? = some tail →
      tail.2 < maxCounter
  | _ => True

theorem call_steps {fresh room : Prop} {e : GlobalOrderedEngine W} (hlater : e.NoLater)
    (op : OrderedOperation W) (hf : fresh → op.Fresh e) (hr : room → op.InRange e) :
    GlobalOrderedEngine.Steps fresh room e (op.call e) := by
  cases op with
  | storeBatch r b io => exact storeBatch_steps r b io
  | markAvailable a bindIo io => exact markAvailable_steps a bindIo io hr
  | markAvailableWithBatch b a storeIo bindIo io =>
    exact markAvailableWithBatch_steps b a storeIo bindIo io hr
  | finalize c io => exact finalize_steps c io hf
  | finalizeTrusted s io => exact finalizeTrusted_steps s io hf
  | finalizeTrustedEpoch epoch io =>
    exact finalizeTrustedEpoch_steps epoch io hlater
  | applyContiguousTo application io =>
    exact applyContiguousTo_steps application io hf
  | activateApplicationContract r c io =>
    exact activateApplicationContract_steps r c io
  | activateCommitteeTransition c io =>
    exact activateCommitteeTransition_steps c io
  | reopen config bindIo => exact .refl

end OrderedOperation

namespace OrderedNode

variable [ReferenceCodec W] {allowed : GlobalOrderedEngine W → OrderedOperation W → Prop}
  {n : OrderedNode W}

/-- The nodes that runs reach from a new store when every call of a running engine is an
allowed one. -/
inductive Reaches (allowed : GlobalOrderedEngine W → OrderedOperation W → Prop) :
    OrderedNode W → Prop where
  | start (holder : W) (site : SiteId) (storeGeneration : ℕ) :
      Reaches allowed (.stopped (.openStore holder site storeGeneration))
  | step {n : OrderedNode W} (reached : Reaches allowed n) (op : OrderedOperation W)
      (admitted : ∀ e, n = .running e → allowed e op) : Reaches allowed (op.perform n)

structure Durable (n : OrderedNode W) : Prop where
  mirrored : n.store.image = n.image
  started : n.store.Started

omit [ReferenceCodec W] in
theorem opens_of_running {e : GlobalOrderedEngine W} {s : DurableAdmissionStore W}
    {bindIo : W → Bool} (h : opened (newWithApplicationContract s c bindIo) = .running e) :
    GlobalOrderedEngine.Opens s c e := by
  obtain ⟨_, -, -, hengine⟩ := opened_cases s c bindIo
  refine (hengine e ?_).2
  unfold opened at h
  split at h
  next heq =>
    cases h
    rw [heq]
  next => cases h

theorem perform_cases (n : OrderedNode W) (op : OrderedOperation W) :
    (∃ config bindIo, op = .reopen config bindIo ∧ op.perform n =
      opened (newWithApplicationContract n.store config bindIo)) ∨
    (∃ e, n = .running e ∧ op.perform n = .running (op.call e)) ∨ op.perform n = n := by
  unfold OrderedOperation.perform
  split
  · next config bindIo => exact .inl ⟨config, bindIo, rfl, rfl⟩
  · cases n with
    | running e => exact .inr (.inl ⟨e, rfl, rfl⟩)
    | stopped s => exact .inr (.inr rfl)

omit [ReferenceCodec W] in
theorem durable_opened {s : DurableAdmissionStore W} (hs : s.Started)
    {r : Result (GlobalOrderedEngine W) × DurableAdmissionStore W}
    (hr : GlobalOrderedEngine.Reopened s r) :
    (opened r).Durable ∧ (opened r).image = s.image := by
  have hstarted : r.2.Started := fun hnone => hr.image.trans (hs (hr.metadata ▸ hnone))
  obtain ⟨result, store⟩ := r
  cases result with
  | error f => exact ⟨⟨rfl, hstarted⟩, hr.image⟩
  | ok e =>
    obtain ⟨himage, hstore⟩ := hr.engine e rfl
    refine ⟨⟨?_, ?_⟩, himage⟩
    · change e.store.image = e.image
      rw [hstore, himage]
      exact hr.image
    · change e.store.Started
      rw [hstore]
      exact hstarted

theorem perform_advances (fresh : Prop) (h : n.Durable) (hlog : n.image.Represents log)
    (op : OrderedOperation W) (hf : fresh → ∀ e, n = .running e → op.Fresh e) :
    Advances fresh n.image (op.perform n).image ∧ (op.perform n).Durable := by
  unfold OrderedOperation.perform
  split
  · next config bindIo =>
    obtain ⟨hdur, himage⟩ := durable_opened h.started
      (newWithApplicationContract_reopened h.started config bindIo)
    refine ⟨?_, hdur⟩
    rw [himage, h.mirrored]
  · cases n with
    | running e =>
      have hengine : e.Durable := ⟨h.mirrored, h.started⟩
      have hsteps : GlobalOrderedEngine.Steps fresh False e (op.call e) :=
        op.call_steps (noLater_of_represents hlog)
          (fun hfresh => hf hfresh e rfl) False.elim
      have heffect := hsteps.effect hengine
      exact ⟨heffect.advances, heffect.durable.mirrored, heffect.durable.started⟩
    | stopped s => exact ⟨.refl, h⟩

omit [ReferenceCodec W] in
theorem durable_start (holder : W) (site : SiteId) (storeGeneration : ℕ) :
    (stopped (.openStore holder site storeGeneration)).Durable :=
  ⟨rfl, fun _ => rfl⟩

theorem Reaches.represents (h : Reaches allowed n) :
    n.Durable ∧ ∃ log, n.image.Represents log := by
  induction h with
  | start holder site storeGeneration =>
    exact ⟨durable_start holder site storeGeneration, [], .empty rfl rfl rfl rfl rfl⟩
  | step _ op _ ih =>
    obtain ⟨hdur, log, hlog⟩ := ih
    obtain ⟨hadvances, hdur'⟩ := perform_advances False hdur hlog op False.elim
    exact ⟨hdur', hadvances.represents hlog⟩

theorem Reaches.orderly (h : Reaches (fun e op => op.Fresh e) n) :
    n.Durable ∧ ∃ log, n.image.Represents log ∧ n.image.Orderly log := by
  induction h with
  | start holder site storeGeneration =>
    refine ⟨durable_start holder site storeGeneration, [], .empty rfl rfl rfl rfl rfl, ?_⟩
    exact ⟨List.nodup_nil, by simp [orderedReferences]⟩
  | step _ op hfresh ih =>
    obtain ⟨hdur, log, hlog, horderly⟩ := ih
    obtain ⟨hadvances, hdur'⟩ := perform_advances True hdur hlog op fun _ => hfresh
    exact ⟨hdur', hadvances.orderly hlog horderly⟩

end OrderedNode

end Blossom
