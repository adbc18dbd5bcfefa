import Blossom.OrderedNetwork

/-!
# What honest participants vote for

The lock of an order vote keeps a participant from another statement for the position.
-/

namespace Blossom

open CheckedSteps OrderedMap OrderedImage MajorityQuorum GlobalOrderedEngine

variable {W : Type} [ProtocolCrypto W] {g : Genesis W}
variable {st : OrderStatement W} {vote : CommitteeTransitionVote W}

/-- A statement that a participant has voted for: it is of an earlier generation, or at most the
next position; if it is the next position its reference is available and has no position. -/
def Awaited (st : OrderStatement W) (generation last : ℕ)
    (available : BTreeMap W (AvailabilityCertificate W)) (positions : BTreeMap ℕ W) : Prop :=
  st.validatorGeneration ≤ generation ∧ (st.validatorGeneration = generation →
    st.position ≤ last + 1 ∧ (st.position = last + 1 →
      available.contains st.referenceHash = true ∧ st.referenceHash ∉ values positions))

def InScope (available : BTreeMap W (AvailabilityCertificate W)) (scope : Option (W × W)) : Prop :=
  ∀ (hash : W) (a : AvailabilityCertificate W), available[hash]? = some a →
    a.reference.hash = .ok hash ∧
      scope = some (a.reference.clusterId, a.reference.consensusGroupId)

def DurableAdmissionStore.Awaits (g : Genesis W) (s : DurableAdmissionStore W)
    (st : OrderStatement W) : Prop :=
  Awaited st (s.generation g) s.image.last s.availableReferences s.positionReferences

theorem Awaited.available {generation last : ℕ}
    {available available' : BTreeMap W (AvailabilityCertificate W)} {positions : BTreeMap ℕ W}
    (h : Awaited st generation last available positions)
    (hmore : st.referenceHash ∉ values positions → available.contains st.referenceHash = true →
      available'.contains st.referenceHash = true) :
    Awaited st generation last available' positions := by
  refine ⟨h.1, fun hgen => ⟨(h.2 hgen).1, fun hpos => ?_⟩⟩
  obtain ⟨havail, hfree⟩ := (h.2 hgen).2 hpos
  exact ⟨hmore hfree havail, hfree⟩

namespace GlobalOrderedEngine

variable {e e' : GlobalOrderedEngine W} {c : OrderedEngineConfig W} {fresh room : Prop}
  {log : List (OrderCertificate W)} {st : OrderStatement W}

theorem awaits_iff (h : Stored c e) (hd : e.Durable) (hg : e.Governed g) :
    e.store.Awaits g st ↔ Awaited st e.validatorGeneration e.lastFinalizedPosition e.available
      e.finalReferenceByPosition := by
  have hlast : e.store.image.last = e.lastFinalizedPosition :=
    congrArg OrderedImage.last hd.mirrored
  unfold DurableAdmissionStore.Awaits
  rw [h.generation_eq hg, hlast, h.available, h.positions]

/-- A statement stays awaited: its reference is not applied before its position is finalized,
and the committee is not replaced before. -/
theorem Step.awaited (hs : Step fresh room e e') (hlog : e.image.Represents log)
    (h : Awaited st e.validatorGeneration e.lastFinalizedPosition e.available
      e.finalReferenceByPosition) :
    Awaited st e'.validatorGeneration e'.lastFinalizedPosition e'.available
      e'.finalReferenceByPosition := by
  cases hs with
  | bind | keep | touch | contract => exact h
  | offer hash a offers => exact h.available fun _ => mem_contains_insert
  | order d orders =>
    refine ⟨h.1, fun hgen => ?_⟩
    have hlast : (e.ordered d).lastFinalizedPosition = e.lastFinalizedPosition + 1 :=
      orders.position
    have hle := (h.2 hgen).1
    rw [hlast]
    exact ⟨by omega, fun hpos => absurd hpos (by omega)⟩
  | apply d completion applies =>
    refine h.available fun hfree havail => ?_
    -- What is applied has a position.
    have hord : d.statement.referenceHash ∈ values e.finalReferenceByPosition := by
      rw [mem_values]
      refine ⟨min (e.appliedWatermark + 1) maxCounter, (lookup_position hlog _).trans ?_⟩
      rw [applies.next]
      rfl
    have hne : d.statement.referenceHash ≠ st.referenceHash := fun heq => hfree (heq ▸ hord)
    obtain ⟨a, ha⟩ := contains_iff.mp havail
    exact contains_iff.mpr ⟨a, lookup_erase_eq_some.mpr ⟨hne, ha⟩⟩
  | committee t check known =>
    obtain ⟨-, ⟨scope, -, hver⟩, -⟩ := checkCommitteeTransition_spec check
    have hgen := CommitteeTransitionCertificate.generation_of_verify hver
    have hle := h.1
    refine ⟨?_, fun heq => ?_⟩
    · change st.validatorGeneration ≤ t.statement.nextValidatorGeneration
      omega
    · change st.validatorGeneration = t.statement.nextValidatorGeneration at heq
      omega

theorem Step.inScope (hs : Step fresh room e e') (h : InScope e.available e.store.protocolScope) :
    InScope e'.available e'.store.protocolScope := by
  cases hs with
  | bind scope free =>
    intro hash a ha
    obtain ⟨hhash, hscope⟩ := h hash a ha
    exact ⟨hhash, congrArg some (free _ hscope).symm⟩
  | keep | touch | order | contract | committee => exact h
  | offer new b offers =>
    intro hash a ha
    obtain ⟨rfl, rfl⟩ | ⟨-, ha⟩ := lookup_insert_eq_some.mp ha
    · exact ⟨offers.hash_eq, offers.scope⟩
    · exact h hash a ha
  | apply d completion applies =>
    exact fun hash a ha => h hash a (lookup_erase_eq_some.mp ha).2

theorem Step.scope (hs : Step fresh room e e') {scope : W × W}
    (h : e.store.protocolScope = some scope) : e'.store.protocolScope = some scope := by
  cases hs with
  | bind new free => exact congrArg some (free _ h).symm
  | keep | touch | offer | order | apply | contract | committee => exact h

theorem Step.holder (hs : Step fresh room e e') : e'.store.holder = e.store.holder := by
  cases hs <;> rfl

end GlobalOrderedEngine

namespace OrderedNetwork

variable {S : OrderedSetting W} {N N' : OrderedNetwork W} {v : W}

def storeOf (N : OrderedNetwork W) (v : W) : DurableAdmissionStore W := (N.validators v).node.store

/-- What a participant has in its store: committees and positions that are certified by the
committees before them, with signatures that have been sent. -/
structure Chained [ReferenceCodec W] (S : OrderedSetting W) (N : OrderedNetwork W) (v : W) :
    Prop where
  reaches : OrderedNode.Reaches (fun _ _ => True) (N.validators v).node
  governed : ∀ e, (N.validators v).node = .running e → e.Governed S.genesis
  holder : (N.storeOf v).holder = v
  succeeds : (N.storeOf v).Succeeds S.genesis
  inScope : InScope (N.storeOf v).availableReferences (N.storeOf v).protocolScope
  orders : ∀ (p : ℕ) c, (N.storeOf v).finalizedPositions[p]? = some c →
    S.OrderSigned N.orderVotes c
  transitions : ∀ (k : ℕ) t, (N.storeOf v).committeeTransitions[k]? = some t →
    S.TransitionSigned N.transitionVotes t

/-- What a participant has voted for: every vote is locked, order votes are in the scope of the
store and awaited, and no order vote is behind the boundary of a transition vote. -/
structure Careful (S : OrderedSetting W) (N : OrderedNetwork W) (v : W) : Prop where
  orderLocked : ∀ vote ∈ N.orderVotes, vote.validator = v →
    (N.validators v).votes.orderVotes[vote.statement.voteKey]? = some vote.statement.voteHash
  transitionLocked : ∀ vote ∈ N.transitionVotes, vote.validator = v →
    (N.validators v).votes.committeeTransitionVotes[vote.statement.previousValidatorGeneration]? =
      some vote.statement.voteHash
  grouped : ∀ vote ∈ N.orderVotes, vote.validator = v →
    ∃ cluster, (N.storeOf v).protocolScope = some (cluster, vote.statement.consensusGroupId)
  awaited : ∀ vote ∈ N.orderVotes, vote.validator = v →
    (N.storeOf v).Awaits S.genesis vote.statement
  excluded : ∀ vote ∈ N.orderVotes, vote.validator = v → ∀ move ∈ N.transitionVotes,
    move.validator = v →
    vote.statement.validatorGeneration = move.statement.previousValidatorGeneration →
    vote.statement.position ≤ move.statement.activatedAt

/-! ### What the votes require -/

variable [ReferenceCodec W] [SecretSigner W] {e : GlobalOrderedEngine W} {votes votes' : VoteTables W}

variable {epoch : Epoch W}

omit [SecretSigner W] in
theorem orderStatement_spec (h : e.orderStatementForFinalizedEpoch epoch = .ok st) :
    st.validatorGeneration = e.validatorGeneration ∧ st.position = e.lastFinalizedPosition + 1 ∧
      e.available.contains st.referenceHash = true ∧
      ∃ r : BatchReference W, r.hash = .ok st.referenceHash ∧
        r.consensusGroupId = st.consensusGroupId := by
  rw [orderStatementForFinalizedEpoch] at h
  simp only [bind_eq_ok, ↓guard_bind_eq_ok] at h
  obtain ⟨references, -, -, h⟩ := h
  split at h
  · next reference =>
    rw [orderStatementForReference, validateOrderableReference] at h
    simp only [bind_eq_ok, ↓guard_bind_eq_ok, reject_eq_ok, pure_eq_ok, not_not] at h
    obtain ⟨hash, ⟨-, hash', hhash, havail, rfl⟩, -, -, rfl⟩ := h
    exact ⟨rfl, rfl, havail, reference, hhash, rfl⟩
  · cases h

variable {io : Bool}

theorem voteForEpoch_spec {vote : OrderVote W}
    (h : e.voteForEpoch votes epoch io = .ok (vote, votes')) :
    e.orderStatementForFinalizedEpoch epoch = .ok vote.statement ∧
      vote.validator = e.store.holder ∧
      votes'.committeeTransitionVotes = votes.committeeTransitionVotes ∧
      votes'.readBarrierVotes = votes.readBarrierVotes ∧
      (∀ (key : W ×ₗ ℕ ×ₗ ℕ) hash, votes.orderVotes[key]? = some hash →
        votes'.orderVotes[key]? = some hash) ∧
      votes'.orderVotes[vote.statement.voteKey]? = some vote.statement.voteHash := by
  rw [GlobalOrderedEngine.voteForEpoch, bind_eq_ok] at h
  obtain ⟨st, hst, h⟩ := h
  rw [DurableAdmissionStore.signOrderStatement] at h
  simp only [↓guard_bind_eq_ok, bind_eq_ok, pure_eq_ok, Prod.mk.injEq] at h
  obtain ⟨-, table, hlock, rfl, rfl⟩ := h
  exact ⟨hst, rfl, rfl, rfl, lookup_lockVote hlock⟩

omit [ReferenceCodec W] in
theorem signCommitteeTransition_spec {st : CommitteeTransitionStatement W}
    (h : e.signCommitteeTransition votes st io = .ok (vote, votes')) :
    vote.statement = st ∧ vote.validator = e.store.holder ∧
      st.previousValidatorGeneration = e.validatorGeneration ∧
      st.activatedAt = e.appliedWatermark ∧ e.quiescent = true ∧
      votes'.orderVotes = votes.orderVotes ∧ votes'.readBarrierVotes = votes.readBarrierVotes ∧
      (∀ (k : ℕ) hash, votes.committeeTransitionVotes[k]? = some hash →
        votes'.committeeTransitionVotes[k]? = some hash) ∧
      votes'.committeeTransitionVotes[st.previousValidatorGeneration]? = some st.voteHash := by
  rw [signCommitteeTransition] at h
  simp only [bind_eq_ok, ↓guard_bind_eq_ok, reject_eq_ok, not_or, not_not, Bool.not_eq_false] at h
  obtain ⟨scope, -, ⟨-, -, -, -, hgen, hbnd, -, hquiet⟩, h⟩ := h
  rw [DurableAdmissionStore.signCommitteeTransitionStatement] at h
  simp only [bind_eq_ok, ↓guard_bind_eq_ok, pure_eq_ok, Prod.mk.injEq] at h
  obtain ⟨-, -, -, -, table, hlock, rfl, rfl⟩ := h
  exact ⟨rfl, rfl, hgen, hbnd, hquiet, rfl, rfl, lookup_lockVote hlock⟩

omit [ReferenceCodec W] in
theorem voteForReadBarrier_spec {challenge : List UInt8} {vote : ReadBarrierVote W}
    (h : e.voteForReadBarrier votes challenge io = .ok (vote, votes')) :
    e.readBarrierStatement challenge = .ok vote.statement ∧ vote.validator = e.store.holder ∧
      votes'.orderVotes = votes.orderVotes ∧
      votes'.committeeTransitionVotes = votes.committeeTransitionVotes := by
  rw [GlobalOrderedEngine.voteForReadBarrier] at h
  simp only [↓guard_bind_eq_ok, bind_eq_ok] at h
  obtain ⟨-, st, hst, h⟩ := h
  rw [DurableAdmissionStore.signReadBarrierStatement] at h
  simp only [bind_eq_ok, pure_eq_ok, Prod.mk.injEq] at h
  obtain ⟨table, -, rfl, rfl⟩ := h
  exact ⟨hst, rfl, rfl, rfl⟩

/-! ### What the actions keep -/

section

omit [SecretSigner W]

theorem Chained.engine (h : Chained S N v) (he : (N.validators v).node = .running e) :
    (∃ c, Stored c e) ∧ e.Durable ∧ N.storeOf v = e.store := by
  have hkept := h.reaches.kept
  obtain ⟨hdur, -⟩ := h.reaches.represents
  rw [he] at hkept hdur
  exact ⟨hkept, ⟨hdur.mirrored, hdur.started⟩, congrArg OrderedNode.store he⟩

theorem Chained.holder_eq (h : Chained S N v) (he : (N.validators v).node = .running e) :
    e.store.holder = v := by
  rw [← (h.engine he).2.2]
  exact h.holder

theorem Chained.awaits_iff (h : Chained S N v) (he : (N.validators v).node = .running e) :
    (N.storeOf v).Awaits S.genesis st ↔ Awaited st e.validatorGeneration
      e.lastFinalizedPosition e.available e.finalReferenceByPosition := by
  obtain ⟨⟨c, hstored⟩, hdur, hengine⟩ := h.engine he
  rw [hengine, GlobalOrderedEngine.awaits_iff hstored hdur (h.governed e he)]

theorem Chained.mono (h : Chained S N v) (hnode : (N'.validators v).node = (N.validators v).node)
    (horders : N.orderVotes ⊆ N'.orderVotes) (hmoves : N.transitionVotes ⊆ N'.transitionVotes) :
    Chained S N' v := by
  have hstore : N'.storeOf v = N.storeOf v := congrArg OrderedNode.store hnode
  refine ⟨hnode ▸ h.reaches, hnode ▸ h.governed, hstore ▸ h.holder, hstore ▸ h.succeeds,
    hstore ▸ h.inScope, fun p c hc u hu honest => ?_, fun k t ht u hu honest => ?_⟩
  · rw [hstore] at hc
    obtain ⟨vote, hvote, hspec⟩ := h.orders p c hc u hu honest
    exact ⟨vote, horders hvote, hspec⟩
  · rw [hstore] at ht
    obtain ⟨vote, hvote, hspec⟩ := h.transitions k t ht u hu honest
    exact ⟨vote, hmoves hvote, hspec⟩

end

omit [ReferenceCodec W] [SecretSigner W] in
theorem Careful.mono (h : Careful S N v) (hnode : (N'.validators v).node = (N.validators v).node)
    (horderTable : (N'.validators v).votes.orderVotes = (N.validators v).votes.orderVotes)
    (htransitionTable : (N'.validators v).votes.committeeTransitionVotes =
      (N.validators v).votes.committeeTransitionVotes)
    (horders : ∀ vote ∈ N'.orderVotes, vote.validator = v → vote ∈ N.orderVotes)
    (hmoves : ∀ vote ∈ N'.transitionVotes, vote.validator = v → vote ∈ N.transitionVotes) :
    Careful S N' v := by
  have hstore : N'.storeOf v = N.storeOf v := congrArg OrderedNode.store hnode
  refine ⟨fun vote hvote hv => ?_, fun vote hvote hv => ?_, fun vote hvote hv => ?_,
    fun vote hvote hv => ?_, fun vote hvote hv move hmove hu => ?_⟩
  · rw [horderTable]
    exact h.orderLocked vote (horders vote hvote hv) hv
  · rw [htransitionTable]
    exact h.transitionLocked vote (hmoves vote hvote hv) hv
  · rw [hstore]
    exact h.grouped vote (horders vote hvote hv) hv
  · rw [hstore]
    exact h.awaited vote (horders vote hvote hv) hv
  · exact h.excluded vote (horders vote hvote hv) hv move (hmoves move hmove hu) hu

omit [SecretSigner W] in
theorem store_perform (h : Chained S N v) (hc : Careful S N v) (op : OrderedOperation W) :
    (op.perform (N.validators v).node).Kept ∧
    (op.perform (N.validators v).node).store.holder = v ∧
    (op.perform (N.validators v).node).store.Succeeds S.genesis ∧
    InScope (op.perform (N.validators v).node).store.availableReferences
      (op.perform (N.validators v).node).store.protocolScope ∧
    ∀ vote ∈ N.orderVotes, vote.validator = v →
      (∃ cluster, (op.perform (N.validators v).node).store.protocolScope =
        some (cluster, vote.statement.consensusGroupId)) ∧
      (op.perform (N.validators v).node).store.Awaits S.genesis vote.statement := by
  obtain ⟨hdur, hlog⟩ := h.reaches.represents
  refine h.reaches.kept.perform False False
    (E := fun e => e.Certified ∧ e.Governed S.genesis)
    (Q := fun s => s.holder = v ∧ s.Succeeds S.genesis ∧
      InScope s.availableReferences s.protocolScope ∧ ∀ vote ∈ N.orderVotes, vote.validator = v →
        (∃ cluster, s.protocolScope = some (cluster, vote.statement.consensusGroupId)) ∧
        s.Awaits S.genesis vote.statement)
    hdur hlog (fun _ _ => ⟨False.elim, False.elim⟩) ?_ ?_
    (fun e he => ⟨h.reaches.certified e he, h.governed e he⟩)
    ⟨h.holder, h.succeeds, h.inScope, fun vote hvote hv =>
      ⟨hc.grouped vote hvote hv, hc.awaited vote hvote hv⟩⟩
  · rintro s scope hkeep ⟨hhold, hsucc, hscope, hvotes⟩
    refine ⟨hhold, hsucc, fun hash a ha => ?_, fun vote hvote hv => ?_⟩
    · obtain ⟨hhash, hbound⟩ := hscope hash a ha
      exact ⟨hhash, hkeep _ hbound⟩
    · obtain ⟨⟨cluster, hbound⟩, hawaits⟩ := hvotes vote hvote hv
      exact ⟨⟨cluster, hkeep _ hbound⟩, hawaits⟩
  · rintro c e₁ e₂ log hstep hdur hlog hstored₁ hstored₂ ⟨hcert, hgov⟩
      ⟨hhold, hsucc, hscope, hvotes⟩
    have hgoverned₂ := hstep.governed hgov
    have hdurable₂ := (hstep.effect hdur).durable
    refine ⟨⟨hstep.certified hcert, hgoverned₂⟩, hstep.holder.trans hhold, ?_, ?_, ?_⟩
    · rw [succeeds_iff hstored₂ hdurable₂ hgoverned₂]
      rw [succeeds_iff hstored₁ hdur hgov] at hsucc
      exact hstep.succession hcert hgov hsucc
    · rw [hstored₁.available] at hscope
      rw [hstored₂.available]
      exact hstep.inScope hscope
    · intro vote hvote hv
      obtain ⟨⟨cluster, hbound⟩, hawaits⟩ := hvotes vote hvote hv
      refine ⟨⟨cluster, hstep.scope hbound⟩, ?_⟩
      rw [awaits_iff hstored₂ hdurable₂ hgoverned₂]
      rw [awaits_iff hstored₁ hdur hgov] at hawaits
      exact hstep.awaited hlog hawaits

theorem sound_call (h : Chained S N v) (hc : Careful S N v) {op : OrderedOperation W}
    (hgenuine : S.Genuine N v (.call op)) :
    Chained S (N.perform v (.call op)) v ∧ Careful S (N.perform v (.call op)) v := by
  have hval : (N.perform v (.call op)).validators v =
      ⟨op.perform (N.validators v).node, (N.validators v).votes⟩ := Function.update_self ..
  have hstore : (N.perform v (.call op)).storeOf v = (op.perform (N.validators v).node).store :=
    congrArg (fun validator => validator.node.store) hval
  obtain ⟨hkept, hhold, hsucc, hscope, hvotes⟩ := store_perform h hc op
  constructor
  · refine ⟨?_, ?_, hstore ▸ hhold, hstore ▸ hsucc, hstore ▸ hscope, fun p c hfin => ?_,
      fun k t htransition => ?_⟩
    · rw [hval]
      exact h.reaches.step op fun _ _ => trivial
    · rw [hval]
      refine OrderedNode.perform_governed h.reaches.represents.2 h.governed ?_
      rintro config bindIo rfl
      exact hgenuine.2
    · rw [hstore] at hfin
      rcases OrderedNode.perform_finalized h.reaches.kept hkept (fun e he => (h.governed e he).mode)
        hfin with hold | ⟨io, rfl⟩
      · exact h.orders p c hold
      · exact hgenuine.2
    · rw [hstore] at htransition
      rcases OrderedNode.perform_transitions h.reaches.kept hkept htransition with hold | ⟨io, rfl⟩
      · exact h.transitions k t hold
      · exact hgenuine.2
  · refine ⟨?_, ?_, ?_, ?_, hc.excluded⟩
    · rw [hval]
      exact hc.orderLocked
    · rw [hval]
      exact hc.transitionLocked
    · rw [hstore]
      exact fun vote hvote hv => (hvotes vote hvote hv).1
    · rw [hstore]
      exact fun vote hvote hv => (hvotes vote hvote hv).2

def afterOrderVote (N : OrderedNetwork W) (v : W) (vote : OrderVote W) (votes : VoteTables W) :
    OrderedNetwork W :=
  { N.withVotes v votes with orderVotes := N.orderVotes ++ [vote] }

def afterTransitionVote (N : OrderedNetwork W) (v : W) (vote : CommitteeTransitionVote W)
    (votes : VoteTables W) : OrderedNetwork W :=
  { N.withVotes v votes with transitionVotes := N.transitionVotes ++ [vote] }

omit [ReferenceCodec W] [SecretSigner W] in
theorem withVotes_validators (v : W) (votes : VoteTables W) :
    (N.withVotes v votes).validators v = ⟨(N.validators v).node, votes⟩ :=
  Function.update_self ..

omit [ReferenceCodec W] [SecretSigner W] in
theorem withVotes_node (v : W) (votes : VoteTables W) :
    ((N.withVotes v votes).validators v).node = (N.validators v).node := by
  rw [withVotes_validators]

theorem careful_orderVote (hinj : HashInjective W) (h : Chained S N v) (hc : Careful S N v)
    {vote : OrderVote W}
    (hcare : VotesWithCare N v (.voteForEpoch epoch io)) (he : (N.validators v).node = .running e)
    (hvote : e.voteForEpoch (N.validators v).votes epoch io = .ok (vote, votes')) :
    Careful S (N.afterOrderVote v vote votes') v := by
  obtain ⟨hst, -, hmoves, -, hkept, hnew⟩ := voteForEpoch_spec hvote
  obtain ⟨hgen, hpos, havail, r, hr, hgroup⟩ := orderStatement_spec hst
  have hval : (N.afterOrderVote v vote votes').validators v =
      ⟨(N.validators v).node, votes'⟩ := withVotes_validators v votes'
  have hstore : (N.afterOrderVote v vote votes').storeOf v = N.storeOf v :=
    congrArg (fun validator => validator.node.store) hval
  simp only [VotesWithCare, he, hst] at hcare
  obtain ⟨hunmoved, hfree⟩ := hcare
  have hmem (other : OrderVote W) : other ∈ N.orderVotes ++ [vote] ↔
      other ∈ N.orderVotes ∨ other = vote := by
    rw [List.mem_append, List.mem_singleton]
  refine ⟨fun other hother hv => ?_, fun move hmove hv => ?_, fun other hother hv => ?_,
    fun other hother hv => ?_, fun other hother hv move hmove hu heq => ?_⟩
  · rw [hval]
    rcases (hmem other).mp hother with hold | rfl
    · exact hkept _ _ (hc.orderLocked other hold hv)
    · exact hnew
  · rw [hval, hmoves]
    exact hc.transitionLocked move hmove hv
  · rw [hstore]
    rcases (hmem other).mp hother with hold | rfl
    · exact hc.grouped other hold hv
    · obtain ⟨⟨c, hstored⟩, -, hengine⟩ := h.engine he
      obtain ⟨a, ha⟩ := contains_iff.mp havail
      have hscope := h.inScope other.statement.referenceHash a
      rw [hengine, hstored.available] at hscope
      obtain ⟨hhash, hbound⟩ := hscope ha
      rw [hengine, hbound, BatchReference.eq_of_hash hinj hhash hr, hgroup]
      exact ⟨r.clusterId, rfl⟩
  · rw [hstore]
    rcases (hmem other).mp hother with hold | rfl
    · exact hc.awaited other hold hv
    · rw [h.awaits_iff he]
      exact ⟨hgen.le, fun _ => ⟨hpos.le, fun _ => ⟨havail, hfree⟩⟩⟩
  · rcases (hmem other).mp hother with hold | rfl
    · exact hc.excluded other hold hv move hmove hu heq
    · -- The participant has not voted for another committee.
      have hlocked := hc.transitionLocked move hmove hu
      rw [← heq, hgen, hunmoved] at hlocked
      cases hlocked

theorem careful_transitionVote (h : Chained S N v) (hc : Careful S N v)
    {st : CommitteeTransitionStatement W} (he : (N.validators v).node = .running e)
    (hvote : e.signCommitteeTransition (N.validators v).votes st io = .ok (vote, votes')) :
    Careful S (N.afterTransitionVote v vote votes') v := by
  obtain ⟨rfl, -, hgen, hbnd, hquiet, horders, -, hkept, hnew⟩ :=
    signCommitteeTransition_spec hvote
  have hval : (N.afterTransitionVote v vote votes').validators v =
      ⟨(N.validators v).node, votes'⟩ := withVotes_validators v votes'
  have hstore : (N.afterTransitionVote v vote votes').storeOf v = N.storeOf v :=
    congrArg (fun validator => validator.node.store) hval
  have hmem (other : CommitteeTransitionVote W) : other ∈ N.transitionVotes ++ [vote] ↔
      other ∈ N.transitionVotes ∨ other = vote := by
    rw [List.mem_append, List.mem_singleton]
  refine ⟨fun other hother hv => ?_, fun move hmove hv => ?_, fun other hother hv => ?_,
    fun other hother hv => ?_, fun other hother hv move hmove hu heq => ?_⟩
  · rw [hval, horders]
    exact hc.orderLocked other hother hv
  · rw [hval]
    rcases (hmem move).mp hmove with hold | rfl
    · exact hkept _ _ (hc.transitionLocked move hold hv)
    · exact hnew
  · rw [hstore]
    exact hc.grouped other hother hv
  · rw [hstore]
    exact hc.awaited other hother hv
  · rcases (hmem move).mp hmove with hold | rfl
    · exact hc.excluded other hother hv move hold hu heq
    · -- Nothing is available at rest, so the vote is not for the next position.
      obtain ⟨hle, hnext⟩ := ((h.awaits_iff he).mp (hc.awaited other hother hv)).2 (heq.trans hgen)
      obtain ⟨hempty, happ⟩ := quiescent_iff.mp hquiet
      have hne : other.statement.position ≠ e.lastFinalizedPosition + 1 := by
        intro hpos
        have havail := (hnext hpos).1
        rw [hempty] at havail
        simp at havail
      omega

/-- All honest participants have certified committees and positions, and vote with care. -/
structure Sound (S : OrderedSetting W) (N : OrderedNetwork W) : Prop where
  chained : ∀ v, S.honest v = true → Chained S N v
  careful : ∀ v, S.honest v = true → Careful S N v

omit [SecretSigner W] in
theorem sound_start (site : W → SiteId) (storeGeneration : W → ℕ) :
    Sound S (start site storeGeneration) := by
  have hstore (v : W) : (start site storeGeneration).storeOf v =
      .openStore v (site v) (storeGeneration v) := rfl
  refine ⟨fun v _ => ?_, fun v _ => ?_⟩
  · refine ⟨.start v (site v) (storeGeneration v), fun e he => ?_, rfl, .start,
      fun hash a ha => ?_, fun p c hc => ?_, fun k t ht => ?_⟩
    · cases he
    · simp [hstore, DurableAdmissionStore.openStore] at ha
    · simp [hstore, DurableAdmissionStore.openStore] at hc
    · simp [hstore, DurableAdmissionStore.openStore] at ht
  · refine ⟨?_, ?_, ?_, ?_, ?_⟩ <;>
      · intro vote hvote
        cases hvote

omit [SecretSigner W] in
/-- Who has not acted keeps what it has, however many votes are sent. -/
theorem Sound.others (h : Sound S N) (M : OrderedNetwork W) {orders : List (OrderVote W)}
    {moves : List (CommitteeTransitionVote W)}
    (hvals : ∀ w, w ≠ v → M.validators w = N.validators w)
    (horders : M.orderVotes = N.orderVotes ++ orders)
    (hown : ∀ vote ∈ orders, vote.validator = v)
    (hmoves : M.transitionVotes = N.transitionVotes ++ moves)
    (hown' : ∀ vote ∈ moves, vote.validator = v) (hchained : Chained S M v)
    (hcareful : Careful S M v) : Sound S M := by
  refine ⟨fun w hw => ?_, fun w hw => ?_⟩
  · rcases eq_or_ne w v with rfl | hne
    · exact hchained
    · exact (h.chained w hw).mono (congrArg OrderedValidator.node (hvals w hne))
        (horders ▸ List.subset_append_left _ _) (hmoves ▸ List.subset_append_left _ _)
  · rcases eq_or_ne w v with rfl | hne
    · exact hcareful
    · have hsame := hvals w hne
      refine (h.careful w hw).mono (by rw [hsame]) (by rw [hsame]) (by rw [hsame])
        (fun vote hvote heq => ?_) fun vote hvote heq => ?_
      · rw [horders] at hvote
        exact (List.mem_append.mp hvote).resolve_right fun hnew => hne (heq ▸ hown vote hnew)
      · rw [hmoves] at hvote
        exact (List.mem_append.mp hvote).resolve_right fun hnew => hne (heq ▸ hown' vote hnew)

theorem sound_perform (hinj : HashInjective W) (h : Sound S N) {action : NetworkAction W}
    (hgenuine : S.Genuine N v action) (hcare : VotesWithCare N v action) :
    Sound S (N.perform v action) := by
  have hchained := h.chained v hgenuine.1
  have hcareful := h.careful v hgenuine.1
  cases action with
  | call op =>
    obtain ⟨hchained', hcareful'⟩ := sound_call hchained hcareful hgenuine
    exact h.others _ (fun w hne => Function.update_of_ne hne ..) (List.append_nil _).symm nofun
      (List.append_nil _).symm nofun hchained' hcareful'
  | voteForEpoch epoch io =>
    dsimp only [perform]
    split
    · exact h
    · next e he =>
      split
      · exact h
      · next vote votes' hvote =>
        have hhold := (voteForEpoch_spec hvote).2.1.trans (hchained.holder_eq he)
        exact h.others (N.afterOrderVote v vote votes')
          (fun w hne => Function.update_of_ne hne ..) rfl (List.forall_mem_singleton.mpr hhold)
          (List.append_nil _).symm nofun (hchained.mono (withVotes_node v votes')
            (List.subset_append_left _ _) (List.Subset.refl _))
          (careful_orderVote hinj hchained hcareful hcare he hvote)
  | voteForTransition st io =>
    dsimp only [perform]
    split
    · exact h
    · next e he =>
      split
      · exact h
      · next vote votes' hvote =>
        have hhold := (signCommitteeTransition_spec hvote).2.1.trans (hchained.holder_eq he)
        exact h.others (N.afterTransitionVote v vote votes')
          (fun w hne => Function.update_of_ne hne ..) (List.append_nil _).symm nofun rfl
          (List.forall_mem_singleton.mpr hhold) (hchained.mono (withVotes_node v votes')
            (List.Subset.refl _) (List.subset_append_left _ _))
          (careful_transitionVote hchained hcareful he hvote)
  | voteForReadBarrier challenge io =>
    dsimp only [perform]
    split
    · exact h
    · next e he =>
      split
      · exact h
      · next vote votes' hvote =>
        obtain ⟨-, -, horders, hmoves⟩ := voteForReadBarrier_spec hvote
        have hval := withVotes_validators (N := N) v votes'
        refine h.others { N.withVotes v votes' with barrierVotes := N.barrierVotes ++ [vote] }
          (fun w hne => Function.update_of_ne hne ..) (List.append_nil _).symm nofun
          (List.append_nil _).symm nofun (hchained.mono (withVotes_node v votes')
            (List.Subset.refl _) (List.Subset.refl _))
          (hcareful.mono (withVotes_node v votes') ?_ ?_ (fun _ hold _ => hold)
            fun _ hold _ => hold)
        · exact (congrArg (fun u => u.votes.orderVotes) hval).trans horders
        · exact (congrArg (fun u => u.votes.committeeTransitionVotes) hval).trans hmoves

theorem Leads.sound (hinj : HashInjective W)
    {allowed : OrderedNetwork W → W → NetworkAction W → Prop}
    (hall : ∀ N v action, allowed N v action → VotesWithCare N v action)
    (h : Leads S allowed N N') (hN : Sound S N) : Sound S N' := by
  induction h with
  | refl => exact hN
  | step _ v action genuine careful ih =>
    exact sound_perform hinj ih genuine (hall _ _ _ careful)

end OrderedNetwork

end Blossom
