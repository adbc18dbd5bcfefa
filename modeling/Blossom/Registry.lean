import Blossom.Membership

/-!
# The registry transition and the legacy verifiers

Member operations can take the validator role from a member but not grant it, so the registry
transition never yields a validator that the legacy transition has not kept.
-/

namespace Blossom

open CheckedSteps OrderedMap MemberRecord MemberSet

variable {W : Type} [LinearOrder W]
variable {r record : MemberRecord W} {legacy verifiers : Verifiers W}

def VerifiersKeyed (verifiers : Verifiers W) : Prop :=
  ∀ (key : W) (identity : NodeIdentity W), verifiers[key]? = some identity → identity.publicKey = key

def MemberSet.WellKeyed (m : MemberSet W) : Prop :=
  ∀ (key : W) (record : MemberRecord W), m.records[key]? = some record → record.publicKey = key

/-- The registry has `key` as an active validator with the given identity. -/
def MemberSet.Validates (m : MemberSet W) (key : W) (identity : NodeIdentity W) : Prop :=
  ∃ record, m.records[key]? = some record ∧ record.isActiveWith .validator = true ∧
    record.identity = identity

/-- The operation takes the role of a member from it. -/
def MemberOperation.Names (key : W) : MemberOperation W → Prop
  | .add _ => False
  | .revoke publicKey _ => publicKey = key
  | .suspend publicKey _ => publicKey = key
  | .rotateKey oldPublicKey _ => oldPublicKey = key

omit [LinearOrder W] in
theorem MemberRecord.isActiveWith_iff {c : MemberCapability} :
    r.isActiveWith c = true ↔ r.status = .active ∧ c ∈ r.capabilities := by
  simp [isActiveWith]

theorem MemberSet.lookup_activeValidators {m : MemberSet W} (hm : m.WellKeyed) (key : W)
    (identity : NodeIdentity W) :
    m.activeValidators[key]? = some identity ↔ m.Validates key identity := by
  have hkey : ∀ (k : W) (r : MemberRecord W),
      (m.records.filter fun _ r => r.isActiveWith .validator)[k]? = some r → r.publicKey = k := by
    intro k r hr
    simp only [Std.ExtTreeMap.getElem?_filter', Option.filter_eq_some_iff] at hr
    exact hm k r hr.1
  have hfold := lookup_foldl_values publicKey (fun r _ => r.identity)
    (m.records.filter fun _ r => r.isActiveWith .validator) hkey ∅ key
  rw [activeValidators, activeWith, values_filter, hfold]
  simp only [Std.ExtTreeMap.getElem?_filter', Validates]
  cases hr : m.records[key]? with
  | none => simp
  | some r =>
    cases ha : r.isActiveWith .validator <;> simp [Option.filter, ha]

theorem lookup_fromVerifiers (hv : VerifiersKeyed verifiers) (key : W) :
    (fromVerifiers verifiers).records[key]? =
      verifiers[key]?.map bootstrap := by
  have hfold := lookup_foldl_values NodeIdentity.publicKey (fun id _ => bootstrap id)
    verifiers hv ∅ key
  rw [fromVerifiers, hfold]
  cases verifiers[key]? <;> simp

namespace MemberSet

variable {verifiers : Verifiers W}

theorem lookup_syncLegacyValidators (hv : VerifiersKeyed verifiers) (m : MemberSet W) (key : W) :
    (m.syncLegacyValidators verifiers).records[key]? =
      match verifiers[key]? with
      | some identity => some (enlist identity (m.records[key]?.map (suspendAbsent verifiers)))
      | none => m.records[key]?.map (suspendAbsent verifiers) := by
  have hfold := lookup_foldl_values NodeIdentity.publicKey enlist verifiers hv
    (m.records.map fun _ record => suspendAbsent verifiers record) key
  rw [syncLegacyValidators, hfold]
  cases verifiers[key]? <;> rw [Std.ExtTreeMap.getElem?_map]

omit [LinearOrder W] in
@[simp] theorem enlist_identity (identity : NodeIdentity W) (record : Option (MemberRecord W)) :
    (enlist identity record).identity = identity := by
  cases record <;> rfl

@[simp] theorem suspendAbsent_identity (verifiers : Verifiers W) (record : MemberRecord W) :
    (suspendAbsent verifiers record).identity = record.identity := by
  unfold suspendAbsent
  split <;> rfl

theorem suspendAbsent_of_contains (h : verifiers.contains record.publicKey = true) :
    suspendAbsent verifiers record = record := by
  rw [suspendAbsent, h, if_neg fun habsent => habsent.2 rfl]

variable {identity : NodeIdentity W}

omit [LinearOrder W] in
theorem enlist_isActiveWith {record : Option (MemberRecord W)}
    (h : ∀ old ∈ record, old.status ≠ .revoked) :
    (enlist identity record).isActiveWith .validator = true := by
  rw [isActiveWith_iff]
  cases record with
  | none =>
    refine ⟨rfl, ?_⟩
    simp [enlist, bootstrap, Std.ExtTreeSet.mem_insertMany_list]
  | some old => simp [enlist, h old rfl]

variable {m : MemberSet W}

theorem syncLegacyValidators_wellKeyed (hv : VerifiersKeyed verifiers)
    (hm : m.WellKeyed) : (m.syncLegacyValidators verifiers).WellKeyed := by
  intro key record hr
  rw [lookup_syncLegacyValidators hv] at hr
  cases hid : verifiers[key]? with
  | some identity =>
    simp only [hid, Option.some.injEq] at hr
    rw [← hr, publicKey, enlist_identity]
    exact hv key identity hid
  | none =>
    simp only [hid, Option.map_eq_some_iff] at hr
    obtain ⟨old, hold, rfl⟩ := hr
    rw [publicKey, suspendAbsent_identity]
    exact hm key old hold

/-- After the legacy verifiers are synchronised, no other member is an active validator. -/
theorem syncLegacyValidators_validates (hv : VerifiersKeyed verifiers) (hm : m.WellKeyed) {key : W}
    (h : (m.syncLegacyValidators verifiers).Validates key identity) :
    verifiers[key]? = some identity := by
  obtain ⟨record, hr, ha, hi⟩ := h
  rw [lookup_syncLegacyValidators hv] at hr
  cases hid : verifiers[key]? with
  | some identity' =>
    simp only [hid, Option.some.injEq] at hr
    rw [← hi, ← hr, enlist_identity]
  | none =>
    simp only [hid, Option.map_eq_some_iff] at hr
    obtain ⟨old, hold, rfl⟩ := hr
    have hcont : verifiers.contains old.publicKey = false := by
      rw [hm key old hold, Bool.eq_false_iff, ne_eq, contains_iff, hid]
      simp
    rw [isActiveWith_iff] at ha
    unfold suspendAbsent at ha
    split at ha
    · cases ha.1
    · next hn => exact absurd ⟨by simpa using ha.2, by simp [hcont]⟩ hn

omit [LinearOrder W] in
theorem new_spec {capabilities : BTreeSet MemberCapability} {generation : ℕ}
    (h : new identity capabilities generation = .ok record) :
    record.identity = identity ∧ record.capabilities = capabilities := by
  simp only [new, guard_bind_eq_ok, pure_eq_ok] at h
  obtain ⟨-, -, rfl⟩ := h
  exact ⟨rfl, rfl⟩

variable {next : MemberSet W} {op : MemberOperation W}

/-- What a successful operation does under one key: nothing, or it stores a new record without the
validator role, or one of the member it names that is no longer active. -/
theorem apply_lookup (h : m.apply op = .ok next) (key : W) :
    ¬op.Names key ∧ next.records[key]? = m.records[key]? ∨
    (¬op.Names key ∧ m.records[key]? = none ∧ ∃ record, next.records[key]? = some record ∧
      record.publicKey = key ∧ ¬record.capabilities.contains .validator = true) ∨
    op.Names key ∧ ∃ old record, m.records[key]? = some old ∧ next.records[key]? = some record ∧
      record.publicKey = old.publicKey ∧ record.status ≠ .active ∧
      (old.status = .revoked → record.status = .revoked) := by
  cases op with
  | add record =>
    rw [apply] at h
    simp only [↓guard_bind_eq_ok, rejectValidatorCapabilityGrant, reject_eq_ok, bind_eq_ok,
      pure_eq_ok, not_or, contains_iff, not_exists, ← Option.eq_none_iff_forall_ne_some] at h
    obtain ⟨⟨hnew, -⟩, hcap, validated, hvalidated, rfl⟩ := h
    obtain ⟨hid, hcaps⟩ := new_spec hvalidated
    rw [lookup_insert]
    split
    · next hk =>
      rw [publicKey, ← hid, ← publicKey, hk] at hnew
      exact .inr (.inl ⟨id, hnew, validated, rfl, hk, hcaps ▸ hcap⟩)
    · exact .inl ⟨id, rfl⟩
  | revoke publicKey generation =>
    rw [apply] at h
    simp only [↓guard_bind_eq_ok, bind_eq_ok, require_eq_ok, pure_eq_ok] at h
    obtain ⟨record, hr, -, rfl⟩ := h
    rw [lookup_insert]
    split
    · next hk => exact .inr (.inr ⟨hk, record, _, hk ▸ hr, rfl, rfl, by simp, fun _ => rfl⟩)
    · next hk => exact .inl ⟨hk, rfl⟩
  | suspend publicKey generation =>
    rw [apply] at h
    simp only [↓guard_bind_eq_ok, bind_eq_ok, require_eq_ok, reject_eq_ok, pure_eq_ok] at h
    obtain ⟨record, hr, -, hact, rfl⟩ := h
    rw [lookup_insert]
    split
    · next hk =>
      exact .inr (.inr ⟨hk, record, _, hk ▸ hr, rfl, rfl, by simp, fun hrev => absurd hrev hact⟩)
    · next hk => exact .inl ⟨hk, rfl⟩
  | rotateKey oldPublicKey newRecord =>
    rw [apply] at h
    simp only [↓guard_bind_eq_ok, bind_eq_ok, require_eq_ok, rejectValidatorCapabilityGrant,
      reject_eq_ok, pure_eq_ok, contains_iff, not_exists, ← Option.eq_none_iff_forall_ne_some] at h
    obtain ⟨hnew, hcap, old, hold, -, validated, hvalidated, rfl⟩ := h
    obtain ⟨hid, hcaps⟩ := new_spec hvalidated
    rw [lookup_insert, lookup_insert]
    split
    · next hk =>
      rw [publicKey, ← hid, ← publicKey, hk] at hnew
      refine .inr (.inl ⟨?_, hnew, validated, rfl, hk, hcaps ▸ hcap⟩)
      rintro rfl
      cases hnew.symm.trans hold
    · split
      · next hk => exact .inr (.inr ⟨hk, old, _, hk ▸ hold, rfl, rfl, by simp, fun _ => rfl⟩)
      · next hk => exact .inl ⟨hk, rfl⟩

/-- A successful operation keeps records under their keys and makes no one a validator. -/
theorem apply_spec (h : m.apply op = .ok next) (hm : m.WellKeyed) :
    next.WellKeyed ∧ ∀ key identity, next.Validates key identity → m.Validates key identity := by
  constructor
  · intro key record hrec
    rcases apply_lookup h key with ⟨-, hsame⟩ | ⟨-, -, _, hnext, hkey, -⟩ |
      ⟨-, old, _, hold, hnext, hkey, -⟩
    · exact hm key record (hsame ▸ hrec)
    · cases hnext.symm.trans hrec
      exact hkey
    · cases hnext.symm.trans hrec
      exact hkey.trans (hm key old hold)
  · rintro key identity ⟨record, hrec, hact, hid⟩
    have hactive := isActiveWith_iff.mp hact
    rcases apply_lookup h key with ⟨-, hsame⟩ | ⟨-, -, _, hnext, -, hcap⟩ |
      ⟨-, _, _, -, hnext, -, hstatus, -⟩
    · exact ⟨record, hsame ▸ hrec, hact, hid⟩
    · cases hnext.symm.trans hrec
      exact absurd hactive.2 hcap
    · cases hnext.symm.trans hrec
      exact absurd hactive.1 hstatus

end MemberSet

section Transition

variable [EpochCodec W]

/-- The registry after some operations, compared with the one before them. -/
def Demotes (before after : MemberSet W) : Prop :=
  after.WellKeyed ∧ ∀ key identity, after.Validates key identity → before.Validates key identity

variable {previous : MemberSet W}

/-- What every accepted operation keeps is kept by a list of transactions. -/
theorem applyTransactions_induction {P : MemberSet W → Prop}
    (hp : P previous) (hstep : ∀ m op next, P m → m.apply op = .ok next → P next)
    (txs : List (Transaction W)) (groupId parentEpochHash : W) :
    P (txs.foldl (.applyTransaction groupId parentEpochHash) previous) := by
  apply List.foldlRecOn (motive := P) txs _ hp
  intro m hm t _
  unfold applyTransaction
  split
  · exact hm
  · split
    · exact hm
    · split
      · next next hop => exact hstep m _ next hm hop
      · exact hm

def committedTransactions (blocks : BTreeMap W (Block W)) : List (Transaction W) :=
  (values blocks).flatMap fun block => block.body.txs

theorem applyCommittedMemberOperations_eq (previous : MemberSet W) (blocks : BTreeMap W (Block W))
    (groupId parentEpochHash : W) :
    applyCommittedMemberOperations previous blocks groupId parentEpochHash =
      (committedTransactions blocks).foldl (.applyTransaction groupId parentEpochHash) previous :=
  List.foldl_flatMap.symm

/-- Operations take validator roles away and grant none. -/
theorem applyTransactions_demotes (hp : previous.WellKeyed)
    (txs : List (Transaction W)) (groupId parentEpochHash : W) :
    Demotes previous (txs.foldl (.applyTransaction groupId parentEpochHash) previous) := by
  refine applyTransactions_induction (P := Demotes previous) ⟨hp, fun _ _ h => h⟩ ?_
    txs groupId parentEpochHash
  intro m op next hm hop
  obtain ⟨hk, hv⟩ := apply_spec hop hm.1
  exact ⟨hk, fun key identity hvalid => hm.2 key identity (hv key identity hvalid)⟩

theorem applyCommittedMemberOperations_demotes
    (hp : previous.WellKeyed) (blocks : BTreeMap W (Block W)) (groupId parentEpochHash : W) :
    Demotes previous (applyCommittedMemberOperations previous blocks groupId parentEpochHash) := by
  rw [applyCommittedMemberOperations_eq]
  exact applyTransactions_demotes hp ..

omit [EpochCodec W] in
theorem registryBaseline_spec (hp : previous.WellKeyed) (hl : VerifiersKeyed legacy) :
    (registryBaseline previous legacy).WellKeyed ∧ ∀ key identity,
      (registryBaseline previous legacy).Validates key identity → legacy[key]? = some identity := by
  have hstart : (if previous.records.isEmpty then fromVerifiers legacy
      else previous).WellKeyed := by
    split
    · intro key record hr
      rw [lookup_fromVerifiers hl, Option.map_eq_some_iff] at hr
      obtain ⟨identity, hid, rfl⟩ := hr
      exact hl key identity hid
    · exact hp
  exact ⟨syncLegacyValidators_wellKeyed hl hstart,
    fun _ _ h => syncLegacyValidators_validates hl hstart h⟩

/-- The registry keeps every legacy verifier as an active validator: after the committed
operations, or, if these leave no validator at all, before them. -/
def RegistryKeeps (previous : MemberSet W) (legacy : Verifiers W) (blocks : BTreeMap W (Block W))
    (groupId parentEpochHash : W) : Prop :=
  let baseline := registryBaseline previous legacy
  let next := applyCommittedMemberOperations baseline blocks groupId parentEpochHash
  (∀ key identity, legacy[key]? = some identity → next.Validates key identity) ∨
    (∀ key identity, ¬next.Validates key identity) ∧
      ∀ key identity, legacy[key]? = some identity → baseline.Validates key identity

theorem registryTransition_eq_legacy_iff (hp : previous.WellKeyed) (hl : VerifiersKeyed legacy)
    (blocks : BTreeMap W (Block W)) (groupId parentEpochHash : W) :
    (applyEpochMemberRegistryTransition previous legacy blocks groupId parentEpochHash).2 = legacy ↔
      RegistryKeeps previous legacy blocks groupId parentEpochHash := by
  obtain ⟨hbk, hbv⟩ := registryBaseline_spec hp hl
  obtain ⟨hnk, hnv⟩ := applyCommittedMemberOperations_demotes hbk blocks groupId parentEpochHash
  have hsub {m : MemberSet W} (hk : m.WellKeyed)
      (hv : ∀ key identity, m.Validates key identity → legacy[key]? = some identity) :
      m.activeValidators = legacy ↔
        ∀ key identity, legacy[key]? = some identity → m.Validates key identity := by
    constructor
    · rintro rfl key identity h
      exact (lookup_activeValidators hk key identity).mp h
    · intro h
      apply Std.ExtTreeMap.ext_getElem?
      intro key
      apply Option.ext
      intro identity
      rw [lookup_activeValidators hk]
      exact ⟨hv key identity, h key identity⟩
  have hempty {m : MemberSet W} (hk : m.WellKeyed) : m.activeValidators.isEmpty = true ↔
      ∀ key identity, ¬m.Validates key identity := by
    rw [Std.ExtTreeMap.isEmpty_iff]
    constructor
    · intro h key identity hv
      rw [← lookup_activeValidators hk, h] at hv
      simp at hv
    · intro h
      apply Std.ExtTreeMap.ext_getElem?
      intro key
      apply Option.ext
      intro identity
      rw [lookup_activeValidators hk]
      simp [h key identity]
  have hnl := fun key identity h => hbv key identity (hnv key identity h)
  unfold RegistryKeeps applyEpochMemberRegistryTransition
  dsimp only
  split
  · next he =>
    rw [hsub hbk hbv]
    rw [hempty hnk] at he
    constructor
    · exact fun h => .inr ⟨he, h⟩
    · rintro (h | ⟨-, h⟩)
      · exact fun key identity hid => absurd (h key identity hid) (he key identity)
      · exact h
  · next he =>
    rw [hsub hnk hnl]
    rw [hempty hnk] at he
    exact ⟨.inl, fun h => h.resolve_right fun h => he h.1⟩

end Transition

end Blossom
