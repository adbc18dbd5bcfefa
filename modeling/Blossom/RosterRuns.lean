import Blossom.TrustedEpoch
import Blossom.NumberWord
import Mathlib.Logic.Relation

/-!
# Rosters from epoch to epoch

Every epoch has a member registry and a verifier set. The blocks of the next epoch carry
accusations, admissions and member operations, and the two transitions of `Membership` derive the
next roster from them.
-/

namespace Blossom

open CheckedSteps OrderedMap MajorityQuorum Relation

variable {W : Type} [ProtocolCrypto W]

/-! ### Transitions -/

/-- The member registry and the verifiers of an epoch. -/
structure Roster (W : Type) [LinearOrder W] where
  members : MemberSet W
  verifiers : Verifiers W

structure EpochInput (W : Type) [LinearOrder W] where
  blocks : BTreeMap W (Block W)
  parentEpochHash : W
  nonce : ℕ
  policy : ConsensusNodeRemovalPolicy

namespace Roster

/-- The verifiers after accusations and admissions. -/
def legacy (r : Roster W) (e : EpochInput W) : Verifiers W :=
  applyEpochMembershipTransition r.verifiers e.blocks e.parentEpochHash e.nonce e.policy

def next [EpochCodec W] (groupId : W) (r : Roster W) (e : EpochInput W) : Roster W :=
  let registry := applyEpochMemberRegistryTransition r.members (r.legacy e) e.blocks groupId
    e.parentEpochHash
  ⟨registry.1, registry.2⟩

def ofEpoch (e : Epoch W) : Roster W := ⟨e.body.members, e.body.verifiers⟩

theorem roster_buildVerifiedEpoch [EpochCodec W] (previous : Epoch W)
    (blocks : BTreeMap W (Block W)) (policy : ConsensusNodeRemovalPolicy) :
    ofEpoch (buildVerifiedEpoch previous blocks policy) = (ofEpoch previous).next previous.body.groupId
      ⟨blocks, previous.hash, previous.body.nonce + 1, policy⟩ :=
  rfl

/-- The roster of the first epoch: the registry holds the verifiers, or nothing. -/
structure Genesis (r : Roster W) : Prop where
  verifiers_keyed : VerifiersKeyed r.verifiers
  members_eq : r.members = ⟨∅⟩ ∨ r.members = .fromVerifiers r.verifiers

structure Sound (r : Roster W) : Prop where
  verifiers_keyed : VerifiersKeyed r.verifiers
  members_keyed : r.members.WellKeyed
  active : r.members.records.isEmpty = true ∨ ∀ key identity,
    r.verifiers[key]? = some identity ↔ r.members.Validates key identity

variable {r r' : Roster W} {e : EpochInput W} {key : W}

theorem Genesis.sound (h : r.Genesis) : r.Sound := by
  rcases h.members_eq with hempty | hfrom
  · refine ⟨h.verifiers_keyed, ?_, .inl ?_⟩
    · intro key record hrec
      rw [hempty] at hrec
      simp at hrec
    · rw [hempty]
      simp
  · have hlook (key : W) : r.members.records[key]? = r.verifiers[key]?.map .bootstrap := by
      rw [hfrom]
      exact lookup_fromVerifiers h.verifiers_keyed key
    refine ⟨h.verifiers_keyed, ?_, .inr ?_⟩
    · intro key record hrec
      rw [hlook, Option.map_eq_some_iff] at hrec
      obtain ⟨identity, hidentity, rfl⟩ := hrec
      exact h.verifiers_keyed key identity hidentity
    · intro key identity
      unfold MemberSet.Validates
      rw [hlook]
      constructor
      · intro hidentity
        have hact : (MemberSet.enlist identity none).isActiveWith .validator = true :=
          MemberSet.enlist_isActiveWith fun _ hnone => by cases hnone
        rw [hidentity]
        exact ⟨_, rfl, hact, rfl⟩
      · rintro ⟨record, hrec, -, hid⟩
        obtain ⟨identity', hidentity, rfl⟩ := Option.map_eq_some_iff.mp hrec
        rw [hidentity]
        exact congrArg some hid

theorem legacy_keyed (h : r.Sound) (e : EpochInput W) : VerifiersKeyed (r.legacy e) :=
  applyEpochMembershipTransition_keyed h.verifiers_keyed e.blocks e.parentEpochHash e.nonce e.policy

theorem baseline_wellKeyed (h : r.Sound) (e : EpochInput W) :
    (registryBaseline r.members (r.legacy e)).WellKeyed :=
  (registryBaseline_spec h.members_keyed (legacy_keyed h e)).1

theorem sound_of_wellKeyed {members : MemberSet W} (h : members.WellKeyed) :
    (⟨members, members.activeValidators⟩ : Roster W).Sound := by
  refine ⟨?_, h, .inr (MemberSet.lookup_activeValidators h)⟩
  intro key identity hid
  obtain ⟨record, hrec, -, rfl⟩ := (MemberSet.lookup_activeValidators h key _).mp hid
  exact h key record hrec

variable [EpochCodec W] {groupId : W}

/-- The registry of the next epoch is the baseline, or the baseline after the operations of the
blocks, and its active validators are the verifiers. -/
theorem next_cases (groupId : W) (r : Roster W) (e : EpochInput W) :
    let baseline := registryBaseline r.members (r.legacy e)
    let applied := applyCommittedMemberOperations baseline e.blocks groupId e.parentEpochHash
    (applied.activeValidators.isEmpty = true ∧
      r.next groupId e = ⟨baseline, baseline.activeValidators⟩) ∨
    (applied.activeValidators.isEmpty = false ∧
      r.next groupId e = ⟨applied, applied.activeValidators⟩) := by
  dsimp only [next, applyEpochMemberRegistryTransition]
  split
  · next hempty => exact .inl ⟨hempty, rfl⟩
  · next hsome => exact .inr ⟨Bool.eq_false_iff.mpr hsome, rfl⟩

theorem applied_demotes (h : r.Sound) (groupId : W) (e : EpochInput W) :
    Demotes (registryBaseline r.members (r.legacy e)) (applyCommittedMemberOperations
      (registryBaseline r.members (r.legacy e)) e.blocks groupId e.parentEpochHash) :=
  applyCommittedMemberOperations_demotes (baseline_wellKeyed h e) ..

theorem sound_next (h : r.Sound) (groupId : W) (e : EpochInput W) : (r.next groupId e).Sound := by
  rcases next_cases groupId r e with ⟨-, hnext⟩ | ⟨-, hnext⟩
  · rw [hnext]
    exact sound_of_wellKeyed (baseline_wellKeyed h e)
  · rw [hnext]
    exact sound_of_wellKeyed (applied_demotes h groupId e).1

def Follows (groupId : W) (r r' : Roster W) : Prop := ∃ e : EpochInput W, r' = r.next groupId e

theorem sound_of_follows (h : r.Sound) (hrun : ReflTransGen (Follows groupId) r r') : r'.Sound := by
  induction hrun with
  | refl => exact h
  | tail _ hstep ih =>
    obtain ⟨e, rfl⟩ := hstep
    exact sound_next ih groupId e

end Roster

/-! ### Revoked members -/

def MemberSet.Revoked (m : MemberSet W) (key : W) : Prop :=
  ∃ record, m.records[key]? = some record ∧ record.status = .revoked

instance (m : MemberSet W) (key : W) : Decidable (m.Revoked key) :=
  decidable_of_iff (∃ record ∈ m.records[key]?, record.status = .revoked) Iff.rfl

namespace MemberSet

variable {m next : MemberSet W} {op : MemberOperation W} {key : W}

theorem Revoked.apply (h : m.Revoked key) (hop : m.apply op = .ok next) : next.Revoked key := by
  obtain ⟨record, hrec, hrev⟩ := h
  rcases apply_lookup hop key with ⟨-, hsame⟩ | ⟨-, hnone, -⟩ |
    ⟨-, old, record', hold, hnext, -, -, hstays⟩
  · exact ⟨record, hsame.trans hrec, hrev⟩
  · exact nomatch hnone.symm.trans hrec
  · cases hold.symm.trans hrec
    exact ⟨record', hnext, hstays hrev⟩

theorem Revoked.applyCommittedMemberOperations [EpochCodec W] (h : m.Revoked key)
    (blocks : BTreeMap W (Block W)) (groupId parentEpochHash : W) :
    (applyCommittedMemberOperations m blocks groupId parentEpochHash).Revoked key := by
  rw [applyCommittedMemberOperations_eq]
  exact applyTransactions_induction (P := fun m : MemberSet W => m.Revoked key) h
    (fun _ _ _ hm hop => hm.apply hop) ..

theorem Revoked.not_validates (h : m.Revoked key) (identity : NodeIdentity W) :
    ¬m.Validates key identity := by
  rintro ⟨record, hrec, hact, -⟩
  obtain ⟨record', hrec', hrev⟩ := h
  cases hrec.symm.trans hrec'
  rw [MemberRecord.isActiveWith_iff, hrev] at hact
  cases hact.1

/-- Bringing the registry in line with the verifiers takes the revocation of a validator back,
unless it is one of them. -/
theorem revoked_registryBaseline_iff {legacy : Verifiers W} (hm : m.WellKeyed)
    (hl : VerifiersKeyed legacy) {record : MemberRecord W} (hrec : m.records[key]? = some record)
    (hrev : record.status = .revoked) :
    (registryBaseline m legacy).Revoked key ↔
      (record.capabilities.contains .validator = true → legacy.contains key = true) := by
  have hsome : ¬m.records.isEmpty = true := by
    intro hempty
    rw [Std.ExtTreeMap.isEmpty_iff] at hempty
    rw [hempty] at hrec
    simp at hrec
  unfold Revoked registryBaseline
  rw [if_neg hsome, lookup_syncLegacyValidators hl, hrec]
  have hkey := hm key record hrec
  cases hleg : legacy[key]? with
  | some identity =>
    have hcont : legacy.contains key = true := contains_iff.mpr ⟨identity, hleg⟩
    refine iff_of_true ⟨_, rfl, ?_⟩ fun _ => hcont
    rw [Option.map_some, suspendAbsent_of_contains (hkey ▸ hcont)]
    simp [enlist, hrev]
  | none =>
    have habsent : legacy.contains key = false := by
      rw [Bool.eq_false_iff, ne_eq, contains_iff, hleg]
      simp
    have hstatus : (suspendAbsent legacy record).status = .revoked ↔
        ¬record.capabilities.contains .validator = true := by
      rw [suspendAbsent, hkey, habsent]
      split
      · next h => simp [h.1]
      · next h =>
        refine iff_of_true hrev fun hval => h ⟨hval, Bool.false_ne_true⟩
    rw [habsent, imp_iff_not Bool.false_ne_true, ← hstatus]
    constructor
    · rintro ⟨record', hrec', hrev'⟩
      cases hrec'
      exact hrev'
    · intro h
      exact ⟨_, rfl, h⟩

end MemberSet

namespace Roster

variable {r r' genesis : Roster W} {e : EpochInput W} {key : W}

/-- Every revoked validator is among the verifiers that accusations and admissions leave. -/
def KeepsRevoked (r : Roster W) (e : EpochInput W) : Prop :=
  ∀ record ∈ values r.members.records, record.status = .revoked →
    record.capabilities.contains .validator = true → (r.legacy e).contains record.publicKey = true

instance : DecidablePred (KeepsRevoked r) := fun _ => inferInstanceAs (Decidable (∀ _ ∈ _, _))

theorem Sound.not_verifier (h : r.Sound) (hrev : r.members.Revoked key) :
    r.verifiers.contains key = false := by
  rw [Bool.eq_false_iff, ne_eq, contains_iff]
  rintro ⟨identity, hid⟩
  rcases h.active with hempty | hact
  · obtain ⟨record, hrec, -⟩ := hrev
    rw [Std.ExtTreeMap.isEmpty_iff] at hempty
    rw [hempty] at hrec
    simp at hrec
  · exact hrev.not_validates identity ((hact key identity).mp hid)

variable [EpochCodec W] {groupId : W}

theorem revoked_next (h : r.Sound) (hkeeps : r.KeepsRevoked e) (hrev : r.members.Revoked key) :
    (r.next groupId e).members.Revoked key := by
  obtain ⟨record, hrec, hstatus⟩ := hrev
  have hbaseline : (registryBaseline r.members (r.legacy e)).Revoked key := by
    rw [MemberSet.revoked_registryBaseline_iff h.members_keyed (legacy_keyed h e) hrec hstatus]
    intro hval
    rw [← h.members_keyed key record hrec]
    exact hkeeps record (mem_values.mpr ⟨key, hrec⟩) hstatus hval
  rcases next_cases groupId r e with ⟨-, hnext⟩ | ⟨-, hnext⟩
  · rw [hnext]
    exact hbaseline
  · rw [hnext]
    exact hbaseline.applyCommittedMemberOperations e.blocks groupId e.parentEpochHash

/-- One epoch follows another, and every revoked validator is among the verifiers that its
accusations and admissions leave. -/
def FollowsKeeping (groupId : W) (r r' : Roster W) : Prop :=
  ∃ e : EpochInput W, r.KeepsRevoked e ∧ r' = r.next groupId e

/-- A revoked member stays revoked and out of the verifier set while every epoch keeps the revoked
validators among the verifiers that accusations and admissions leave. -/
theorem revoked_stays_revoked (hgenesis : genesis.Genesis)
    (hreached : ReflTransGen (Follows groupId) genesis r) (hrevoked : r.members.Revoked key)
    (hrun : ReflTransGen (FollowsKeeping groupId) r r') :
    r'.members.Revoked key ∧ r'.verifiers.contains key = false := by
  have hsound : r.Sound := sound_of_follows hgenesis.sound hreached
  have hlater : r'.Sound ∧ r'.members.Revoked key := by
    induction hrun with
    | refl => exact ⟨hsound, hrevoked⟩
    | tail _ hstep ih =>
      obtain ⟨e, hkeeps, rfl⟩ := hstep
      exact ⟨sound_next ih.1 groupId e, revoked_next ih.1 hkeeps ih.2⟩
  exact ⟨hlater.2, hlater.1.not_verifier hlater.2⟩

end Roster

/-! ### A small network -/

/-- Member operations of a few bytes: the revocation of a key, and a new client. -/
@[reducible]
def byteOperations : EpochCodec NumberWord where
  merkleRoot _ := default
  decodeMemberOperation
    | [0, parent, n, generation] =>
      some ⟨default, ⟨parent.toNat⟩, .revoke (.key n.toNat) generation.toNat⟩
    | [1, parent, n] =>
      some ⟨default, ⟨parent.toNat⟩, .add ⟨⟨.key n.toNat, [], [], 0, false⟩,
        (∅ : BTreeSet MemberCapability).insert .client, 1, .active⟩⟩
    | _ => none

namespace Roster

def node (n : ℕ) : NodeIdentity NumberWord := ⟨.key n, [], [], 0, false⟩

def network (ns : List ℕ) : Roster NumberWord :=
  let verifiers := .ofList (ns.map fun n => (.key n, node n)) compare
  ⟨.fromVerifiers verifiers, verifiers⟩

def admissionOf (nonce n : ℕ) : NodeAdmission NumberWord :=
  let body : NodeAdmissionBody NumberWord :=
    ⟨node n, ⟨.consensus, .key n, [], [], 0⟩, ⟨nonce⟩, nonce⟩
  ⟨body, ⟨.key n, NumberWord.digest body.fields⟩⟩

def accusationOf (nonce observer subject : ℕ) : EncounterRecord NumberWord :=
  let body : EncounterRecordBody NumberWord :=
    ⟨.key observer, .key subject, ⟨nonce⟩, nonce, 0, .dispatch, .missingSignature, none, 0⟩
  ⟨body, ⟨.key observer, NumberWord.digest [.word (protocolHash body.fields)]⟩⟩

def blockOf (nonce n : ℕ) (records : List (EncounterRecord NumberWord))
    (admissions : List (NodeAdmission NumberWord)) (operations : List (List UInt8)) :
    Block NumberWord :=
  let body : BlockBody NumberWord := ⟨.key n, ⟨nonce⟩, nonce, 0, 0, default, [], records, admissions,
    operations.map fun bytes => .new (memberOperationPrefix ++ bytes)⟩
  ⟨.key n, ⟨.key n, NumberWord.digest body.fields⟩, body⟩

def inputOf (nonce : ℕ) (policy : ConsensusNodeRemovalPolicy) (blocks : List (Block NumberWord)) :
    EpochInput NumberWord :=
  ⟨.ofList (blocks.map fun block => (block.hash, block)) compare, ⟨nonce⟩, nonce, policy⟩

theorem network_genesis (ns : List ℕ) : (network ns).Genesis := by
  refine ⟨?_, .inr rfl⟩
  intro key identity hid
  obtain ⟨n, -, hn⟩ := List.mem_map.mp (mem_of_lookup_ofList hid)
  cases hn
  rfl

/-- A member of two is revoked. With the next epoch, which changes nothing, it is suspended, and
then the other member alone admits it again. -/
theorem revoked_validator_returns :
    letI := byteOperations
    ∃ (genesis r : Roster NumberWord) (e e' : EpochInput NumberWord), genesis.Genesis ∧
      ReflTransGen (Follows default) genesis r ∧ r.members.Revoked (.key 1) ∧
      ¬(r.next default e).members.Revoked (.key 1) ∧
      ((r.next default e).next default e').verifiers.contains (.key 1) = true := by
  let := byteOperations
  have hfirst : ReflTransGen (Follows default) (network [0, 1]) ((network [0, 1]).next default
      (inputOf 1 .disabled [blockOf 1 0 [] [] [[0, 1, 1, 2]]])) := .single ⟨_, rfl⟩
  exact ⟨_, _, inputOf 2 .disabled [], inputOf 3 .disabled [blockOf 3 0 [] [admissionOf 3 1] []],
    network_genesis _, hfirst, by decide +kernel, by decide +kernel, by decide +kernel⟩

def clientRevoked : Roster NumberWord :=
  letI := byteOperations
  ((network [0, 1]).next default (inputOf 1 .disabled [blockOf 1 0 [] [] [[1, 1, 2]]])).next default
    (inputOf 2 .disabled [blockOf 2 0 [] [] [[0, 2, 2, 2]]])

theorem revoked_client_stays_revoked :
    letI := byteOperations
    ∃ r' : Roster NumberWord, clientRevoked.members.Revoked (.key 2) ∧
      ReflTransGen (FollowsKeeping default) clientRevoked r' ∧
      r'.members.Revoked (.key 2) ∧ r'.verifiers.contains (.key 2) = false := by
  let := byteOperations
  have hreached : ReflTransGen (Follows default) (network [0, 1]) clientRevoked :=
    .tail (.single ⟨_, rfl⟩) ⟨_, rfl⟩
  have hrevoked : clientRevoked.members.Revoked (.key 2) := by decide +kernel
  have hkeeps : clientRevoked.KeepsRevoked (inputOf 3 .disabled [blockOf 3 0 [] [] []]) := by
    decide +kernel
  have hrun : ReflTransGen (FollowsKeeping default) clientRevoked _ :=
    .single ⟨inputOf 3 .disabled [blockOf 3 0 [] [] []], hkeeps, rfl⟩
  exact ⟨_, hrevoked, hrun, revoked_stays_revoked (network_genesis _) hreached hrevoked hrun⟩

end Roster

end Blossom
