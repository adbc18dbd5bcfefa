import Blossom.RosterRuns

/-!
# Why the verifiers change

A verifier that leaves the set has been accused by enough of the others, or an operation of the
registry has named it. A verifier that joins has been sponsored by enough of the others.
-/

namespace Blossom

open CheckedSteps OrderedMap MajorityQuorum Relation MemberSet

variable {W : Type} [ProtocolCrypto W]

namespace Roster

/-! ### Accusations -/

def Accuses (r : Roster W) (e : EpochInput W) (subject observer : W) : Prop :=
  r.verifiers.contains observer = true ∧ observer ≠ subject ∧
    ∃ block ∈ values e.blocks, block.body.validator = observer ∧
      ∃ record ∈ block.body.encounterRecords, record.body.observer = observer ∧
        record.body.subject = subject ∧ record.body.lastEpoch = e.parentEpochHash ∧
        record.body.nonce = e.nonce ∧ record.verify = .ok ()

def accused (r : Roster W) (e : EpochInput W) : List W :=
  (deriveConsensusNodeRemovalPlan r.verifiers e.blocks e.parentEpochHash e.nonce
    e.policy).decisions.map (·.subject)

variable {r r' genesis : Roster W} {e : EpochInput W} {key : W}

def EvidenceHolds (r : Roster W) (e : EpochInput W) (evidence : Evidence W) : Prop :=
  ∀ subject outcomes, evidence[subject]? = some outcomes →
    r.verifiers.contains subject = true ∧
      ∀ observer, outcomes.contains observer = true → r.Accuses e subject observer

theorem recordEncounter_holds {evidence : Evidence W} (h : r.EvidenceHolds e evidence)
    {block : Block W} (hblock : block ∈ values e.blocks) {record : EncounterRecord W}
    (hrec : record ∈ block.body.encounterRecords) :
    r.EvidenceHolds e (recordEncounter r.verifiers e.parentEpochHash e.nonce block.body.validator
      evidence record) := by
  unfold recordEncounter
  dsimp only
  split
  · exact h
  · next hacc =>
    simp only [not_or, not_not] at hacc
    obtain ⟨hepoch, hnonce, hval, hother, hobserver, hsubject, hverify⟩ := hacc
    have hnew : r.Accuses e record.body.subject record.body.observer :=
      ⟨hobserver, hother, block, hblock, hval.symm, record, hrec, rfl, rfl, hepoch, hnonce,
        hverify⟩
    intro subject outcomes houtcomes
    rw [lookup_insert] at houtcomes
    split at houtcomes
    · next hsame =>
      subst hsame
      cases houtcomes
      refine ⟨hsubject, fun observer hcont => ?_⟩
      obtain ⟨outcome, hout⟩ := contains_iff.mp hcont
      rw [lookup_insert] at hout
      split at hout
      · next hsame =>
        subst hsame
        exact hnew
      · rw [Std.ExtTreeMap.getD_eq_getD_getElem?] at hout
        cases hobserved : evidence[record.body.subject]? with
        | none =>
          rw [hobserved] at hout
          simp at hout
        | some observed =>
          rw [hobserved] at hout
          exact (h _ observed hobserved).2 observer (contains_iff.mpr ⟨outcome, hout⟩)
    · exact h subject outcomes houtcomes

theorem encounterEvidence_holds (r : Roster W) (e : EpochInput W) :
    r.EvidenceHolds e (encounterEvidence r.verifiers e.blocks e.parentEpochHash e.nonce) := by
  unfold encounterEvidence
  rw [List.foldl_map]
  apply List.foldlRecOn (motive := r.EvidenceHolds e) (values e.blocks)
  · intro subject outcomes houtcomes
    simp at houtcomes
  · intro evidence hev block hblock
    split
    · apply List.foldlRecOn (motive := r.EvidenceHolds e) block.body.encounterRecords _ hev
      intro evidence hev record hrec
      exact recordEncounter_holds hev hblock hrec
    · exact hev

/-- Accusations remove verifiers that enough of the others have accused. -/
theorem accusers_of_accused (h : key ∈ r.accused e) : r.verifiers.contains key = true ∧
    ∃ observers : Finset W, e.policy.requiredObserversFor r.verifiers.size ≤ observers.card ∧
      ∀ observer ∈ observers, r.Accuses e key observer := by
  obtain ⟨decision, hdec, rfl⟩ := List.mem_map.mp h
  unfold deriveConsensusNodeRemovalPlan at hdec
  dsimp only at hdec
  split at hdec
  · cases hdec
  · have hcand := (List.mem_insertionSort _).mp (List.mem_of_mem_take hdec)
    obtain ⟨⟨subject, outcomes⟩, hent, hdecide⟩ := List.mem_filterMap.mp hcand
    rw [Std.ExtTreeMap.mem_toList_iff_getElem?_eq_some] at hent
    unfold removalCandidate at hdecide
    split at hdecide
    · cases hdecide
    · next hcount =>
      cases hdecide
      obtain ⟨hverifier, haccusers⟩ := encounterEvidence_holds r e subject outcomes hent
      refine ⟨hverifier, outcomes.keys.toFinset, ?_, ?_⟩
      · rw [card_keys]
        exact not_lt.mp hcount
      · intro observer hobserver
        rw [List.mem_toFinset, Std.ExtTreeMap.mem_keys, ← Std.ExtTreeMap.contains_iff_mem]
          at hobserver
        exact haccusers observer hobserver

theorem length_accused_le (r : Roster W) (e : EpochInput W) : (r.accused e).length ≤
    min (r.verifiers.size - e.policy.minRemainingVerifiers) e.policy.maxRemovalsPerEpoch := by
  unfold accused deriveConsensusNodeRemovalPlan
  dsimp only
  split
  · exact Nat.zero_le _
  · rw [List.length_map]
    exact List.length_take_le ..

/-! ### Sponsorships -/

def Sponsors (r : Roster W) (e : EpochInput W) (key sponsor : W) : Prop :=
  r.verifiers.contains sponsor = true ∧ ∃ block ∈ values e.blocks, block.body.validator = sponsor ∧
    ∃ admission ∈ block.body.nodeAdmissions, admission.body.node.publicKey = key ∧
      admission.body.lastEpoch = e.parentEpochHash ∧ admission.body.nonce = e.nonce ∧
      admission.verify = .ok ()

def admitted (r : Roster W) (e : EpochInput W) : List (NodeIdentity W) :=
  deriveConsensusNodeAdmissionPlan r.verifiers e.blocks e.parentEpochHash e.nonce

/-- Every pending admission is of a node that is no verifier, and has the hash it is stored under.
Its observers sponsor it. -/
def AdmissionsHold (r : Roster W) (e : EpochInput W)
    (evidence : BTreeMap W (PendingNodeAdmission W)) : Prop :=
  ∀ hash pending, evidence[hash]? = some pending →
    r.verifiers.contains pending.node.publicKey = false ∧
    (∃ body : NodeAdmissionBody W, body.hash = hash ∧ body.node = pending.node) ∧
    ∀ sponsor, pending.observers.contains sponsor = true →
      r.Sponsors e pending.node.publicKey sponsor

theorem publicKey_eq_of_hash_eq (hinj : HashInjective W) {a b : NodeAdmissionBody W}
    (h : a.hash = b.hash) : a.node.publicKey = b.node.publicKey := by
  have hfields := hinj h
  simp only [NodeAdmissionBody.fields, List.cons_append, List.nil_append, List.cons.injEq,
    Field.word.injEq] at hfields
  exact hfields.2.1

theorem recordAdmission_holds (hinj : HashInjective W)
    {acc : BTreeSet W × BTreeMap W (PendingNodeAdmission W)} (h : r.AdmissionsHold e acc.2)
    {block : Block W} (hblock : block ∈ values e.blocks)
    (hverifier : r.verifiers.contains block.body.validator = true) {admission : NodeAdmission W}
    (hadm : admission ∈ block.body.nodeAdmissions) :
    r.AdmissionsHold e (recordAdmission r.verifiers e.parentEpochHash e.nonce block.body.validator
      acc admission).2 := by
  unfold recordAdmission
  dsimp only
  split
  · exact h
  · next hacc =>
    simp only [not_or, not_not] at hacc
    obtain ⟨hepoch, hnonce, hverify, -⟩ := hacc
    split
    · exact h
    · next hnew =>
      intro hash pending hpend
      rw [lookup_insert] at hpend
      split at hpend
      · next hhash =>
        subst hhash
        cases hpend
        rw [Std.ExtTreeMap.getD_eq_getD_getElem?]
        cases hold : acc.2[admission.body.hash]? with
        | none =>
          refine ⟨Bool.eq_false_iff.mpr hnew, ⟨admission.body, rfl, rfl⟩, fun sponsor hspon => ?_⟩
          have hself : block.body.validator = sponsor := by simpa using hspon
          exact ⟨hself ▸ hverifier, block, hblock, hself, admission, hadm, rfl, hepoch, hnonce,
            hverify⟩
        | some old =>
          obtain ⟨hfree, ⟨body, hbody, hnode⟩, hsponsors⟩ := h _ old hold
          have hkey : admission.body.node.publicKey = old.node.publicKey := by
            rw [← hnode]
            exact publicKey_eq_of_hash_eq hinj hbody.symm
          refine ⟨hfree, ⟨body, hbody, hnode⟩, fun sponsor hspon => ?_⟩
          simp only [Option.getD_some, Std.ExtTreeSet.contains_insert, Bool.or_eq_true,
            beq_iff_eq, compare_eq_iff_eq] at hspon
          rcases hspon with hself | hearlier
          · exact ⟨hself ▸ hverifier, block, hblock, hself, admission, hadm, hkey, hepoch,
              hnonce, hverify⟩
          · exact hsponsors sponsor hearlier
      · exact h hash pending hpend

theorem admissionEvidence_holds (hinj : HashInjective W) (r : Roster W) (e : EpochInput W) :
    r.AdmissionsHold e (admissionEvidence r.verifiers e.blocks e.parentEpochHash e.nonce) := by
  unfold admissionEvidence
  rw [List.foldl_map]
  apply List.foldlRecOn (motive := r.AdmissionsHold e) (values e.blocks)
  · intro hash pending hpend
    simp at hpend
  · intro evidence hev block hblock
    split
    · next hverifier =>
      apply List.foldlRecOn
        (motive := fun acc : BTreeSet W × BTreeMap W (PendingNodeAdmission W) =>
          r.AdmissionsHold e acc.2) block.body.nodeAdmissions _ hev
      intro acc hacc admission hadm
      exact recordAdmission_holds hinj hacc hblock hverifier hadm
    · exact hev

def DecisionsHold (required : ℕ) (pendings : List (PendingNodeAdmission W))
    (decisions : BTreeMap W (ConsensusNodeAdmissionDecision W)) : Prop :=
  ∀ (key : W) (decision : ConsensusNodeAdmissionDecision W), decisions[key]? = some decision →
    ∃ pending ∈ pendings, pending.node = decision.node ∧ required ≤ pending.observers.size

theorem decideAdmission_holds {required : ℕ} {pendings : List (PendingNodeAdmission W)}
    {decisions : BTreeMap W (ConsensusNodeAdmissionDecision W)}
    (h : DecisionsHold required pendings decisions) {pending : PendingNodeAdmission W}
    (hpend : pending ∈ pendings) :
    DecisionsHold required pendings (decideAdmission required decisions pending) := by
  have hinsert (hcount : required ≤ pending.observers.size) :
      DecisionsHold required pendings (decisions.insert pending.node.publicKey
        ⟨pending.node, pending.admissionHash, pending.observers.size, required⟩) := by
    intro key decision hdec
    rw [lookup_insert] at hdec
    split at hdec
    · cases hdec
      exact ⟨pending, hpend, rfl, hcount⟩
    · exact h key decision hdec
  unfold decideAdmission
  split
  · exact h
  · next hcount =>
    dsimp only
    split
    · split
      · exact hinsert (not_lt.mp hcount)
      · exact h
    · exact hinsert (not_lt.mp hcount)

theorem sponsors_of_admitted (hinj : HashInjective W) {node : NodeIdentity W}
    (h : node ∈ r.admitted e) :
    r.verifiers.contains node.publicKey = false ∧
      ∃ sponsors : Finset W, supermajorityCount r.verifiers.size ≤ sponsors.card ∧
        ∀ sponsor ∈ sponsors, r.Sponsors e node.publicKey sponsor := by
  unfold admitted deriveConsensusNodeAdmissionPlan at h
  split at h
  · cases h
  · obtain ⟨decision, hdec, rfl⟩ := List.mem_map.mp h
    obtain ⟨key, hdec⟩ := mem_values.mp hdec
    have hdecisions : DecisionsHold (supermajorityCount r.verifiers.size)
        (values (admissionEvidence r.verifiers e.blocks e.parentEpochHash e.nonce))
        ((values (admissionEvidence r.verifiers e.blocks e.parentEpochHash e.nonce)).foldl
          (decideAdmission (supermajorityCount r.verifiers.size)) ∅) := by
      apply List.foldlRecOn (motive := DecisionsHold _ _)
      · intro key decision hdec
        simp at hdec
      · intro decisions hdecisions pending hpend
        exact decideAdmission_holds hdecisions hpend
    obtain ⟨pending, hpend, hnode, hcount⟩ := hdecisions key decision hdec
    obtain ⟨hash, hpend⟩ := mem_values.mp hpend
    obtain ⟨hfree, -, hsponsors⟩ := admissionEvidence_holds hinj r e hash pending hpend
    rw [hnode] at hfree hsponsors
    refine ⟨hfree, pending.observers.toList.toFinset, ?_, fun sponsor hspon => ?_⟩
    · rw [card_elements]
      exact hcount
    · rw [List.mem_toFinset, Std.ExtTreeSet.mem_toList, Std.ExtTreeSet.mem_iff_contains] at hspon
      exact hsponsors sponsor hspon

/-! ### The verifiers after accusations and sponsorships -/

theorem contains_foldl_erase {decisions : List (ConsensusNodeRemovalDecision W)}
    {verifiers : Verifiers W} :
    (decisions.foldl (fun verifiers decision => verifiers.erase decision.subject)
      verifiers).contains key = true ↔
      verifiers.contains key = true ∧ key ∉ decisions.map (·.subject) := by
  induction decisions generalizing verifiers with
  | nil => simp
  | cons decision decisions ih =>
    rw [List.foldl_cons, ih, List.map_cons, List.mem_cons, not_or, contains_iff, contains_iff]
    simp only [lookup_erase]
    by_cases hkey : decision.subject = key
    · simp [hkey]
    · simp [hkey, Ne.symm hkey]

theorem contains_foldl_insert {nodes : List (NodeIdentity W)} {verifiers : Verifiers W} :
    (nodes.foldl (fun verifiers node => verifiers.insert node.publicKey node)
      verifiers).contains key = true ↔
      verifiers.contains key = true ∨ key ∈ nodes.map (·.publicKey) := by
  induction nodes generalizing verifiers with
  | nil => simp
  | cons node nodes ih =>
    rw [List.foldl_cons, ih, List.map_cons, List.mem_cons, contains_iff, contains_iff]
    simp only [lookup_insert]
    by_cases hkey : node.publicKey = key
    · simp [hkey]
    · simp [hkey, Ne.symm hkey]

theorem contains_legacy : (r.legacy e).contains key = true ↔
    (r.verifiers.contains key = true ∧ key ∉ r.accused e) ∨
      key ∈ (r.admitted e).map (·.publicKey) := by
  unfold legacy applyEpochMembershipTransition applyConsensusNodeAdmissionPlan
    applyConsensusNodeRemovalPlan
  rw [contains_foldl_insert, contains_foldl_erase]
  rfl

theorem validates_baseline_iff (h : r.Sound) {identity : NodeIdentity W} :
    (registryBaseline r.members (r.legacy e)).Validates key identity ↔
      (r.legacy e)[key]? = some identity ∧ ¬r.members.Revoked key := by
  have hkeyed := legacy_keyed h e
  constructor
  · intro hvalidates
    have hleg := (registryBaseline_spec h.members_keyed hkeyed).2 key identity hvalidates
    refine ⟨hleg, fun hrev => ?_⟩
    obtain ⟨record, hrec, hstatus⟩ := hrev
    have hstays := (revoked_registryBaseline_iff h.members_keyed hkeyed hrec
      hstatus).mpr fun _ => contains_iff.mpr ⟨identity, hleg⟩
    exact hstays.not_validates identity hvalidates
  · rintro ⟨hleg, hact⟩
    have hcont : (r.legacy e).contains key = true := contains_iff.mpr ⟨identity, hleg⟩
    unfold registryBaseline MemberSet.Validates
    rw [lookup_syncLegacyValidators hkeyed, hleg]
    refine ⟨_, rfl, enlist_isActiveWith fun old hold => ?_, enlist_identity ..⟩
    obtain ⟨record, hrec, rfl⟩ := Option.map_eq_some_iff.mp hold
    split at hrec
    · rw [lookup_fromVerifiers hkeyed, hleg] at hrec
      cases hrec
      have hown : (r.legacy e).contains identity.publicKey = true := by
        rw [hkeyed key identity hleg]
        exact hcont
      rw [suspendAbsent_of_contains hown]
      exact MemberStatus.noConfusion
    · rw [suspendAbsent_of_contains ((h.members_keyed key record hrec).symm ▸ hcont)]
      exact fun hrev => hact ⟨record, hrec, hrev⟩

end Roster

/-! ### Operations -/

namespace MemberSet

variable {m next : MemberSet W} {op : MemberOperation W} {key : W} {identity : NodeIdentity W}

theorem Validates.apply (h : m.Validates key identity) (hop : m.apply op = .ok next)
    (hother : ¬op.Names key) : next.Validates key identity := by
  obtain ⟨record, hrec, hact⟩ := h
  rcases apply_lookup hop key with ⟨-, hsame⟩ | ⟨-, hnone, -⟩ | ⟨hnames, -⟩
  · exact ⟨record, hsame.trans hrec, hact⟩
  · exact nomatch hnone.symm.trans hrec
  · exact absurd hnames hother

theorem not_validates_of_names (hop : m.apply op = .ok next) (hnames : op.Names key) :
    ¬next.Validates key identity := by
  rintro ⟨record, hrec, hact, -⟩
  rcases apply_lookup hop key with ⟨hother, -⟩ | ⟨hother, -⟩ |
    ⟨-, _, _, -, hnext, -, hstatus, -⟩
  · exact hother hnames
  · exact hother hnames
  · cases hnext.symm.trans hrec
    exact hstatus (MemberRecord.isActiveWith_iff.mp hact).1

end MemberSet

namespace Roster

variable [EpochCodec W] {r r' genesis : Roster W} {e : EpochInput W} {key groupId : W}
  {identity : NodeIdentity W}

def registryAfter (groupId : W) (r : Roster W) (e : EpochInput W) (before : List (Transaction W)) :
    MemberSet W :=
  before.foldl (.applyTransaction groupId e.parentEpochHash)
    (registryBaseline r.members (r.legacy e))

def AcceptsNaming (groupId : W) (r : Roster W) (e : EpochInput W) (key : W) : Prop :=
  ∃ before t after op next, committedTransactions e.blocks = before ++ t :: after ∧
    CommittedMemberOperation.fromTransaction t = some op ∧ op.groupId = groupId ∧
    op.parentEpochHash = e.parentEpochHash ∧ op.operation.Names key ∧
    (r.registryAfter groupId e before).apply op.operation = .ok next

theorem acceptsNaming_of_lost
    (hbefore : (registryBaseline r.members (r.legacy e)).Validates key identity)
    (hafter : ¬(applyCommittedMemberOperations (registryBaseline r.members (r.legacy e)) e.blocks
      groupId e.parentEpochHash).Validates key identity) : r.AcceptsNaming groupId e key := by
  rw [applyCommittedMemberOperations_eq] at hafter
  obtain ⟨before, t, after, hsplit, hvalid, hlost⟩ :=
    exists_lost_of_foldl (P := fun m : MemberSet W => m.Validates key identity) hbefore hafter
  unfold applyTransaction at hlost
  split at hlost
  · exact absurd hvalid hlost
  · next op hdecoded =>
    split at hlost
    · exact absurd hvalid hlost
    · next hscope =>
      rw [not_or, not_not, not_not] at hscope
      split at hlost
      · next next hop =>
        refine ⟨before, t, after, op, next, hsplit, hdecoded, hscope.1, hscope.2, ?_, hop⟩
        by_contra hother
        exact hlost (hvalid.apply hop hother)
      · exact absurd hvalid hlost

theorem not_validates_of_acceptsNaming (h : r.Sound) (hnaming : r.AcceptsNaming groupId e key) :
    ¬(applyCommittedMemberOperations (registryBaseline r.members (r.legacy e)) e.blocks
      groupId e.parentEpochHash).Validates key identity := by
  obtain ⟨before, t, after, op, next, hsplit, hdecoded, hgroup, hparent, hnames, hop⟩ := hnaming
  have hstep : (r.registryAfter groupId e before).applyTransaction groupId e.parentEpochHash t =
      next := by
    rw [applyTransaction, hdecoded]
    dsimp only
    rw [if_neg (not_or.mpr ⟨not_not.mpr hgroup, not_not.mpr hparent⟩), hop]
  have hbefore : (r.registryAfter groupId e before).WellKeyed :=
    (applyTransactions_demotes (baseline_wellKeyed h e) before groupId e.parentEpochHash).1
  have hnext : next.WellKeyed := (apply_spec hop hbefore).1
  rw [applyCommittedMemberOperations_eq, hsplit, List.foldl_append, List.foldl_cons]
  change ¬(after.foldl (.applyTransaction groupId e.parentEpochHash)
    ((r.registryAfter groupId e before).applyTransaction groupId e.parentEpochHash t)).Validates
      key identity
  rw [hstep]
  intro hvalidates
  exact not_validates_of_names hop hnames
    ((applyTransactions_demotes hnext after groupId e.parentEpochHash).2 key identity hvalidates)

/-! ### The next verifiers -/

structure Justified (groupId : W) (r : Roster W) (e : EpochInput W) : Prop where
  nonempty : (r.next groupId e).verifiers.isEmpty = false
  removed : ∀ key, r.verifiers.contains key = true →
    (r.next groupId e).verifiers.contains key = false →
    (key ∈ r.accused e ∧
      ∃ observers : Finset W, e.policy.requiredObserversFor r.verifiers.size ≤ observers.card ∧
        ∀ observer ∈ observers, r.Accuses e key observer) ∨ r.AcceptsNaming groupId e key
  budget : (r.accused e).length ≤
    min (r.verifiers.size - e.policy.minRemainingVerifiers) e.policy.maxRemovalsPerEpoch
  added : ∀ key, (r.next groupId e).verifiers.contains key = true →
    r.verifiers.contains key = false →
    ∃ sponsors : Finset W, supermajorityCount r.verifiers.size ≤ sponsors.card ∧
      ∀ sponsor ∈ sponsors, r.Sponsors e key sponsor
  /-- Who is accused is not sponsored. -/
  not_readmitted : ∀ key ∈ r.accused e, key ∉ (r.admitted e).map (·.publicKey) ∧
    (r.next groupId e).verifiers.contains key = false
  /-- Whom an operation names stays out, unless all operations of the epoch are dropped. -/
  not_restored : ∀ key, r.AcceptsNaming groupId e key →
    (r.next groupId e).verifiers.contains key = false ∨
      (r.next groupId e).members = registryBaseline r.members (r.legacy e)

/-- Some verifier is not accused, or some node that is sponsored has not been revoked. -/
def LeavesVerifier (r : Roster W) (e : EpochInput W) : Prop :=
  (∃ key, r.verifiers.contains key = true ∧ key ∉ r.accused e) ∨
    ∃ node ∈ r.admitted e, ¬r.members.Revoked node.publicKey

omit [EpochCodec W] in
theorem contains_activeValidators {m : MemberSet W} (h : m.WellKeyed) :
    m.activeValidators.contains key = true ↔ ∃ identity, m.Validates key identity := by
  rw [contains_iff]
  simp only [lookup_activeValidators h]

theorem validates_of_contains_next (h : r.Sound)
    (hnext : (r.next groupId e).verifiers.contains key = true) :
    ∃ identity, (registryBaseline r.members (r.legacy e)).Validates key identity := by
  rcases next_cases groupId r e with ⟨-, heq⟩ | ⟨-, heq⟩
  · rw [heq] at hnext
    exact (contains_activeValidators (baseline_wellKeyed h e)).mp hnext
  · rw [heq] at hnext
    have hdemotes := applied_demotes h groupId e
    obtain ⟨identity, hvalidates⟩ := (contains_activeValidators hdemotes.1).mp hnext
    exact ⟨identity, hdemotes.2 key identity hvalidates⟩

theorem next_nonempty_iff (h : r.Sound) : (r.next groupId e).verifiers.isEmpty = false ↔
    ∃ key identity, (registryBaseline r.members (r.legacy e)).Validates key identity := by
  constructor
  · intro hsome
    obtain ⟨key, hkey⟩ := isEmpty_eq_false_iff.mp hsome
    exact ⟨key, validates_of_contains_next h hkey⟩
  · rintro ⟨key, hvalidates⟩
    rcases next_cases groupId r e with ⟨-, heq⟩ | ⟨hsome, heq⟩
    · rw [heq]
      exact isEmpty_eq_false_iff.mpr
        ⟨key, (contains_activeValidators (baseline_wellKeyed h e)).mpr hvalidates⟩
    · rw [heq]
      exact hsome

omit [EpochCodec W] in
theorem validates_iff_leavesVerifier (h : r.Sound) :
    (∃ key identity, (registryBaseline r.members (r.legacy e)).Validates key identity) ↔
      r.LeavesVerifier e := by
  have hleg : (∃ key identity, (registryBaseline r.members (r.legacy e)).Validates key identity) ↔
      ∃ key, (r.legacy e).contains key = true ∧ ¬r.members.Revoked key := by
    simp only [validates_baseline_iff h, contains_iff, exists_and_right]
  rw [hleg]
  simp only [contains_legacy]
  constructor
  · rintro ⟨key, hkept | hadm, hrev⟩
    · exact .inl ⟨key, hkept⟩
    · obtain ⟨node, hnode, rfl⟩ := List.mem_map.mp hadm
      exact .inr ⟨node, hnode, hrev⟩
  · rintro (⟨key, hverifier, hkept⟩ | ⟨node, hnode, hrev⟩)
    · refine ⟨key, .inl ⟨hverifier, hkept⟩, fun hrev => ?_⟩
      rw [h.not_verifier hrev] at hverifier
      cases hverifier
    · exact ⟨node.publicKey, .inr (List.mem_map_of_mem hnode), hrev⟩

theorem justified_of_leavesVerifier (h : r.Sound) (hinj : HashInjective W)
    (hleaves : r.LeavesVerifier e) : r.Justified groupId e := by
  have hdemotes := applied_demotes h groupId e
  have hleg {key : W} (hnext : (r.next groupId e).verifiers.contains key = true) :
      (r.legacy e).contains key = true := by
    obtain ⟨identity, hvalidates⟩ := validates_of_contains_next h hnext
    exact contains_iff.mpr ⟨identity, ((validates_baseline_iff h).mp hvalidates).1⟩
  refine ⟨?_, ?_, length_accused_le r e, ?_, ?_, ?_⟩
  · rw [next_nonempty_iff h, validates_iff_leavesVerifier h]
    exact hleaves
  · intro key hverifier hgone
    by_cases haccused : key ∈ r.accused e
    · exact .inl ⟨haccused, (accusers_of_accused haccused).2⟩
    · have hkept : (r.legacy e).contains key = true := contains_legacy.mpr (.inl ⟨hverifier, haccused⟩)
      obtain ⟨identity, hid⟩ := contains_iff.mp hkept
      have hact : ¬r.members.Revoked key := by
        intro hrev
        rw [h.not_verifier hrev] at hverifier
        cases hverifier
      have hbaseline := (validates_baseline_iff h).mpr ⟨hid, hact⟩
      refine .inr (acceptsNaming_of_lost hbaseline fun hafter => ?_)
      rcases next_cases groupId r e with ⟨hempty, -⟩ | ⟨-, heq⟩
      · have hcont := (contains_activeValidators hdemotes.1).mpr ⟨identity, hafter⟩
        rw [isEmpty_eq_false_iff.mpr ⟨key, hcont⟩] at hempty
        cases hempty
      · rw [heq] at hgone
        rw [(contains_activeValidators hdemotes.1).mpr ⟨identity, hafter⟩] at hgone
        cases hgone
  · intro key hnext hnew
    rcases contains_legacy.mp (hleg hnext) with ⟨hverifier, -⟩ | hadm
    · rw [hnew] at hverifier
      cases hverifier
    · obtain ⟨node, hnode, rfl⟩ := List.mem_map.mp hadm
      exact (sponsors_of_admitted hinj hnode).2
  · intro key haccused
    have hnew : key ∉ (r.admitted e).map (·.publicKey) := by
      intro hadm
      obtain ⟨node, hnode, rfl⟩ := List.mem_map.mp hadm
      have hfree := (sponsors_of_admitted hinj hnode).1
      rw [(accusers_of_accused haccused).1] at hfree
      cases hfree
    refine ⟨hnew, Bool.eq_false_iff.mpr fun hnext => ?_⟩
    rcases contains_legacy.mp (hleg hnext) with ⟨-, hkept⟩ | hadm
    · exact hkept haccused
    · exact hnew hadm
  · intro key hnaming
    rcases next_cases groupId r e with ⟨-, heq⟩ | ⟨-, heq⟩
    · right
      rw [heq]
    · left
      rw [heq, Bool.eq_false_iff, ne_eq, contains_activeValidators hdemotes.1]
      rintro ⟨identity, hvalidates⟩
      exact not_validates_of_acceptsNaming h hnaming hvalidates

omit [EpochCodec W] in
theorem leavesVerifier_of_minRemaining (hsome : r.verifiers.isEmpty = false)
    (hpolicy : 0 < e.policy.minRemainingVerifiers) : r.LeavesVerifier e := by
  by_contra hnone
  simp only [LeavesVerifier, not_or, not_exists, not_and, not_not] at hnone
  have hsub : r.verifiers.keys.toFinset ⊆ (r.accused e).toFinset := by
    intro key hkey
    rw [List.mem_toFinset, Std.ExtTreeMap.mem_keys, ← Std.ExtTreeMap.contains_iff_mem] at hkey
    exact List.mem_toFinset.mpr (hnone.1 key hkey)
  have hcard := (Finset.card_le_card hsub).trans (List.toFinset_card_le _)
  rw [card_keys] at hcard
  have hbudget := length_accused_le r e
  have hpos : 0 < r.verifiers.size := by
    rw [Std.ExtTreeMap.isEmpty_eq_size_beq_zero, beq_eq_false_iff_ne] at hsome
    exact Nat.pos_of_ne_zero hsome
  omega

/-- The next verifiers are justified exactly if there are any: some verifier is not accused, or a
node that has not been revoked is sponsored. A policy that keeps a verifier makes sure of it. -/
theorem verifier_changes_justified_iff (hinj : HashInjective W) (hgenesis : genesis.Genesis)
    (hreached : ReflTransGen (Follows groupId) genesis r) (hsome : r.verifiers.isEmpty = false)
    (e : EpochInput W) : (r.Justified groupId e ↔ r.LeavesVerifier e) ∧
      (0 < e.policy.minRemainingVerifiers → r.Justified groupId e) := by
  have hsound : r.Sound := sound_of_follows hgenesis.sound hreached
  have hiff : r.Justified groupId e ↔ r.LeavesVerifier e := by
    constructor
    · intro hjustified
      exact (validates_iff_leavesVerifier hsound).mp ((next_nonempty_iff hsound).mp
        hjustified.nonempty)
    · exact justified_of_leavesVerifier hsound hinj
  exact ⟨hiff, fun hpolicy => hiff.mpr (leavesVerifier_of_minRemaining hsome hpolicy)⟩

/-- A policy without a minimum: three verifiers, each accused by the other two. -/
theorem accusations_leave_no_verifier :
    letI := byteOperations
    ∃ e : EpochInput NumberWord, (network [0, 1, 2]).Genesis ∧
      (network [0, 1, 2]).verifiers.isEmpty = false ∧
      ((network [0, 1, 2]).next default e).verifiers.isEmpty = true ∧
      ¬(network [0, 1, 2]).Justified default e := by
  let := byteOperations
  have hempty : ((network [0, 1, 2]).next default (inputOf 1 ⟨true, 0, 3, none⟩
      [blockOf 1 0 [accusationOf 1 0 1, accusationOf 1 0 2] [] [],
        blockOf 1 1 [accusationOf 1 1 0, accusationOf 1 1 2] [] [],
        blockOf 1 2 [accusationOf 1 2 0, accusationOf 1 2 1] [] []])).verifiers.isEmpty = true := by
    decide +kernel
  refine ⟨_, network_genesis _, by decide +kernel, hempty, fun hjustified => ?_⟩
  have hsome := hjustified.nonempty
  rw [hempty] at hsome
  cases hsome

theorem accused_verifier_is_replaced :
    letI := byteOperations
    ∃ e : EpochInput NumberWord,
      ((network [0, 1, 2]).next default e).verifiers.contains (.key 2) = false ∧
      ((network [0, 1, 2]).next default e).verifiers.contains (.key 3) = true ∧
      (network [0, 1, 2]).Justified default e := by
  let := byteOperations
  refine ⟨inputOf 1 ⟨true, 1, 1, none⟩
    [blockOf 1 0 [accusationOf 1 0 2] [admissionOf 1 3] [],
      blockOf 1 1 [accusationOf 1 1 2] [admissionOf 1 3] []],
    by decide +kernel, by decide +kernel, ?_⟩
  exact (verifier_changes_justified_iff NumberWord.hash_injective (network_genesis _) .refl
    (by decide +kernel) _).2 Nat.one_pos

end Roster

end Blossom
