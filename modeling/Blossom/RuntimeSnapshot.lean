import Blossom.AddressBook
import Blossom.CertifiedCatchUp
import Blossom.TrustedProduction

/-!
# Runtime snapshots

A runtime writes its chain, its services and its lease watermarks into a snapshot, and a later start
reads them back.
-/

namespace Blossom

open CheckedSteps OrderedMap StatefulSteps

variable {W : Type} [ProtocolCrypto W]
variable {book next restored : AddressBook W} {records : List (SignedServiceRecord W)}
  {previous : Option (Service W)} {groupId : W}

def maxMembershipLeaseMillis : ℕ := 30000

structure MembershipLeaseWatermark (W : Type) where
  statementHash : W
  expiresAtUnixMillis : ℕ
  deriving DecidableEq

def runtimeSnapshotVersion : ℕ := 1

structure RuntimeSnapshotV1 (W : Type) [LinearOrder W] where
  version : ℕ
  groupId : W
  selfPublicKey : W
  epochchain : List (Epoch W)
  addressBook : List (Service W)
  signedServiceRecords : List (SignedServiceRecord W)
  blockCap : ℕ
  consensusParameters : ConsensusParameters
  trustMode : TrustMode
  mode : RuntimeMode
  consensusNodeRemovalPolicy : ConsensusNodeRemovalPolicy
  membershipLeaseWatermarks : List (W × W)
  membershipLeaseWatermarkExpiries : List (W × ℕ)

/-- The branching factor is valid by its type. -/
def ConsensusParameters.validate (p : ConsensusParameters) : Result Unit :=
  reject (p.version ≠ consensusParametersVersion)
    (invalidConfiguration s!"unsupported consensus parameters version {p.version}")

section Validation

variable [EpochCodec W]

def validateGenesisAnchor (genesis : Epoch W) (expectedGroup : W) : Result Unit := do
  reject (genesis.body.groupId ≠ expectedGroup ∨ genesis.body.nonce ≠ 0 ∨
    genesis.body.previousNonce.isSome = true ∨ genesis.body.lastEpoch ≠ default ∨
    genesis.hash ≠ genesis.body.computeHash ∨
    genesis.body.merkleRoot ≠ blockMerkleRoot genesis.body.blocks ∨
    genesis.body.members.activeValidators ≠ genesis.body.verifiers)
    (wireProtocol "invalid genesis anchor")
  genesis.body.blocks.toList.forM fun (hash, block) => block.verifyIntegrityWithHash hash

namespace RuntimeSnapshotV1

section

variable (snapshot : RuntimeSnapshotV1 W)

def validateEpoch (previous : Option (Epoch W)) (epoch : Epoch W) : Result Unit := do
  reject (epoch.body.groupId ≠ snapshot.groupId) (wireProtocol "snapshot epoch group id mismatch")
  epoch.body.effectiveConsensusParameters.validate
  reject (epoch.body.effectiveConsensusParameters ≠ snapshot.consensusParameters)
    (.error (.consensusParametersMismatch snapshot.consensusParameters.quorumSize.get
      epoch.body.effectiveConsensusParameters.quorumSize.get))
  reject (epoch.hash ≠ epoch.body.computeHash) (wireProtocol "snapshot epoch hash mismatch")
  match previous with
  | some previous => do
    reject (epoch.body.lastEpoch ≠ previous.hash)
      (wireProtocol "snapshot epoch chain linkage mismatch")
    reject (epoch.body.nonce ≠ previous.body.nonce + 1) (.error .invalidEpochNonce)
    reject (epoch.body.previousNonce.any fun nonce => decide (nonce ≠ previous.body.nonce))
      (.error .invalidEpochNonce)
    if snapshot.trustMode = .verified then
      validateCertifiedExtension previous epoch snapshot.consensusNodeRemovalPolicy
    else pure ()
  | none =>
    reject (epoch.body.previousNonce.isSome = true)
      (wireProtocol "genesis epoch must not claim a previous nonce")

def validateChain (snapshot : RuntimeSnapshotV1 W) :
    Option (Epoch W) → List (Epoch W) → Result Unit
  | _, [] => pure ()
  | previous, epoch :: rest => do
    snapshot.validateEpoch previous epoch
    snapshot.validateChain (some epoch) rest

def validateWatermarks : Result Unit :=
  let challenges := snapshot.membershipLeaseWatermarks.map Prod.fst
  let expiries := snapshot.membershipLeaseWatermarkExpiries.map Prod.fst
  reject (¬challenges.Nodup ∨ ¬expiries.Nodup ∨ ¬expiries ⊆ challenges)
    (wireProtocol "snapshot membership lease watermarks are duplicated or inconsistent")

def validate (snapshot : RuntimeSnapshotV1 W) : Result Unit := do
  reject (snapshot.version ≠ runtimeSnapshotVersion)
    (wireProtocol s!"unsupported runtime snapshot version {snapshot.version}")
  let genesis ← require snapshot.epochchain.head? (.error .emptyEpochChain)
  snapshot.consensusParameters.validate
  validateGenesisAnchor genesis snapshot.groupId
  snapshot.validateChain none snapshot.epochchain
  let latest ← require snapshot.epochchain.getLast? (.error .emptyEpochChain)
  reject (¬latest.body.verifiers.contains snapshot.selfPublicKey)
    (wireProtocol "snapshot self public key is not in latest verifier set")
  snapshot.validateWatermarks

def validateForNode (selfNode : NodeIdentity W) : Result Unit := do
  snapshot.validate
  reject (snapshot.selfPublicKey ≠ selfNode.publicKey) (.error .keyMismatch)

end

end RuntimeSnapshotV1

structure SnapshotSource (W : Type) [LinearOrder W] where
  groupId : W
  selfNode : NodeIdentity W
  epochchain : List (Epoch W)
  addressBook : AddressBook W
  blockCap : ℕ
  consensusParameters : ConsensusParameters
  trustMode : TrustMode
  mode : RuntimeMode
  consensusNodeRemovalPolicy : ConsensusNodeRemovalPolicy
  membershipLeaseWatermarks : BTreeMap W (MembershipLeaseWatermark W)

/-- What a runtime is started with again. -/
structure RestoredConfig (W : Type) [LinearOrder W] where
  groupId : W
  selfNode : NodeIdentity W
  genesis : Epoch W
  epochchain : List (Epoch W)
  addressBook : AddressBook W
  blockCap : ℕ
  quorumSize : QuorumSize
  trustMode : TrustMode
  mode : RuntimeMode
  consensusNodeRemovalPolicy : ConsensusNodeRemovalPolicy
  membershipLeaseWatermarks : BTreeMap W (MembershipLeaseWatermark W)

namespace SnapshotSource

def image (s : SnapshotSource W) (nowUnixMillis : ℕ) : RuntimeSnapshotV1 W :=
  let watermarks := s.membershipLeaseWatermarks.toList.filter fun entry =>
    decide (nowUnixMillis < entry.2.expiresAtUnixMillis)
  { version := runtimeSnapshotVersion
    groupId := s.groupId
    selfPublicKey := s.selfNode.publicKey
    epochchain := s.epochchain
    addressBook := s.addressBook.intoServices
    signedServiceRecords := (values s.addressBook.signedRecords).filter fun record =>
      decide (nowUnixMillis < record.body.expiresAtUnixMillis)
    blockCap := s.blockCap
    consensusParameters := s.consensusParameters
    trustMode := s.trustMode
    mode := s.mode
    consensusNodeRemovalPolicy := s.consensusNodeRemovalPolicy
    membershipLeaseWatermarks := watermarks.map fun entry => (entry.1, entry.2.statementHash)
    membershipLeaseWatermarkExpiries :=
      watermarks.map fun entry => (entry.1, entry.2.expiresAtUnixMillis) }

def snapshot (s : SnapshotSource W) (nowUnixMillis : ℕ) : Result (RuntimeSnapshotV1 W) := do
  (s.image nowUnixMillis).validate
  pure (s.image nowUnixMillis)

def registerSignedService (s : SnapshotSource W) (record : SignedServiceRecord W)
    (nowUnixMillis : ℕ) : Result (Option (Service W) × SnapshotSource W) := do
  let latest ← require s.epochchain.getLast? (.error .emptyEpochChain)
  let (previous, book) ← s.addressBook.applySignedRecord record s.groupId latest.body.members
    nowUnixMillis
  pure (previous, { s with addressBook := book })

end SnapshotSource

def restoreRecords (groupId : W) (members : MemberSet W) (nowUnixMillis : ℕ)
    (book : AddressBook W) (records : List (SignedServiceRecord W)) : Result (AddressBook W) :=
  records.foldlM (fun book record =>
    if nowUnixMillis < record.body.expiresAtUnixMillis then do
      let (_, next) ← book.applySignedRecord record groupId members nowUnixMillis
      pure next
    else pure book) book

section

variable (snapshot : RuntimeSnapshotV1 W)

/-- The watermarks of a snapshot; one without an expiry is kept for a whole lease. -/
def restoreWatermarks (nowUnixMillis : ℕ) : BTreeMap W (MembershipLeaseWatermark W) :=
  let fallback := saturatingAdd nowUnixMillis maxMembershipLeaseMillis
  let expiries : BTreeMap W ℕ := .ofList snapshot.membershipLeaseWatermarkExpiries compare
  let watermarks := snapshot.membershipLeaseWatermarks.map fun (challenge, statementHash) =>
    (challenge, (⟨statementHash, expiries[challenge]?.getD fallback⟩ : MembershipLeaseWatermark W))
  .ofList (watermarks.filter fun entry => decide (nowUnixMillis < entry.2.expiresAtUnixMillis))
    compare

/-- A quorum size that the operator gives has to be the committed one. -/
def checkQuorumSize : Option QuorumSize → Result Unit
  | some configured =>
    reject (configured ≠ snapshot.consensusParameters.quorumSize)
      (.error (.consensusParametersMismatch configured.get
        snapshot.consensusParameters.quorumSize.get))
  | none => pure ()

def RestoredConfig.fromSnapshotWithQuorumOverride (selfNode : NodeIdentity W)
    (configuredQuorumSize : Option QuorumSize) (nowUnixMillis : ℕ) :
    Result (RestoredConfig W) := do
  snapshot.validateForNode selfNode
  checkQuorumSize snapshot configuredQuorumSize
  let genesis ← require snapshot.epochchain.head? (.error .emptyEpochChain)
  let latest ← require snapshot.epochchain.getLast? (.error .emptyEpochChain)
  let addressBook ← restoreRecords snapshot.groupId latest.body.members nowUnixMillis
    (.fromServices snapshot.addressBook) snapshot.signedServiceRecords
  pure
    { groupId := snapshot.groupId
      selfNode := selfNode
      genesis := genesis
      epochchain := snapshot.epochchain
      addressBook := addressBook
      blockCap := snapshot.blockCap
      quorumSize := snapshot.consensusParameters.quorumSize
      trustMode := snapshot.trustMode
      mode := snapshot.mode
      consensusNodeRemovalPolicy := snapshot.consensusNodeRemovalPolicy
      membershipLeaseWatermarks := restoreWatermarks snapshot nowUnixMillis }

def RestoredConfig.fromSnapshot (selfNode : NodeIdentity W)
    (nowUnixMillis : ℕ) : Result (RestoredConfig W) :=
  fromSnapshotWithQuorumOverride snapshot selfNode none nowUnixMillis

end

def RestoredConfig.source (config : RestoredConfig W) : SnapshotSource W where
  groupId := config.genesis.body.groupId
  selfNode := config.selfNode
  epochchain := config.epochchain
  addressBook := config.addressBook
  blockCap := config.blockCap
  consensusParameters := config.genesis.body.effectiveConsensusParameters
  trustMode := config.trustMode
  mode := config.mode
  consensusNodeRemovalPolicy := config.consensusNodeRemovalPolicy
  membershipLeaseWatermarks := config.membershipLeaseWatermarks

/-! ### Signed records -/

def Authorized (members : MemberSet W) (record : SignedServiceRecord W) : Prop :=
  ∃ member, members.records[record.body.owner]? = some member ∧
    member.authorizedFor record.body.serviceKind = true

structure Admissible (groupId : W) (members : MemberSet W) (now : ℕ)
    (record : SignedServiceRecord W) : Prop where
  verified : record.verify = .ok ()
  groupId_eq : record.body.groupId = groupId
  authorized : Authorized members record
  live : now < record.body.expiresAtUnixMillis
  bounded : record.body.expiresAtUnixMillis ≤ saturatingAdd now maxServiceRecordLifetimeMillis

variable {now : ℕ} {record : SignedServiceRecord W} {members : MemberSet W}

section

omit [EpochCodec W]

theorem applySignedRecord_spec
    (h : book.applySignedRecord record groupId members now = .ok (previous, next)) :
    Admissible groupId members now record ∧
      next.signedRecords = book.signedRecords.insert record.body.key record := by
  simp only [AddressBook.applySignedRecord, ↓guard_bind_eq_ok, bind_eq_ok, require_eq_ok,
    reject_eq_ok, pure_eq_ok, not_or, not_not, not_le, not_lt, Bool.not_eq_false] at h
  obtain ⟨_, hverify, hgroup, member, hmem, hauth, ⟨hlive, hbdd⟩, -, heq⟩ := h
  cases heq
  exact ⟨⟨hverify, hgroup, ⟨member, hmem, hauth⟩, hlive, hbdd⟩, rfl⟩

theorem applySignedRecord_of_admissible (h : Admissible groupId members now record)
    (hnew : book.signedRecords[record.body.key]? = none) :
    ∃ result, book.applySignedRecord record groupId members now = .ok result := by
  obtain ⟨member, hmem, hauth⟩ := h.authorized
  simp only [AddressBook.applySignedRecord, ↓guard_bind_eq_ok, bind_eq_ok, require_eq_ok,
    reject_eq_ok, pure_eq_ok, not_or, not_not, not_le, not_lt, Bool.not_eq_false, hnew]
  exact ⟨_, (), h.verified, h.groupId_eq, member, hmem, hauth, ⟨h.live, h.bounded⟩,
    Bool.false_ne_true, rfl⟩

/-- Records with different keys are restored into a book without them exactly when each of them that
has not expired is admissible. -/
theorem restoreRecords_returns_iff (hkeys : (records.map fun record => record.body.key).Nodup)
    (hnew : ∀ record ∈ records, book.signedRecords[record.body.key]? = none) :
    (∃ restored, restoreRecords groupId members now book records = .ok restored) ↔
      ∀ record ∈ records, now < record.body.expiresAtUnixMillis →
        Admissible groupId members now record := by
  induction records generalizing book with
  | nil => simp [restoreRecords]
  | cons record rest ih =>
    rw [List.map_cons, List.nodup_cons] at hkeys
    have hrest (next : AddressBook W) (hsame : ∀ key, key ≠ record.body.key →
        next.signedRecords[key]? = book.signedRecords[key]?) :
        ∀ other ∈ rest, next.signedRecords[other.body.key]? = none := by
      intro other hother
      rw [hsame]
      · exact hnew other (List.mem_cons_of_mem _ hother)
      · intro heq
        exact hkeys.1 (heq ▸ List.mem_map_of_mem hother)
    rw [List.forall_mem_cons]
    by_cases hlive : now < record.body.expiresAtUnixMillis
    · simp only [restoreRecords, List.foldlM_cons, if_pos hlive, bind_eq_ok]
      constructor
      · rintro ⟨restored, next, ⟨⟨previous, taken⟩, happly, hnext⟩, hfold⟩
        cases hnext
        obtain ⟨hadm, hsig⟩ := applySignedRecord_spec happly
        have hsame : ∀ key, key ≠ record.body.key →
            taken.signedRecords[key]? = book.signedRecords[key]? := by
          intro key hkey
          rw [hsig, lookup_insert, if_neg hkey.symm]
        exact ⟨fun _ => hadm, (ih hkeys.2 (hrest taken hsame)).mp ⟨restored, hfold⟩⟩
      · rintro ⟨hadm, hothers⟩
        obtain ⟨⟨previous, taken⟩, happly⟩ := applySignedRecord_of_admissible (hadm hlive)
          (hnew record List.mem_cons_self)
        obtain ⟨-, hsig⟩ := applySignedRecord_spec happly
        obtain ⟨restored, hfold⟩ := (ih hkeys.2 (hrest taken fun key hkey => by
          rw [hsig, lookup_insert, if_neg hkey.symm])).mpr hothers
        exact ⟨restored, taken, ⟨(previous, taken), happly, rfl⟩, hfold⟩
    · simp only [restoreRecords, List.foldlM_cons, if_neg hlive, pure_bind]
      rw [← restoreRecords, ih hkeys.2 (hrest book fun _ _ => rfl)]
      exact ⟨fun hothers => ⟨fun hbad => absurd hbad hlive, hothers⟩, And.right⟩

end

/-! ### Reachable runtimes -/

namespace SnapshotSource

inductive Reached : ℕ → SnapshotSource W → Prop
  | start {s : SnapshotSource W} {genesis : Epoch W} {now : ℕ} : s.trustMode = .verified →
      s.epochchain = [genesis] → validateGenesisAnchor genesis s.groupId = .ok () →
      genesis.body.effectiveConsensusParameters = s.consensusParameters →
      s.consensusParameters.validate = .ok () → s.addressBook.signedRecords = ∅ → Reached now s
  | wait {s : SnapshotSource W} {now later : ℕ} : Reached now s → now ≤ later → Reached later s
  | registerService {s : SnapshotSource W} {now : ℕ} (service : Service W) : Reached now s →
      Reached now { s with addressBook := s.addressBook.add service }
  | registerSignedService {s s' : SnapshotSource W} {now : ℕ} {record : SignedServiceRecord W}
      {previous : Option (Service W)} : Reached now s →
      s.registerSignedService record now = .ok (previous, s') → Reached now s'
  | installEpoch {s : SnapshotSource W} {now : ℕ} {latest epoch : Epoch W} : Reached now s →
      s.epochchain.getLast? = some latest →
      validateCertifiedExtension latest epoch s.consensusNodeRemovalPolicy = .ok () →
      Reached now { s with epochchain := s.epochchain ++ [epoch] }
  | updateWatermarks {s : SnapshotSource W} {now : ℕ}
      (watermarks : BTreeMap W (MembershipLeaseWatermark W)) : Reached now s →
      Reached now { s with membershipLeaseWatermarks := watermarks }
  | restart {s : SnapshotSource W} {snapshot : RuntimeSnapshotV1 W} {config : RestoredConfig W}
      {now later : ℕ} : Reached now s → s.snapshot now = .ok snapshot → now ≤ later →
      RestoredConfig.fromSnapshot snapshot s.selfNode later = .ok config →
      Reached later config.source

/-- The records of a book were admissible when they were taken, except for their owners. -/
def RecordsSound (groupId : W) (now : ℕ) (book : AddressBook W) : Prop :=
  ∀ (key : ServiceRecordKey W) (record : SignedServiceRecord W),
    book.signedRecords[key]? = some record → key = record.body.key ∧ record.verify = .ok () ∧
      record.body.groupId = groupId ∧
      record.body.expiresAtUnixMillis ≤ saturatingAdd now maxServiceRecordLifetimeMillis

structure Sound (now : ℕ) (s : SnapshotSource W) : Prop where
  verified : s.trustMode = .verified
  genesis : ∃ genesis, s.epochchain.head? = some genesis ∧
    validateGenesisAnchor genesis s.groupId = .ok ()
  parameters : s.consensusParameters.validate = .ok ()
  chain : CertifiedChain s.consensusNodeRemovalPolicy s.epochchain
  epochs : ∀ epoch ∈ s.epochchain, epoch.body.groupId = s.groupId ∧
    epoch.body.effectiveConsensusParameters = s.consensusParameters ∧
    epoch.hash = epoch.body.computeHash
  records : RecordsSound s.groupId now s.addressBook

theorem saturatingAdd_mono {a b c : ℕ} (h : a ≤ b) : saturatingAdd a c ≤ saturatingAdd b c :=
  min_le_min_right _ (Nat.add_le_add_right h c)

omit [EpochCodec W] [ProtocolCrypto W] in
theorem fromServices_signedRecords [LinearOrder W] (services : List (Service W)) :
    (AddressBook.fromServices services).signedRecords = ∅ := by
  have hfold (book : AddressBook W) : (services.foldl AddressBook.add book).signedRecords =
      book.signedRecords := by
    induction services generalizing book with
    | nil => rfl
    | cons service rest ih => exact ih _
  exact hfold _

variable {book : AddressBook W} {groupId : W}

section

omit [EpochCodec W]

theorem recordsSound_of_empty (h : book.signedRecords = ∅) : RecordsSound groupId now book := by
  intro key record hrec
  rw [h] at hrec
  simp at hrec

theorem recordsSound_mono {now later : ℕ}
    (h : RecordsSound groupId now book) (hle : now ≤ later) : RecordsSound groupId later book := by
  intro key record hrec
  obtain ⟨hkey, hverify, hgroup, hbdd⟩ := h key record hrec
  exact ⟨hkey, hverify, hgroup, hbdd.trans (saturatingAdd_mono hle)⟩

theorem recordsSound_apply {members : MemberSet W} (h : RecordsSound groupId now book)
    (happly : book.applySignedRecord record groupId members now = .ok (previous, next)) :
    RecordsSound groupId now next := by
  obtain ⟨hadm, hsig⟩ := applySignedRecord_spec happly
  intro key other hother
  rw [hsig] at hother
  obtain ⟨rfl, rfl⟩ | ⟨-, hother⟩ := lookup_insert_eq_some.mp hother
  · exact ⟨rfl, hadm.verified, hadm.groupId_eq, hadm.bounded⟩
  · exact h key other hother

end

variable {snapshot : RuntimeSnapshotV1 W}

theorem snapshot_eq_ok {s : SnapshotSource W} :
    s.snapshot now = .ok snapshot ↔
      (s.image now).validate = .ok () ∧ s.image now = snapshot := by
  rw [SnapshotSource.snapshot, guard_bind_eq_ok, pure_eq_ok]

omit [EpochCodec W] in
theorem recordsSound_restore {members : MemberSet W} (h : RecordsSound groupId now book)
    (hrst : restoreRecords groupId members now book records = .ok restored) :
    RecordsSound groupId now restored := by
  refine foldlM_invariant (P := RecordsSound groupId now) (fun book record next hbook hnext => ?_)
    h hrst
  split at hnext
  · obtain ⟨⟨previous, taken⟩, happly, heq⟩ := bind_eq_ok.mp hnext
    cases heq
    exact recordsSound_apply hbook happly
  · cases hnext
    exact hbook

theorem fromSnapshot_eq_ok {selfNode : NodeIdentity W} {config : RestoredConfig W} :
    RestoredConfig.fromSnapshot snapshot selfNode now = .ok config ↔
      (snapshot.validate = .ok () ∧ snapshot.selfPublicKey = selfNode.publicKey) ∧
      ∃ genesis, snapshot.epochchain.head? = some genesis ∧
      ∃ latest, snapshot.epochchain.getLast? = some latest ∧
      ∃ book, restoreRecords snapshot.groupId latest.body.members now
          (.fromServices snapshot.addressBook) snapshot.signedServiceRecords = .ok book ∧
        (⟨snapshot.groupId, selfNode, genesis, snapshot.epochchain, book, snapshot.blockCap,
          snapshot.consensusParameters.quorumSize, snapshot.trustMode, snapshot.mode,
          snapshot.consensusNodeRemovalPolicy, restoreWatermarks snapshot now⟩ :
            RestoredConfig W) = config := by
  simp only [RestoredConfig.fromSnapshot, RestoredConfig.fromSnapshotWithQuorumOverride,
    RuntimeSnapshotV1.validateForNode, checkQuorumSize, ↓guard_bind_eq_ok, bind_eq_ok,
    require_eq_ok, reject_eq_ok, pure_eq_ok, not_not, exists_const, true_and]

theorem sound_of_reached {s : SnapshotSource W} (h : Reached now s) : Sound now s := by
  induction h with
  | @start s genesis now hver hchain hanchor hpar hvalid hempty =>
    refine ⟨hver, ⟨genesis, by rw [hchain]; rfl, hanchor⟩, hvalid, ?_, ?_, ?_⟩
    · rw [hchain]
      exact List.isChain_singleton _
    · intro epoch hepoch
      rw [hchain, List.mem_singleton] at hepoch
      subst hepoch
      simp only [validateGenesisAnchor, ↓guard_bind_eq_ok, reject_eq_ok, not_or, not_not] at hanchor
      exact ⟨hanchor.1.1, hpar, hanchor.1.2.2.2.2.1⟩
    · exact recordsSound_of_empty hempty
  | wait _ hle ih => exact { ih with records := recordsSound_mono ih.records hle }
  | registerService service _ ih => exact { ih with }
  | @registerSignedService s s' now record previous _ hreg ih =>
    simp only [registerSignedService, bind_eq_ok, require_eq_ok, pure_eq_ok] at hreg
    obtain ⟨latest, -, ⟨previous', book⟩, happly, heq⟩ := hreg
    cases heq
    exact { ih with records := recordsSound_apply ih.records happly }
  | @installEpoch s now latest epoch _ hlatest hext ih =>
    obtain ⟨⟨hgroup, -, -, -, hpar⟩, hhash⟩ := validateCertifiedExtension_spec hext
    obtain ⟨genesis, hgenesis, hanchor⟩ := ih.genesis
    have hold := ih.epochs latest (List.mem_of_mem_getLast? hlatest)
    refine { ih with genesis := ⟨genesis, ?_, hanchor⟩, chain := ?_, epochs := ?_ }
    · rw [List.head?_append, hgenesis]
      rfl
    · refine List.IsChain.append ih.chain (List.isChain_singleton _) ?_
      intro last hlast next hnext
      cases hlatest.symm.trans hlast
      cases hnext
      exact hext
    · intro other hother
      rcases List.mem_append.mp hother with hother | hother
      · exact ih.epochs other hother
      · rw [List.mem_singleton.mp hother]
        exact ⟨hgroup.trans hold.1, hpar.trans hold.2.1, hhash⟩
  | updateWatermarks _ _ ih => exact { ih with }
  | @restart s snapshot config now later _ hsnap hle hrst ih =>
    obtain ⟨-, rfl⟩ := snapshot_eq_ok.mp hsnap
    obtain ⟨-, genesis, hgenesis, latest, -, book, hbook, rfl⟩ := fromSnapshot_eq_ok.mp hrst
    obtain ⟨hgroup, hpar, -⟩ := ih.epochs genesis (List.mem_of_mem_head? hgenesis)
    obtain ⟨genesis', hgenesis', hanchor⟩ := ih.genesis
    cases hgenesis.symm.trans hgenesis'
    -- The group and the parameters of the new runtime are those of the genesis.
    rw [← hgroup] at hanchor
    have hvalid := ih.parameters
    rw [← hpar] at hvalid
    have hbookSound : RecordsSound s.groupId later book :=
      recordsSound_restore (recordsSound_of_empty (fromServices_signedRecords _)) hbook
    rw [← hgroup] at hbookSound
    refine ⟨ih.verified, ⟨genesis, hgenesis, hanchor⟩, hvalid, ih.chain, ?_, hbookSound⟩
    intro epoch hepoch
    obtain ⟨hgroup', hpar', hhash⟩ := ih.epochs epoch hepoch
    exact ⟨hgroup'.trans hgroup.symm, hpar'.trans hpar.symm, hhash⟩

/-! ### Snapshots of a reachable runtime -/

variable {now later : ℕ} {s : SnapshotSource W} {latest : Epoch W}

theorem validateEpoch_eq_ok {previous : Option (Epoch W)}
    {epoch : Epoch W} (hpar : snapshot.consensusParameters.validate = .ok ())
    (hepoch : epoch.body.groupId = snapshot.groupId ∧
      epoch.body.effectiveConsensusParameters = snapshot.consensusParameters ∧
      epoch.hash = epoch.body.computeHash)
    (hfirst : previous = none → epoch.body.previousNonce = none)
    (hext : ∀ last, previous = some last →
      validateCertifiedExtension last epoch snapshot.consensusNodeRemovalPolicy = .ok ()) :
    snapshot.validateEpoch previous epoch = .ok () := by
  obtain ⟨hgroup, hsame, hhash⟩ := hepoch
  simp only [RuntimeSnapshotV1.validateEpoch, ↓guard_bind_eq_ok, reject_eq_ok, not_not, hsame]
  refine ⟨hgroup, hpar, trivial, hhash, ?_⟩
  cases previous with
  | none => simp [reject_eq_ok, hfirst rfl]
  | some last =>
    have hvalid := hext last rfl
    obtain ⟨⟨-, hlast, hprev, hnonce, -⟩, -⟩ := validateCertifiedExtension_spec hvalid
    simp only [↓guard_bind_eq_ok, reject_eq_ok, not_not, hprev, Option.any_some]
    refine ⟨hlast, hnonce, by simp, ?_⟩
    split
    · exact hvalid
    · rfl

theorem validateChain_eq_ok {previous : Option (Epoch W)}
    {epochs : List (Epoch W)} (hpar : snapshot.consensusParameters.validate = .ok ())
    (hepochs : ∀ epoch ∈ epochs, epoch.body.groupId = snapshot.groupId ∧
      epoch.body.effectiveConsensusParameters = snapshot.consensusParameters ∧
      epoch.hash = epoch.body.computeHash)
    (hfirst : previous = none → ∀ epoch, epochs.head? = some epoch →
      epoch.body.previousNonce = none)
    (hchain : CertifiedChain snapshot.consensusNodeRemovalPolicy (previous.toList ++ epochs)) :
    snapshot.validateChain previous epochs = .ok () := by
  induction epochs generalizing previous with
  | nil => rfl
  | cons epoch rest ih =>
    rw [RuntimeSnapshotV1.validateChain, guard_bind_eq_ok]
    rw [List.forall_mem_cons] at hepochs
    refine ⟨validateEpoch_eq_ok hpar hepochs.1 (fun h => hfirst h epoch rfl) ?_,
      ih hepochs.2 (by simp) (List.IsChain.right_of_append hchain)⟩
    rintro last rfl
    exact (List.isChain_cons_cons.mp hchain).1

omit [EpochCodec W] in
theorem validateWatermarks_image : (s.image now).validateWatermarks = .ok () := by
  have hdist : ((s.membershipLeaseWatermarks.toList.filter fun entry =>
      decide (now < entry.2.expiresAtUnixMillis)).map Prod.fst).Nodup :=
    (List.pairwise_map.mpr (pairwise_toList_ne s.membershipLeaseWatermarks)).sublist
      (List.filter_sublist.map _)
  rw [RuntimeSnapshotV1.validateWatermarks, reject_eq_ok]
  simpa [image, Function.comp_def] using hdist

theorem Sound.validate_image (h : Sound now s) (hlatest : s.epochchain.getLast? = some latest) :
    (s.image now).validate = .ok () ↔
      latest.body.verifiers.contains s.selfNode.publicKey = true := by
  obtain ⟨genesis, hgenesis, hanchor⟩ := h.genesis
  have hfirst : genesis.body.previousNonce = none := by
    have hchk := hanchor
    simp only [validateGenesisAnchor, ↓guard_bind_eq_ok, reject_eq_ok, not_or] at hchk
    simpa using hchk.1.2.2.1
  have hchain : (s.image now).validateChain none (s.image now).epochchain = .ok () := by
    refine validateChain_eq_ok h.parameters h.epochs ?_ h.chain
    rintro - epoch hepoch
    cases hgenesis.symm.trans hepoch
    exact hfirst
  simp only [RuntimeSnapshotV1.validate, ↓guard_bind_eq_ok, bind_eq_ok, require_eq_ok,
    reject_eq_ok, not_not, exists_const, hchain, validateWatermarks_image, and_true, true_and]
  constructor
  · rintro ⟨-, genesis', -, -, -, latest', hlatest', hcont⟩
    cases hlatest.symm.trans hlatest'
    exact hcont
  · intro hcont
    exact ⟨rfl, genesis, hgenesis, h.parameters, hanchor, latest, hlatest, hcont⟩

omit [EpochCodec W] in
theorem RecordsSound.keys_nodup (h : RecordsSound groupId now book) :
    ((values book.signedRecords).map fun record => record.body.key).Nodup := by
  have hkeys : (values book.signedRecords).map (fun record => record.body.key) =
      book.signedRecords.toList.map Prod.fst := by
    rw [values, List.map_map]
    refine List.map_congr_left fun entry hent => ?_
    exact (h _ _ (Std.ExtTreeMap.mem_toList_iff_getElem?_eq_some.mp hent)).1.symm
  rw [hkeys]
  exact List.pairwise_map.mpr (pairwise_toList_ne book.signedRecords)

/-- A snapshot of a sound runtime is read back exactly when it is valid and the owner of every
record that is still alive is authorized. -/
theorem Sound.restore_image (h : Sound now s) (hlatest : s.epochchain.getLast? = some latest)
    (hle : now ≤ later) :
    (∃ config, RestoredConfig.fromSnapshot (s.image now) s.selfNode later = .ok config ∧
      config.epochchain = s.epochchain) ↔
    (s.image now).validate = .ok () ∧ ∀ record ∈ values s.addressBook.signedRecords,
      later < record.body.expiresAtUnixMillis → Authorized latest.body.members record := by
  obtain ⟨genesis, hgenesis, -⟩ := h.genesis
  have hkeys : ((s.image now).signedServiceRecords.map fun record => record.body.key).Nodup :=
    h.records.keys_nodup.sublist (List.filter_sublist.map _)
  have hnew : ∀ record ∈ (s.image now).signedServiceRecords,
      (AddressBook.fromServices (s.image now).addressBook).signedRecords[record.body.key]? =
        none := by
    intro record _
    rw [fromServices_signedRecords]
    simp
  -- Only the authorization can have been lost since a record was taken.
  have hlive : (∀ record ∈ (s.image now).signedServiceRecords,
      later < record.body.expiresAtUnixMillis →
        Admissible s.groupId latest.body.members later record) ↔
      ∀ record ∈ values s.addressBook.signedRecords,
        later < record.body.expiresAtUnixMillis → Authorized latest.body.members record := by
    refine ⟨fun hall record hrec hexp => ?_, fun hall record hrec hexp => ?_⟩
    · refine (hall record (List.mem_filter.mpr ⟨hrec, ?_⟩) hexp).authorized
      simpa using hle.trans_lt hexp
    · have hstored := (List.mem_filter.mp hrec).1
      obtain ⟨key, hkey⟩ := mem_values.mp hstored
      obtain ⟨-, hverify, hgroup, hbdd⟩ := h.records key record hkey
      exact ⟨hverify, hgroup, hall record hstored hexp, hexp,
        hbdd.trans (saturatingAdd_mono hle)⟩
  have hrst := (restoreRecords_returns_iff hkeys hnew).trans hlive
  simp only [fromSnapshot_eq_ok]
  constructor
  · rintro ⟨config, ⟨⟨hvalid, -⟩, genesis', -, latest', hlatest', book, hbook, -⟩, -⟩
    cases hlatest.symm.trans hlatest'
    exact ⟨hvalid, hrst.mp ⟨book, hbook⟩⟩
  · rintro ⟨hvalid, hauth⟩
    obtain ⟨book, hbook⟩ := hrst.mpr hauth
    exact ⟨_, ⟨⟨hvalid, rfl⟩, genesis, hgenesis, latest, hlatest, book, hbook, rfl⟩, rfl⟩

/-- A reachable verified runtime is written and read back at every later time exactly when it is a
verifier of its last epoch and the owners of the signed records it keeps are still authorized. -/
theorem snapshot_restores_iff (h : Reached now s) (hlatest : s.epochchain.getLast? = some latest) :
    ((∃ snapshot, s.snapshot now = .ok snapshot) ↔
      latest.body.verifiers.contains s.selfNode.publicKey = true) ∧
    ((∃ snapshot, s.snapshot now = .ok snapshot ∧ ∀ later, now ≤ later →
        ∃ config, RestoredConfig.fromSnapshot snapshot s.selfNode later = .ok config ∧
          config.epochchain = s.epochchain) ↔
      latest.body.verifiers.contains s.selfNode.publicKey = true ∧
      ∀ record ∈ values s.addressBook.signedRecords,
        now < record.body.expiresAtUnixMillis → Authorized latest.body.members record) := by
  have hsound := sound_of_reached h
  simp only [snapshot_eq_ok, hsound.validate_image hlatest]
  refine ⟨⟨fun ⟨_, hcontains, _⟩ => hcontains, fun hcontains => ⟨_, hcontains, rfl⟩⟩, ?_⟩
  constructor
  · rintro ⟨-, ⟨hcontains, rfl⟩, hrestores⟩
    exact ⟨hcontains, ((hsound.restore_image hlatest le_rfl).mp (hrestores now le_rfl)).2⟩
  · rintro ⟨hcontains, hauthorized⟩
    refine ⟨_, ⟨hcontains, rfl⟩, fun later hle => (hsound.restore_image hlatest hle).mpr ?_⟩
    refine ⟨(hsound.validate_image hlatest).mpr hcontains, fun record hrecord hexpires => ?_⟩
    exact hauthorized record hrecord (hle.trans_lt hexpires)

end SnapshotSource

end Validation

namespace MemberWord

open SnapshotSource

def sign (n : ℕ) (fields : List (Field MemberWord)) : Signature MemberWord :=
  ⟨key n, ProtocolCrypto.hash fields⟩

def suspendingBlock : Block MemberWord :=
  let unsigned := block suspension
  { unsigned with signature := sign 1 [.word unsigned.hash] }

/-- The certified epoch that suspends the third member, signed by the other two. -/
def suspended : Epoch MemberWord :=
  let blocks : BTreeMap MemberWord (Block MemberWord) := 
    .ofList [(suspendingBlock.hash, suspendingBlock)] compare
  let epoch := (buildVerifiedEpoch genesis blocks .disabled).setHash
  let share (n : ℕ) := sign n [.word epoch.hash]
  { epoch with signatures := .ofList [(0, share 1), (1, share 2)] compare }

def runtime (n : ℕ) : SnapshotSource MemberWord where
  groupId := default
  selfNode := member n
  epochchain := [genesis]
  addressBook := .empty
  blockCap := 8
  consensusParameters := .new .least
  trustMode := .verified
  mode := .consensus
  consensusNodeRemovalPolicy := .disabled
  membershipLeaseWatermarks := ∅

/-- A service that a member announces. -/
def record (n : ℕ) : SignedServiceRecord MemberWord :=
  let body : ServiceRecordBody MemberWord :=
    ⟨default, key n, .block, [1], [1], 1, 1, 100, false⟩
  ⟨body, sign n body.signingFields⟩

def registered (n : ℕ) : SnapshotSource MemberWord :=
  ((runtime 1).registerSignedService (record n) 0).toOption.elim (runtime 1) Prod.snd

theorem checks_pass : validateGenesisAnchor genesis default = .ok () ∧
    validateCertifiedExtension genesis suspended .disabled = .ok () ∧
    ∀ n ∈ [2, 3], ((runtime 1).registerSignedService (record n) 0).isOk = true ∧
      (registered n).epochchain = [genesis] ∧
      (registered n).consensusNodeRemovalPolicy = .disabled := by
  decide +kernel

theorem reached_runtime (n : ℕ) : Reached 0 (runtime n) :=
  .start rfl rfl checks_pass.1 rfl rfl rfl

theorem registerSignedService_record {n : ℕ} (hn : n ∈ [2, 3]) :
    ∃ previous, (runtime 1).registerSignedService (record n) 0 = .ok (previous, registered n) := by
  obtain ⟨⟨previous, next⟩, h⟩ := exists_of_isOk (checks_pass.2.2 n hn).1
  refine ⟨previous, ?_⟩
  rw [registered, h]
  rfl

theorem registered_record {n : ℕ} {previous : Option (Service MemberWord)}
    (h : (runtime 1).registerSignedService (record n) 0 = .ok (previous, registered n)) :
    (registered n).addressBook.signedRecords[(record n).body.key]? = some (record n) := by
  simp only [registerSignedService, bind_eq_ok, require_eq_ok, pure_eq_ok] at h
  obtain ⟨latest, -, ⟨previous', book⟩, happly, heq⟩ := h
  have hsig := (applySignedRecord_spec happly).2
  have hregistered := (Prod.mk.inj heq).2
  rw [← hregistered, hsig, lookup_insert, if_pos rfl]

def suspend (s : SnapshotSource MemberWord) : SnapshotSource MemberWord :=
  { s with epochchain := s.epochchain ++ [suspended] }

theorem reached_suspend {s : SnapshotSource MemberWord} (h : Reached 0 s)
    (hchain : s.epochchain = [genesis]) (hpolicy : s.consensusNodeRemovalPolicy = .disabled) :
    Reached 0 (suspend s) :=
  .installEpoch h (by rw [hchain]; rfl) (hpolicy ▸ checks_pass.2.1)

theorem reached_registered {n : ℕ} (hn : n ∈ [2, 3]) : Reached 0 (suspend (registered n)) := by
  obtain ⟨previous, hregister⟩ := registerSignedService_record hn
  exact reached_suspend (.registerSignedService (reached_runtime 1) hregister)
    (checks_pass.2.2 n hn).2.1 (checks_pass.2.2 n hn).2.2

end MemberWord

open MemberWord in
/-- After a certified epoch suspends a member, that member can no longer write a snapshot, and a
member that has its record writes one that cannot be read. -/
theorem SnapshotSource.suspended_member_blocks_snapshots :
    Reached 0 (suspend (runtime 3)) ∧
      (∀ snapshot, (suspend (runtime 3)).snapshot 0 ≠ .ok snapshot) ∧
      Reached 0 (suspend (registered 3)) ∧
      ∃ snapshot, (suspend (registered 3)).snapshot 0 = .ok snapshot ∧
        ∀ config, RestoredConfig.fromSnapshot snapshot (registered 3).selfNode 0 ≠ .ok config := by
  obtain ⟨previous, hregister⟩ := registerSignedService_record (n := 3) (by simp)
  have hsuspended := reached_suspend (reached_runtime 3) rfl rfl
  have hregistered := reached_registered (n := 3) (by simp)
  have hlast : (suspend (registered 3)).epochchain.getLast? = some suspended :=
    List.getLast?_concat
  refine ⟨hsuspended, fun snapshot h => ?_, hregistered, _, snapshot_eq_ok.mpr ⟨?_, rfl⟩,
    fun config h => ?_⟩
  · have hvalid := ((sound_of_reached hsuspended).validate_image rfl).mp (snapshot_eq_ok.mp h).1
    exact absurd hvalid (by decide +kernel)
  · exact ((sound_of_reached hregistered).validate_image hlast).mpr (by decide +kernel)
  · obtain ⟨-, _, -, _, -, _, -, rfl⟩ := fromSnapshot_eq_ok.mp h
    obtain ⟨-, hauthorized⟩ :=
      ((sound_of_reached hregistered).restore_image hlast le_rfl).mp ⟨_, h, rfl⟩
    obtain ⟨member, hmember, hactive⟩ := hauthorized (record 3)
      (mem_values.mpr ⟨_, registered_record hregister⟩) (by decide)
    have hinactive : (suspended.body.members.records[(record 3).body.owner]?).any
        (fun member => member.authorizedFor (record 3).body.serviceKind) = false := by
      decide +kernel
    rw [hmember, Option.any_some, hactive] at hinactive
    cases hinactive

open MemberWord in
/-- A member that has the record of the second one is restored after the same epoch. -/
theorem SnapshotSource.kept_record_restores :
    ∃ snapshot, (suspend (registered 2)).snapshot 0 = .ok snapshot ∧ ∀ later, 0 ≤ later →
      ∃ config, RestoredConfig.fromSnapshot snapshot (registered 2).selfNode later = .ok config ∧
        config.epochchain = (registered 2).epochchain ++ [suspended] := by
  have hlatest : (suspend (registered 2)).epochchain.getLast? = some suspended :=
    List.getLast?_concat
  have hactive : ∀ record ∈ values (suspend (registered 2)).addressBook.signedRecords,
      (suspended.body.members.records[record.body.owner]?).any
        (fun member => member.authorizedFor record.body.serviceKind) = true := by
    decide +kernel
  refine (snapshot_restores_iff (reached_registered (by simp)) hlatest).2.mpr
    ⟨by decide +kernel, fun record hrecord _ => ?_⟩
  exact (Option.any_eq_true _ _).mp (hactive record hrecord)

end Blossom
