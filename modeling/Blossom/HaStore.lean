import Blossom.HaState
import Blossom.IndexedTable

/-!
# The durable store

One metadata record and three tables keyed by position. A persist writes the metadata
and the difference of each table to what was persisted last, which it knows by the
length and the hashes of the first and last record. The transaction is atomic.
-/

namespace Blossom

open CheckedSteps IndexedTable

variable {W : Type}

def haRuntimeStateFormatVersion : ℕ := 1

structure HaDurableMetadata (W : Type) where
  formatVersion : ℕ
  groupId : W
  selfSlot : ℕ
  members : HaMemberSlots W
  membershipGeneration : ℕ
  parameters : HighAvailabilityParameters
  checkpoint : Option (HaHistoryCheckpoint W)
  round : HaRoundState W
  presence : HaPresenceTracker
  membershipVoteLock : Option W
  membershipVotes : PerSlot (Option W)
  deriving DecidableEq

structure HaSequenceSummary (W : Type) where
  len : ℕ
  firstHash : Option W
  lastHash : Option W
  deriving DecidableEq

/-- What a store remembers of its last persist or load. Serialised checkpoints are equal
exactly when the checkpoints are. -/
structure HaDurableCache (W : Type) where
  metadata : HaDurableMetadata W
  checkpoint : Option (HaHistoryCheckpoint W)
  epochs : HaSequenceSummary W
  membershipChanges : HaSequenceSummary W
  amendments : HaSequenceSummary W
  deriving DecidableEq

structure HaDurableStore (W : Type) where
  metadata : Option (HaDurableMetadata W)
  epochs : List (ℕ × HaEpoch W)
  membershipChanges : List (ℕ × HaMembershipCertificate W)
  amendments : List (ℕ × AmendmentRecord W)
  cached : Option (HaDurableCache W)
  deriving DecidableEq

def HaDurableStore.empty : HaDurableStore W := ⟨none, [], [], [], none⟩

def HaDurableMetadata.fromState (s : HighAvailabilityRuntimeState W) : HaDurableMetadata W where
  formatVersion := haRuntimeStateFormatVersion
  groupId := s.groupId
  selfSlot := s.selfSlot
  members := s.members
  membershipGeneration := s.membershipGeneration
  parameters := s.parameters
  checkpoint := s.checkpoint
  round := s.round
  presence := s.presence
  membershipVoteLock := s.membershipVoteLock
  membershipVotes := s.membershipVotes

/-- The summary of a sequence whose records have hash `recordHash`. -/
def sequenceSummary {α : Type} (recordHash : α → W) (records : List α) : HaSequenceSummary W :=
  ⟨records.length, records.head?.map recordHash, records.getLast?.map recordHash⟩

def haEpochSummary (epochs : List (HaEpoch W)) : HaSequenceSummary W :=
  sequenceSummary HaEpoch.hash epochs

def loadHaRecords {α : Type} (table : String) (rows : List (ℕ × α)) : Result (List α) :=
  require (unnumber 0 rows)
    (invalidConfiguration s!"HA durable table {table} contains an index gap")

def syncHaSuffix {α : Type} (rows : List (ℕ × α)) (previousLen : ℕ) (suffix : List α)
    (start : ℕ) : List (ℕ × α) :=
  insertFrom start suffix (removeRange start previousLen rows)

/-- Exactly one epoch follows the epochs summarised by `previous`. -/
def AppendsEpoch (previous : HaSequenceSummary W) (next : List (HaEpoch W)) : Prop :=
  next.length = previous.len + 1 ∧ previous.firstHash = (haEpochSummary next).firstHash ∧
    previous.lastHash.isSome ∧ next[previous.len - 1]?.map HaEpoch.hash = previous.lastHash

/-- Exactly one record follows the records summarised by `previous`. -/
def AppendsRecord {α : Type} (recordHash : α → W) (previous : HaSequenceSummary W)
    (next : List α) : Prop :=
  next.length = previous.len + 1 ∧
    previous.firstHash = (sequenceSummary recordHash next).firstHash ∧
    previous.lastHash = next[previous.len - 1]?.map recordHash

instance [DecidableEq W] (previous : HaSequenceSummary W) (next : List (HaEpoch W)) :
    Decidable (AppendsEpoch previous next) :=
  inferInstanceAs (Decidable (_ ∧ _))

instance {α : Type} [DecidableEq W] (recordHash : α → W) (previous : HaSequenceSummary W)
    (next : List α) : Decidable (AppendsRecord recordHash previous next) :=
  inferInstanceAs (Decidable (_ ∧ _))

/-- The rows after appending the last record of `next` at position `len`. -/
def appendRow {α : Type} (len : ℕ) (next : List α) (rows : List (ℕ × α)) : List (ℕ × α) :=
  match next.getLast? with
  | some record => insertRow len record rows
  | none => rows

variable [ProtocolCrypto W]

def certificateHash (c : HaMembershipCertificate W) : W := protocolHash c.fields

def amendmentHash (a : AmendmentRecord W) : W := protocolHash a.fields

def syncHaEpochs (previous : Option (HaSequenceSummary W)) (next : List (HaEpoch W))
    (rows : List (ℕ × HaEpoch W)) : Result (List (ℕ × HaEpoch W)) :=
  if previous = some (haEpochSummary next) then .ok rows
  else if ∃ p ∈ previous, AppendsEpoch p next then
    .ok (appendRow ((previous.map HaSequenceSummary.len).getD 0) next rows)
  else do
    let old ← loadHaRecords "ha_epochs_v1" rows
    let common := commonLength
      (fun a b => decide (a.nonce = b.nonce) && decide (a.hash = b.hash)) old next
    pure (syncHaSuffix rows old.length (next.drop common) common)

def syncHaRecords {α : Type} [DecidableEq α] (table : String) (recordHash : α → W)
    (previous : Option (HaSequenceSummary W)) (next : List α) (rows : List (ℕ × α)) :
    Result (List (ℕ × α)) :=
  if previous = some (sequenceSummary recordHash next) then .ok rows
  else if ∃ p ∈ previous, AppendsRecord recordHash p next then
    .ok (appendRow ((previous.map HaSequenceSummary.len).getD 0) next rows)
  else do
    let old ← loadHaRecords table rows
    let common := commonLength (fun a b => decide (a = b)) old next
    pure (syncHaSuffix rows old.length (next.drop common) common)

def HaDurableCache.fromState (s : HighAvailabilityRuntimeState W) : HaDurableCache W where
  metadata := .fromState s
  checkpoint := s.checkpoint
  epochs := haEpochSummary s.epochs
  membershipChanges := sequenceSummary certificateHash s.membershipChanges
  amendments := sequenceSummary amendmentHash s.amendments

/-- The part of the state whose change makes a persist validate everything. -/
def StaticEnvelopeUnchanged (previous : HaDurableCache W)
    (next : HighAvailabilityRuntimeState W) : Prop :=
  previous.metadata.groupId = next.groupId ∧ previous.metadata.selfSlot = next.selfSlot ∧
    previous.metadata.members = next.members ∧
    previous.metadata.membershipGeneration = next.membershipGeneration ∧
    previous.metadata.parameters = next.parameters ∧ previous.checkpoint = next.checkpoint ∧
    previous.membershipChanges = sequenceSummary certificateHash next.membershipChanges ∧
    previous.amendments = sequenceSummary amendmentHash next.amendments

instance (previous : HaDurableCache W) (next : HighAvailabilityRuntimeState W) :
    Decidable (StaticEnvelopeUnchanged previous next) :=
  inferInstanceAs (Decidable (_ ∧ _))

def validateHaPersistTransition (previous : Option (HaDurableCache W))
    (next : HighAvailabilityRuntimeState W) : Result Unit :=
  match previous with
  | none => next.validate
  | some previous =>
    if ¬StaticEnvelopeUnchanged previous next then next.validate
    else if previous.epochs ≠ haEpochSummary next.epochs ∧
        ¬AppendsEpoch previous.epochs next.epochs then next.validate
    else next.validatePersistTip

namespace HaDurableStore

/-- `HaDurableStore::load`, which also refreshes the cache. -/
def load (store : HaDurableStore W) :
    Result (Option (HighAvailabilityRuntimeState W) × HaDurableStore W) := do
  match store.metadata with
  | none => pure (none, store)
  | some metadata =>
    reject (metadata.formatVersion ≠ haRuntimeStateFormatVersion) (invalidConfiguration
      s!"unsupported durable HA runtime state format version {metadata.formatVersion}")
    let epochs ← loadHaRecords "ha_epochs_v1" store.epochs
    let membershipChanges ← loadHaRecords "ha_membership_changes_v1" store.membershipChanges
    let amendments ← loadHaRecords "ha_amendments_v1" store.amendments
    let state : HighAvailabilityRuntimeState W := {
      groupId := metadata.groupId
      selfSlot := metadata.selfSlot
      members := metadata.members
      membershipGeneration := metadata.membershipGeneration
      parameters := metadata.parameters
      checkpoint := metadata.checkpoint
      epochs := epochs
      round := metadata.round
      presence := metadata.presence
      membershipVoteLock := metadata.membershipVoteLock
      membershipVotes := metadata.membershipVotes
      membershipChanges := membershipChanges
      amendments := amendments }
    state.validate
    pure (some state, { store with cached := some (.fromState state) })

/-- `HaDurableStore::persist`. The transaction commits if `io` is set; otherwise nothing
is written. The log store of the source can also report an error for a transaction that is
durable, and it is closed after every error; runs with such a failure are not covered. -/
def persist (store : HaDurableStore W) (state : HighAvailabilityRuntimeState W) (io : Bool) :
    Result (HaDurableStore W) := do
  validateHaPersistTransition store.cached state
  let epochs ← syncHaEpochs (store.cached.map HaDurableCache.epochs) state.epochs store.epochs
  let membershipChanges ← syncHaRecords "ha_membership_changes_v1" certificateHash
    (store.cached.map HaDurableCache.membershipChanges) state.membershipChanges
    store.membershipChanges
  let amendments ← syncHaRecords "ha_amendments_v1" amendmentHash
    (store.cached.map HaDurableCache.amendments) state.amendments store.amendments
  reject (io = false) (.error (.io "HA durable store"))
  pure {
    metadata := some (.fromState state)
    epochs := epochs
    membershipChanges := membershipChanges
    amendments := amendments
    cached := some (.fromState state) }

end HaDurableStore

end Blossom
