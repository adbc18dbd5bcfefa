import Blossom.OrderCertificate

/-!
# The durable store of the ordered engine

The tables that the engine reads and writes. Every change is one transaction: it is
committed as a whole or not at all.
-/

namespace Blossom

open CheckedSteps OrderedMap MajorityQuorum

variable {W : Type}

def maxPipelinedAvailabilityWindows : ℕ := 8
def maxApplicationResultBytes : ℕ := 64 * 2 ^ 20
def durableOrderedStateVersion : ℕ := 3

inductive TrustMode where
  | verified | trusted | highAvailability
  deriving DecidableEq

inductive ActiveActiveConsistencyMode where
  | activeSyncCausalEventual | activeSyncConsensusOrderedEventual | activeSyncGlobalOrdered
  deriving DecidableEq

inductive Milestone where
  | acceptedLocal | available | finalized | applied
  deriving DecidableEq

structure MilestoneEvent (W : Type) where
  protocol : ActiveActiveConsistencyMode
  referenceHash : W
  milestone : Milestone
  watermark : Option ℕ
  deriving DecidableEq

structure ReadBarrierStatement (W : Type) where
  clusterId : W
  consensusGroupId : W
  validatorGeneration : ℕ
  routeGeneration : ℕ
  commandSpecVersion : ℕ
  challenge : List UInt8
  position : ℕ
  orderCertificateHash : W
  deriving DecidableEq

structure AppliedCompletion (W : Type) where
  referenceHash : W
  watermark : ℕ
  results : List (List UInt8)
  deriving DecidableEq

structure OrderedBatch (W : Type) where
  referenceHash : W
  reference : BatchReference W
  batch : CommandBatch
  watermark : ℕ
  deriving DecidableEq

inductive ApplyProgress (W : Type) where
  | applied (watermark : ℕ) (completions : List (AppliedCompletion W))
  | headOfLineUnavailable (watermark : ℕ) (blockedReference : W)
  deriving DecidableEq

structure DurableOrderedMetadata (W : Type) where
  version : ℕ
  holderMembershipEpoch : ℕ
  validatorGeneration : ℕ
  routeGeneration : ℕ
  commandSpecVersion : ℕ
  lastFinalizedPosition : ℕ
  lastOrderCertificateHash : W
  appliedWatermark : ℕ
  deriving DecidableEq

/-- An origin's chain: its key, its incarnation and its key generation. -/
abbrev OrderedOrigin (W : Type) := W ×ₗ ℕ ×ₗ ℕ

section Store

variable [LinearOrder W]

/-- The durable tables that the engine reads and writes. -/
structure DurableAdmissionStore (W : Type) [LinearOrder W] where
  holder : W
  site : SiteId
  storeGeneration : ℕ
  protocolScope : Option (W × W)
  batches : BTreeMap W CommandBatch
  appliedCompletions : BTreeMap W (AppliedCompletion W)
  orderedMetadata : Option (DurableOrderedMetadata W)
  availableReferences : BTreeMap W (AvailabilityCertificate W)
  finalizedPositions : BTreeMap ℕ (OrderCertificate W)
  positionReferences : BTreeMap ℕ W
  originTails : BTreeMap (OrderedOrigin W) (W × ℕ)
  committeeTransitions : BTreeMap ℕ (CommitteeTransitionCertificate W)
  deriving DecidableEq

structure OrderedStateDelta (W : Type) [LinearOrder W] where
  metadata : DurableOrderedMetadata W
  availableUpserts : List (W × AvailabilityCertificate W)
  availableRemovals : List W
  finalizedUpserts : List (ℕ × OrderCertificate W)
  positionUpserts : List (ℕ × W)
  originTailUpserts : List (OrderedOrigin W × W × ℕ)

def OrderedStateDelta.new (metadata : DurableOrderedMetadata W) : OrderedStateDelta W :=
  ⟨metadata, [], [], [], [], []⟩

def upsertAll {K V : Type} [LinearOrder K] (table : BTreeMap K V) (entries : List (K × V)) :
    BTreeMap K V :=
  entries.foldl (fun table entry => table.insert entry.1 entry.2) table

namespace DurableAdmissionStore

def openStore (holder : W) (site : SiteId) (storeGeneration : ℕ) : DurableAdmissionStore W where
  holder := holder
  site := site
  storeGeneration := storeGeneration
  protocolScope := none
  batches := ∅
  appliedCompletions := ∅
  orderedMetadata := none
  availableReferences := ∅
  finalizedPositions := ∅
  positionReferences := ∅
  originTails := ∅
  committeeTransitions := ∅

def transact (io : Bool) : Result Unit :=
  reject (io = false) (.error (.io "active-active log store"))

def bindProtocolScope (s : DurableAdmissionStore W) (clusterId consensusGroupId : W) (io : Bool) :
    Result (DurableAdmissionStore W) := do
  reject (s.protocolScope.any fun scope => scope ≠ (clusterId, consensusGroupId))
    (invalidConfiguration
      "active-active store protocol scope does not match cluster or group")
  transact io
  pure { s with protocolScope := some (clusterId, consensusGroupId) }

def written (s : DurableAdmissionStore W) (delta : OrderedStateDelta W)
    (completion : Option (AppliedCompletion W)) : DurableAdmissionStore W :=
  { s with
    orderedMetadata := some delta.metadata
    availableReferences := upsertAll
      (delta.availableRemovals.foldl (fun table hash => table.erase hash) s.availableReferences)
      delta.availableUpserts
    finalizedPositions := upsertAll s.finalizedPositions delta.finalizedUpserts
    positionReferences := upsertAll s.positionReferences delta.positionUpserts
    originTails := upsertAll s.originTails delta.originTailUpserts
    appliedCompletions := match completion with
      | some completion => s.appliedCompletions.insert completion.referenceHash completion
      | none => s.appliedCompletions }

def persistOrderedDelta (s : DurableAdmissionStore W) (delta : OrderedStateDelta W)
    (completion : Option (AppliedCompletion W)) (io : Bool) :
    Result (DurableAdmissionStore W) := do
  transact io
  pure (s.written delta completion)

def persistCommitteeTransition (s : DurableAdmissionStore W) (metadata : DurableOrderedMetadata W)
    (certificate : CommitteeTransitionCertificate W) (io : Bool) :
    Result (DurableAdmissionStore W) := do
  let generation := certificate.statement.nextValidatorGeneration
  reject (s.committeeTransitions[generation]?.any fun existing => existing ≠ certificate)
    (invalidConfiguration "validator generation already commits another committee transition")
  transact io
  pure
    { s with
      committeeTransitions := s.committeeTransitions.insert generation certificate
      orderedMetadata := some metadata }

end DurableAdmissionStore

end Store

section Crypto

variable [ProtocolCrypto W]

namespace DurableAdmissionStore

section

variable (s : DurableAdmissionStore W)

/-- The batch bytes under a verified reference; the receipt is signed outside the model. -/
def storeBatch (reference : BatchReference W) (batch : CommandBatch)
    (io : Bool) : Result (DurableAdmissionStore W) := do
  reference.verifyBatch batch
  let referenceHash ← reference.hash
  let s ← s.bindProtocolScope reference.clusterId reference.consensusGroupId io
  pure { s with batches := s.batches.insert referenceHash batch }

def loadBatch (reference : BatchReference W) : Result (Option CommandBatch) := do
  let hash ← reference.hash
  match s.batches[hash]? with
  | none => pure none
  | some batch =>
    reference.verifyBatch batch
    pure (some batch)

def loadAvailable : Result Unit :=
  s.availableReferences.toList.forM fun entry => do
    let hash ← entry.2.reference.hash
    reject (hash ≠ entry.1)
      (invalidConfiguration "available-reference table key does not match certificate")

def loadCommitteeTransitions : Result Unit :=
  s.committeeTransitions.toList.forM fun entry =>
    reject (entry.2.statement.nextValidatorGeneration ≠ entry.1)
      (invalidConfiguration "committee transition table key does not match certificate")

def loadOrderedState : Result (Option (DurableOrderedMetadata W)) :=
  match s.orderedMetadata with
  | none => pure none
  | some metadata => do
    s.loadAvailable
    s.loadCommitteeTransitions
    pure (some metadata)

end

end DurableAdmissionStore

def AppliedCompletion.validate (c : AppliedCompletion W) (expectedCommandCount : Option ℕ) :
    Result Unit := do
  reject (c.watermark = 0 ∨ expectedCommandCount.any fun count => count ≠ c.results.length)
    (invalidConfiguration "applied completion watermark or result count is invalid")
  c.results.forM fun result =>
    reject (maxApplicationResultBytes < result.length) (invalidConfiguration
      s!"application result exceeds {maxApplicationResultBytes} bytes")
  reject (maxApplicationResultBytes < (c.results.map List.length).sum) (invalidConfiguration
    s!"application completion results exceed {maxApplicationResultBytes} bytes")

end Crypto

end Blossom
