import Blossom.OrderedEngine

/-!
# Opening an ordered engine

An engine is opened over the store of an earlier one. It reads the durable tables back,
installs the certified committees in their order and validates the chain of order
certificates before it takes them over.
-/

namespace Blossom

open CheckedSteps OrderedMap

variable {W : Type} [ProtocolCrypto W]

namespace GlobalOrderedEngine

def restoreCommittee (scope : W × W) (e : GlobalOrderedEngine W)
    (entry : ℕ × CommitteeTransitionCertificate W) : Result (GlobalOrderedEngine W) := do
  reject (entry.1 ≠ entry.2.statement.nextValidatorGeneration)
    (invalidConfiguration "committee history key does not match its certificate")
  entry.2.verify scope.1 scope.2 e.holderMembership e.validatorGeneration e.validators
  pure (e.withCommittee entry.2)

section

variable (e : GlobalOrderedEngine W)

def restoreCommitteeHistory : Result (GlobalOrderedEngine W) :=
  if e.store.committeeTransitions.isEmpty then pure e
  else do
    let scope ← require e.store.protocolScope (invalidConfiguration
      "durable committee history lacks a bound protocol scope")
    e.store.committeeTransitions.toList.foldlM (restoreCommittee scope) e

section

variable (metadata : DurableOrderedMetadata W)

/-- The checks of `validate_durable_state` before it binds the protocol scope. -/
def checkDurableParameters : Result Unit := do
  validateRouteGeneration metadata.routeGeneration
  validateCommandSpecVersion metadata.commandSpecVersion
  reject (metadata.version ≠ durableOrderedStateVersion ∨
    metadata.holderMembershipEpoch ≠ e.holderMembership.epoch ∨
    metadata.validatorGeneration ≠ e.validatorGeneration ∨
    metadata.routeGeneration ≠ e.routeGeneration ∨
    metadata.commandSpecVersion ≠ e.commandSpecVersion ∨
    metadata.lastFinalizedPosition < metadata.appliedWatermark)
    (invalidConfiguration "durable ordered-engine parameters do not match startup configuration")
  reject (e.store.finalizedPositions.size ≠ metadata.lastFinalizedPosition ∨
    e.store.positionReferences.size ≠ e.store.finalizedPositions.size)
    (invalidConfiguration "durable finality tables contain missing or out-of-range positions")

def checkDurableAvailability (entry : W × AvailabilityCertificate W) : Result Unit := do
  entry.2.verify e.holderMembership
  let hash ← entry.2.reference.hash
  reject (hash ≠ entry.1 ∨ entry.2.reference.routeGeneration ≠ metadata.routeGeneration ∨
    entry.2.reference.commandSpecVersion ≠ metadata.commandSpecVersion)
    (invalidConfiguration "durable availability does not match its key or application contract")

/-- The loop over the durable availability; the scope it binds stays bound when it fails. -/
def bindDurableAvailability (e : GlobalOrderedEngine W) (metadata : DurableOrderedMetadata W)
    (bindIo : W → Bool) : List (W × AvailabilityCertificate W) → DurableAdmissionStore W →
    Result Unit × DurableAdmissionStore W
  | [], s => (.ok (), s)
  | entry :: rest, s =>
    match e.checkDurableAvailability metadata entry with
    | .error f => (.error f, s)
    | .ok () =>
      match s.bindProtocolScope entry.2.reference.clusterId entry.2.reference.consensusGroupId
        (bindIo entry.1) with
      | .error f => (.error f, s)
      | .ok s => e.bindDurableAvailability metadata bindIo rest s

/-- The tail of the order at a durable position. -/
def boundaryHash (boundary : ℕ) : Result W :=
  if boundary = 0 then pure default
  else require (e.store.finalizedPositions[boundary]?.map OrderCertificate.hash)
    (invalidConfiguration "committee transition boundary is absent from finality")

def checkCommitteeBoundary (certificate : CommitteeTransitionCertificate W) : Result Unit := do
  let boundary := certificate.statement.activatedAt
  reject (metadata.appliedWatermark < boundary)
    (invalidConfiguration "committee transition is newer than the durable applied watermark")
  let expectedHash ← e.boundaryHash boundary
  reject (certificate.statement.orderCertificateHash ≠ expectedHash)
    (invalidConfiguration "committee transition does not bind its durable order boundary")

def checkCompletion (position : ℕ) (referenceHash : W) : Result Unit := do
  let completion ← require e.store.appliedCompletions[referenceHash]? (invalidConfiguration
    "durable applied watermark is missing an exact applied completion")
  completion.validate none
  reject (completion.referenceHash ≠ referenceHash) (invalidConfiguration
    "applied-completion table key does not match its record")
  reject (completion.watermark ≠ position) (invalidConfiguration
    "durable applied watermark is missing an exact applied completion")

/-- One position of the durable chain: the hash of its certificate, if it extends the chain
that ends in `previousHash`. -/
def checkDurablePosition (previousHash : W) (position : ℕ) : Result W := do
  let certificate ← require e.store.finalizedPositions[position]?
    (invalidConfiguration "durable finality chain is not contiguous")
  e.verifyFinalized certificate
  reject (certificate.statement.position ≠ position ∨
    certificate.statement.previousOrderCertificateHash ≠ previousHash ∨
    e.store.positionReferences[position]? ≠ some certificate.statement.referenceHash)
    (invalidConfiguration "durable finality chain failed stable-prefix validation")
  if position ≤ metadata.appliedWatermark then
    e.checkCompletion position certificate.statement.referenceHash
  pure certificate.hash

/-- The checks of `validate_durable_state` after it bound the protocol scope. -/
def checkDurableChain : Result Unit := do
  (values e.store.committeeTransitions).forM (e.checkCommitteeBoundary metadata)
  let tail ← (List.range' 1 metadata.lastFinalizedPosition).foldlM
    (e.checkDurablePosition metadata) default
  reject (tail ≠ metadata.lastOrderCertificateHash)
    (invalidConfiguration "durable finality chain tail hash mismatch")

def installDurableState : GlobalOrderedEngine W :=
  { e with
    routeGeneration := metadata.routeGeneration
    commandSpecVersion := metadata.commandSpecVersion
    available := e.store.availableReferences
    finalized := e.store.finalizedPositions
    finalizedReferenceHashes :=
      Std.ExtTreeSet.ofList (values e.store.positionReferences) compare
    finalReferenceByPosition := e.store.positionReferences
    lastOriginReference := e.store.originTails
    lastFinalizedPosition := metadata.lastFinalizedPosition
    lastOrderCertificateHash := metadata.lastOrderCertificateHash
    appliedWatermark := metadata.appliedWatermark
    committeeTransitions := e.store.committeeTransitions }

end

end

def authorizedIn (s : DurableAdmissionStore W) (membership : HolderMembership W) : Bool :=
  (membership.membersBySite[s.site]?.any fun members => members.contains s.holder) ∧
    membership.storeGenerations[s.holder]? = some s.storeGeneration

def localStoreWasAuthorized (e : GlobalOrderedEngine W) : Bool :=
  authorizedIn e.store e.genesisHolderMembership ∨
    (values e.committeeTransitions).any fun c =>
      authorizedIn e.store c.statement.nextHolderMembership

end GlobalOrderedEngine

structure OrderedEngineConfig (W : Type) [LinearOrder W] where
  mode : ActiveActiveConsistencyMode
  holderMembership : HolderMembership W
  validatorGeneration : ℕ
  validators : BTreeSet W
  orderTrustMode : TrustMode
  routeGeneration : ℕ
  commandSpecVersion : ℕ

namespace OrderedEngineConfig

def validate (c : OrderedEngineConfig W) : Result Unit := do
  reject (c.mode ≠ .activeSyncGlobalOrdered) (invalidConfiguration
    "GlobalOrderedEngine requires active-sync-global-ordered mode")
  c.holderMembership.validate
  reject c.validators.isEmpty
    (invalidConfiguration "global ordering requires at least one validator")
  reject (maxReferencesPerOrderingWindow < c.validators.size) (invalidConfiguration
    s!"validator count exceeds the per-window reference limit of {maxReferencesPerOrderingWindow}")
  validateRouteGeneration c.routeGeneration
  validateCommandSpecVersion c.commandSpecVersion

def emptyEngine (c : OrderedEngineConfig W) (store : DurableAdmissionStore W) :
    GlobalOrderedEngine W where
  store := store
  mode := c.mode
  holderMembership := c.holderMembership
  validatorGeneration := c.validatorGeneration
  validators := c.validators
  genesisHolderMembership := c.holderMembership
  genesisValidatorGeneration := c.validatorGeneration
  genesisValidators := c.validators
  committeeTransitions := ∅
  orderTrustMode := c.orderTrustMode
  available := ∅
  finalized := ∅
  finalReferenceByPosition := ∅
  finalizedReferenceHashes := ∅
  lastOriginReference := ∅
  lastFinalizedPosition := 0
  lastOrderCertificateHash := default
  appliedWatermark := 0
  routeGeneration := c.routeGeneration
  commandSpecVersion := c.commandSpecVersion

end OrderedEngineConfig

namespace GlobalOrderedEngine

def authorize (e : GlobalOrderedEngine W) :
    Result (GlobalOrderedEngine W) × DurableAdmissionStore W :=
  if e.localStoreWasAuthorized then (.ok e, e.store)
  else (.error (invalidConfiguration
    "ordered-engine store identity was never authorized by the certified holder history"), e.store)

def restore (e : GlobalOrderedEngine W) (metadata : DurableOrderedMetadata W) (bindIo : W → Bool) :
    Result (GlobalOrderedEngine W) × DurableAdmissionStore W :=
  match e.checkDurableParameters metadata with
  | .error f => (.error f, e.store)
  | .ok () =>
    match e.bindDurableAvailability metadata bindIo e.store.availableReferences.toList e.store with
    | (.error f, store) => (.error f, store)
    | (.ok (), store) =>
      match { e with store := store }.checkDurableChain metadata with
      | .error f => (.error f, store)
      | .ok () => ({ e with store := store }.installDurableState metadata).authorize

def loadMetadata (store : DurableAdmissionStore W) (c : OrderedEngineConfig W) :
    Result (Option (DurableOrderedMetadata W)) := do
  c.validate
  store.loadOrderedState

def newWithApplicationContract (store : DurableAdmissionStore W) (c : OrderedEngineConfig W)
    (bindIo : W → Bool) : Result (GlobalOrderedEngine W) × DurableAdmissionStore W :=
  match loadMetadata store c with
  | .error f => (.error f, store)
  | .ok none => (c.emptyEngine store).authorize
  | .ok (some metadata) =>
    match (c.emptyEngine store).restoreCommitteeHistory with
    | .error f => (.error f, store)
    | .ok e => e.restore metadata bindIo

end GlobalOrderedEngine

end Blossom
