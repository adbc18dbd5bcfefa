import Blossom.OrderedStore

/-!
# The global ordered engine

The engine keeps the available references, the finalized positions and the applied
watermark in memory. Every operation that changes them first commits the change to the
durable store.
-/

namespace Blossom

open CheckedSteps OrderedMap MajorityQuorum

variable {W : Type}

structure GlobalOrderedEngine (W : Type) [LinearOrder W] where
  store : DurableAdmissionStore W
  mode : ActiveActiveConsistencyMode
  holderMembership : HolderMembership W
  validatorGeneration : ℕ
  validators : BTreeSet W
  genesisHolderMembership : HolderMembership W
  genesisValidatorGeneration : ℕ
  genesisValidators : BTreeSet W
  committeeTransitions : BTreeMap ℕ (CommitteeTransitionCertificate W)
  orderTrustMode : TrustMode
  available : BTreeMap W (AvailabilityCertificate W)
  finalized : BTreeMap ℕ (OrderCertificate W)
  finalReferenceByPosition : BTreeMap ℕ W
  finalizedReferenceHashes : BTreeSet W
  lastOriginReference : BTreeMap (OrderedOrigin W) (W × ℕ)
  lastFinalizedPosition : ℕ
  lastOrderCertificateHash : W
  appliedWatermark : ℕ
  routeGeneration : ℕ
  commandSpecVersion : ℕ

section Crypto

variable [ProtocolCrypto W]

instance : Std.TransOrd (OrderedOrigin W) := inferInstance

namespace GlobalOrderedEngine

abbrev Outcome (W α : Type) [LinearOrder W] := Result α × GlobalOrderedEngine W

def durableMetadata (e : GlobalOrderedEngine W) : DurableOrderedMetadata W where
  version := durableOrderedStateVersion
  holderMembershipEpoch := e.holderMembership.epoch
  validatorGeneration := e.validatorGeneration
  routeGeneration := e.routeGeneration
  commandSpecVersion := e.commandSpecVersion
  lastFinalizedPosition := e.lastFinalizedPosition
  lastOrderCertificateHash := e.lastOrderCertificateHash
  appliedWatermark := e.appliedWatermark

/-- A change that is committed to the store before the engine takes it over. -/
def commit {α : Type} (e next : GlobalOrderedEngine W) (persisted : Result (DurableAdmissionStore W))
    (value : α) : Outcome W α :=
  match persisted with
  | .error f => (.error f, e)
  | .ok store => (.ok value, { next with store := store })

section

variable (e : GlobalOrderedEngine W)

def milestone (e : GlobalOrderedEngine W) (referenceHash : W) (milestone : Milestone)
    (watermark : Option ℕ) : MilestoneEvent W :=
  ⟨e.mode, referenceHash, milestone, watermark⟩

def quiescent : Bool :=
  e.available.isEmpty ∧ e.appliedWatermark = e.lastFinalizedPosition

def checkApplicationContract (routeGeneration commandSpecVersion : ℕ) : Result Unit := do
  validateRouteGeneration routeGeneration
  validateCommandSpecVersion commandSpecVersion
  reject (e.quiescent = false) (invalidConfiguration
    "application-contract activation requires no available or unapplied references")
  reject (routeGeneration < e.routeGeneration ∨ commandSpecVersion < e.commandSpecVersion ∨
    routeGeneration = e.routeGeneration ∧ commandSpecVersion = e.commandSpecVersion)
    (invalidConfiguration
      "application-contract activation must monotonically advance route or command-spec version")

def activateApplicationContract (routeGeneration commandSpecVersion : ℕ) (io : Bool) :
    Outcome W Unit :=
  match e.checkApplicationContract routeGeneration commandSpecVersion with
  | .error f => (.error f, e)
  | .ok () =>
    let metadata := { e.durableMetadata with
      routeGeneration := routeGeneration
      commandSpecVersion := commandSpecVersion }
    e.commit { e with routeGeneration := routeGeneration, commandSpecVersion := commandSpecVersion }
      (e.store.persistOrderedDelta (.new metadata) none io) ()

def checkCommitteeTransition (certificate : CommitteeTransitionCertificate W) : Result Unit := do
  reject (e.quiescent = false) (invalidConfiguration
    "committee activation requires no available or unapplied references")
  let scope ← require e.store.protocolScope (invalidConfiguration
    "committee activation requires a bound cluster and consensus group")
  certificate.verify scope.1 scope.2 e.holderMembership e.validatorGeneration e.validators
  reject (certificate.statement.activatedAt ≠ e.appliedWatermark ∨
    certificate.statement.orderCertificateHash ≠ e.lastOrderCertificateHash)
    (invalidConfiguration
      "committee transition does not bind the current globally-applied boundary")

def withCommittee (certificate : CommitteeTransitionCertificate W) : GlobalOrderedEngine W :=
  { e with
    holderMembership := certificate.statement.nextHolderMembership
    validatorGeneration := certificate.statement.nextValidatorGeneration
    validators := certificate.statement.nextValidators
    committeeTransitions := e.committeeTransitions.insert
      certificate.statement.nextValidatorGeneration certificate }

def activateCommitteeTransition (certificate : CommitteeTransitionCertificate W) (io : Bool) :
    Outcome W Unit :=
  match e.checkCommitteeTransition certificate with
  | .error f => (.error f, e)
  | .ok () =>
    let metadata := { e.durableMetadata with
      holderMembershipEpoch := certificate.statement.nextHolderMembership.epoch
      validatorGeneration := certificate.statement.nextValidatorGeneration }
    e.commit (e.withCommittee certificate)
      (e.store.persistCommitteeTransition metadata certificate io) ()

def storeBatch (e : GlobalOrderedEngine W) (reference : BatchReference W) (batch : CommandBatch)
    (io : Bool) : Outcome W Unit :=
  e.commit e (e.store.storeBatch reference batch io) ()

def checkAvailable (certificate : AvailabilityCertificate W) : Result Unit := do
  certificate.verify e.holderMembership
  reject (certificate.reference.routeGeneration ≠ e.routeGeneration ∨
    certificate.reference.commandSpecVersion ≠ e.commandSpecVersion)
    (invalidConfiguration ("available reference route generation or command-spec version " ++
      "does not match the active application contract"))

end

def originKey (r : BatchReference W) : OrderedOrigin W :=
  toLex (r.origin, toLex (r.originIncarnation, r.originKeyGeneration))

section

variable (e : GlobalOrderedEngine W)

/-- The checks of `mark_available` for a reference that is not known yet. -/
def checkOriginExtension (reference : BatchReference W) : Result Unit := do
  reject (maxPipelinedAvailabilityWindows * e.validators.size ≤ e.available.size)
    (.error .blockQueueFull)
  let expected := match e.lastOriginReference[originKey reference]? with
    | some (hash, lastSequence) => (hash, min (lastSequence + 1) maxCounter)
    | none => (default, reference.firstOriginSequence)
  reject ((reference.previousOriginReferenceHash, reference.firstOriginSequence) ≠ expected)
    (invalidConfiguration "origin reference does not extend its hash-chained contiguous range")
  reject ((values e.available).any fun existing => reference.conflictsWith existing.reference)
    (invalidConfiguration "overlapping or equivocated origin reference")

def currentReferenceHash (reference : BatchReference W) : Result W := do
  reject (reference.validatorGeneration ≠ e.validatorGeneration)
    (invalidConfiguration "available reference validator generation mismatch")
  reference.hash

def admitAvailable (certificate : AvailabilityCertificate W)
    (io : Bool) : Outcome W (MilestoneEvent W) :=
  let reference := certificate.reference
  match e.currentReferenceHash reference with
  | .error f => (.error f, e)
  | .ok referenceHash =>
    let event := e.milestone referenceHash .available none
    if e.available.contains referenceHash ∨
        referenceHash ∈ values e.finalReferenceByPosition then (.ok event, e)
    else match e.checkOriginExtension reference with
      | .error f => (.error f, e)
      | .ok () =>
        let originTail := (referenceHash, reference.lastOriginSequence)
        let delta := { OrderedStateDelta.new e.durableMetadata with
          originTailUpserts := [(originKey reference, originTail)]
          availableUpserts := [(referenceHash, certificate)] }
        e.commit
          { e with
            lastOriginReference := e.lastOriginReference.insert (originKey reference) originTail
            available := e.available.insert referenceHash certificate }
          (e.store.persistOrderedDelta delta none io) event

def markAvailable (certificate : AvailabilityCertificate W)
    (bindIo io : Bool) : Outcome W (MilestoneEvent W) :=
  match e.checkAvailable certificate with
  | .error f => (.error f, e)
  | .ok () =>
    match e.store.bindProtocolScope certificate.reference.clusterId
      certificate.reference.consensusGroupId bindIo with
    | .error f => (.error f, e)
    | .ok store => { e with store := store }.admitAvailable certificate io

def markAvailableWithBatch (batch : CommandBatch)
    (certificate : AvailabilityCertificate W) (storeIo bindIo io : Bool) :
    Outcome W (MilestoneEvent W) :=
  match e.storeBatch certificate.reference batch storeIo with
  | (.error f, e) => (.error f, e)
  | (.ok (), e) => e.markAvailable certificate bindIo io

def ensureOriginPredecessorFinalized (reference : BatchReference W) : Result Unit :=
  reject (reference.previousOriginReferenceHash ≠ default ∧
    ¬e.finalizedReferenceHashes.contains reference.previousOriginReferenceHash)
    (invalidConfiguration "an origin reference cannot finalize before its hash-chain predecessor")

/-- The certificate is for the next position and names the current tail. -/
def extendsChain (statement : OrderStatement W) : Bool :=
  statement.position = e.lastFinalizedPosition + 1 ∧
    statement.previousOrderCertificateHash = e.lastOrderCertificateHash

def checkFinalize (statement : OrderStatement W) : Result Unit := do
  reject (maxCounter ≤ e.lastFinalizedPosition) (invalidConfiguration "order position overflow")
  reject (e.extendsChain statement = false) (invalidConfiguration
    "order certificate does not extend the stable finality chain")
  let availability ← require e.available[statement.referenceHash]?
    (invalidConfiguration "availability must be certified before finality")
  reject (statement.consensusGroupId ≠ availability.reference.consensusGroupId ∨
    statement.validatorGeneration ≠ availability.reference.validatorGeneration)
    (invalidConfiguration "order certificate scope does not match the available reference")
  e.ensureOriginPredecessorFinalized availability.reference
  reject (e.finalReferenceByPosition[statement.position]?.any
    fun existing => existing ≠ statement.referenceHash)
    (invalidConfiguration "two certificates assign different references to one order position")

def withFinalized (certificate : OrderCertificate W) : GlobalOrderedEngine W :=
  let statement := certificate.statement
  { e with
    finalized := e.finalized.insert statement.position certificate
    finalReferenceByPosition :=
      e.finalReferenceByPosition.insert statement.position statement.referenceHash
    finalizedReferenceHashes := e.finalizedReferenceHashes.insert statement.referenceHash
    lastFinalizedPosition := statement.position
    lastOrderCertificateHash := certificate.hash }

def finalizeValidated (certificate : OrderCertificate W) (io : Bool) :
    Outcome W (MilestoneEvent W) :=
  let statement := certificate.statement
  let event := e.milestone statement.referenceHash .finalized (some statement.position)
  match e.finalized[statement.position]? with
  | some existing =>
    if existing.statement = statement then (.ok event, e)
    else (.error (invalidConfiguration
      "two certificates assign different contents to one order position"), e)
  | none =>
    match e.checkFinalize statement with
    | .error f => (.error f, e)
    | .ok () =>
      let delta := { OrderedStateDelta.new (e.withFinalized certificate).durableMetadata with
        finalizedUpserts := [(statement.position, certificate)]
        positionUpserts := [(statement.position, statement.referenceHash)] }
      e.commit (e.withFinalized certificate) (e.store.persistOrderedDelta delta none io) event

def finalize (e : GlobalOrderedEngine W) (certificate : OrderCertificate W) (io : Bool) :
    Outcome W (MilestoneEvent W) :=
  if e.orderTrustMode = .trusted then (.error (invalidConfiguration
    "trusted ordering must finalize directly from the committed Blossom epoch"), e)
  else match certificate.verify e.validatorGeneration e.validators with
    | .error f => (.error f, e)
    | .ok () => e.finalizeValidated certificate io

def finalizeTrusted (statement : OrderStatement W) (io : Bool) : Outcome W (MilestoneEvent W) :=
  if e.orderTrustMode ≠ .trusted then (.error (invalidConfiguration
    "unsigned trusted finality requires a trusted ordered engine"), e)
  else match (OrderCertificate.trusted statement).verifyTrusted e.validatorGeneration with
    | .error f => (.error f, e)
    | .ok () => e.finalizeValidated (.trusted statement) io

def validateEpochValidatorSet (epoch : Epoch W) : Result Unit :=
  reject (epoch.body.verifiers.keys ≠ e.validators.toList) (invalidConfiguration
    "finalized Blossom epoch validator set does not match the ordering generation")

def validateOrderableReference (reference : BatchReference W) : Result W := do
  reject (reference.validatorGeneration ≠ e.validatorGeneration ∨
    reference.routeGeneration ≠ e.routeGeneration ∨
    reference.commandSpecVersion ≠ e.commandSpecVersion)
    (invalidConfiguration "batch reference generation or application contract mismatch")
  let referenceHash ← reference.hash
  reject (¬e.available.contains referenceHash) (invalidConfiguration
    "availability must be certified before proposing an order statement")
  pure referenceHash

/-- One reference of a trusted epoch: the hashes of the epoch so far, the known
predecessors, and each hash with the position it already has. -/
def checkEpochReference (acc : BTreeSet W × List (W × BatchReference W))
    (reference : BatchReference W) :
    Result (BTreeSet W × List (W × BatchReference W)) := do
  let referenceHash ← e.validateOrderableReference reference
  reject (acc.2.any fun entry => entry.1 = referenceHash)
    (invalidConfiguration "trusted epoch contains a duplicate batch reference")
  reject (reference.previousOriginReferenceHash ≠ default ∧
    ¬acc.1.contains reference.previousOriginReferenceHash)
    (invalidConfiguration "an origin reference cannot precede its hash-chain predecessor")
  pure (acc.1.insert referenceHash, acc.2 ++ [(referenceHash, reference)])

def finalizedPositionOf (referenceHash : W) : Option ℕ :=
  (e.finalReferenceByPosition.toList.filter fun entry => entry.2 = referenceHash).getLast?.map
    Prod.fst

def checkReplay (epoch : Epoch W) (firstPosition index : ℕ)
    (referenceHash : W) : Result (MilestoneEvent W) := do
  let position ← require (e.finalizedPositionOf referenceHash)
    (.panicked "all replay positions checked above")
  reject (position ≠ firstPosition + index)
    (invalidConfiguration "trusted epoch replay is not a contiguous canonical order")
  let certificate ← require e.finalized[position]?
    (invalidConfiguration "trusted epoch replay is missing its order receipt")
  certificate.verifyTrusted e.validatorGeneration
  reject (certificate.statement.blossomEpochHash ≠ epoch.hash ∨
    certificate.statement.referenceHash ≠ referenceHash)
    (invalidConfiguration "trusted epoch replay conflicts with its durable order receipt")
  pure (e.milestone certificate.statement.referenceHash .finalized
    (some certificate.statement.position))

def epochReceipt (epoch : Epoch W) (referenceHash : W)
    (reference : BatchReference W) (position : ℕ) (previousCertificateHash : W) :
    OrderCertificate W :=
  .trusted
    { consensusGroupId := reference.consensusGroupId
      blossomEpochHash := epoch.hash
      position := position
      referenceHash := referenceHash
      previousOrderCertificateHash := previousCertificateHash
      validatorGeneration := e.validatorGeneration }

/-- The receipts of a new trusted epoch, chained from the current tail. -/
def epochReceipts (e : GlobalOrderedEngine W) (epoch : Epoch W) :
    List (W × BatchReference W) → ℕ → W → Result (List (OrderCertificate W))
  | [], _, _ => pure []
  | (referenceHash, reference) :: rest, last, previousCertificateHash => do
    reject (maxCounter ≤ last) (invalidConfiguration "order position overflow")
    let receipt := e.epochReceipt epoch referenceHash reference (last + 1) previousCertificateHash
    receipt.verifyTrusted e.validatorGeneration
    let receipts ← e.epochReceipts epoch rest (last + 1) receipt.hash
    pure (receipt :: receipts)

def withReceipts (receipts : List (OrderCertificate W)) : GlobalOrderedEngine W :=
  receipts.foldl withFinalized e

def orderStatementForReference (reference : BatchReference W)
    (blossomEpochHash : W) : Result (OrderStatement W) := do
  let referenceHash ← e.validateOrderableReference reference
  e.ensureOriginPredecessorFinalized reference
  reject (maxCounter ≤ e.lastFinalizedPosition) (invalidConfiguration "order position overflow")
  pure
    { consensusGroupId := reference.consensusGroupId
      blossomEpochHash := blossomEpochHash
      position := e.lastFinalizedPosition + 1
      referenceHash := referenceHash
      previousOrderCertificateHash := e.lastOrderCertificateHash
      validatorGeneration := e.validatorGeneration }

def withApplied (watermark : ℕ) (referenceHash : W) : GlobalOrderedEngine W :=
  { e with appliedWatermark := watermark, available := e.available.erase referenceHash }

end

/-- What the application returned for a batch, checked against its commands. -/
def completionOf (application : OrderedBatch W → Result (List (List UInt8)))
    (ordered : OrderedBatch W) : Result (AppliedCompletion W) := do
  let results ← application ordered
  let completion : AppliedCompletion W :=
    ⟨ordered.referenceHash, ordered.watermark, results⟩
  completion.validate (some ordered.batch.commands.length)
  pure completion

section

variable (e : GlobalOrderedEngine W)

def nextToApply : Result (Option (OrderCertificate W × AvailabilityCertificate W)) :=
  match e.finalized[min (e.appliedWatermark + 1) maxCounter]? with
  | none => .ok none
  | some certificate =>
    match e.available[certificate.statement.referenceHash]? with
    | none => .error (.panicked "finality requires availability certificate")
    | some availability => .ok (some (certificate, availability))

def applyContiguousTo (application : OrderedBatch W → Result (List (List UInt8))) (io : Bool) :
    Outcome W (ApplyProgress W) :=
  match e.nextToApply with
  | .error f => (.error f, e)
  | .ok none => (.ok (.applied e.appliedWatermark []), e)
  | .ok (some (certificate, availability)) =>
    let statement := certificate.statement
    match e.store.loadBatch availability.reference with
    | .error f => (.error f, e)
    | .ok none => (.ok (.headOfLineUnavailable e.appliedWatermark statement.referenceHash), e)
    | .ok (some batch) =>
      match completionOf application
        ⟨statement.referenceHash, availability.reference, batch, statement.position⟩ with
      | .error f => (.error f, e)
      | .ok completion =>
        let next := e.withApplied statement.position statement.referenceHash
        let delta := { OrderedStateDelta.new next.durableMetadata with
          availableRemovals := [statement.referenceHash] }
        e.commit next (e.store.persistOrderedDelta delta (some completion) io)
          (.applied statement.position [completion])

def validatorsForGeneration (generation : ℕ) : Result (BTreeSet W) :=
  if generation = e.genesisValidatorGeneration then pure e.genesisValidators
  else require (e.committeeTransitions[generation]?.map fun c => c.statement.nextValidators)
    (invalidConfiguration "order certificate names an unknown validator generation")

def verifyFinalized (certificate : OrderCertificate W) : Result Unit :=
  if e.orderTrustMode = .trusted then
    certificate.verifyTrusted certificate.statement.validatorGeneration
  else do
    let validators ← e.validatorsForGeneration certificate.statement.validatorGeneration
    certificate.verify certificate.statement.validatorGeneration validators

def validatedLocalOrderTail : Result (ℕ × W) :=
  if e.lastFinalizedPosition = 0 then do
    reject (e.lastOrderCertificateHash ≠ default)
      (invalidConfiguration "empty finality chain has a non-empty tail hash")
    pure (0, default)
  else do
    let certificate ← require e.finalized[e.lastFinalizedPosition]?
      (invalidConfiguration "current order head is missing its certificate")
    reject (certificate.hash ≠ e.lastOrderCertificateHash)
      (invalidConfiguration "current order head certificate does not match the durable tail")
    e.verifyFinalized certificate
    pure (certificate.statement.position, e.lastOrderCertificateHash)

def readBarrierStatement (challenge : List UInt8) : Result (ReadBarrierStatement W) := do
  let tail ← e.validatedLocalOrderTail
  let scope ← require e.store.protocolScope (invalidConfiguration
    "read barriers require a bound cluster and consensus-group scope")
  pure
    { clusterId := scope.1
      consensusGroupId := scope.2
      validatorGeneration := e.validatorGeneration
      routeGeneration := e.routeGeneration
      commandSpecVersion := e.commandSpecVersion
      challenge := challenge
      position := tail.1
      orderCertificateHash := tail.2 }

end

variable [ReferenceCodec W]

section

variable (e : GlobalOrderedEngine W) (epoch : Epoch W)

def checkTrustedEpoch : Result (List (W × BatchReference W)) := do
  reject (e.orderTrustMode ≠ .trusted) (invalidConfiguration
    "unsigned trusted epoch finality requires a trusted ordered engine")
  let references ← orderedBatchReferencesTrusted epoch
  e.validateEpochValidatorSet epoch
  let checked ← references.foldlM e.checkEpochReference
    (Std.ExtTreeSet.ofList (values e.finalReferenceByPosition) compare, [])
  pure checked.2

/-- The answer to an epoch of which some reference is finalized already. -/
def replayTrustedEpoch (references : List (W × BatchReference W)) : Result
    (List (MilestoneEvent W)) := do
  reject (∃ entry ∈ references, e.finalizedPositionOf entry.1 = none) (invalidConfiguration
    "trusted epoch replay is only partially present in the finality log")
  let firstPosition ← require (references.head?.bind fun entry => e.finalizedPositionOf entry.1)
    (invalidConfiguration "trusted epoch replay has no first order position")
  (references.zipIdx).mapM fun entry => e.checkReplay epoch firstPosition entry.2 entry.1.1

def finalizeTrustedEpoch (io : Bool) : Outcome W (List (MilestoneEvent W)) :=
  match e.checkTrustedEpoch epoch with
  | .error f => (.error f, e)
  | .ok references =>
    if references.any fun entry => (e.finalizedPositionOf entry.1).isSome then
      (e.replayTrustedEpoch epoch references, e)
    else match e.epochReceipts epoch references e.lastFinalizedPosition
        e.lastOrderCertificateHash with
      | .error f => (.error f, e)
      | .ok receipts =>
        let delta := { OrderedStateDelta.new (e.withReceipts receipts).durableMetadata with
          finalizedUpserts := receipts.map fun r => (r.statement.position, r)
          positionUpserts := receipts.map fun r => (r.statement.position, r.statement.referenceHash) }
        e.commit (e.withReceipts receipts) (e.store.persistOrderedDelta delta none io)
          (receipts.map fun r =>
            e.milestone r.statement.referenceHash .finalized (some r.statement.position))

end

end GlobalOrderedEngine

end Crypto

end Blossom
