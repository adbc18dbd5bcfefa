import Blossom.Block
import Blossom.OrderedMap
import Blossom.MajorityQuorum

/-!
# Membership transitions

The next verifier set of an epoch is derived twice. The legacy transition removes and
admits verifiers from the evidence in the committed blocks; the registry transition
takes its result, brings the member registry in line with it and then applies the
member operations that the blocks carry.
-/

namespace Blossom

open CheckedSteps OrderedMap MajorityQuorum

variable {W : Type}

inductive MemberCapability where
  | client | relay | validator
  deriving DecidableEq

def MemberCapability.rank : MemberCapability → ℕ
  | .client => 0
  | .relay => 1
  | .validator => 2

theorem MemberCapability.rank_injective : Function.Injective rank := by
  intro a b h
  cases a <;> cases b <;> first | rfl | cases h

instance : LinearOrder MemberCapability :=
  LinearOrder.lift' MemberCapability.rank MemberCapability.rank_injective

inductive MemberStatus where
  | active | suspended | revoked
  deriving DecidableEq

structure MemberRecord (W : Type) where
  identity : NodeIdentity W
  capabilities : BTreeSet MemberCapability
  generation : ℕ
  status : MemberStatus
  deriving DecidableEq

def MemberRecord.new (identity : NodeIdentity W) (capabilities : BTreeSet MemberCapability)
    (generation : ℕ) : Result (MemberRecord W) := do
  reject (generation = 0) (invalidConfiguration "member generations start at one")
  reject (capabilities.isEmpty = true)
    (invalidConfiguration "member capabilities cannot be empty")
  pure ⟨identity, capabilities, generation, .active⟩

def MemberRecord.publicKey (r : MemberRecord W) : W := r.identity.publicKey

def MemberRecord.isActiveWith (r : MemberRecord W) (capability : MemberCapability) : Bool :=
  r.status = .active ∧ r.capabilities.contains capability

def MemberRecord.bootstrap (identity : NodeIdentity W) : MemberRecord W :=
  ⟨identity, (∅ : BTreeSet MemberCapability).insertMany [.relay, .validator], 1, .active⟩

section Registry

variable [LinearOrder W]

/-- The verifiers of an epoch by their keys. -/
abbrev Verifiers (W : Type) [LinearOrder W] := BTreeMap W (NodeIdentity W)

structure MemberSet (W : Type) [LinearOrder W] where
  records : BTreeMap W (MemberRecord W)
  deriving DecidableEq

namespace MemberSet

def fromVerifiers (verifiers : Verifiers W) : MemberSet W :=
  ⟨(values verifiers).foldl
    (fun records identity => records.insert identity.publicKey (.bootstrap identity)) ∅⟩

def activeWith (m : MemberSet W) (capability : MemberCapability) : List (MemberRecord W) :=
  (values m.records).filter fun record => record.isActiveWith capability

def activeValidators (m : MemberSet W) : Verifiers W :=
  (m.activeWith .validator).foldl
    (fun verifiers record => verifiers.insert record.publicKey record.identity) ∅

/-- A validator that the legacy transition has left out is suspended. -/
def suspendAbsent (verifiers : Verifiers W) (record : MemberRecord W) : MemberRecord W :=
  if record.capabilities.contains .validator ∧ ¬verifiers.contains record.publicKey then
    { record with status := .suspended }
  else record

/-- The record of a verifier after the legacy transition has kept or added it. -/
def enlist (identity : NodeIdentity W) : Option (MemberRecord W) → MemberRecord W
  | some record =>
    { record with
      identity := identity
      capabilities := record.capabilities.insert .validator
      status := if record.status = .revoked then .revoked else .active }
  | none => .bootstrap identity

def syncLegacyValidators (m : MemberSet W) (verifiers : Verifiers W) : MemberSet W :=
  ⟨(values verifiers).foldl
    (fun records identity =>
      records.insert identity.publicKey (enlist identity records[identity.publicKey]?))
    (m.records.map fun _ record => suspendAbsent verifiers record)⟩

end MemberSet

inductive MemberOperation (W : Type) where
  | add (record : MemberRecord W)
  | revoke (publicKey : W) (generation : ℕ)
  | suspend (publicKey : W) (generation : ℕ)
  | rotateKey (oldPublicKey : W) (newRecord : MemberRecord W)
  deriving DecidableEq

structure CommittedMemberOperation (W : Type) where
  groupId : W
  parentEpochHash : W
  operation : MemberOperation W
  deriving DecidableEq

omit [LinearOrder W] in
def rejectValidatorCapabilityGrant (record : MemberRecord W) : Result Unit :=
  reject (record.capabilities.contains .validator = true) (invalidConfiguration
    "validator capability can only be granted by certified node-admission evidence")

def maxCounter : ℕ := 2 ^ 64 - 1

omit [LinearOrder W] in
def requireNextMemberGeneration (record : MemberRecord W) (generation : ℕ) : Result Unit :=
  reject (generation ≠ min (record.generation + 1) maxCounter)
    (invalidConfiguration "member operation generation is not the next monotonic value")

def MemberSet.apply (m : MemberSet W) : MemberOperation W → Result (MemberSet W)
  | .add record => do
    reject (m.records.contains record.publicKey = true ∨ record.status ≠ .active)
      (invalidConfiguration "member add must introduce a new active key")
    rejectValidatorCapabilityGrant record
    let validated ← MemberRecord.new record.identity record.capabilities record.generation
    pure ⟨m.records.insert validated.publicKey validated⟩
  | .revoke publicKey generation => do
    let record ← require m.records[publicKey]? (.error .unknownSender)
    requireNextMemberGeneration record generation
    pure ⟨m.records.insert publicKey
      { record with generation := generation, status := .revoked }⟩
  | .suspend publicKey generation => do
    let record ← require m.records[publicKey]? (.error .unknownSender)
    requireNextMemberGeneration record generation
    reject (record.status = .revoked)
      (invalidConfiguration "revoked member cannot be suspended")
    pure ⟨m.records.insert publicKey
      { record with generation := generation, status := .suspended }⟩
  | .rotateKey oldPublicKey newRecord => do
    reject (m.records.contains newRecord.publicKey = true)
      (invalidConfiguration "member key rotation target already exists")
    rejectValidatorCapabilityGrant newRecord
    let old ← require m.records[oldPublicKey]? (.error .unknownSender)
    requireNextMemberGeneration old newRecord.generation
    let validated ← MemberRecord.new newRecord.identity newRecord.capabilities newRecord.generation
    let records := m.records.insert oldPublicKey
      { old with generation := newRecord.generation, status := .revoked }
    pure ⟨records.insert validated.publicKey validated⟩

end Registry

/-- The bytes of `BLOSSOM-MEMBER-1`. -/
def memberOperationPrefix : List UInt8 :=
  [66, 76, 79, 83, 83, 79, 77, 45, 77, 69, 77, 66, 69, 82, 45, 49]

/-- The third-party functions the epoch code calls: the root of the Merkle tree over the
given leaves, and the decoder of committed member operations. -/
class EpochCodec (W : Type) where
  merkleRoot : List W → W
  decodeMemberOperation : List UInt8 → Option (CommittedMemberOperation W)

/-- `CommittedMemberOperation::from_transaction`: its caller treats a payload that is no
member operation and one that does not decode alike. -/
def CommittedMemberOperation.fromTransaction [EpochCodec W] (t : Transaction W) :
    Option (CommittedMemberOperation W) :=
  if memberOperationPrefix.isPrefixOf t.payload then
    EpochCodec.decodeMemberOperation (t.payload.drop memberOperationPrefix.length)
  else none

section Operations

variable [LinearOrder W] [EpochCodec W]

/-- One transaction's effect on the registry: an operation for another group or parent
epoch is skipped, and so is one that the registry rejects. -/
def MemberSet.applyTransaction (groupId parentEpochHash : W) (m : MemberSet W)
    (t : Transaction W) : MemberSet W :=
  match CommittedMemberOperation.fromTransaction t with
  | none => m
  | some op =>
    if op.groupId ≠ groupId ∨ op.parentEpochHash ≠ parentEpochHash then m
    else match m.apply op.operation with
      | .ok next => next
      | .error _ => m

def applyCommittedMemberOperations (previous : MemberSet W) (blocks : BTreeMap W (Block W))
    (groupId parentEpochHash : W) : MemberSet W :=
  (values blocks).foldl
    (fun next block => block.body.txs.foldl (.applyTransaction groupId parentEpochHash) next)
    previous

/-- The registry that the member operations of an epoch start from. -/
def registryBaseline (previous : MemberSet W) (legacyVerifiers : Verifiers W) : MemberSet W :=
  (if previous.records.isEmpty then .fromVerifiers legacyVerifiers else previous).syncLegacyValidators
    legacyVerifiers

def applyEpochMemberRegistryTransition (previous : MemberSet W) (legacyVerifiers : Verifiers W)
    (blocks : BTreeMap W (Block W)) (groupId parentEpochHash : W) :
    MemberSet W × Verifiers W :=
  let baseline := registryBaseline previous legacyVerifiers
  let next := applyCommittedMemberOperations baseline blocks groupId parentEpochHash
  let validators := next.activeValidators
  if validators.isEmpty then (baseline, baseline.activeValidators) else (next, validators)

end Operations

structure ConsensusNodeRemovalPolicy where
  enabled : Bool
  minRemainingVerifiers : ℕ
  maxRemovalsPerEpoch : ℕ
  requiredObservers : Option ℕ
  deriving DecidableEq

def ConsensusNodeRemovalPolicy.disabled : ConsensusNodeRemovalPolicy := ⟨false, 1, 1, none⟩

def ConsensusNodeRemovalPolicy.requiredObserversFor (p : ConsensusNodeRemovalPolicy)
    (verifierCount : ℕ) : ℕ :=
  max (p.requiredObservers.getD (supermajorityCount verifierCount))
    (supermajorityCount verifierCount)

structure ConsensusNodeRemovalDecision (W : Type) where
  subject : W
  observerCount : ℕ
  requiredObservers : ℕ
  missingSignatureCount : ℕ
  invalidSignatureCount : ℕ
  deriving DecidableEq

structure ConsensusNodeRemovalPlan (W : Type) where
  decisions : List (ConsensusNodeRemovalDecision W)
  retainedVerifierCount : ℕ
  deriving DecidableEq

structure ConsensusNodeAdmissionDecision (W : Type) where
  node : NodeIdentity W
  admissionHash : W
  observerCount : ℕ
  requiredObservers : ℕ
  deriving DecidableEq

structure PendingNodeAdmission (W : Type) [LinearOrder W] where
  node : NodeIdentity W
  admissionHash : W
  observers : BTreeSet W

section Legacy

variable [ProtocolCrypto W]

/-- The accusations of an epoch by subject and observer. -/
abbrev Evidence (W : Type) [LinearOrder W] := BTreeMap W (BTreeMap W EncounterOutcome)

/-- One observer keeps one outcome for a subject, the graver one. -/
def strongerOutcome (outcome : EncounterOutcome) : Option EncounterOutcome → EncounterOutcome
  | none => outcome
  | some .missingSignature => outcome
  | some .invalidSignature => .invalidSignature

section

variable (verifiers : Verifiers W)

def recordEncounter (lastEpoch : W) (nonce : ℕ) (validator : W)
    (evidence : Evidence W) (record : EncounterRecord W) : Evidence W :=
  let body := record.body
  if body.lastEpoch ≠ lastEpoch ∨ body.nonce ≠ nonce ∨ body.observer ≠ validator ∨
      body.observer = body.subject ∨ ¬verifiers.contains body.observer ∨
      ¬verifiers.contains body.subject ∨ record.verify ≠ .ok () then evidence
  else
    let observed := evidence.getD body.subject ∅
    evidence.insert body.subject
      (observed.insert body.observer (strongerOutcome body.outcome observed[body.observer]?))

def encounterEvidence (committedBlocks : BTreeMap W (Block W))
    (lastEpoch : W) (nonce : ℕ) : Evidence W :=
  ((values committedBlocks).map Block.body).foldl
    (fun evidence body =>
      if verifiers.contains body.validator then
        body.encounterRecords.foldl (recordEncounter verifiers lastEpoch nonce body.validator)
          evidence
      else evidence) ∅

/-- More observers first, then more invalid signatures, then the smaller key. -/
def ConsensusNodeRemovalDecision.precedes (a b : ConsensusNodeRemovalDecision W) : Prop :=
  b.observerCount < a.observerCount ∨ b.observerCount = a.observerCount ∧
    (b.invalidSignatureCount < a.invalidSignatureCount ∨
      b.invalidSignatureCount = a.invalidSignatureCount ∧ a.subject ≤ b.subject)

instance : DecidableRel (ConsensusNodeRemovalDecision.precedes (W := W)) := fun _ _ =>
  inferInstanceAs (Decidable (_ ∨ _))

def removalCandidate (requiredObservers : ℕ) (subject : W)
    (outcomes : BTreeMap W EncounterOutcome) : Option (ConsensusNodeRemovalDecision W) :=
  if outcomes.size < requiredObservers then none
  else some
    { subject := subject
      observerCount := outcomes.size
      requiredObservers := requiredObservers
      missingSignatureCount := (values outcomes).count .missingSignature
      invalidSignatureCount := (values outcomes).count .invalidSignature }

def deriveConsensusNodeRemovalPlan (committedBlocks : BTreeMap W (Block W)) (lastEpoch : W)
    (nonce : ℕ)
    (policy : ConsensusNodeRemovalPolicy) : ConsensusNodeRemovalPlan W :=
  let verifierCount := verifiers.size
  let requiredObservers := policy.requiredObserversFor verifierCount
  if policy.enabled = false ∨ verifierCount = 0 ∨ policy.maxRemovalsPerEpoch = 0 ∨
      requiredObservers = 0 then ⟨[], verifierCount⟩
  else
    let candidates := (encounterEvidence verifiers committedBlocks lastEpoch nonce).toList.filterMap
      fun (subject, outcomes) => removalCandidate requiredObservers subject outcomes
    let removalBudget :=
      min (verifierCount - policy.minRemainingVerifiers) policy.maxRemovalsPerEpoch
    let decisions := (candidates.insertionSort (·.precedes ·)).take removalBudget
    ⟨decisions, verifierCount - decisions.length⟩

def NodeAdmissionBody.hash (a : NodeAdmissionBody W) : W := protocolHash a.fields

/-- The admissions a block sponsors so far: the hashes it has shown, and the evidence. -/
def recordAdmission (lastEpoch : W) (nonce : ℕ) (observer : W)
    (acc : BTreeSet W × BTreeMap W (PendingNodeAdmission W)) (admission : NodeAdmission W) :
    BTreeSet W × BTreeMap W (PendingNodeAdmission W) :=
  let admissionHash := admission.body.hash
  if admission.body.lastEpoch ≠ lastEpoch ∨ admission.body.nonce ≠ nonce ∨
      admission.verify ≠ .ok () ∨ acc.1.contains admissionHash then acc
  else
    let node := admission.body.node
    if verifiers.contains node.publicKey then (acc.1.insert admissionHash, acc.2)
    else
      let pending := acc.2.getD admissionHash ⟨node, admissionHash, ∅⟩
      (acc.1.insert admissionHash,
        acc.2.insert admissionHash { pending with observers := pending.observers.insert observer })

def admissionEvidence (committedBlocks : BTreeMap W (Block W))
    (lastEpoch : W) (nonce : ℕ) : BTreeMap W (PendingNodeAdmission W) :=
  ((values committedBlocks).map Block.body).foldl
    (fun evidence body =>
      if verifiers.contains body.validator then
        (body.nodeAdmissions.foldl (recordAdmission verifiers lastEpoch nonce body.validator)
          (∅, evidence)).2
      else evidence) ∅

end

def admissionDecisionPrecedes (a b : ConsensusNodeAdmissionDecision W) : Prop :=
  b.observerCount < a.observerCount ∨
    b.observerCount = a.observerCount ∧ a.admissionHash < b.admissionHash

instance : DecidableRel (admissionDecisionPrecedes (W := W)) := fun _ _ =>
  inferInstanceAs (Decidable (_ ∨ _))

def decideAdmission (requiredObservers : ℕ)
    (decisions : BTreeMap W (ConsensusNodeAdmissionDecision W)) (pending : PendingNodeAdmission W) :
    BTreeMap W (ConsensusNodeAdmissionDecision W) :=
  if pending.observers.size < requiredObservers then decisions
  else
    let decision := ⟨pending.node, pending.admissionHash, pending.observers.size, requiredObservers⟩
    match decisions[pending.node.publicKey]? with
    | some existing =>
      if admissionDecisionPrecedes decision existing then
        decisions.insert pending.node.publicKey decision
      else decisions
    | none => decisions.insert pending.node.publicKey decision

section

variable (verifiers : Verifiers W)

/-- The nodes that `derive_consensus_node_admission_plan` admits. -/
def deriveConsensusNodeAdmissionPlan (committedBlocks : BTreeMap W (Block W)) (lastEpoch : W)
    (nonce : ℕ) :
    List (NodeIdentity W) :=
  if verifiers.isEmpty then []
  else
    let decisions := (values (admissionEvidence verifiers committedBlocks lastEpoch nonce)).foldl
      (decideAdmission (supermajorityCount verifiers.size)) ∅
    (values decisions).map ConsensusNodeAdmissionDecision.node

def applyConsensusNodeRemovalPlan (plan : ConsensusNodeRemovalPlan W) : Verifiers W :=
  plan.decisions.foldl (fun verifiers decision => verifiers.erase decision.subject) verifiers

def applyConsensusNodeAdmissionPlan (admitted : List (NodeIdentity W)) : Verifiers W :=
  admitted.foldl (fun verifiers node => verifiers.insert node.publicKey node) verifiers

/-- The verifier set that `apply_epoch_membership_transition` returns. -/
def applyEpochMembershipTransition (committedBlocks : BTreeMap W (Block W)) (lastEpoch : W)
    (nonce : ℕ)
    (policy : ConsensusNodeRemovalPolicy) : Verifiers W :=
  applyConsensusNodeAdmissionPlan
    (applyConsensusNodeRemovalPlan verifiers
      (deriveConsensusNodeRemovalPlan verifiers committedBlocks lastEpoch nonce policy))
    (deriveConsensusNodeAdmissionPlan verifiers committedBlocks lastEpoch nonce)

end

end Legacy

end Blossom
