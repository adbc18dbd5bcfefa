import Blossom.OrderedBatch

/-!
# Availability, order and committee certificates

Holders certify that the bytes of a batch are recoverable, validators certify the position of a
reference in the global order, and an old committee certifies its replacement.
-/

namespace Blossom

open CheckedSteps OrderedMap MajorityQuorum

variable {W : Type}

def maxReferencesPerOrderingWindow : ℕ := 65536

structure SiteId where
  name : List UInt8
  deriving DecidableEq

def SiteId.code (s : SiteId) : List ℕ := s.name.map UInt8.toNat

theorem SiteId.code_injective : Function.Injective SiteId.code := by
  rintro ⟨a⟩ ⟨b⟩ h
  have hab : a = b := List.map_injective_iff.mpr (fun _ _ h => UInt8.toNat_inj.mp h) h
  rw [hab]

instance : LinearOrder SiteId := LinearOrder.lift' SiteId.code SiteId.code_injective

structure AvailabilityReceiptBody (W : Type) where
  referenceHash : W
  holder : W
  site : SiteId
  membershipEpoch : ℕ
  durableStoreGeneration : ℕ
  deriving DecidableEq

structure AuthenticatedAvailabilityReceipt (W : Type) where
  body : AvailabilityReceiptBody W
  signature : Signature W
  deriving DecidableEq

inductive AvailabilityTrust where
  | trusted | verifiedClaims
  deriving DecidableEq

structure HolderMembership (W : Type) [LinearOrder W] where
  epoch : ℕ
  membersBySite : BTreeMap SiteId (BTreeSet W)
  storeGenerations : BTreeMap W ℕ
  holderFaultBound : ℕ
  deriving DecidableEq

structure AvailabilityCertificate (W : Type) where
  reference : BatchReference W
  trust : AvailabilityTrust
  receipts : List (AuthenticatedAvailabilityReceipt W)
  deriving DecidableEq

structure OrderStatement (W : Type) where
  consensusGroupId : W
  blossomEpochHash : W
  position : ℕ
  referenceHash : W
  previousOrderCertificateHash : W
  validatorGeneration : ℕ
  deriving DecidableEq

structure OrderCertificate (W : Type) [LinearOrder W] where
  statement : OrderStatement W
  signatures : BTreeMap W (Signature W)
  deriving DecidableEq

structure CommitteeTransitionStatement (W : Type) [LinearOrder W] where
  clusterId : W
  consensusGroupId : W
  previousHolderMembershipEpoch : ℕ
  previousValidatorGeneration : ℕ
  nextHolderMembership : HolderMembership W
  nextValidatorGeneration : ℕ
  nextValidators : BTreeSet W
  activatedAt : ℕ
  orderCertificateHash : W
  deriving DecidableEq

structure CommitteeTransitionCertificate (W : Type) [LinearOrder W] where
  statement : CommitteeTransitionStatement W
  signatures : BTreeMap W (Signature W)
  deriving DecidableEq

def siteFields (s : SiteId) : List (Field W) := strFields s.name

def AvailabilityReceiptBody.fields (b : AvailabilityReceiptBody W) : List (Field W) :=
  [Field.tag .availabilityReceipt, .word b.referenceHash, .word b.holder] ++ siteFields b.site ++
    [Field.num b.membershipEpoch, .num b.durableStoreGeneration]

def OrderStatement.fields (s : OrderStatement W) : List (Field W) :=
  [.word s.consensusGroupId, .word s.blossomEpochHash, .num s.position, .word s.referenceHash,
    .word s.previousOrderCertificateHash, .num s.validatorGeneration]

section Ordered

variable [LinearOrder W]

def HolderMembership.allMembers (m : HolderMembership W) : Result (BTreeSet W) :=
  ((values m.membersBySite).flatMap Std.ExtTreeSet.toList).foldlM (fun all member => do
    reject (all.contains member = true)
      (invalidConfiguration "one availability holder cannot belong to multiple sites")
    pure (all.insert member)) ∅

def HolderMembership.validate (m : HolderMembership W) : Result Unit := do
  reject (m.membersBySite.size ≠ 3 ∨ (values m.membersBySite).any fun s => s.isEmpty)
    (invalidConfiguration "availability membership requires three non-empty sites")
  let all ← m.allMembers
  reject (m.storeGenerations.keys ≠ all.toList)
    (invalidConfiguration "holder membership must bind one store generation per member")

def AvailabilityCertificate.required (trust : AvailabilityTrust) (membership : HolderMembership W)
    (members : BTreeSet W) : ℕ :=
  match trust with
  | .trusted => supermajorityCount members.size
  | .verifiedClaims => membership.holderFaultBound * 2 + 1

def signatureMapFields (signatures : BTreeMap W (Signature W)) : List (Field W) :=
  listFields (fun entry => .word entry.1 :: signatureFields entry.2) signatures.toList

def HolderMembership.fields (m : HolderMembership W) : List (Field W) :=
  [Field.num m.epoch] ++
    listFields (fun entry => siteFields entry.1 ++ listFields (fun w => [.word w]) entry.2.toList)
      m.membersBySite.toList ++
    listFields (fun entry => [.word entry.1, .num entry.2]) m.storeGenerations.toList ++
    [Field.num m.holderFaultBound]

def CommitteeTransitionStatement.fields (s : CommitteeTransitionStatement W) : List (Field W) :=
  [Field.word s.clusterId, .word s.consensusGroupId, .num s.previousHolderMembershipEpoch,
    .num s.previousValidatorGeneration] ++ s.nextHolderMembership.fields ++
    [Field.num s.nextValidatorGeneration] ++
    listFields (fun w => [.word w]) s.nextValidators.toList ++
    [Field.num s.activatedAt, .word s.orderCertificateHash]

end Ordered

section Crypto

variable [ProtocolCrypto W]

def AuthenticatedAvailabilityReceipt.verify (r : AuthenticatedAvailabilityReceipt W) :
    Result Unit :=
  checkSignature r.signature r.body.fields r.body.holder

def AvailabilityCertificate.countReceipt (membership : HolderMembership W) (referenceHash : W)
    (acc : BTreeSet W × BTreeMap SiteId (BTreeSet W))
    (receipt : AuthenticatedAvailabilityReceipt W) :
    Result (BTreeSet W × BTreeMap SiteId (BTreeSet W)) := do
  receipt.verify
  reject (receipt.body.referenceHash ≠ referenceHash ∨
    receipt.body.membershipEpoch ≠ membership.epoch)
    (invalidConfiguration "availability receipt does not bind the complete reference")
  let siteMembers ← require membership.membersBySite[receipt.body.site]? (.error .unknownSender)
  reject (¬siteMembers.contains receipt.body.holder ∨
    membership.storeGenerations[receipt.body.holder]? ≠ some receipt.body.durableStoreGeneration ∨
    acc.1.contains receipt.body.holder)
    (invalidConfiguration "duplicate or ineligible availability holder")
  pure (acc.1.insert receipt.body.holder, acc.2.insert receipt.body.site
    ((acc.2.getD receipt.body.site ∅).insert receipt.body.holder))

def AvailabilityCertificate.verify (c : AvailabilityCertificate W)
    (membership : HolderMembership W) : Result Unit := do
  membership.validate
  c.reference.validate
  reject (membership.epoch ≠ c.reference.dataHolderMembershipEpoch)
    (invalidConfiguration "holder membership generation mismatch")
  let referenceHash ← c.reference.hash
  let holders ← c.receipts.foldlM (countReceipt membership referenceHash) (∅, ∅)
  let certifiedSites := membership.membersBySite.toList.countP fun entry =>
    required c.trust membership entry.2 ≤ (holders.2.getD entry.1 ∅).size
  reject (certifiedSites < 2) (.error .failedConsensus)

def verifySignatures (signatures : BTreeMap W (Signature W)) (message : List (Field W))
    (validators : BTreeSet W) : Result Unit := do
  signatures.toList.forM fun entry => do
    reject (¬validators.contains entry.1) (.error .unknownSender)
    checkSignature entry.2 message entry.1
  reject (hasSupermajority validators.size signatures.size = false) (.error .failedConsensus)

def OrderCertificate.signingBytes (s : OrderStatement W) : List (Field W) :=
  .tag .orderStatement :: s.fields

def OrderCertificate.verify (c : OrderCertificate W) (validatorGeneration : ℕ)
    (validators : BTreeSet W) : Result Unit := do
  reject (c.statement.validatorGeneration ≠ validatorGeneration ∨ c.statement.position = 0 ∨
    c.statement.blossomEpochHash = default ∨ validators.size < c.signatures.size)
    (.error .failedConsensus)
  verifySignatures c.signatures (signingBytes c.statement) validators

def OrderCertificate.trusted (s : OrderStatement W) : OrderCertificate W := ⟨s, ∅⟩

def OrderCertificate.verifyTrusted (c : OrderCertificate W) (validatorGeneration : ℕ) :
    Result Unit :=
  reject (c.statement.validatorGeneration ≠ validatorGeneration ∨ c.statement.position = 0 ∨
    c.statement.blossomEpochHash = default ∨ c.signatures.isEmpty = false)
    (.error .failedConsensus)

def OrderCertificate.hash (c : OrderCertificate W) : W :=
  protocolHash (.tag .orderCertificate :: c.statement.fields ++ signatureMapFields c.signatures)

theorem signatureMapFields_prefixCode :
    PrefixCode (signatureMapFields : BTreeMap W (Signature W) → _) := by
  intro a b r s h
  have hent : PrefixCode fun entry : W × Signature W =>
      .word entry.1 :: signatureFields entry.2 := by
    intro x y r s h
    simpa [signatureFields_prefixCode.append_eq_iff, Prod.ext_iff, and_assoc] using h
  obtain ⟨hlist, hrest⟩ := listFields_prefixCode hent _ _ _ _ h
  exact ⟨Std.ExtTreeMap.toList_inj.mp hlist, hrest⟩

theorem OrderCertificate.hash_eq_iff (hinj : HashInjective W) {c d : OrderCertificate W}
    (h : c.statement = d.statement) : c.hash = d.hash ↔ c.signatures = d.signatures := by
  constructor
  · intro heq
    have hfields := hinj heq
    rw [h, List.cons_append, List.cons_append, List.cons.injEq] at hfields
    exact signatureMapFields_prefixCode.injective (List.append_cancel_left hfields.2)
  · intro heq
    rw [OrderCertificate.hash, OrderCertificate.hash, h, heq]

def CommitteeTransitionStatement.validate (s : CommitteeTransitionStatement W) :
    Result Unit := do
  s.nextHolderMembership.validate
  reject (s.clusterId = default ∨
    s.nextHolderMembership.epoch ≠ s.previousHolderMembershipEpoch + 1 ∨
    s.nextValidatorGeneration ≠ s.previousValidatorGeneration + 1 ∨
    s.nextValidators.isEmpty = true ∨ maxReferencesPerOrderingWindow < s.nextValidators.size ∨
    ¬((s.activatedAt = 0) ↔ (s.orderCertificateHash = default))) (invalidConfiguration
    "committee transition generations, scope, boundary, or validators are invalid")

def CommitteeTransitionCertificate.signingBytes (s : CommitteeTransitionStatement W) :
    List (Field W) :=
  .tag .committeeTransitionStatement :: s.fields

def CommitteeTransitionCertificate.verify (c : CommitteeTransitionCertificate W)
    (clusterId consensusGroupId : W) (holderMembership : HolderMembership W)
    (validatorGeneration : ℕ) (validators : BTreeSet W) : Result Unit := do
  c.statement.validate
  reject (c.statement.clusterId ≠ clusterId ∨ c.statement.consensusGroupId ≠ consensusGroupId ∨
    c.statement.previousHolderMembershipEpoch ≠ holderMembership.epoch ∨
    c.statement.previousValidatorGeneration ≠ validatorGeneration ∨
    validators.size < c.signatures.size) (.error .failedConsensus)
  verifySignatures c.signatures (signingBytes c.statement) validators

end Crypto

end Blossom
