import Blossom.RuntimeSnapshot

/-!
# Membership leases

A verifier signs a lease statement for the head of its chain, and a supermajority of signatures
makes a certificate.
-/

namespace Blossom

open CheckedSteps OrderedMap MajorityQuorum

variable {W : Type}

/-- The length of a duration on the monotonic clock, which counts nanoseconds. -/
def fromMillis (millis : ℕ) : ℕ := millis * 1000000

structure MembershipLeaseRequest (W : Type) where
  challenge : W
  issuedAtUnixMillis : ℕ
  validForMillis : ℕ
  deriving DecidableEq

structure MembershipLeaseStatement (W : Type) where
  groupId : W
  epochHash : W
  epochNonce : ℕ
  memberSetHash : W
  challenge : W
  issuedAtUnixMillis : ℕ
  validForMillis : ℕ
  deriving DecidableEq

structure MembershipLeaseVote (W : Type) where
  statement : MembershipLeaseStatement W
  validator : W
  signature : Signature W

structure MembershipLeaseCertificate (W : Type) [LinearOrder W] where
  statement : MembershipLeaseStatement W
  signatures : BTreeMap W (Signature W)
  deriving DecidableEq

structure VerifiedMembershipView (W : Type) [LinearOrder W] where
  groupId : W
  epochHash : W
  epochNonce : ℕ
  /-- The signed expiry of the installed lease. -/
  leaseExpiresAtUnixMillis : ℕ
  /-- The moment on the monotonic clock at which the view stops being fresh. -/
  validUntil : ℕ
  members : MemberSet W
  relays : BTreeMap W (Service W)

namespace MembershipLeaseStatement

variable (s : MembershipLeaseStatement W)

def expiresAtUnixMillis : Result ℕ := do
  reject (s.issuedAtUnixMillis = 0 ∨ s.validForMillis = 0 ∨
    maxMembershipLeaseMillis < s.validForMillis) (.error .failedConsensus)
  reject (maxCounter < s.issuedAtUnixMillis + s.validForMillis) (.error .failedConsensus)
  pure (s.issuedAtUnixMillis + s.validForMillis)

def remainingValidityAt (nowUnixMillis : ℕ) : Result ℕ := do
  let expiresAt ← s.expiresAtUnixMillis
  reject (expiresAt ≤ nowUnixMillis ∨
    saturatingAdd nowUnixMillis maxMembershipLeaseMillis < expiresAt) (.error .failedConsensus)
  pure (expiresAt - nowUnixMillis)

def fields : List (Field W) :=
  [.word s.groupId, .word s.epochHash, .num s.epochNonce, .word s.memberSetHash,
    .word s.challenge, .num s.issuedAtUnixMillis, .num s.validForMillis]

/-- The bytes of `blossom/membership-lease/v1`. -/
def domain : List UInt8 := "blossom/membership-lease/v1".toUTF8.toList

/-- What a validator signs. -/
def signingFields : List (Field W) := .bytes domain :: s.fields

/-- The hash that a watermark keeps of a statement. -/
def hash [ProtocolCrypto W] : W := protocolHash s.fields

variable {s}

theorem fields_injective : Function.Injective (fields : MembershipLeaseStatement W → _) := by
  intro a b h
  cases a
  cases b
  simpa [fields] using h

theorem hash_injective [ProtocolCrypto W] (h : HashInjective W) :
    Function.Injective fun s : MembershipLeaseStatement W => s.hash :=
  h.comp fields_injective

theorem expiresAtUnixMillis_eq_ok {expires : ℕ} (h : s.expiresAtUnixMillis = .ok expires) :
    expires = s.issuedAtUnixMillis + s.validForMillis := by
  simp only [expiresAtUnixMillis, ↓guard_bind_eq_ok, pure_eq_ok] at h
  exact h.2.2.symm

theorem remainingValidityAt_eq_ok {now remaining : ℕ}
    (h : s.remainingValidityAt now = .ok remaining) :
    ∃ expires, s.expiresAtUnixMillis = .ok expires ∧ now < expires ∧ remaining = expires - now := by
  simp only [remainingValidityAt, ↓guard_bind_eq_ok, bind_eq_ok, reject_eq_ok, pure_eq_ok, not_or,
    not_le] at h
  obtain ⟨expires, hexp, ⟨hlive, -⟩, heq⟩ := h
  exact ⟨expires, hexp, hlive, heq.symm⟩

end MembershipLeaseStatement

def MemberSet.hash [ProtocolCrypto W] (m : MemberSet W) : W :=
  protocolHash (.tag .memberRegistry :: m.fields)

def MembershipLeaseCertificate.verify [ProtocolCrypto W] (c : MembershipLeaseCertificate W)
    (validators : Verifiers W) (nowUnixMillis : ℕ) : Result Unit := do
  let _ ← c.statement.remainingValidityAt nowUnixMillis
  reject (c.signatures.size < supermajorityCount validators.size) (.error .failedConsensus)
  c.signatures.toList.forM fun (validator, signature) => do
    reject (¬validators.contains validator) (.error .unknownSender)
    checkSignature signature c.statement.signingFields validator

namespace VerifiedMembershipView

variable [LinearOrder W]

def isFresh (view : VerifiedMembershipView W) (instant : ℕ) : Bool :=
  decide (instant < view.validUntil)

/-- The view of a new epoch, which is not fresh when it is published. -/
def expired (groupId : W) (head : Epoch W) (instant : ℕ) : VerifiedMembershipView W where
  groupId := groupId
  epochHash := head.hash
  epochNonce := head.body.nonce
  leaseExpiresAtUnixMillis := 0
  validUntil := instant
  members := head.body.members
  relays := ∅

end VerifiedMembershipView

section Relays

variable [LinearOrder W]

def AddressBook.activeSignedRecords (book : AddressBook W) (groupId : W) (nowUnixMillis : ℕ) :
    List (SignedServiceRecord W) :=
  (values book.signedRecords).filter fun record => decide (record.body.groupId = groupId) &&
    !record.body.tombstone && decide (nowUnixMillis < record.body.expiresAtUnixMillis)

def verifiedRelaySet (book : AddressBook W) (groupId : W) (members : MemberSet W)
    (nowUnixMillis : ℕ) : BTreeMap W (Service W) × Option ℕ :=
  let records := (book.activeSignedRecords groupId nowUnixMillis).filter fun record =>
    decide (record.body.serviceKind = .relay) &&
      members.records[record.body.owner]?.any fun member => member.isActiveWith .relay
  (.ofList (records.map fun record => (record.body.owner, record.body.service)) compare,
    (records.map fun record => record.body.expiresAtUnixMillis).min?)

/-- A deadline that is not later than the expiry of any published relay record. -/
def clampToRelays (deadline instant nowUnixMillis : ℕ) : Option ℕ → ℕ
  | some relayExpiry => min deadline (instant + fromMillis (relayExpiry - nowUnixMillis))
  | none => deadline

theorem clampToRelays_le (deadline instant nowUnixMillis : ℕ) (earliest : Option ℕ) :
    clampToRelays deadline instant nowUnixMillis earliest ≤ deadline := by
  cases earliest with
  | none => exact le_rfl
  | some expiry => exact min_le_left _ _

/-- The view that an installed lease publishes over the current one: a lease that does not outlive
the current one cannot move its deadline forward. -/
def leaseView (groupId : W) (head : Epoch W) (leaseExpires deadline : ℕ)
    (relays : BTreeMap W (Service W)) (current : VerifiedMembershipView W) :
    VerifiedMembershipView W where
  groupId := groupId
  epochHash := head.hash
  epochNonce := head.body.nonce
  leaseExpiresAtUnixMillis := leaseExpires
  validUntil :=
    if current.epochHash = head.hash ∧ leaseExpires ≤ current.leaseExpiresAtUnixMillis then
      min deadline current.validUntil
    else deadline
  members := head.body.members
  relays := relays

def relayView (members : MemberSet W) (deadline : ℕ) (relays : BTreeMap W (Service W))
    (current : VerifiedMembershipView W) : VerifiedMembershipView W :=
  { current with validUntil := deadline, members := members, relays := relays }

end Relays

/-- What the clocks show when a call reads them: the wall clock at the start and in the check of the
certificate, and the monotonic clock. -/
structure LeaseClock where
  unixMillis : ℕ
  verifyUnixMillis : ℕ
  instant : ℕ

/-- What the clocks show when a registration reads them: the wall clock for the record and for the
relays, and the monotonic clock for the freshness of the view and for the new deadline. -/
structure RelayClock where
  recordUnixMillis : ℕ
  freshInstant : ℕ
  unixMillis : ℕ
  instant : ℕ

variable [ProtocolCrypto W]

/-- The checks of `install_membership_lease`: the expiry of the lease and what remains of it. -/
def acceptLease (groupId : W) (head : Epoch W) (certificate : MembershipLeaseCertificate W)
    (nowUnixMillis verifyUnixMillis : ℕ) : Result (ℕ × ℕ) := do
  certificate.verify head.body.verifiers verifyUnixMillis
  reject (certificate.statement.groupId ≠ groupId ∨
    certificate.statement.epochHash ≠ head.hash ∨
    certificate.statement.epochNonce ≠ head.body.nonce ∨
    certificate.statement.memberSetHash ≠ head.body.members.hash) (.error .invalidEpochNonce)
  let leaseExpires ← certificate.statement.expiresAtUnixMillis
  let remaining ← certificate.statement.remainingValidityAt nowUnixMillis
  pure (leaseExpires, remaining)

structure LeaseRuntime (W : Type) [LinearOrder W] where
  source : SnapshotSource W
  view : VerifiedMembershipView W

namespace LeaseRuntime

def installMembershipLease (rt : LeaseRuntime W) (certificate : MembershipLeaseCertificate W)
    (clock : LeaseClock) : Result (LeaseRuntime W) := do
  let head ← require rt.source.epochchain.getLast? (.error .emptyEpochChain)
  let (leaseExpires, remaining) ← acceptLease rt.source.groupId head certificate clock.unixMillis
    clock.verifyUnixMillis
  let (relays, earliest) := verifiedRelaySet rt.source.addressBook rt.source.groupId
    head.body.members clock.unixMillis
  let deadline := clampToRelays (clock.instant + fromMillis remaining) clock.instant
    clock.unixMillis earliest
  pure { rt with view := leaseView rt.source.groupId head leaseExpires deadline relays rt.view }

def republishFreshMembershipRelays (rt : LeaseRuntime W) (members : MemberSet W)
    (clock : RelayClock) : LeaseRuntime W :=
  if rt.view.isFresh clock.freshInstant = false ∨
      some rt.view.epochHash ≠ rt.source.epochchain.getLast?.map (·.hash) then rt
  else
    let (relays, earliest) := verifiedRelaySet rt.source.addressBook rt.source.groupId members
      clock.unixMillis
    let deadline := clampToRelays rt.view.validUntil clock.instant clock.unixMillis earliest
    { rt with view := relayView members deadline relays rt.view }

def registerSignedService (rt : LeaseRuntime W) (record : SignedServiceRecord W)
    (clock : RelayClock) : Result (LeaseRuntime W) := do
  let head ← require rt.source.epochchain.getLast? (.error .emptyEpochChain)
  let (_, source) ← rt.source.registerSignedService record clock.recordUnixMillis
  pure (republishFreshMembershipRelays { rt with source := source } head.body.members clock)

end LeaseRuntime

end Blossom
