import Blossom.Registry
import Mathlib.Data.Prod.Lex

/-!
# The address book

A node knows services that it was told about locally, and services that members of its group have
announced with signed records.
-/

namespace Blossom

open CheckedSteps OrderedMap

variable {W : Type}

def ServiceKind.rank : ServiceKind → ℕ
  | .relay => 0
  | .block => 1
  | .consensus => 2
  | .engine => 3
  | .addressBook => 4

instance : LinearOrder ServiceKind :=
  LinearOrder.lift' ServiceKind.rank fun a b h => by cases a <;> cases b <;> first | rfl | cases h

def maxServiceRecordLifetimeMillis : ℕ := 24 * 60 * 60 * 1000
def maxServiceHostBytes : ℕ := 2 ^ 10
def maxServiceProtocolBytes : ℕ := 64

structure ServiceRecordBody (W : Type) where
  groupId : W
  owner : W
  serviceKind : ServiceKind
  protocol : List UInt8
  host : List UInt8
  port : ℕ
  generation : ℕ
  expiresAtUnixMillis : ℕ
  tombstone : Bool
  deriving DecidableEq

structure SignedServiceRecord (W : Type) where
  body : ServiceRecordBody W
  signature : Signature W
  deriving DecidableEq

structure ServiceKey (W : Type) where
  kind : ServiceKind
  publicKey : W
  deriving DecidableEq

instance [LinearOrder W] : LinearOrder (ServiceKey W) :=
  LinearOrder.lift' (fun key => toLex (key.kind, key.publicKey)) fun a b h => by
    cases a
    cases b
    cases h
    rfl

instance [LinearOrder W] : Std.TransOrd (ServiceKey W) := inferInstance

instance [ProtocolCrypto W] : Std.TransOrd (ServiceKey W) := inferInstance

structure ServiceRecordKey (W : Type) where
  groupId : W
  kind : ServiceKind
  owner : W
  deriving DecidableEq

instance [LinearOrder W] : LinearOrder (ServiceRecordKey W) :=
  LinearOrder.lift' (fun key => toLex (key.groupId, toLex (key.kind, key.owner))) fun a b h => by
    cases a
    cases b
    cases h
    rfl

instance [ProtocolCrypto W] : Std.TransOrd (ServiceRecordKey W) := inferInstance

namespace ServiceRecordBody

section

variable (b : ServiceRecordBody W)

def service : Service W :=
  ⟨b.serviceKind, b.owner, b.protocol, b.host, b.port⟩

def key : ServiceRecordKey W := ⟨b.groupId, b.serviceKind, b.owner⟩

/-- The bytes of `blossom/signed-service-record/v1`. -/
def domain : List UInt8 := "blossom/signed-service-record/v1".toUTF8.toList

def signingFields : List (Field W) :=
  [Field.bytes domain, .word b.groupId, .word b.owner, .num b.serviceKind.rank] ++
    strFields b.protocol ++ strFields b.host ++
    [Field.num b.port, .num b.generation, .num b.expiresAtUnixMillis, .num b.tombstone.toNat]

def validateShape : Result Unit :=
  reject (b.generation = 0 ∨ b.expiresAtUnixMillis = 0 ∨ b.protocol = [] ∨
    maxServiceProtocolBytes < b.protocol.length ∨ b.host = [] ∨
    maxServiceHostBytes < b.host.length ∨ b.port = 0)
    (invalidConfiguration "signed service record has invalid endpoint, generation, or expiry")

end

end ServiceRecordBody

def SignedServiceRecord.verify [ProtocolCrypto W] (r : SignedServiceRecord W) : Result Unit := do
  r.body.validateShape
  checkSignature r.signature r.body.signingFields r.body.owner

structure AddressBook (W : Type) [LinearOrder W] where
  services : BTreeMap (ServiceKey W) (Service W)
  signedRecords : BTreeMap (ServiceRecordKey W) (SignedServiceRecord W)

/-- Addition of 64-bit times, which stops at the largest. -/
def saturatingAdd (a b : ℕ) : ℕ := min (a + b) maxCounter

def MemberRecord.authorizedFor (member : MemberRecord W) : ServiceKind → Bool
  | .relay => member.isActiveWith .relay
  | .consensus => member.isActiveWith .validator
  | _ => decide (member.status = .active)

namespace AddressBook

variable [LinearOrder W]

def empty : AddressBook W := ⟨∅, ∅⟩

def add (book : AddressBook W) (service : Service W) : AddressBook W :=
  { book with services := book.services.insert ⟨service.kind, service.publicKey⟩ service }

def fromServices (services : List (Service W)) : AddressBook W := services.foldl add empty

def intoServices (book : AddressBook W) : List (Service W) := values book.services

end AddressBook

namespace AddressBook

variable [ProtocolCrypto W]

def applySignedRecord (book : AddressBook W) (record : SignedServiceRecord W) (expectedGroup : W)
    (members : MemberSet W) (nowUnixMillis : ℕ) : Result (Option (Service W) × AddressBook W) := do
  record.verify
  reject (record.body.groupId ≠ expectedGroup)
    (invalidConfiguration "signed service record group mismatch")
  let member ← require members.records[record.body.owner]? (.error .unknownSender)
  reject (member.authorizedFor record.body.serviceKind = false) (.error .unknownSender)
  reject (record.body.expiresAtUnixMillis ≤ nowUnixMillis ∨
    saturatingAdd nowUnixMillis maxServiceRecordLifetimeMillis < record.body.expiresAtUnixMillis)
    (invalidConfiguration "signed service record is expired or exceeds the maximum lifetime")
  reject (book.signedRecords[record.body.key]?.any fun current =>
    decide (record.body.generation ≤ current.body.generation))
    (invalidConfiguration "signed service record generation did not advance")
  let serviceKey : ServiceKey W := ⟨record.body.serviceKind, record.body.owner⟩
  pure (book.services[serviceKey]?,
    { services := if record.body.tombstone then book.services.erase serviceKey
        else book.services.insert serviceKey record.body.service
      signedRecords := book.signedRecords.insert record.body.key record })

end AddressBook

end Blossom
