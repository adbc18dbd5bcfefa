import Blossom.Failure
import Blossom.ProtocolHash

/-!
# Blocks

A block commits to its validator, its target epoch, its records and the transactions
it carries. The integrity check recomputes the body hash and the transaction root and
verifies the records that carry signatures of their own.
-/

namespace Blossom

open CheckedSteps

variable {W : Type}

def blockApplicationStateMaxBytes : ℕ := 8 * 1024

structure NodeIdentity (W : Type) where
  publicKey : W
  protocol : List UInt8
  host : List UInt8
  port : ℕ
  shuffle : Bool
  deriving DecidableEq

instance [ProtocolCrypto W] : LawfulBEq (NodeIdentity W) := inferInstance

inductive ServiceKind where
  | relay | block | consensus | engine | addressBook
  deriving DecidableEq

structure Service (W : Type) where
  kind : ServiceKind
  publicKey : W
  protocol : List UInt8
  host : List UInt8
  port : ℕ
  deriving DecidableEq

structure NodeAdmissionBody (W : Type) where
  node : NodeIdentity W
  service : Service W
  lastEpoch : W
  nonce : ℕ
  deriving DecidableEq

structure NodeAdmission (W : Type) where
  body : NodeAdmissionBody W
  signature : Signature W
  deriving DecidableEq

inductive EncounterPhase where
  | dispatch | verification | proposal | commit | epochStarted | catchUp
  deriving DecidableEq

inductive EncounterOutcome where
  | missingSignature | invalidSignature
  deriving DecidableEq

structure EncounterRecordBody (W : Type) where
  observer : W
  subject : W
  lastEpoch : W
  nonce : ℕ
  round : ℕ
  phase : EncounterPhase
  outcome : EncounterOutcome
  evidenceHash : Option W
  observedAtMicros : ℕ
  deriving DecidableEq

structure EncounterRecord (W : Type) where
  body : EncounterRecordBody W
  signature : Signature W
  deriving DecidableEq

/-- An opaque application transaction, in the build without filtered transactions. -/
structure Transaction (W : Type) where
  hash : W
  payload : List UInt8
  deriving DecidableEq

structure BlockBody (W : Type) where
  validator : W
  lastEpoch : W
  nonce : ℕ
  created : ℕ
  dispatched : ℕ
  merkleRoot : W
  applicationState : List UInt8
  encounterRecords : List (EncounterRecord W)
  nodeAdmissions : List (NodeAdmission W)
  txs : List (Transaction W)
  deriving DecidableEq

structure Block (W : Type) where
  hash : W
  signature : Signature W
  body : BlockBody W
  deriving DecidableEq

instance [DecidableEq W] : LawfulBEq (Block W) := inferInstance

def serviceKindByte : ServiceKind → ℕ
  | .relay => 1
  | .block => 2
  | .consensus => 3
  | .engine => 4
  | .addressBook => 5

def EncounterPhase.byte : EncounterPhase → ℕ
  | .dispatch => 1
  | .verification => 2
  | .proposal => 3
  | .commit => 4
  | .epochStarted => 5
  | .catchUp => 6

def EncounterOutcome.byte : EncounterOutcome → ℕ
  | .missingSignature => 1
  | .invalidSignature => 2

def strFields (s : List UInt8) : List (Field W) := [.num s.length, .bytes s]

def NodeAdmissionBody.fields (a : NodeAdmissionBody W) : List (Field W) :=
  [Field.tag .nodeAdmission, .word a.node.publicKey] ++ strFields a.node.protocol ++
    strFields a.node.host ++ [Field.num a.node.port, .num a.node.shuffle.toNat,
    .num (serviceKindByte a.service.kind), .word a.service.publicKey] ++
    strFields a.service.protocol ++ strFields a.service.host ++
    [Field.num a.service.port, .word a.lastEpoch, .num a.nonce]

def Transaction.fields (t : Transaction W) : List (Field W) :=
  [.word t.hash, .num t.payload.length, .bytes t.payload]

section Crypto

variable [ProtocolCrypto W]

def EncounterRecordBody.fields (r : EncounterRecordBody W) : List (Field W) :=
  [Field.tag .encounterRecord, .word r.observer, .word r.subject, .word r.lastEpoch, .num r.nonce,
    .num r.round, .num r.phase.byte, .num r.outcome.byte] ++
    (match r.evidenceHash with
      | some h => [Field.num 1, .word h]
      | none => [Field.num 0, .word default]) ++
    [Field.num r.observedAtMicros]

def checkSignature (s : Signature W) (message : List (Field W)) (key : W) : Result Unit :=
  reject (ProtocolCrypto.verify s message key = false) (.error .signatureError)

def EncounterRecord.verify (r : EncounterRecord W) : Result Unit :=
  checkSignature r.signature [.word (protocolHash r.body.fields)] r.body.observer

def validateConsensusServiceBinding (node : NodeIdentity W) (service : Service W) :
    Result Unit := do
  reject (service.kind ≠ .consensus) (wireProtocol "node admission requires a consensus service")
  reject (service.publicKey ≠ node.publicKey ∨ service.protocol ≠ node.protocol ∨
    service.host ≠ node.host ∨ service.port ≠ node.port) (.error .keyMismatch)

def NodeAdmission.verify (a : NodeAdmission W) : Result Unit := do
  validateConsensusServiceBinding a.body.node a.body.service
  checkSignature a.signature a.body.fields a.body.node.publicKey

/-- `Transaction::new`: the identifier of a transparent transaction hashes its payload. -/
def Transaction.new (payload : List UInt8) : Transaction W :=
  ⟨protocolHash [.bytes payload], payload⟩

def BlockBody.fields (b : BlockBody W) : List (Field W) :=
  [Field.word b.validator, .word b.lastEpoch, .num b.nonce, .num b.created, .num b.dispatched,
    .word b.merkleRoot, .num b.applicationState.length, .bytes b.applicationState] ++
    listFields (fun r => r.body.fields ++ signatureFields r.signature) b.encounterRecords ++
    listFields (fun a => a.body.fields ++ signatureFields a.signature) b.nodeAdmissions ++
    b.txs.flatMap Transaction.fields

def BlockBody.bodyHash (b : BlockBody W) : W := protocolHash b.fields

def BlockBody.computeMerkleRoot (b : BlockBody W) : W := hashWords (b.txs.map Transaction.hash)

def BlockBody.validateEncounterRecords (b : BlockBody W) : Result Unit :=
  b.encounterRecords.forM fun record => do
    reject (record.body.observer ≠ b.validator) (.error .unknownSender)
    record.verify

def BlockBody.validateNodeAdmissions (b : BlockBody W) : Result Unit :=
  b.nodeAdmissions.forM NodeAdmission.verify

def Block.sealUnsigned (b : Block W) (validator : W) : Block W :=
  let body := { b.body with validator := validator }
  let body := { body with merkleRoot := body.computeMerkleRoot }
  { hash := body.bodyHash, signature := default, body := body }

def Block.verifyUnsignedIntegrityWithHash (b : Block W) (expectedHash : W) : Result Unit := do
  reject (blockApplicationStateMaxBytes < b.body.applicationState.length)
    (.error (.blockApplicationStateTooLarge blockApplicationStateMaxBytes
      b.body.applicationState.length))
  b.body.validateEncounterRecords
  b.body.validateNodeAdmissions
  reject (b.hash ≠ expectedHash ∨ b.body.bodyHash ≠ expectedHash) (.error .invalidBlockHash)
  reject (b.body.merkleRoot ≠ b.body.computeMerkleRoot) (.error .invalidBlockHash)

def Block.verifyIntegrityWithHash (b : Block W) (expectedHash : W) : Result Unit := do
  b.verifyUnsignedIntegrityWithHash expectedHash
  checkSignature b.signature [.word b.hash] b.body.validator

/-- The serialised block, as it stands inside larger hashed records. -/
def Block.fields (b : Block W) : List (Field W) :=
  .word b.hash :: signatureFields b.signature ++ b.body.fields

def BlockBody.empty (created : ℕ) : BlockBody W where
  validator := default
  lastEpoch := default
  nonce := 0
  created := created
  dispatched := 0
  merkleRoot := default
  applicationState := []
  encounterRecords := []
  nodeAdmissions := []
  txs := []

/-!
The hash of a block determines its body: every part of the body is encoded with its
length, or stands at the end.
-/

omit [ProtocolCrypto W] in
theorem strFields_prefixCode : PrefixCode (strFields : List UInt8 → List (Field W)) := by
  intro a b r s h
  simp only [strFields, List.cons_append, List.nil_append, List.cons.injEq, Field.bytes.injEq] at h
  exact h.2

theorem toNat_injective : Function.Injective Bool.toNat := by
  intro a b h
  cases a <;> cases b <;> first | rfl | cases h

theorem serviceKindByte_injective : Function.Injective serviceKindByte := by
  intro a b h
  cases a <;> cases b <;> first | rfl | cases h

theorem EncounterPhase.byte_injective : Function.Injective EncounterPhase.byte := by
  intro a b h
  cases a <;> cases b <;> first | rfl | cases h

theorem EncounterOutcome.byte_injective : Function.Injective EncounterOutcome.byte := by
  intro a b h
  cases a <;> cases b <;> first | rfl | cases h

omit [ProtocolCrypto W] in
theorem NodeAdmissionBody.fields_prefixCode :
    PrefixCode (NodeAdmissionBody.fields : NodeAdmissionBody W → _) := by
  rintro ⟨⟨ak, ap, ah, at', as⟩, ⟨sk, sw, sp, sh, st⟩, al, an⟩
    ⟨⟨bk, bp, bh, bt, bs⟩, ⟨tk, tw, tp, th, tt⟩, bl, bn⟩ r s h
  simp only [fields, List.append_assoc, List.cons_append, List.nil_append, List.cons.injEq,
    Field.word.injEq, Field.num.injEq, strFields_prefixCode.append_eq_iff, toNat_injective.eq_iff,
    serviceKindByte_injective.eq_iff, true_and] at h
  obtain ⟨rfl, rfl, rfl, rfl, rfl, rfl, rfl, rfl, rfl, rfl, rfl, rfl, hr⟩ := h
  exact ⟨rfl, hr⟩

theorem EncounterRecordBody.fields_prefixCode :
    PrefixCode (EncounterRecordBody.fields : EncounterRecordBody W → _) := by
  rintro ⟨ao, as, al, an, ar, ap, at', ae, am⟩ ⟨bo, bs, bl, bn, br, bp, bt, be, bm⟩ r s h
  simp only [fields, List.append_assoc, List.cons_append, List.nil_append, List.cons.injEq,
    Field.word.injEq, Field.num.injEq, EncounterPhase.byte_injective.eq_iff,
    EncounterOutcome.byte_injective.eq_iff, true_and] at h
  obtain ⟨rfl, rfl, rfl, rfl, rfl, rfl, rfl, h⟩ := h
  cases ae <;> cases be <;> simp_all

theorem BlockBody.fields_injective :
    Function.Injective (BlockBody.fields : BlockBody W → _) := by
  rintro ⟨av, al, an, ac, ad, am, as, ae, aa, at'⟩ ⟨bv, bl, bn, bc, bd, bm, bs, be, ba, bt⟩ h
  have hrec : PrefixCode fun r : EncounterRecord W =>
      r.body.fields ++ signatureFields r.signature := by
    rintro ⟨a, sa⟩ ⟨b, sb⟩ r s h
    simpa [EncounterRecordBody.fields_prefixCode.append_eq_iff,
      signatureFields_prefixCode.append_eq_iff, and_assoc] using h
  have hadm : PrefixCode fun a : NodeAdmission W =>
      a.body.fields ++ signatureFields a.signature := by
    rintro ⟨a, sa⟩ ⟨b, sb⟩ r s h
    simpa [NodeAdmissionBody.fields_prefixCode.append_eq_iff,
      signatureFields_prefixCode.append_eq_iff, and_assoc] using h
  have htx : PrefixCode (Transaction.fields : Transaction W → _) := by
    rintro ⟨a, pa⟩ ⟨b, pb⟩ r s h
    simp_all [Transaction.fields]
  simp only [fields, List.append_assoc, List.cons_append, List.nil_append, List.cons.injEq,
    Field.word.injEq, Field.num.injEq, Field.bytes.injEq,
    (listFields_prefixCode hrec).append_eq_iff, (listFields_prefixCode hadm).append_eq_iff,
    (htx.flatMap_injective fun _ => by simp [Transaction.fields]).eq_iff] at h
  obtain ⟨rfl, rfl, rfl, rfl, rfl, rfl, -, rfl, rfl, rfl, rfl⟩ := h
  rfl

theorem BlockBody.bodyHash_injective (h : HashInjective W) :
    Function.Injective (BlockBody.bodyHash : BlockBody W → W) :=
  fun _ _ hab => fields_injective (h hab)

end Crypto

end Blossom
