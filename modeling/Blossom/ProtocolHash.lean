import Blossom.OrderedMap
import Blossom.PrefixCode
import Mathlib.Data.List.Lex

/-!
# Protocol hashes and signatures

A hash is a 32-byte word, and so is a public key. The hasher receives a sequence of
fields; what is hashed is the sequence itself, so that two preimages with different
fields are different preimages. The hash function and the signature scheme are
parameters: results that rest on collision resistance say so in a hypothesis.
-/

namespace Blossom

/-- The domain-separation constants of the protocol's hash preimages. -/
inductive Domain where
  | haParameters | haMembership | haCandidate | haEpoch | haAmendment | haRevision
  | haHistoryAccumulator | haHistoryCheckpoint | haMembershipProposal
  | nodeAdmission | encounterRecord | filteredTransactionSlot
  | messageSignature | roundSkipManifest | roundSkipVote | consensusParameters
  | fairBlockOrderSeed | fairBlockOrderKey | memberRegistry
  | epochMembers | epochPreviousNonce | epochConsensusParameters
  | commandMerkleLeaf | commandMerkleNode | batchReference | availabilityReceipt
  | orderStatement | orderCertificate | committeeTransitionStatement
  | committeeTransitionCertificate | readBarrierStatement
  | orderVote | readBarrierVote
  deriving DecidableEq

def Domain.all : List Domain :=
  [.haParameters, .haMembership, .haCandidate, .haEpoch, .haAmendment, .haRevision,
    .haHistoryAccumulator, .haHistoryCheckpoint, .haMembershipProposal,
    .nodeAdmission, .encounterRecord, .filteredTransactionSlot,
    .messageSignature, .roundSkipManifest, .roundSkipVote, .consensusParameters,
    .fairBlockOrderSeed, .fairBlockOrderKey, .memberRegistry,
    .epochMembers, .epochPreviousNonce, .epochConsensusParameters,
    .commandMerkleLeaf, .commandMerkleNode, .batchReference, .availabilityReceipt,
    .orderStatement, .orderCertificate, .committeeTransitionStatement,
    .committeeTransitionCertificate, .readBarrierStatement,
    .orderVote, .readBarrierVote]

/-- One field fed to the hasher: a domain constant, a fixed-width integer, a
variable-length byte string, or a 32-byte word. -/
inductive Field (W : Type) where
  | tag (d : Domain)
  | num (n : ℕ)
  | bytes (b : List UInt8)
  | word (w : W)
  deriving DecidableEq

/-- A signature is 64 bytes long: two words. -/
structure Signature (W : Type) where
  first : W
  second : W
  deriving DecidableEq

instance {W : Type} [DecidableEq W] : LawfulBEq (Signature W) := inferInstance

/-- The protocol hash and the signature check over words of type `W`. -/
class ProtocolCrypto (W : Type) extends LinearOrder W, Inhabited W where
  hash : List (Field W) → W
  verify : Signature W → List (Field W) → W → Bool

variable {W : Type} [ProtocolCrypto W]

instance word_transOrd : Std.TransOrd W := inferInstance

instance word_lawfulEqOrd : Std.LawfulEqOrd W := inferInstance

instance word_lawfulBEq : LawfulBEq W := inferInstance

abbrev protocolHash (fs : List (Field W)) : W := ProtocolCrypto.hash fs

instance : Inhabited (Signature W) := ⟨⟨default, default⟩⟩

def hashWords (ws : List W) : W := protocolHash (ws.map .word)

/-- Collision freedom of the hash. -/
def HashInjective (W : Type) [ProtocolCrypto W] : Prop :=
  Function.Injective (protocolHash : List (Field W) → W)

theorem hashWords_injective (h : HashInjective W) :
    Function.Injective (hashWords : List W → W) := by
  intro a b hab
  have hm : a.map Field.word = b.map Field.word := h hab
  exact List.map_injective_iff.mpr (fun _ _ hw => Field.word.inj hw) hm

/-- The encoding of an optional field: a presence byte and the fields. -/
def optionFields {α : Type} (f : α → List (Field W)) : Option α → List (Field W)
  | none => [.num 0]
  | some a => .num 1 :: f a

/-- The encoding of a sequence: its length and the elements. -/
def listFields {α : Type} (f : α → List (Field W)) (xs : List α) : List (Field W) :=
  .num xs.length :: xs.flatMap f

def signatureFields (s : Signature W) : List (Field W) := [.word s.first, .word s.second]

section Codes

omit [ProtocolCrypto W]

theorem word_prefixCode : PrefixCode fun w : W => [Field.word w] := by
  intro a b r s h
  simpa using h

theorem listFields_prefixCode {α : Type} {f : α → List (Field W)} (hf : PrefixCode f) :
    PrefixCode (listFields f) := by
  intro xs ys r s h
  simp only [listFields, List.cons_append, List.cons.injEq, Field.num.injEq] at h
  exact hf.flatMap_append h.1 h.2

theorem signatureFields_prefixCode : PrefixCode (signatureFields : Signature W → _) := by
  intro a b r s h
  simp only [signatureFields, List.cons_append, List.nil_append, List.cons.injEq,
    Field.word.injEq] at h
  obtain ⟨hf, hs, hr⟩ := h
  exact ⟨by cases a; cases b; simp_all, hr⟩

end Codes

/-- A field as numbers, its words by a code of their own. -/
def Field.numbers (wordCode : W → List ℕ) : Field W → List ℕ
  | .tag d => [0, d.ctorIdx]
  | .num n => [1, n]
  | .bytes b => 2 :: b.length :: b.map UInt8.toNat
  | .word w => 3 :: wordCode w

theorem Domain.ctorIdx_injective : Function.Injective Domain.ctorIdx := by
  intro a b h
  have hd (d : Domain) : Domain.all[d.ctorIdx]? = some d := by cases d <;> rfl
  have hs : some a = some b := by rw [← hd a, h, hd b]
  exact Option.some.inj hs

omit [ProtocolCrypto W] in
theorem Field.numbers_prefixCode {wordCode : W → List ℕ} (hw : PrefixCode wordCode) :
    PrefixCode (Field.numbers wordCode) := by
  intro f g r s h
  cases f <;> cases g <;>
    simp only [numbers, List.cons_append, List.nil_append, List.cons.injEq] at h
  case tag.tag d d' => exact ⟨by rw [Domain.ctorIdx_injective h.2.1], h.2.2⟩
  case num.num n n' => exact ⟨by rw [h.2.1], h.2.2⟩
  case bytes.bytes b b' =>
    obtain ⟨-, hl, hr⟩ := h
    obtain ⟨hb, hr⟩ := List.append_inj hr (by simpa using hl)
    have hinj : Function.Injective (List.map UInt8.toNat) :=
      List.map_injective_iff.mpr fun _ _ h => UInt8.toNat_inj.mp h
    exact ⟨by rw [hinj hb], hr⟩
  case word.word w w' =>
    obtain ⟨rfl, hr⟩ := hw w w' r s h.2
    exact ⟨rfl, hr⟩
  all_goals omega

/-!
The free words realise a collision-free hash: a hash is the flattened preimage with a
leading marker, and keys carry another marker.
-/

structure FreeWord where
  code : List ℕ
  deriving DecidableEq

namespace FreeWord

def key (n : ℕ) : FreeWord := ⟨[0, n]⟩

def domainCode (d : Domain) : ℕ := d.ctorIdx

def fieldCode : Field FreeWord → List ℕ
  | .tag d => [0, domainCode d]
  | .num n => [1, n]
  | .bytes b => 2 :: b.length :: b.map UInt8.toNat
  | .word w => 3 :: w.code.length :: w.code

def digest (fs : List (Field FreeWord)) : FreeWord := ⟨1 :: fs.flatMap fieldCode⟩

instance : LinearOrder FreeWord :=
  LinearOrder.lift' FreeWord.code (fun a b h => by cases a; cases b; cases h; rfl)

instance : ProtocolCrypto FreeWord where
  default := ⟨[]⟩
  hash := digest
  verify s msg k := s.first = k ∧ s.second = digest msg

theorem fieldCode_prefixCode : PrefixCode fieldCode := by
  have hcode : fieldCode = Field.numbers fun w => w.code.length :: w.code := by
    funext f
    cases f <;> rfl
  rw [hcode]
  refine Field.numbers_prefixCode fun w w' r s h => ?_
  obtain ⟨hl, hr⟩ := List.cons.inj h
  obtain ⟨hb, hr⟩ := List.append_inj hr hl
  exact ⟨by cases w; cases w'; cases hb; rfl, hr⟩

private theorem fieldCode_ne_nil (f : Field FreeWord) : fieldCode f ≠ [] := by
  cases f <;> simp [fieldCode]

theorem hash_injective : HashInjective FreeWord := by
  intro a b h
  have hc : 1 :: a.flatMap fieldCode = 1 :: b.flatMap fieldCode := congrArg FreeWord.code h
  exact fieldCode_prefixCode.flatMap_injective fieldCode_ne_nil (List.cons.inj hc).2

end FreeWord

end Blossom
