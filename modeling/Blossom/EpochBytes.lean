import Blossom.ByteCodec
import Blossom.EpochHash

/-!
# The bytes of an epoch

`EpochBody::to_bytes` writes the keys of the verifiers and of the blocks one after the other, without
their number, and the consensus parameters only where there are any. Among the epochs that extend a
known one the bytes can be read back all the same: the members in front of the keys determine the
verifiers, and the parameters take 47 bytes, which no number of keys does.
-/

namespace Blossom

open ByteCodec CheckedSteps OrderedMap

/-- Hashes and keys are words of 32 bytes. -/
class WordBytes (W : Type) where
  bytes : W → { bytes : List UInt8 // bytes.length = 32 }
  word : { bytes : List UInt8 // bytes.length = 32 } → W
  word_bytes : ∀ w : W, word (bytes w) = w

variable {W : Type} [WordBytes W]

def wordBytes (w : W) : List UInt8 := (WordBytes.bytes w).1

theorem length_wordBytes (w : W) : (wordBytes w).length = 32 := (WordBytes.bytes w).2

theorem wordBytes_injective : Function.Injective (wordBytes : W → List UInt8) := by
  intro a b h
  rw [← WordBytes.word_bytes a, ← WordBytes.word_bytes b, Subtype.ext h]

theorem wordBytes_prefixCode : PrefixCode (wordBytes : W → List UInt8) := by
  intro a b r s h
  obtain ⟨hword, hrest⟩ := List.append_inj h (by rw [length_wordBytes, length_wordBytes])
  exact ⟨wordBytes_injective hword, hrest⟩

theorem length_flatMap_wordBytes (ws : List W) : (ws.flatMap wordBytes).length = 32 * ws.length := by
  simp [List.length_flatMap, length_wordBytes, mul_comm]

/-! ### The registry -/

def wordCodec : Codec W := (Codec.fixed 32).iso WordBytes.word WordBytes.bytes WordBytes.word_bytes

def boolCodec : Codec Bool :=
  Codec.byte.iso (fun b => b = 1) (fun b => if b then 1 else 0) (by decide)

def NodeIdentity.codec : Codec (NodeIdentity W) :=
  (wordCodec.pair (Codec.bytes.pair (Codec.bytes.pair ((Codec.number 2).pair boolCodec)))).iso
    (fun r => ⟨r.1, r.2.1, r.2.2.1, r.2.2.2.1, r.2.2.2.2⟩)
    (fun n => (n.publicKey, n.protocol, n.host, n.port, n.shuffle)) fun _ => rfl

def MemberCapability.codec : Codec MemberCapability :=
  (Codec.number 1).iso
    (fun n => if n = 0 then .client else if n = 1 then .relay else .validator) MemberCapability.rank
    fun c => by cases c <;> rfl

def MemberStatus.codec : Codec MemberStatus :=
  (Codec.number 1).iso
    (fun n => if n = 0 then .active else if n = 1 then .suspended else .revoked) MemberStatus.byte
    fun s => by cases s <;> rfl

def MemberRecord.codec : Codec (MemberRecord W) :=
  (NodeIdentity.codec.pair ((Codec.set MemberCapability.codec).pair
    ((Codec.number 8).pair MemberStatus.codec))).iso
    (fun r => ⟨r.1, r.2.1, r.2.2.1, r.2.2.2⟩)
    (fun r => (r.identity, r.capabilities, r.generation, r.status)) fun _ => rfl

def MemberSet.codec [LinearOrder W] : Codec (MemberSet W) :=
  (Codec.map wordCodec MemberRecord.codec).iso MemberSet.mk MemberSet.records fun _ => rfl

/-! ### The body -/

def epochMembersTag : List UInt8 := "blossom/epoch-members/v1".toUTF8.toList

def epochPreviousNonceTag : List UInt8 := "blossom/epoch-previous-nonce/v1".toUTF8.toList

def epochConsensusParametersTag : List UInt8 :=
  "blossom/epoch-consensus-parameters/v1".toUTF8.toList

def previousNonceBytes : Option ℕ → List UInt8
  | some previousNonce => epochPreviousNonceTag ++ Codec.digits 8 previousNonce
  | none => []

def consensusParametersBytes : Option ConsensusParameters → List UInt8
  | some parameters => epochConsensusParametersTag ++ Codec.digits 2 parameters.version ++
      Codec.digits 8 parameters.quorumSize.get
  | none => []

def EpochBody.toBytes [LinearOrder W] (b : EpochBody W) : Result (List UInt8) := do
  let members ← require (MemberSet.codec.encode b.members)
    (.panicked "member set serialization is infallible")
  pure (wordBytes b.groupId ++ (epochMembersTag ++ (members ++ (wordBytes b.lastEpoch ++
    (previousNonceBytes b.previousNonce ++ (Codec.digits 8 b.nonce ++ (wordBytes b.merkleRoot ++
    (b.verifiers.keys.flatMap wordBytes ++ (b.blocks.keys.flatMap wordBytes ++
    consensusParametersBytes b.consensusParameters)))))))))

/-- `HashType::hash` of the bytes, for a digest of byte strings. -/
def EpochBody.hashBytes [LinearOrder W] (digest : List UInt8 → W) (b : EpochBody W) : Result W := do
  let bytes ← b.toBytes
  pure (digest bytes)

/-- The bytes of two bodies are a collision of the digest. -/
def EpochBody.Collides [LinearOrder W] (digest : List UInt8 → W) (b b' : EpochBody W) : Prop :=
  ∃ bytes bytes', b.toBytes = .ok bytes ∧ b'.toBytes = .ok bytes' ∧ bytes ≠ bytes' ∧
    digest bytes = digest bytes'

theorem length_consensusParametersBytes (parameters : Option ConsensusParameters) :
    (consensusParametersBytes parameters).length = if parameters.isSome then 47 else 0 := by
  cases parameters with
  | none => rfl
  | some parameters =>
    have htag : epochConsensusParametersTag.length = 37 := by decide +kernel
    simp [consensusParametersBytes, Codec.length_digits, htag]

/-- The keys end where their number of bytes says: 47 is no multiple of 32. -/
theorem keys_append_parameters_inj {keys keys' : List W}
    {parameters parameters' : Option ConsensusParameters}
    (h : keys.flatMap wordBytes ++ consensusParametersBytes parameters =
      keys'.flatMap wordBytes ++ consensusParametersBytes parameters') :
    keys = keys' ∧ parameters.isSome = parameters'.isSome := by
  have hlength := congrArg List.length h
  simp only [List.length_append, length_flatMap_wordBytes, length_consensusParametersBytes]
    at hlength
  have hsome : parameters.isSome = parameters'.isSome := by
    cases hp : parameters.isSome <;> cases hp' : parameters'.isSome <;>
      simp [hp, hp'] at hlength ⊢ <;> omega
  have hsize : (consensusParametersBytes parameters).length =
      (consensusParametersBytes parameters').length := by
    rw [length_consensusParametersBytes, length_consensusParametersBytes, hsome]
  obtain ⟨hkeys, -⟩ := List.append_inj' h hsize
  have hne (w : W) : wordBytes w ≠ [] := by
    intro hnil
    have hword := length_wordBytes w
    simp [hnil] at hword
  exact ⟨wordBytes_prefixCode.flatMap_injective hne hkeys, hsome⟩

/-- Bodies that agree in front of the members, and whose members determine the verifiers, are read
back from their bytes. -/
theorem EpochBody.toBytes_inj [LinearOrder W] {b b' : EpochBody W} {bytes : List UInt8}
    (h : b.toBytes = .ok bytes) (h' : b'.toBytes = .ok bytes) (hgroup : b.groupId = b'.groupId)
    (hlast : b.lastEpoch = b'.lastEpoch) (hprev : b.previousNonce = b'.previousNonce)
    (hnonce : b.nonce = b'.nonce) (hver : b.members = b'.members → b.verifiers = b'.verifiers) :
    b.members = b'.members ∧ b.blocks.keys = b'.blocks.keys ∧
      b.consensusParameters.isSome = b'.consensusParameters.isSome := by
  simp only [toBytes, bind_eq_ok, require_eq_ok, pure_eq_ok] at h h'
  obtain ⟨members, hmembers, rfl⟩ := h
  obtain ⟨members', hmembers', heq⟩ := h'
  rw [hgroup, hlast, hprev, hnonce] at heq
  obtain ⟨hset, heq⟩ := Codec.append_inj hmembers hmembers'
    (List.append_cancel_left (List.append_cancel_left heq.symm))
  have heq := List.append_cancel_left (List.append_cancel_left (List.append_cancel_left heq))
  obtain ⟨-, heq⟩ := List.append_inj heq (by rw [length_wordBytes, length_wordBytes])
  rw [hver hset] at heq
  exact ⟨hset, keys_append_parameters_inj (List.append_cancel_left heq)⟩

section Extension

variable [ProtocolCrypto W] [EpochCodec W]

/-- The hash of an epoch that extends a known one determines what it commits, unless the bytes of
the two are a collision. -/
theorem epoch_hash_binds_epoch (digest : List UInt8 → W) {previous first second : Epoch W}
    {policy policy' : ConsensusNodeRemovalPolicy}
    (hf : validateCertifiedExtensionBy (EpochBody.hashBytes digest) previous first policy = .ok ())
    (hs : validateCertifiedExtensionBy (EpochBody.hashBytes digest) previous second policy' = .ok ())
    (h : first.hash = second.hash) (hdigest : ¬first.body.Collides digest second.body) :
    first.body.nonce = second.body.nonce ∧ first.body.blocks.keys = second.body.blocks.keys ∧
      first.body.members = second.body.members ∧
      first.body.verifiers.keys = second.body.verifiers.keys ∧
      first.body.consensusParameters = second.body.consensusParameters := by
  obtain ⟨⟨hgroup, hlast, hprev, hnonce, hpar⟩, hhash, hver⟩ := validateCertifiedExtensionBy_spec hf
  obtain ⟨⟨hgroup', hlast', hprev', hnonce', hpar'⟩, hhash', hver'⟩ :=
    validateCertifiedExtensionBy_spec hs
  simp only [EpochBody.hashBytes, bind_eq_ok, pure_eq_ok] at hhash hhash'
  obtain ⟨bytes, hbytes, hdig⟩ := hhash
  obtain ⟨bytes', hbytes', hdig'⟩ := hhash'
  have heq : bytes = bytes' := by
    by_contra hne
    exact hdigest ⟨bytes, bytes', hbytes, hbytes', hne, by rw [hdig, hdig', h]⟩
  subst heq
  have hverifiers (hset : first.body.members = second.body.members) :
      first.body.verifiers = second.body.verifiers := by rw [hver, hver', hset]
  obtain ⟨hset, hkeys, hsome⟩ := EpochBody.toBytes_inj hbytes hbytes' (hgroup.trans hgroup'.symm)
    (hlast.trans hlast'.symm) (hprev.trans hprev'.symm) (hnonce.trans hnonce'.symm) hverifiers
  refine ⟨hnonce.trans hnonce'.symm, hkeys, hset, by rw [hverifiers hset], ?_⟩
  -- Where both write parameters, validation has compared them with the predecessor's.
  have hpars := hpar.trans hpar'.symm
  unfold EpochBody.effectiveConsensusParameters at hpars
  generalize first.body.consensusParameters = p at hpars hsome ⊢
  generalize second.body.consensusParameters = q at hpars hsome ⊢
  cases p <;> cases q <;> simp_all

end Extension

/-- Words of 32 bytes as numbers, hashed by a checksum. -/
abbrev ByteWord : Type := Fin (256 ^ 32)

namespace ByteWord

def checksum (numbers : List ℕ) : ByteWord :=
  Fin.ofNat _ (numbers.foldl (fun sum n => (257 * sum + n + 1) % 256 ^ 32) 0)

def digest (bytes : List UInt8) : ByteWord := checksum (bytes.map UInt8.toNat)

def hash (fs : List (Field ByteWord)) : ByteWord :=
  checksum (fs.flatMap (Field.numbers fun w => [w.val]))

instance : WordBytes ByteWord where
  bytes w := ⟨Codec.digits 32 w.val, Codec.length_digits 32 w.val⟩
  word b := Fin.ofNat _ (((Codec.readDigits 32 b.1).map Prod.fst).getD 0)
  word_bytes w := by
    have hread := Codec.readDigits_digits w.isLt []
    rw [List.append_nil] at hread
    simp [hread]

instance : ProtocolCrypto ByteWord where
  default := 0
  hash := hash
  verify s msg k := s.first = k ∧ (s.second = hash msg ∨ s.second = hash (.num 1 :: msg))

instance : EpochCodec ByteWord where
  merkleRoot := hashWords
  decodeMemberOperation _ := none

def writers : List ByteWord := [3, 5, 7]

/-- The epoch of the writers' blocks with a certificate that is signed with a salt. -/
def certified (salt : List (Field ByteWord)) : Epoch ByteWord :=
  let blocks : BTreeMap ByteWord (Block ByteWord) := writers.foldl
    (fun blocks writer => blocks.insert (writerBlock writers [] writer).hash
      (writerBlock writers [] writer)) ∅
  let epoch := buildVerifiedEpoch (writersGenesis writers) blocks .disabled
  let hash := ((epoch.body.hashBytes digest).toOption).getD default
  let signatures : BTreeMap ℕ (Signature ByteWord) := writers.zipIdx.foldl
    (fun signatures writer => signatures.insert writer.2
      ⟨writer.1, protocolHash (salt ++ [.word hash])⟩) ∅
  { epoch with hash := hash, signatures := signatures }

end ByteWord

open ByteWord in
theorem epoch_hash_binds_certified :
    certified [] ≠ certified [.num 1] ∧ (certified []).body.blocks.size = 3 ∧
    (certified []).body.nonce = (certified [.num 1]).body.nonce ∧
      (certified []).body.blocks.keys = (certified [.num 1]).body.blocks.keys ∧
      (certified []).body.members = (certified [.num 1]).body.members ∧
      (certified []).body.verifiers.keys = (certified [.num 1]).body.verifiers.keys ∧
      (certified []).body.consensusParameters = (certified [.num 1]).body.consensusParameters :=
  have h : (certified [] ≠ certified [.num 1] ∧ (certified []).body.blocks.size = 3) ∧
      validateCertifiedExtensionBy (EpochBody.hashBytes digest) (writersGenesis writers)
        (certified []) .disabled = .ok () ∧
      validateCertifiedExtensionBy (EpochBody.hashBytes digest) (writersGenesis writers)
        (certified [.num 1]) .disabled = .ok () := by
    decide +kernel
  have hdigest : ¬(certified []).body.Collides digest (certified [.num 1]).body := by
    rintro ⟨bytes, bytes', hbytes, hbytes', hne, -⟩
    exact hne (Except.ok.inj (hbytes.symm.trans hbytes'))
  ⟨h.1.1, h.1.2, epoch_hash_binds_epoch digest h.2.1 h.2.2 rfl hdigest⟩

end Blossom
