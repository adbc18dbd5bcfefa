import Blossom.NumberWord
import Blossom.TrustedLog

/-!
# Production and validation of trusted epochs

A member builds an epoch from the blocks of the candidate it has locked, and every log
validates an epoch before it appends it. The two derive the next verifiers in different
ways.
-/

namespace Blossom

open CheckedSteps OrderedMap

variable {W : Type} [ProtocolCrypto W]

def writersVerify (head : Epoch W) (blocks : BTreeMap W (Block W)) : Bool :=
  (values blocks).all fun block => head.body.verifiers.contains block.body.validator

theorem TrustedRoundLock.candidate_of_validate {lock : TrustedRoundLock W} {selfKey : W}
    {head : Epoch W} (hvalid : lock.validate selfKey = .ok ())
    (hwriters : writersVerify head lock.blocks = true) :
    TrustedCandidate (head.body.verifiers.contains ·) lock.roundId.previousEpochHash
      lock.roundId.nonce lock.blocks := by
  rw [TrustedRoundLock.validate] at hvalid
  simp only [↓guard_bind_eq_ok, bind_eq_ok] at hvalid
  obtain ⟨-, -, writers, hblocks, -⟩ := hvalid
  have hc := (validateTrustedBlocks_isOk _).mp ⟨writers, hblocks⟩
  refine ⟨hc.target, fun key block hb => ?_, hc.intact, hc.distinct⟩
  rw [writersVerify, List.all_eq_true] at hwriters
  exact hwriters block (mem_values.mpr ⟨key, hb⟩)

section Production

variable [EpochCodec W] {s : LocalState W} {previous epoch : Epoch W}
  {round : ℕ} {quorum : TempQuorum W} {confirmed : BTreeSet W} {blocks : BTreeMap W (Block W)}

theorem prepareTrustedEpoch_eq (hhead : s.head? = some previous)
    (hquorum : s.getQuorum previous.target round = some quorum)
    (hblocks : quorum.trustedCandidateBlocks (.of confirmed) = some blocks)
    (h : s.prepareTrustedEpoch previous.target round confirmed = .ok epoch) :
    epoch = buildTrustedEpoch previous blocks s.consensusNodeRemovalPolicy := by
  rw [LocalState.prepareTrustedEpoch] at h
  simp only [↓guard_bind_eq_ok, bind_eq_ok, require_eq_ok, reject_eq_ok, pure_eq_ok] at h
  obtain ⟨⟨p, c⟩, hpc, -, q, hq, b, hb, rfl⟩ := h
  obtain ⟨hp, -, hc⟩ := LocalState.requireTarget_eq_ok.mp hpc
  rw [LocalState.getQuorum, hc, Option.bind_some, hq, Option.some.injEq] at hquorum
  rw [hhead, Option.some.injEq] at hp
  rw [hquorum, hblocks, Option.some.injEq] at hb
  rw [hp, hb]

/-- An epoch that a member builds from a candidate with a valid lock extends the trusted
chain exactly when the member registry keeps every verifier of the legacy transition. -/
theorem prepareTrustedEpoch_validates_iff {selfKey : W} {lock : TrustedRoundLock W}
    (hm : previous.body.members.WellKeyed) (hv : VerifiersKeyed previous.body.verifiers)
    (hhead : s.head? = some previous) (hquorum : s.getQuorum previous.target round = some quorum)
    (hheld : quorum.trustedCandidateBlocks lock.verification.body = some lock.blocks)
    (hlock : lock.validate selfKey = .ok ())
    (htarget : lock.roundId.previousEpochHash = previous.hash ∧
      lock.roundId.nonce = previous.body.nonce + 1)
    (hwriters : writersVerify previous lock.blocks = true)
    (h : s.prepareTrustedEpoch previous.target round lock.verification.body.blocks = .ok epoch) :
    validateTrustedExtension previous epoch s.consensusNodeRemovalPolicy = .ok () ↔
      RegistryKeeps previous.body.members
        (applyEpochMembershipTransition previous.body.verifiers lock.blocks previous.hash
          (previous.body.nonce + 1) s.consensusNodeRemovalPolicy)
        lock.blocks previous.body.groupId previous.hash := by
  have hcandidate := TrustedRoundLock.candidate_of_validate hlock hwriters
  rw [htarget.1, htarget.2] at hcandidate
  rw [prepareTrustedEpoch_eq hhead hquorum hheld h]
  exact validateTrustedExtension_build_iff hm hv hcandidate

end Production

/-! ### A member operation in a confirmed block -/

/-- The number words with a member operation that the codec can decode. -/
def MemberWord : Type := NumberWord

namespace MemberWord

instance : LinearOrder MemberWord := inferInstanceAs (LinearOrder NumberWord)

instance : ProtocolCrypto MemberWord := inferInstanceAs (ProtocolCrypto NumberWord)

def key (n : ℕ) : MemberWord := NumberWord.key n

def member (n : ℕ) : NodeIdentity MemberWord := ⟨key n, [], [], n, false⟩

def genesis : Epoch MemberWord := genesisEpoch default ([1, 2, 3].map member) (.new .least)

/-- The merkle root of no leaves is the default, as for a genesis. -/
instance : EpochCodec MemberWord where
  merkleRoot leaves := if leaves = [] then default else hashWords leaves
  decodeMemberOperation payload :=
    if payload = [7] then some ⟨default, genesis.hash, .suspend (key 3) 2⟩ else none

section

variable (payload : List UInt8)

def block : Block MemberWord :=
  Block.sealUnsigned ⟨default, default, { BlockBody.empty 0 with
    lastEpoch := genesis.hash, nonce := 1, txs := [.new payload] }⟩ (key 1)

def blocks : BTreeMap MemberWord (Block MemberWord) :=
  .ofList [((block payload).hash, block payload)] compare

def lock : TrustedRoundLock MemberWord where
  roundId := ⟨default, genesis.hash, 0, 1, 0⟩
  verification := ⟨⟨key 1, genesis.hash, 1, 0, default⟩, .of (keySet (blocks payload))⟩
  blocks := blocks payload

def quorum : TempQuorum MemberWord :=
  (initQuorum [key 1, key 2, key 3]).recordVerifiedDispatchBlocks (blocks payload)

def state : LocalState MemberWord :=
  (LocalState.new (member 1) genesis .disabled).setConsensus genesis.target
    ⟨key 1, 0, [.ofList [key 2, key 3] compare],
      (∅ : BTreeMap ℕ (TempQuorum MemberWord)).insert 0 (quorum payload)⟩

def prepared : Epoch MemberWord :=
  buildTrustedEpoch genesis (blocks payload) .disabled

end

def suspension : List UInt8 := memberOperationPrefix ++ [7]

end MemberWord

open MemberWord in
theorem MemberWord.state_quorum {payload : List UInt8} :
    (state payload).getQuorum genesis.target 0 = some (quorum payload) := by
  simp [LocalState.getQuorum, LocalState.getConsensus, state, LocalState.setConsensus]

open MemberWord in
theorem MemberWord.prepareTrustedEpoch_state {payload : List UInt8}
    (hheld : (quorum payload).trustedCandidateBlocks (.of (keySet (blocks payload))) =
      some (blocks payload)) (h : ((state payload).prepareTrustedEpoch genesis.target 0
      (keySet (blocks payload))).isOk = true) :
    (state payload).prepareTrustedEpoch genesis.target 0 (keySet (blocks payload)) =
      .ok (prepared payload) := by
  cases hp : (state payload).prepareTrustedEpoch genesis.target 0 (keySet (blocks payload)) with
  | error e =>
    rw [hp] at h
    cases h
  | ok epoch =>
    rw [prepareTrustedEpoch_eq rfl state_quorum hheld hp]
    rfl

open MemberWord in
/-- A confirmed block that suspends a member makes an epoch that no trusted log accepts. -/
theorem suspension_epoch_rejected :
    (lock suspension).validate (key 1) = .ok () ∧
      writersVerify genesis (lock suspension).blocks = true ∧
      (state suspension).prepareTrustedEpoch genesis.target 0
        (lock suspension).verification.body.blocks = .ok (prepared suspension) ∧
      validateTrustedExtension genesis (prepared suspension) .disabled ≠ .ok () :=
  ⟨by decide +kernel, by decide +kernel,
    prepareTrustedEpoch_state (by decide +kernel) (by decide +kernel), by decide +kernel⟩

open MemberWord in
theorem prepareTrustedEpoch_validates_iff_plain :
    validateTrustedExtension genesis (prepared [1]) (state [1]).consensusNodeRemovalPolicy =
        .ok () ↔
      RegistryKeeps genesis.body.members
        (applyEpochMembershipTransition genesis.body.verifiers (lock [1]).blocks genesis.hash
          (genesis.body.nonce + 1) (state [1]).consensusNodeRemovalPolicy)
        (lock [1]).blocks genesis.body.groupId genesis.hash := by
  have hhead : (state [1]).head? = some genesis := rfl
  have hheld : (quorum [1]).trustedCandidateBlocks (lock [1]).verification.body =
      some (lock [1]).blocks := by decide +kernel
  have hlock : (lock [1]).validate (key 1) = .ok () := by decide +kernel
  have hwriters : writersVerify genesis (lock [1]).blocks = true := by decide +kernel
  have hprepared : (state [1]).prepareTrustedEpoch genesis.target 0
      (lock [1]).verification.body.blocks = .ok (prepared [1]) :=
    prepareTrustedEpoch_state (by decide +kernel) (by decide +kernel)
  exact prepareTrustedEpoch_validates_iff (genesisEpoch_wellKeyed _ _ _)
    (genesisVerifiers_keyed _) hhead state_quorum hheld hlock ⟨rfl, rfl⟩ hwriters hprepared

end Blossom
