import Blossom.Quorum
import Blossom.Topology
import Blossom.TrustedEpoch
import Mathlib.Data.Prod.Lex

/-!
# The local consensus state

A node keeps the chain of its epochs and, for every epoch target it works on, the rounds
of its quorums. The last epoch determines the next target.
-/

namespace Blossom

open CheckedSteps OrderedMap MajorityQuorum StatefulSteps

variable {W : Type}

/-- An epoch target: the hash of the last epoch and the nonce of the next one. -/
structure EpochNonce (W : Type) where
  lastEpoch : W
  nonce : ℕ
  deriving DecidableEq

instance [LinearOrder W] : LinearOrder (EpochNonce W) :=
  LinearOrder.lift' (fun t => toLex (t.lastEpoch, t.nonce)) fun a b h => by
    cases a
    cases b
    cases h
    rfl

instance [ProtocolCrypto W] : Std.TransOrd (EpochNonce W) := inferInstance

def Header.target (h : Header W) : EpochNonce W := ⟨h.lastEpoch, h.nonce⟩

def Epoch.target [LinearOrder W] (e : Epoch W) : EpochNonce W := ⟨e.hash, e.body.nonce + 1⟩

def genesisVerifiers [LinearOrder W] (nodes : List (NodeIdentity W)) : Verifiers W :=
  nodes.foldl (fun verifiers node => verifiers.insert node.publicKey node) ∅

def genesisEpoch [ProtocolCrypto W] (groupId : W) (nodes : List (NodeIdentity W))
    (parameters : ConsensusParameters) : Epoch W :=
  let verifiers := genesisVerifiers nodes
  Epoch.setHash
    { hash := default
      signatures := ∅
      body :=
        { groupId := groupId
          members := .fromVerifiers verifiers
          verifiers := verifiers
          lastEpoch := default
          previousNonce := none
          nonce := 0
          merkleRoot := default
          blocks := ∅
          consensusParameters := some parameters } }

theorem genesisVerifiers_keyed [LinearOrder W] (nodes : List (NodeIdentity W)) :
    VerifiersKeyed (genesisVerifiers nodes) := by
  apply List.foldlRecOn (motive := VerifiersKeyed) nodes
  · intro key identity h
    simp at h
  · intro verifiers hv node _ key identity h
    rw [lookup_insert] at h
    split at h
    · next hk =>
      cases h
      exact hk
    · exact hv key identity h

theorem genesisEpoch_wellKeyed [ProtocolCrypto W] (groupId : W) (nodes : List (NodeIdentity W))
    (parameters : ConsensusParameters) :
    (genesisEpoch groupId nodes parameters).body.members.WellKeyed := by
  intro key record h
  have hv := genesisVerifiers_keyed nodes
  have hr : (MemberSet.fromVerifiers (genesisVerifiers nodes)).records[key]? = some record := h
  rw [lookup_fromVerifiers hv, Option.map_eq_some_iff] at hr
  obtain ⟨identity, hid, rfl⟩ := hr
  exact hv key identity hid

structure TempConsensus (W : Type) [LinearOrder W] where
  selfKey : W
  round : ℕ
  peers : List (BTreeSet W)
  quorum : BTreeMap ℕ (TempQuorum W)

structure PrefillDispatchRecord (W : Type) [LinearOrder W] where
  sender : W
  round : ℕ
  blocksHash : W
  blocks : BTreeMap W (Block W)

structure LocalState (W : Type) [LinearOrder W] where
  selfNode : NodeIdentity W
  epochchain : List (Epoch W)
  consensus : BTreeMap (EpochNonce W) (TempConsensus W)
  prefillDispatches : BTreeMap (EpochNonce W) (BTreeMap W (PrefillDispatchRecord W))
  consensusNodeRemovalPolicy : ConsensusNodeRemovalPolicy

namespace TempConsensus

variable [LinearOrder W]

def isPeerMemberOfRound (c : TempConsensus W) (sender : W) (round : ℕ) : Bool :=
  ((c.peers[round]?).map (·.contains sender)).getD false

/-- The members of a round, with the node itself, in order. -/
def peersWithUs (c : TempConsensus W) (round : ℕ) : List W :=
  (((c.peers[round]?).getD ∅).insert c.selfKey).toList

def quorumOrInit (c : TempConsensus W) (round : ℕ) : TempQuorum W :=
  (c.quorum[round]?).getD (initQuorum (c.peersWithUs round))

def setQuorum (c : TempConsensus W) (round : ℕ) (q : TempQuorum W) : TempConsensus W :=
  { c with quorum := c.quorum.insert round q }

end TempConsensus

namespace LocalState

section State

variable [LinearOrder W]

def new (selfNode : NodeIdentity W) (genesis : Epoch W) (policy : ConsensusNodeRemovalPolicy) :
    LocalState W := ⟨selfNode, [genesis], ∅, ∅, policy⟩

def head? (s : LocalState W) : Option (Epoch W) := s.epochchain.getLast?

section

variable (s : LocalState W) (target : EpochNonce W)

def getConsensus : Option (TempConsensus W) :=
  s.consensus[target]?

def getQuorum (round : ℕ) : Option (TempQuorum W) :=
  (s.getConsensus target).bind (·.quorum[round]?)

def setConsensus (c : TempConsensus W) : LocalState W :=
  { s with consensus := s.consensus.insert target c }

end

/-- Entries of the target before the last one are dropped when an epoch is appended. -/
def append (s : LocalState W) (epoch : Epoch W) : LocalState W :=
  { s with
    consensus := s.consensus.filter fun target _ => decide (epoch.body.nonce ≤ target.nonce + 1)
    epochchain := s.epochchain ++ [epoch] }

end State

section Consensus

variable [ProtocolCrypto W] [ShuffleSeed W]

def peersInConsensus (s : LocalState W) (epochHash : W) : List (BTreeSet W) :=
  match s.head? with
  | none => []
  | some lastEpoch =>
    (selectQuorumsFromIndexTreeWithSize lastEpoch.body.verifiers s.selfNode.publicKey epochHash
      s.selfNode.shuffle lastEpoch.body.effectiveConsensusParameters.quorumSize).map
      (·.erase s.selfNode.publicKey)

def initConsensus (s : LocalState W) (epochHash : W) : TempConsensus W :=
  ⟨s.selfNode.publicKey, 0, s.peersInConsensus epochHash, ∅⟩

def consensusOrInit (s : LocalState W) (target : EpochNonce W) : TempConsensus W :=
  (s.getConsensus target).getD (s.initConsensus target.lastEpoch)

/-- `get_mut_consensus`: an update of the consensus of a target, which is created if there
is none. -/
def withConsensus {α : Type} (target : EpochNonce W)
    (update : Action (TempConsensus W) Failure α) : Action (LocalState W) Failure α := fun s =>
  if target.lastEpoch = default ∧ 1 < target.nonce then
    .error (.panicked "invalid epoch when nonce > 1") s
  else
    match update (s.consensusOrInit target) with
    | .ok a c => .ok a (s.setConsensus target c)
    | .error e c => .error e (s.setConsensus target c)

/-- `get_mut_quorum`: an update of the quorum of a round, which is created if there is
none. -/
def withQuorum {α : Type} (target : EpochNonce W) (round : ℕ)
    (update : Action (TempQuorum W) Failure α) : Action (LocalState W) Failure α :=
  withConsensus target fun c =>
    match update (c.quorumOrInit round) with
    | .ok a q => .ok a (c.setQuorum round q)
    | .error e q => .error e (c.setQuorum round q)

def verifyHeader (h : Header W) : Action (LocalState W) Failure Unit :=
  withConsensus h.target do
    let c ← get
    check (reject (c.isPeerMemberOfRound h.sender h.round = false) (.error .unknownSender))

def recordPrefillDispatch (dispatch : Dispatch W) : Action (LocalState W) Failure Unit := do
  let s ← get
  let target := dispatch.header.target
  let records := (s.prefillDispatches[target]?).getD ∅
  match records[dispatch.header.sender]? with
  | some existing =>
    check (reject (existing.blocksHash ≠ dispatch.body.blocksHash)
      (wireProtocol "equivocated prefill dispatch"))
  | none =>
    let record : PrefillDispatchRecord W := ⟨dispatch.header.sender, dispatch.header.round,
      dispatch.body.blocksHash, dispatch.body.blocks⟩
    set { s with prefillDispatches :=
      s.prefillDispatches.insert target (records.insert dispatch.header.sender record) }

def prefillBlocks (s : LocalState W) (target : EpochNonce W) : List (W × Block W) :=
  ((values ((s.prefillDispatches[target]?).getD ∅)).flatMap fun record =>
    record.blocks.toList).filter fun (_, block) =>
      decide (block.body.lastEpoch = target.lastEpoch ∧ block.body.nonce = target.nonce)

/-- Record blocks one by one; the stored hash changes if at least one was inserted. -/
def insertBlocks (q : TempQuorum W) (blocks : List (W × Block W)) : TempQuorum W :=
  let (inserted, q) := blocks.foldl (fun (inserted, q) (hash, block) =>
    let (fresh, q) := q.recordVerifiedBlock hash block
    (inserted || fresh, q)) (false, q)
  if inserted then q.refreshBlocksHash else q

def seedPrefillDispatchesIntoQuorum (target : EpochNonce W) (round : ℕ) :
    Action (LocalState W) Failure Unit := do
  let s ← get
  if round = 0 ∨ ¬s.prefillDispatches.contains target then pure ()
  else withQuorum target round (modify fun q => insertBlocks q (s.prefillBlocks target))

variable [EpochCodec W]

def carryBlocks (c : TempConsensus W) (nextRound : ℕ) (blocks : BTreeMap W (Block W)) :
    TempConsensus W :=
  { c.setQuorum nextRound ((c.quorumOrInit nextRound).recordVerifiedDispatchBlocks blocks) with
    round := nextRound }

/-- The certificate shares of a quorum, indexed by the verifiers of an epoch. -/
def indexShares (verifiers : Verifiers W) (shares : BTreeMap W (Signature W)) :
    BTreeMap ℕ (Signature W) :=
  shares.toList.foldl (fun indexed (validator, signature) =>
    match verifiers.keys.idxOf? validator with
    | some index => indexed.insert index signature
    | none => indexed) ∅

/-- The epoch after `previous` with the blocks of a quorum and its certificate shares. -/
def certifiedEpoch (s : LocalState W) (previous : Epoch W) (q : TempQuorum W) : Epoch W :=
  let epoch := (buildVerifiedEpoch previous q.canonicalVerifiedBlocks
    s.consensusNodeRemovalPolicy).setHash
  { epoch with signatures := indexShares previous.body.verifiers q.epochSignatures }

/-- `advance_epoch` after a successful round: the next round, or the next epoch after the
last one. The result says whether anything advanced. -/
def advanceEpoch (target : EpochNonce W) (currentRound : ℕ) :
    Action (LocalState W) Failure Bool := do
  let s ← get
  match s.head?, s.getConsensus target with
  | some lastEpoch, some c =>
    if lastEpoch.target ≠ target then pure false
    else if currentRound + 1 < c.peers.length then
      let carried := ((c.quorum[currentRound]?).map TempQuorum.canonicalVerifiedBlocks).getD ∅
      set (s.setConsensus target (carryBlocks c (currentRound + 1) carried))
      pure true
    else
      let q ← check (require (c.quorum[currentRound]?)
        (.panicked "called `Option::unwrap()` on a `None` value"))
      let epoch := s.certifiedEpoch lastEpoch q
      if (epoch.verifyCertificate lastEpoch).isOk then
        set (s.append epoch)
        pure true
      else pure false
  | _, _ => pure false

def requireTarget (s : LocalState W) (target : EpochNonce W) :
    Result (Epoch W × TempConsensus W) := do
  let previous ← require s.head? (.error .emptyEpochChain)
  reject (previous.target ≠ target)
    (.error .invalidEpochNonce)
  let c ← require (s.getConsensus target) (.error .failedConsensus)
  pure (previous, c)

omit [ShuffleSeed W] [EpochCodec W] in
theorem requireTarget_eq_ok {s : LocalState W} {target : EpochNonce W} {previous : Epoch W}
    {c : TempConsensus W} :
    s.requireTarget target = .ok (previous, c) ↔
      s.head? = some previous ∧ previous.target = target ∧ s.getConsensus target = some c := by
  rw [requireTarget]
  simp only [↓guard_bind_eq_ok, bind_eq_ok, require_eq_ok, reject_eq_ok, pure_eq_ok, not_not,
    Prod.mk.injEq]
  constructor
  · rintro ⟨p, hp, ht, c', hc, rfl, rfl⟩
    exact ⟨hp, ht, hc⟩
  · rintro ⟨hp, ht, hc⟩
    exact ⟨previous, hp, ht, c, hc, rfl, rfl⟩

def prepareVerifiedEpoch (s : LocalState W) (target : EpochNonce W) (currentRound : ℕ) :
    Result (Option (Epoch W)) := do
  let (previous, c) ← s.requireTarget target
  if currentRound + 1 < c.peers.length then pure none
  else
    let q ← require (c.quorum[currentRound]?) (.error .failedConsensus)
    pure (some (buildVerifiedEpoch previous q.canonicalVerifiedBlocks
      s.consensusNodeRemovalPolicy).setHash)

def prepareTrustedEpoch (s : LocalState W) (target : EpochNonce W) (currentRound : ℕ)
    (confirmedBlocks : BTreeSet W) : Result (Epoch W) := do
  let (previous, c) ← s.requireTarget target
  reject (currentRound + 1 < c.peers.length) (.error .failedConsensus)
  let q ← require (c.quorum[currentRound]?) (.error .failedConsensus)
  let blocks ← require (q.trustedCandidateBlocks (.of confirmedBlocks)) (invalidConfiguration
    "trusted confirmation references unavailable local blocks")
  pure (buildTrustedEpoch previous blocks s.consensusNodeRemovalPolicy)

def advanceTrustedRound (target : EpochNonce W) (currentRound : ℕ)
    (confirmedBlocks : BTreeSet W) : Action (LocalState W) Failure Bool := do
  let s ← get
  let (_, c) ← check (s.requireTarget target)
  if c.peers.length ≤ currentRound + 1 then pure false
  else
    let q ← check (require (c.quorum[currentRound]?) (.error .failedConsensus))
    let carried ← check (require (q.trustedCandidateBlocks (.of confirmedBlocks))
      (invalidConfiguration "trusted round confirmation references unavailable blocks"))
    set (s.setConsensus target (carryBlocks c (currentRound + 1) carried))
    pure true

def installTrustedEpoch (epoch : Epoch W) : Action (LocalState W) Failure Unit := do
  let s ← get
  let current ← check (require s.head? (.error .emptyEpochChain))
  check (reject (epoch.body.lastEpoch ≠ current.hash ∨
    epoch.body.previousNonce ≠ some current.body.nonce ∨
    epoch.body.nonce ≠ current.body.nonce + 1 ∨ epoch.hash ≠ epoch.body.computeHash)
    (invalidConfiguration "durable trusted epoch does not extend the in-memory stable prefix"))
  set (s.append epoch)

end Consensus

end LocalState

end Blossom
