import Blossom.StatefulSteps
import Blossom.Topology
import Blossom.VoteTally
import Mathlib.Data.Prod.Lex

/-!
# The trusted checkpoint DAG

Every writer appends immutable vertices to its own chain. A candidate names the last vertex of each
chain, and members acknowledge candidates that only grow.
-/

namespace Blossom

open CheckedSteps OrderedMap StatefulSteps VoteTally MajorityQuorum

variable {W : Type}

def minGlobalBlossomParticipants : ℕ := 6

/-- `protocol_commitment`: the hash of a domain and an encoded value. -/
def protocolCommitment [ProtocolCrypto W] (domain : String) (fields : List (Field W)) : W :=
  protocolHash (.bytes domain.toUTF8.toList :: fields)

structure TrustedDagVertexBody (W : Type) where
  groupId : W
  membershipGeneration : ℕ
  origin : W
  originSequence : ℕ
  originParent : Option W
  anchorCheckpointHash : W
  anchorCheckpointNonce : ℕ
  payloadRoot : W
  commandCount : ℕ
  byteLength : ℕ
  deriving DecidableEq

def TrustedDagVertexBody.fields (b : TrustedDagVertexBody W) : List (Field W) :=
  [Field.word b.groupId, .num b.membershipGeneration, .word b.origin, .num b.originSequence] ++
    optionFields (fun parent => [.word parent]) b.originParent ++
    [Field.word b.anchorCheckpointHash, .num b.anchorCheckpointNonce, .word b.payloadRoot,
      .num b.commandCount, .num b.byteLength]

structure TrustedDagVertex (W : Type) where
  hash : W
  body : TrustedDagVertexBody W
  deriving DecidableEq

structure TrustedDagFrontierEntry (W : Type) where
  origin : W
  sequence : ℕ
  headHash : W
  deriving DecidableEq

def TrustedDagFrontierEntry.fields (e : TrustedDagFrontierEntry W) : List (Field W) :=
  [.word e.origin, .num e.sequence, .word e.headHash]

structure TrustedDagCandidateBody (W : Type) where
  groupId : W
  membershipGeneration : ℕ
  previousCheckpointHash : W
  previousCheckpointNonce : ℕ
  checkpointNonce : ℕ
  frontier : List (TrustedDagFrontierEntry W)
  deriving DecidableEq

def TrustedDagCandidateBody.fields (b : TrustedDagCandidateBody W) : List (Field W) :=
  [Field.word b.groupId, .num b.membershipGeneration, .word b.previousCheckpointHash,
    .num b.previousCheckpointNonce, .num b.checkpointNonce] ++
    listFields TrustedDagFrontierEntry.fields b.frontier

structure TrustedDagCandidate (W : Type) where
  digest : W
  body : TrustedDagCandidateBody W
  deriving DecidableEq

structure TrustedDagCheckpointBody (W : Type) where
  groupId : W
  membershipGeneration : ℕ
  membershipRoot : W
  previousCheckpointHash : W
  previousCheckpointNonce : Option ℕ
  nonce : ℕ
  candidateDigest : W
  frontierRoot : W
  orderedDeltaRoot : W
  orderedVertexCount : ℕ
  configuredQuorumSize : ℕ
  sequentialRounds : ℕ
  frontier : List (TrustedDagFrontierEntry W)
  deriving DecidableEq

def TrustedDagCheckpointBody.fields (b : TrustedDagCheckpointBody W) : List (Field W) :=
  [Field.word b.groupId, .num b.membershipGeneration, .word b.membershipRoot,
    .word b.previousCheckpointHash] ++
    optionFields (fun nonce => [.num nonce]) b.previousCheckpointNonce ++
    [Field.num b.nonce, .word b.candidateDigest, .word b.frontierRoot, .word b.orderedDeltaRoot,
      .num b.orderedVertexCount, .num b.configuredQuorumSize, .num b.sequentialRounds] ++
    listFields TrustedDagFrontierEntry.fields b.frontier

structure TrustedDagCheckpoint (W : Type) where
  hash : W
  body : TrustedDagCheckpointBody W
  deriving DecidableEq

structure TrustedDagRoundLock (W : Type) where
  previousCheckpointHash : W
  previousCheckpointNonce : ℕ
  checkpointNonce : ℕ
  round : ℕ
  candidate : TrustedDagCandidate W
  deriving DecidableEq

inductive TrustedDagIngestOutcome where
  | stored (activated : ℕ)
  | pendingParent
  | duplicate
  deriving DecidableEq

inductive TrustedDagRoundCompletion (W : Type) where
  | pending
  | advanced (nextRound : ℕ)
  | finalized (checkpoint : TrustedDagCheckpoint W) (orderedVertices : List W)
  deriving DecidableEq

structure TrustedDagRoundState (W : Type) [LinearOrder W] where
  expectedMembers : BTreeSet W
  acknowledgements : Tally W (TrustedDagCandidate W) W
  lock : Option (TrustedDagRoundLock W)
  confirmations : Tally W W W
  completed : Bool
  deriving DecidableEq

/-- A writer and a sequence number in its chain. -/
structure OriginPosition (W : Type) where
  origin : W
  sequence : ℕ
  deriving DecidableEq

instance [LinearOrder W] : LinearOrder (OriginPosition W) :=
  LinearOrder.lift' (fun p => toLex (p.origin, p.sequence)) fun a b h => by
    cases a
    cases b
    cases h
    rfl

structure EligibleVertex (W : Type) where
  hash : W
  origin : W
  index : ℕ
  deriving DecidableEq

instance [LinearOrder W] : LinearOrder (EligibleVertex W) :=
  LinearOrder.lift' (fun e => toLex (e.hash, toLex (e.origin, e.index))) fun a b h => by
    cases a
    cases b
    cases h
    rfl

/-- The parts of a checkpoint DAG that never change. -/
structure TrustedDagConfig (W : Type) [LinearOrder W] where
  localMember : W
  members : BTreeSet W
  groupId : W
  membershipGeneration : ℕ
  membershipRoot : W
  quorumSize : QuorumSize
  shuffle : Bool

/-- The parts of a checkpoint DAG that change. There is always a last checkpoint, which is kept
apart from the earlier ones. -/
structure TrustedCheckpointDag (W : Type) [LinearOrder W] where
  vertices : BTreeMap W (TrustedDagVertex W)
  originIndex : BTreeMap (OriginPosition W) W
  pendingVertices : BTreeMap W (TrustedDagVertex W)
  pendingOrigins : BTreeMap (OriginPosition W) W
  pendingByParent : BTreeMap W (BTreeSet W)
  earlier : List (TrustedDagCheckpoint W)
  head : TrustedDagCheckpoint W
  roundStates : BTreeMap ℕ (TrustedDagRoundState W)

section Crypto

variable [ProtocolCrypto W]

def TrustedDagVertexBody.commitment (b : TrustedDagVertexBody W) : W :=
  protocolCommitment "blossom/trusted-checkpoint-dag/vertex/v1" b.fields

def TrustedDagVertex.new (b : TrustedDagVertexBody W) : TrustedDagVertex W := ⟨b.commitment, b⟩

def TrustedDagVertex.validateHash (v : TrustedDagVertex W) : Result Unit :=
  reject (v.hash ≠ v.body.commitment) (.error .invalidBlockHash)

def TrustedDagCandidateBody.commitment (b : TrustedDagCandidateBody W) : W :=
  protocolCommitment "blossom/trusted-checkpoint-dag/candidate/v1" b.fields

def TrustedDagCandidate.new (b : TrustedDagCandidateBody W) : TrustedDagCandidate W :=
  ⟨b.commitment, b⟩

def TrustedDagCandidate.validateDigest (candidate : TrustedDagCandidate W) : Result Unit :=
  reject (candidate.digest ≠ candidate.body.commitment)
    (invalidConfiguration "trusted DAG candidate digest does not bind its frontier")

def TrustedDagCheckpoint.new (b : TrustedDagCheckpointBody W) : TrustedDagCheckpoint W :=
  ⟨protocolCommitment "blossom/trusted-checkpoint-dag/checkpoint/v1" b.fields, b⟩

def frontierRoot (frontier : List (TrustedDagFrontierEntry W)) : W :=
  protocolCommitment "blossom/trusted-checkpoint-dag/frontier/v1"
    (listFields TrustedDagFrontierEntry.fields frontier)

def orderRoot (vertices : List W) : W :=
  protocolCommitment "blossom/trusted-checkpoint-dag/order/v1"
    (listFields (fun hash => [.word hash]) vertices)

def membershipRoot (members : BTreeSet W) : W :=
  protocolCommitment "blossom/trusted-checkpoint-dag/membership/v1"
    (listFields (fun member => [.word member]) members.toList)

end Crypto

def frontierMap [LinearOrder W] (entries : List (TrustedDagFrontierEntry W)) :
    BTreeMap W (TrustedDagFrontierEntry W) :=
  .ofList (entries.map fun entry => (entry.origin, entry)) compare

def roundCount (nodeCount : ℕ) (quorumSize : QuorumSize) : Result ℕ := do
  let rounds := (findRoundNumberWithSize nodeCount quorumSize).2
  reject (2 ^ 8 ≤ rounds)
    (invalidConfiguration "trusted DAG sequential topology exceeds u8 round encoding")
  pure rounds

namespace TrustedDagRoundState

variable [LinearOrder W]

def new (expectedMembers : BTreeSet W) : TrustedDagRoundState W :=
  ⟨expectedMembers, .empty, none, .empty, false⟩

section

variable (state : TrustedDagRoundState W)

def threshold : ℕ := supermajorityCount state.expectedMembers.size

def acknowledge (sender : W) (candidate : TrustedDagCandidate W) : TrustedDagRoundState W :=
  { state with acknowledgements :=
      state.acknowledgements.record (fun vote => some vote.digest) sender candidate }

def confirm (member digest : W) : TrustedDagRoundState W :=
  { state with confirmations :=
      ⟨state.confirmations.votes.insert member digest,
        incrementCount state.confirmations.count digest⟩ }

def setLock (localMember : W) (lock : TrustedDagRoundLock W) : TrustedDagRoundState W :=
  { state.confirm localMember lock.candidate.digest with lock := some lock }

end

end TrustedDagRoundState

namespace TrustedDagConfig

variable [LinearOrder W]

def nodeMap (c : TrustedDagConfig W) : Verifiers W :=
  .ofList (c.members.toList.map fun member => (member, ⟨member, [], [], 0, false⟩)) compare

/-- The same network as another member sees it. -/
def of (c : TrustedDagConfig W) (member : W) : TrustedDagConfig W :=
  { c with localMember := member }

end TrustedDagConfig

namespace TrustedCheckpointDag

section New

variable [ProtocolCrypto W]

def genesis (c : TrustedDagConfig W) (sequentialRounds : ℕ) : TrustedDagCheckpoint W :=
  .new
    { groupId := c.groupId
      membershipGeneration := c.membershipGeneration
      membershipRoot := c.membershipRoot
      previousCheckpointHash := default
      previousCheckpointNonce := none
      nonce := 0
      candidateDigest := default
      frontierRoot := frontierRoot []
      orderedDeltaRoot := orderRoot []
      orderedVertexCount := 0
      configuredQuorumSize := c.quorumSize.get
      sequentialRounds := sequentialRounds
      frontier := [] }

def new (localMember : W) (members : List W) (groupId : W) (membershipGeneration : ℕ)
    (quorumSize : QuorumSize) (shuffle : Bool) :
    Result (TrustedDagConfig W × TrustedCheckpointDag W) := do
  let members : BTreeSet W := .ofList members compare
  reject (members.contains localMember = false)
    (invalidConfiguration "trusted DAG membership must contain the local member")
  let minimumMembers := max quorumSize.get minGlobalBlossomParticipants
  reject (members.size < minimumMembers)
    (invalidConfiguration (s!"Global Blossom requires at least {minimumMembers} logical " ++
      "participants (minimum six and at least the configured quorum branching factor); use HA " ++
      "for smaller clusters"))
  let sequentialRounds ← roundCount members.size quorumSize
  let c : TrustedDagConfig W :=
    ⟨localMember, members, groupId, membershipGeneration, membershipRoot members, quorumSize,
      shuffle⟩
  pure (c, ⟨∅, ∅, ∅, ∅, ∅, [], genesis c sequentialRounds, ∅⟩)

end New

section Topology

variable [LinearOrder W]

def checkpoints (d : TrustedCheckpointDag W) : List (TrustedDagCheckpoint W) :=
  d.earlier ++ [d.head]

def sequentialRoundCount (d : TrustedCheckpointDag W) : ℕ := d.head.body.sequentialRounds

def quorumAt [ShuffleSeed W] (c : TrustedDagConfig W) (hash : W) (round : ℕ) :
    Option (BTreeSet W) :=
  (selectQuorumsFromIndexTreeWithSize c.nodeMap c.localMember hash c.shuffle c.quorumSize)[round]?

def expectedRoundMembers [ShuffleSeed W] (c : TrustedDagConfig W) (d : TrustedCheckpointDag W)
    (round : ℕ) : Result (BTreeSet W) :=
  require (quorumAt c d.head.hash round)
    (invalidConfiguration s!"trusted DAG round {round} is outside the sequential topology")

end Topology

/-! ### Vertices -/

section Vertices

variable [ProtocolCrypto W]

def validateVertexEnvelope (c : TrustedDagConfig W) (d : TrustedCheckpointDag W)
    (vertex : TrustedDagVertex W) : Result Unit := do
  reject (vertex.body.groupId ≠ c.groupId ∨
    vertex.body.membershipGeneration ≠ c.membershipGeneration ∨
    c.members.contains vertex.body.origin = false ∨ vertex.body.originSequence = 0)
    (invalidConfiguration "trusted DAG vertex is outside the committed group or membership")
  reject (d.checkpoints.any (fun checkpoint =>
    decide (checkpoint.hash = vertex.body.anchorCheckpointHash ∧
      checkpoint.body.nonce = vertex.body.anchorCheckpointNonce)) = false)
    (invalidConfiguration "trusted DAG vertex references an unknown checkpoint anchor")
  if vertex.body.originSequence = 1 then
    reject (vertex.body.originParent.isSome = true)
      (invalidConfiguration "trusted DAG first origin vertex must not have a parent")
  else
    reject (vertex.body.originParent.isNone = true)
      (invalidConfiguration "trusted DAG non-initial origin vertex is missing its parent")

def validateParentLink (d : TrustedCheckpointDag W) (vertex : TrustedDagVertex W) :
    Result Unit :=
  if vertex.body.originSequence = 1 then pure ()
  else do
    let parentHash ← require vertex.body.originParent
      (invalidConfiguration "trusted DAG non-initial vertex is missing its parent")
    let parent ← require d.vertices[parentHash]?
      (invalidConfiguration "trusted DAG vertex parent is not available")
    reject (parent.body.origin ≠ vertex.body.origin ∨
      parent.body.membershipGeneration ≠ vertex.body.membershipGeneration ∨
      parent.body.originSequence + 1 ≠ vertex.body.originSequence)
      (invalidConfiguration "trusted DAG origin parent does not immediately precede its child")

def storeVertex (d : TrustedCheckpointDag W) (vertex : TrustedDagVertex W) :
    TrustedCheckpointDag W :=
  let identity : OriginPosition W := ⟨vertex.body.origin, vertex.body.originSequence⟩
  { d with
    pendingOrigins := d.pendingOrigins.erase identity
    pendingVertices := d.pendingVertices.erase vertex.hash
    originIndex := d.originIndex.insert identity vertex.hash
    vertices := d.vertices.insert vertex.hash vertex }

/-- A child that waited leaves the pending vertices for the top of the stack. -/
def takeChild (work : TrustedCheckpointDag W × List (TrustedDagVertex W)) (child : W) :
    TrustedCheckpointDag W × List (TrustedDagVertex W) :=
  match work.1.pendingVertices[child]? with
  | some vertex =>
    ({ work.1 with pendingVertices := work.1.pendingVertices.erase child }, vertex :: work.2)
  | none => work

def takeChildren (d : TrustedCheckpointDag W) (hash : W) (stack : List (TrustedDagVertex W)) :
    TrustedCheckpointDag W × List (TrustedDagVertex W) :=
  ((d.pendingByParent[hash]?).getD ∅).toList.foldl takeChild
    ({ d with pendingByParent := d.pendingByParent.erase hash }, stack)

/-- The loop of `activate_vertex_and_descendants`. Every vertex on the stack but the first was a
pending one. -/
def activateFrom : ℕ → List (TrustedDagVertex W) → ℕ → Action (TrustedCheckpointDag W) Failure ℕ
  | 0, _, activated => pure activated
  | _ + 1, [], activated => pure activated
  | fuel + 1, vertex :: stack, activated => do
    reading fun d => d.validateParentLink vertex
    let d ← get
    let (d, stack) := (d.storeVertex vertex).takeChildren vertex.hash stack
    set d
    activateFrom fuel stack (activated + 1)

def activateVertexAndDescendants (vertex : TrustedDagVertex W) :
    Action (TrustedCheckpointDag W) Failure ℕ := do
  let d ← get
  activateFrom (d.pendingVertices.size + 1) [vertex] 0

section

variable (d : TrustedCheckpointDag W) (vertex : TrustedDagVertex W)

def storePending (parent : W) : TrustedCheckpointDag W :=
  { d with
    pendingOrigins := d.pendingOrigins.insert ⟨vertex.body.origin, vertex.body.originSequence⟩
      vertex.hash
    pendingByParent := d.pendingByParent.insert parent
      (((d.pendingByParent[parent]?).getD ∅).insert vertex.hash)
    pendingVertices := d.pendingVertices.insert vertex.hash vertex }

def atPosition : Option W :=
  let identity : OriginPosition W := ⟨vertex.body.origin, vertex.body.originSequence⟩
  d.originIndex[identity]? <|> d.pendingOrigins[identity]?

def missingParent : Option W :=
  if 1 < vertex.body.originSequence then
    vertex.body.originParent.filter fun parent => !d.vertices.contains parent
  else none

end

def ingestVertex (c : TrustedDagConfig W) (vertex : TrustedDagVertex W) :
    Action (TrustedCheckpointDag W) Failure TrustedDagIngestOutcome := do
  check vertex.validateHash
  reading fun d => d.validateVertexEnvelope c vertex
  let d ← get
  match d.atPosition vertex with
  | some existing =>
    if existing = vertex.hash then pure .duplicate
    else throw (invalidConfiguration
      "trusted DAG origin reused one sequence for conflicting bytes")
  | none =>
    if d.vertices.contains vertex.hash ∨ d.pendingVertices.contains vertex.hash then
      pure .duplicate
    else match d.missingParent vertex with
    | some parent => do
      set (d.storePending vertex parent)
      pure .pendingParent
    | none => do
      let activated ← activateVertexAndDescendants vertex
      pure (.stored activated)

end Vertices

/-! ### Candidates -/

section Candidates

variable [ProtocolCrypto W]

/-- The loop of `require_descendant`. The parent of a stored vertex comes before it in its chain, so
that the loop visits no vertex twice. -/
def walkToBase (d : TrustedCheckpointDag W) (origin : W)
    (base : Option (TrustedDagFrontierEntry W)) : ℕ → W → Result Unit
  | 0, _ => .error (invalidConfiguration "trusted DAG frontier has a missing origin ancestor")
  | fuel + 1, cursorHash => do
    let cursor ← require d.vertices[cursorHash]?
      (invalidConfiguration "trusted DAG frontier has a missing origin ancestor")
    reject (cursor.body.origin ≠ origin)
      (invalidConfiguration "trusted DAG frontier crossed origin chains")
    let stopSequence := base.elim 0 (·.sequence)
    if cursor.body.originSequence = stopSequence then
      reject (base.any fun base => decide (base.headHash ≠ cursorHash))
        (invalidConfiguration "trusted DAG frontier does not descend from its prior head")
    else do
      reject (cursor.body.originSequence ≤ stopSequence)
        (invalidConfiguration "trusted DAG frontier skipped its prior head")
      match cursor.body.originParent with
      | some parent => walkToBase d origin base fuel parent
      | none =>
        reject (¬(stopSequence = 0 ∧ cursor.body.originSequence = 1))
          (invalidConfiguration "trusted DAG frontier chain ended before its prior head")

def requireDescendant (d : TrustedCheckpointDag W) (next : TrustedDagFrontierEntry W)
    (base : Option (TrustedDagFrontierEntry W)) : Result Unit :=
  if base.any fun base => decide (next.sequence = base.sequence) then
    reject (base.any fun base => decide (next.headHash ≠ base.headHash))
      (invalidConfiguration "trusted DAG frontier conflicts at a committed sequence")
  else do
    reject (base.any fun base => decide (next.sequence < base.sequence))
      (invalidConfiguration "trusted DAG frontier sequence regressed")
    d.walkToBase next.origin base (d.vertices.size + 1) next.headHash

def validateFrontierDelta (d : TrustedCheckpointDag W)
    (frontier : List (TrustedDagFrontierEntry W)) : Result Unit := do
  let previous := frontierMap d.head.body.frontier
  let proposed := frontierMap frontier
  (values previous).forM fun entry => do
    let next ← require proposed[entry.origin]?
      (invalidConfiguration "trusted DAG candidate omitted a committed frontier")
    reject (next.sequence < entry.sequence ∨
      next.sequence = entry.sequence ∧ next.headHash ≠ entry.headHash)
      (invalidConfiguration "trusted DAG candidate regresses a committed frontier")
  (values proposed).forM fun next => d.requireDescendant next previous[next.origin]?

def validateFrontier (c : TrustedDagConfig W) (d : TrustedCheckpointDag W) :
    Option W → List (TrustedDagFrontierEntry W) → Result Unit
  | _, [] => pure ()
  | previousOrigin, entry :: rest => do
    reject (previousOrigin.any fun origin => decide (entry.origin ≤ origin))
      (invalidConfiguration "trusted DAG candidate frontier must be strictly origin-sorted")
    reject (c.members.contains entry.origin = false) (.error .unknownSender)
    let vertex ← require d.vertices[entry.headHash]?
      (invalidConfiguration "trusted DAG candidate frontier head is unavailable")
    reject (vertex.body.origin ≠ entry.origin ∨ vertex.body.originSequence ≠ entry.sequence)
      (invalidConfiguration "trusted DAG frontier entry conflicts with its vertex")
    validateFrontier c d (some entry.origin) rest

def validateCandidate (c : TrustedDagConfig W) (d : TrustedCheckpointDag W)
    (candidate : TrustedDagCandidate W) : Result Unit := do
  candidate.validateDigest
  reject (candidate.body.groupId ≠ c.groupId ∨
    candidate.body.membershipGeneration ≠ c.membershipGeneration ∨
    candidate.body.previousCheckpointHash ≠ d.head.hash ∨
    candidate.body.previousCheckpointNonce ≠ d.head.body.nonce ∨
    candidate.body.checkpointNonce ≠ d.head.body.nonce + 1)
    (invalidConfiguration "trusted DAG candidate does not extend the current checkpoint")
  d.validateFrontier c none candidate.body.frontier
  d.validateFrontierDelta candidate.body.frontier

section

variable (c : TrustedDagConfig W) (d : TrustedCheckpointDag W)

def candidateExtends (base next : TrustedDagCandidate W) : Result Bool := do
  d.validateCandidate c base
  d.validateCandidate c next
  let nextFrontier := frontierMap next.body.frontier
  pure (base.body.frontier.all fun baseEntry =>
    nextFrontier[baseEntry.origin]?.any fun nextEntry =>
      decide (baseEntry.sequence ≤ nextEntry.sequence) &&
        (d.requireDescendant nextEntry (some baseEntry)).isOk)

def validateRoundProgression (round : ℕ) (candidate : TrustedDagCandidate W) : Result Unit := do
  reject (d.sequentialRoundCount ≤ round)
    (invalidConfiguration "trusted DAG round is outside the sequential quorum topology")
  if round = 0 then pure ()
  else do
    let previous ← require d.roundStates[round - 1]?
      (invalidConfiguration "trusted DAG round is missing its sequential predecessor")
    reject (previous.completed = false)
      (invalidConfiguration "trusted DAG cannot skip an incomplete sequential quorum round")
    let lock ← require previous.lock
      (invalidConfiguration "trusted DAG completed predecessor is missing its durable lock")
    let carried ← d.candidateExtends c lock.candidate candidate
    reject (carried = false)
      (invalidConfiguration "trusted DAG next round did not carry the confirmed frontier")

end

/-! ### The order of a checkpoint -/

/-- The vertices of one chain above a sequence number, the last one first. -/
def pathAbove (d : TrustedCheckpointDag W) (stop : ℕ) : ℕ → W → Result (List W)
  | 0, _ => .error (invalidConfiguration "trusted DAG ordering encountered a missing vertex")
  | fuel + 1, cursorHash => do
    let cursor ← require d.vertices[cursorHash]?
      (invalidConfiguration "trusted DAG ordering encountered a missing vertex")
    if cursor.body.originSequence ≤ stop then pure []
    else match cursor.body.originParent with
    | none => pure [cursorHash]
    | some parent => do
      let rest ← pathAbove d stop fuel parent
      pure (cursorHash :: rest)

/-- The new vertices of one writer, in the order of its chain. -/
def newPath (d : TrustedCheckpointDag W) (paths : BTreeMap W (List W))
    (entry : TrustedDagFrontierEntry W) : Result (BTreeMap W (List W)) :=
  let stop := (frontierMap d.head.body.frontier)[entry.origin]?.elim 0 (·.sequence)
  if entry.sequence = stop then pure paths
  else do
    let reversePath ← d.pathAbove stop (d.vertices.size + 1) entry.headHash
    pure (paths.insert entry.origin reversePath.reverse)

/-- The loop that takes the vertex with the smallest hash among the next ones of all chains. -/
def mergePaths (paths : BTreeMap W (List W)) : ℕ → BTreeSet (EligibleVertex W) → List W
  | 0, _ => []
  | fuel + 1, eligible =>
    match eligible.toList.head? with
    | none => []
    | some first =>
      let rest := eligible.erase first
      first.hash :: mergePaths paths fuel
        (match (paths[first.origin]?).bind fun path => path[first.index + 1]? with
        | some next => rest.insert ⟨next, first.origin, first.index + 1⟩
        | none => rest)

section

variable (c : TrustedDagConfig W) (d : TrustedCheckpointDag W) (candidate : TrustedDagCandidate W)

def orderedDelta : Result (List W) := do
  d.validateCandidate c candidate
  let paths ← candidate.body.frontier.foldlM d.newPath ∅
  let eligible : BTreeSet (EligibleVertex W) := .ofList (paths.toList.filterMap
    fun (origin, path) => path.head?.map fun first => ⟨first, origin, 0⟩) compare
  let expectedCount := ((values paths).map List.length).sum
  let ordered := mergePaths paths expectedCount eligible
  reject (ordered.length ≠ expectedCount) (invalidConfiguration
    "trusted DAG deterministic ordering did not cover the candidate closure")
  pure ordered

def checkpointForCandidate (orderedVertices : List W) : Result (TrustedDagCheckpoint W) := do
  d.validateCandidate c candidate
  pure (.new
    { groupId := c.groupId
      membershipGeneration := c.membershipGeneration
      membershipRoot := c.membershipRoot
      previousCheckpointHash := d.head.hash
      previousCheckpointNonce := some d.head.body.nonce
      nonce := d.head.body.nonce + 1
      candidateDigest := candidate.digest
      frontierRoot := frontierRoot candidate.body.frontier
      orderedDeltaRoot := orderRoot orderedVertices
      orderedVertexCount := orderedVertices.length
      configuredQuorumSize := c.quorumSize.get
      sequentialRounds := d.sequentialRoundCount
      frontier := candidate.body.frontier })

end

end Candidates

/-! ### Rounds -/

section Rounds

variable [ProtocolCrypto W] [ShuffleSeed W]

def setRound (d : TrustedCheckpointDag W) (round : ℕ) (state : TrustedDagRoundState W) :
    TrustedCheckpointDag W :=
  { d with roundStates := d.roundStates.insert round state }

def ensureRoundState (c : TrustedDagConfig W) (round : ℕ) :
    Action (TrustedCheckpointDag W) Failure Unit := do
  let d ← get
  if d.roundStates.contains round then pure ()
  else do
    check (reject (d.sequentialRoundCount ≤ round)
      (invalidConfiguration "trusted DAG round is outside the sequential quorum topology"))
    let expectedMembers ← check (d.expectedRoundMembers c round)
    set (d.setRound round (.new expectedMembers))

def roundState (d : TrustedCheckpointDag W) (round : ℕ) : Result (TrustedDagRoundState W) :=
  require d.roundStates[round]? (.panicked "trusted DAG round state initialized above")

def storeAcknowledgement (round : ℕ) (sender : W) (candidate : TrustedDagCandidate W) :
    Action (TrustedCheckpointDag W) Failure Bool := do
  let d ← get
  let state ← check (d.roundState round)
  set (d.setRound round (state.acknowledge sender candidate))
  pure true

def recordAcknowledgement (c : TrustedDagConfig W) (round : ℕ) (sender : W)
    (candidate : TrustedDagCandidate W) : Action (TrustedCheckpointDag W) Failure Bool := do
  reading fun d => d.validateCandidate c candidate
  reading fun d => d.validateRoundProgression c round candidate
  ensureRoundState c round
  let state ← reading fun d => d.roundState round
  check (reject (state.expectedMembers.contains sender = false) (.error .unknownSender))
  check (reject (state.lock.any fun lock => decide (lock.candidate.digest ≠ candidate.digest))
    (invalidConfiguration "trusted DAG acknowledgement changed after the local round lock"))
  match state.acknowledgements.votes[sender]? with
  | some previous =>
    if previous.digest = candidate.digest then pure false
    else do
      let grown ← reading fun d => d.candidateExtends c previous candidate
      check (reject (grown = false)
        (wireProtocol "trusted DAG acknowledgement frontier may only grow"))
      storeAcknowledgement round sender candidate
  | none => storeAcknowledgement round sender candidate

def lockOn (d : TrustedCheckpointDag W) (round : ℕ) (candidate : TrustedDagCandidate W) :
    TrustedDagRoundLock W :=
  ⟨d.head.hash, d.head.body.nonce, d.head.body.nonce + 1, round, candidate⟩

section

variable (c : TrustedDagConfig W)

def lockAcknowledged (round : ℕ) (d : TrustedCheckpointDag W) (state : TrustedDagRoundState W) :
    Action (TrustedCheckpointDag W) Failure (Option (TrustedDagRoundLock W)) :=
  match state.lock with
  | some lock => pure (some lock)
  | none =>
    match state.acknowledgements.consensusHash state.threshold with
    | none => pure none
    | some digest => do
      let candidate ← check (require ((values state.acknowledgements.votes).find? fun candidate =>
        decide (candidate.digest = digest))
        (invalidConfiguration "trusted DAG acknowledgement count is missing its candidate"))
      let lock := d.lockOn round candidate
      set (d.setRound round (state.setLock c.localMember lock))
      pure (some lock)

def tryLockRound (round : ℕ) :
    Action (TrustedCheckpointDag W) Failure (Option (TrustedDagRoundLock W)) := do
  ensureRoundState c round
  let d ← get
  let state ← check (d.roundState round)
  lockAcknowledged c round d state

def closePrevious (lock : TrustedDagRoundLock W) : Action (TrustedCheckpointDag W) Failure Unit :=
  if lock.round = 0 then pure ()
  else do
    let d ← get
    let previous ← check (require d.roundStates[lock.round - 1]?
      (invalidConfiguration "trusted DAG restored locks must be contiguous"))
    let previousLock ← check (require previous.lock
      (invalidConfiguration "trusted DAG restored round is missing its predecessor lock"))
    let carried ← check (d.candidateExtends c previousLock.candidate lock.candidate)
    check (reject (carried = false) (invalidConfiguration
      "trusted DAG restored round did not carry its predecessor frontier"))
    set (d.setRound (lock.round - 1) { previous with completed := true })

def restoreRoundLock (lock : TrustedDagRoundLock W) :
    Action (TrustedCheckpointDag W) Failure Unit := do
  reading fun d => d.validateCandidate c lock.candidate
  reading fun d => reject (d.sequentialRoundCount ≤ lock.round)
    (invalidConfiguration "trusted DAG restored round is outside the sequential topology")
  reading fun d => reject (lock.previousCheckpointHash ≠ d.head.hash ∨
    lock.previousCheckpointNonce ≠ d.head.body.nonce ∨
    lock.checkpointNonce ≠ d.head.body.nonce + 1)
    (invalidConfiguration "trusted DAG round lock targets a different checkpoint")
  closePrevious c lock
  ensureRoundState c lock.round
  let d ← get
  let state ← check (d.roundState lock.round)
  match state.lock with
  | some existing =>
    check (reject (existing ≠ lock) (invalidConfiguration
      "trusted DAG restart attempted to replace an immutable round lock"))
  | none => set (d.setRound lock.round (state.setLock c.localMember lock))

def recordConfirmation (round : ℕ) (sender candidateDigest : W) :
    Action (TrustedCheckpointDag W) Failure Bool := do
  ensureRoundState c round
  let d ← get
  let state ← check (d.roundState round)
  check (reject (state.expectedMembers.contains sender = false) (.error .unknownSender))
  match state.confirmations.votes[sender]? with
  | some previous => do
    check (reject (previous ≠ candidateDigest)
      (wireProtocol "trusted DAG member confirmed two candidates for one round"))
    pure false
  | none => do
    set (d.setRound round (state.confirm sender candidateDigest))
    pure true

def finalizeCandidate (candidate : TrustedDagCandidate W) :
    Action (TrustedCheckpointDag W) Failure (TrustedDagRoundCompletion W) := do
  let d ← get
  let orderedVertices ← check (d.orderedDelta c candidate)
  let checkpoint ← check (d.checkpointForCandidate c candidate orderedVertices)
  set { d with earlier := d.checkpoints, head := checkpoint, roundStates := ∅ }
  pure (.finalized checkpoint orderedVertices)

def tryCompleteRound (round : ℕ) :
    Action (TrustedCheckpointDag W) Failure (TrustedDagRoundCompletion W) := do
  ensureRoundState c round
  let d ← get
  let state ← check (d.roundState round)
  match state.lock with
  | none => pure .pending
  | some lock =>
    if ((state.confirmations.count[lock.candidate.digest]?).getD 0) < state.threshold then
      pure .pending
    else do
      set (d.setRound round { state with completed := true })
      let finalRound := d.sequentialRoundCount - 1
      if round < finalRound then pure (.advanced (round + 1))
      else do
        check (reject (round ≠ finalRound)
          (invalidConfiguration "trusted DAG attempted to complete a round beyond the topology"))
        finalizeCandidate c lock.candidate

end

end Rounds

end TrustedCheckpointDag

end Blossom
