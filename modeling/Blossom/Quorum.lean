import Blossom.Messages
import Blossom.StatefulSteps
import Blossom.VoteTally

/-!
# The state of one quorum round

A quorum round collects the dispatches of its members, the blocks they carry and the votes about
them.
-/

namespace Blossom

open CheckedSteps OrderedMap MajorityQuorum StatefulSteps VoteTally

variable {W : Type}

/-- The votes of one kind with the size of the quorum and its supermajority. -/
structure VoteCount (V W : Type) [LinearOrder W] where
  tally : Tally W V W
  quorum : ℕ
  supermajority : ℕ

namespace VoteCount

variable {V : Type} [LinearOrder W]

def init (quorum : ℕ) : VoteCount V W := ⟨.empty, quorum, supermajorityCount quorum⟩

def recordVote (candidate : V → Option W) (c : VoteCount V W) (voter : W) (vote : V) :
    VoteCount V W :=
  { c with tally := c.tally.record candidate voter vote }

def consensusHash (c : VoteCount V W) : Option W := c.tally.consensusHash c.supermajority

end VoteCount

section Counts

variable (W) [LinearOrder W]

abbrev VerifCount := VoteCount (Verification W) W
abbrev PropCount := VoteCount (Proposal W) W
abbrev TrustedAcknowledgementCount := VoteCount (TrustedAcknowledgement W) W
abbrev TrustedConfirmationCount := VoteCount (Verification W) W

end Counts

section Votes

variable [LinearOrder W]

def Verification.candidate (v : Verification W) : Option W := some v.body.blocksHash

def TrustedAcknowledgement.candidate (a : TrustedAcknowledgement W) : Option W :=
  some a.body.blocksHash

def Proposal.candidate (p : Proposal W) : Option W := p.body.approvedHash

/-- The counters of the verifications have eight bits; without overflow checks they wrap. -/
def VerifCount.record (c : VerifCount W) (v : Verification W) : VerifCount W :=
  { c with tally := c.tally.recordBy (· % 256) Verification.candidate v.header.sender v }

def PropCount.record (c : PropCount W) (p : Proposal W) : PropCount W :=
  c.recordVote Proposal.candidate p.header.sender p

def VerifCount.consensusIsStillPossible (c : VerifCount W) : Bool :=
  let remaining := c.quorum - c.tally.votes.size
  c.consensusHash.isSome ||
    if c.tally.count.isEmpty then decide (c.supermajority ≤ remaining)
    else (values c.tally.count).any fun count => decide (c.supermajority ≤ count + remaining)

/-- Whether the proposals agree: not yet known, yes, or no longer possible. -/
def PropCount.consensus (c : PropCount W) : Option Bool :=
  let len := c.tally.votes.size
  if len < c.supermajority then none
  else if (values c.tally.count).any fun count => decide (c.supermajority ≤ count) then some true
  else if (values c.tally.count).any fun count =>
    decide (c.supermajority ≤ count + (c.quorum - len)) then none
  else some false

/-- Whether an acknowledgement changes the count; a member may only add blocks to its
previous one. -/
def TrustedAcknowledgementCount.validateUpdate (c : TrustedAcknowledgementCount W)
    (a : TrustedAcknowledgement W) : Result Bool :=
  match c.tally.votes[a.header.sender]? with
  | none => pure true
  | some previous => do
    reject (∃ hash ∈ previous.body.blocks.toList, hash ∉ a.body.blocks)
      (wireProtocol "trusted acknowledgement masks may only grow")
    pure (decide (previous.body.blocksHash ≠ a.body.blocksHash))

def TrustedAcknowledgementCount.record (c : TrustedAcknowledgementCount W)
    (a : TrustedAcknowledgement W) : Result (TrustedAcknowledgementCount W) := do
  let changes ← c.validateUpdate a
  pure (if changes then c.recordVote TrustedAcknowledgement.candidate a.header.sender a else c)

/-- The block set that a supermajority acknowledged. -/
def TrustedAcknowledgementCount.consensusBody (c : TrustedAcknowledgementCount W) :
    Option (VerificationBody W) := do
  let hash ← c.consensusHash
  ((values c.tally.votes).find? fun a => decide (a.body.blocksHash = hash)).map (·.body)

def TrustedConfirmationCount.validateUpdate (c : TrustedConfirmationCount W)
    (v : Verification W) : Result Bool :=
  match c.tally.votes[v.header.sender]? with
  | none => pure true
  | some previous => do
    reject (previous.body.blocksHash ≠ v.body.blocksHash ∨ previous.body.blocks ≠ v.body.blocks)
      (wireProtocol "trusted member confirmed two candidates for one round")
    pure false

def TrustedConfirmationCount.record (c : TrustedConfirmationCount W) (v : Verification W) :
    Result (TrustedConfirmationCount W) := do
  let changes ← c.validateUpdate v
  pure (if changes then c.recordVote Verification.candidate v.header.sender v else c)

end Votes

inductive PendingDispatch (W : Type) [LinearOrder W] where
  | decoded (dispatch : Dispatch W)
  | hot (dispatch : HotDispatch W)

namespace PendingDispatch

variable [LinearOrder W]

def senderAndSignature : PendingDispatch W → W × Signature W
  | .decoded dispatch => (dispatch.header.sender, dispatch.header.signature)
  | .hot dispatch => (dispatch.header.sender, dispatch.header.signature)

def rawPayloadLen : PendingDispatch W → Option ℕ
  | .decoded _ => none
  | .hot dispatch => some dispatch.payloadLen

def dispatch? : PendingDispatch W → Option (Dispatch W)
  | .decoded dispatch => some dispatch
  | .hot dispatch => dispatch.toDispatch.toOption

end PendingDispatch

structure RawDispatchLimits where
  quorum : ℕ
  sender : ℕ

structure TempQuorum (W : Type) [LinearOrder W] where
  dispatchStatus : Option Bool
  receivedDispatches : List W
  receivedDispatchIdentities : BTreeMap W (Signature W × W)
  pendingDispatches : List (PendingDispatch W)
  verifiedSignatureTreeHashes : BTreeSet W
  verifiedBlocks : BTreeMap W (Block W)
  equivocatingValidators : BTreeSet W
  verifiedBlocksHash : Option W
  localDispatch : Option (Dispatch W)
  dispatchRetry : Bool
  trustedAcknowledgements : TrustedAcknowledgementCount W
  trustedConfirmations : TrustedConfirmationCount W
  pendingTrustedAcknowledgements : BTreeMap W (TrustedAcknowledgement W)
  pendingTrustedConfirmations : BTreeMap W (Verification W)
  lastTrustedAcknowledgementHash : Option W
  trustedAcknowledgementRetry : Option W
  trustedConfirmationRetry : Option W
  verifications : VerifCount W
  verificationSent : Bool
  verificationRetry : Bool
  proposals : PropCount W
  proposalSent : Bool
  proposalRetry : Bool
  pendingProposals : BTreeMap W (Proposal W)
  pendingCommits : BTreeMap W (Commit W)
  localCommit : Option (Commit W)
  commitSenders : BTreeSet W
  commitTrueSenders : BTreeSet W
  epochSignatures : BTreeMap W (Signature W)
  commitSent : Bool
  quorumNodes : List W
  verifiedTx : ℕ

def initQuorum [LinearOrder W] (members : List W) : TempQuorum W where
  dispatchStatus := none
  receivedDispatches := []
  receivedDispatchIdentities := ∅
  pendingDispatches := []
  verifiedSignatureTreeHashes := ∅
  verifiedBlocks := ∅
  equivocatingValidators := ∅
  verifiedBlocksHash := none
  localDispatch := none
  dispatchRetry := false
  trustedAcknowledgements := .init members.length
  trustedConfirmations := .init members.length
  pendingTrustedAcknowledgements := ∅
  pendingTrustedConfirmations := ∅
  lastTrustedAcknowledgementHash := none
  trustedAcknowledgementRetry := none
  trustedConfirmationRetry := none
  verifications := .init members.length
  verificationSent := false
  verificationRetry := false
  proposals := .init members.length
  proposalSent := false
  proposalRetry := false
  pendingProposals := ∅
  pendingCommits := ∅
  localCommit := none
  commitSenders := ∅
  commitTrueSenders := ∅
  epochSignatures := ∅
  commitSent := false
  quorumNodes := members
  verifiedTx := 0

namespace TempQuorum

section Blocks

variable [LinearOrder W]

section

variable (q : TempQuorum W)

/-- Record a block that passed its checks. A second block of a writer removes the first
one and marks the writer; a marked writer has no block from then on. -/
def recordVerifiedBlock (blockHash : W) (block : Block W) : Bool × TempQuorum W :=
  let validator := block.body.validator
  if q.equivocatingValidators.contains validator ∨ q.verifiedBlocks.contains blockHash then
    (false, q)
  else
    match q.verifiedBlocks.toList.find? fun (existingHash, existing) =>
      decide (existing.body.validator = validator ∧ existingHash ≠ blockHash) with
    | some (conflictingHash, removed) =>
      (false, { q with
        verifiedBlocks := q.verifiedBlocks.erase conflictingHash
        equivocatingValidators := q.equivocatingValidators.insert validator
        verifiedTx := q.verifiedTx - removed.body.txs.length })
    | none => (true, { q with
        verifiedBlocks := q.verifiedBlocks.insert blockHash block
        verifiedTx := q.verifiedTx + block.body.txs.length })

/-- The writers with two blocks, together with those already marked. -/
def equivocatingWriters : BTreeSet W :=
  (q.verifiedBlocks.toList.foldl (fun (first, equivocating) (blockHash, block) =>
    let validator := block.body.validator
    (first.insert validator blockHash,
      match first[validator]? with
      | some existing =>
        if existing ≠ blockHash then equivocating.insert validator else equivocating
      | none => equivocating))
    ((∅ : BTreeMap W W), q.equivocatingValidators)).2

def canonicalVerifiedBlocks : BTreeMap W (Block W) :=
  let equivocating := q.equivocatingWriters
  q.verifiedBlocks.filter fun _ block => !equivocating.contains block.body.validator

def recordVerifiedBlocks (blocks : List (W × Block W)) : TempQuorum W :=
  blocks.foldl (fun q (hash, block) => (q.recordVerifiedBlock hash block).2) q

def trustedCandidateBlocks (body : VerificationBody W) : Option (BTreeMap W (Block W)) :=
  let verified := q.canonicalVerifiedBlocks
  (body.blocks.toList.mapM fun hash => (verified[hash]?).map fun block => (hash, block)).map
    fun entries => .ofList entries compare

def pendingRawDispatchBytes : ℕ :=
  (q.pendingDispatches.filterMap PendingDispatch.rawPayloadLen).sum

def pendingRawDispatchBytesForSender (sender : W) : ℕ :=
  ((q.pendingDispatches.filter fun pending =>
    decide (pending.senderAndSignature.1 = sender)).filterMap PendingDispatch.rawPayloadLen).sum

def hasCompleteDispatchSet : Bool :=
  decide (q.dispatchStatus = some true ∧ q.quorumNodes.length ≤ q.receivedDispatches.length + 1)

/-- Whether enough trusted members have dispatched. -/
def hasTrustedDispatchQuorum : Bool :=
  decide (q.dispatchStatus = some true ∧
    supermajorityCount q.quorumNodes.length ≤ q.receivedDispatches.length + 1)

end

end Blocks

section Crypto

variable [ProtocolCrypto W]

section

variable (q : TempQuorum W)

/-- The hashes of the verified blocks, `verified_blocks` of the source. -/
def verifiedBlockSet : BTreeSet W := keySet q.canonicalVerifiedBlocks

def currentBlocksHash : W := blockSetHash q.verifiedBlockSet

def refreshBlocksHash : TempQuorum W :=
  { q with verifiedBlocksHash := some q.currentBlocksHash }

def recordVerifiedDispatchBlocks (blocks : BTreeMap W (Block W)) : TempQuorum W :=
  (q.recordVerifiedBlocks blocks.toList).refreshBlocksHash

/-- Errors that name a sender are kept without its key. -/
def tryPushPendingDispatch (dispatch : PendingDispatch W)
    (limits : RawDispatchLimits) : Result (TempQuorum W) := do
  reject (∃ pending ∈ q.pendingDispatches,
    pending.senderAndSignature = dispatch.senderAndSignature)
    (wireProtocol "duplicate pending dispatch")
  match dispatch.rawPayloadLen with
  | none => pure ()
  | some length =>
    let total := q.pendingRawDispatchBytes + length
    reject (limits.quorum < total) (wireProtocol
      s!"pending raw dispatch bytes exceed quorum cap: {total} > {limits.quorum}")
    let ofSender := q.pendingRawDispatchBytesForSender dispatch.senderAndSignature.1 + length
    reject (limits.sender < ofSender) (wireProtocol
      s!"pending raw dispatch bytes exceed sender cap: {ofSender} > {limits.sender}")
  pure { q with pendingDispatches := q.pendingDispatches ++ [dispatch] }

end

def checkSignatureTree (verifySignatures : Bool) (known : BTreeSet W) (body : DispatchBody W) :
    Bool × BTreeSet W :=
  if verifySignatures then
    if known.contains body.signatureTreeHash then (true, known)
    else if signatureTreeVerify body.signatureTree then
      (true, known.insert body.signatureTreeHash)
    else (false, known)
  else (decide (treeHash body.signatureTree = body.signatureTreeHash), known)

section

variable (q : TempQuorum W) (verifySignatures : Bool)

def verifiableBlocks (dispatch : Dispatch W) : List (W × Block W) :=
  dispatch.body.blocks.toList.filter fun (hash, block) =>
    !q.verifiedBlocks.contains hash &&
    decide (block.body.lastEpoch = dispatch.header.lastEpoch ∧
      block.body.nonce = dispatch.header.nonce) &&
    (if verifySignatures then block.verifyIntegrityWithHash hash
      else block.verifyUnsignedIntegrityWithHash hash).isOk

def collectPending (acc : List (W × Block W) × BTreeSet W) (pending : PendingDispatch W) :
    List (W × Block W) × BTreeSet W :=
  match pending.dispatch? with
  | none => acc
  | some dispatch =>
    let (treeOk, known) := checkSignatureTree verifySignatures acc.2 dispatch.body
    (acc.1 ++ (if treeOk then q.verifiableBlocks verifySignatures dispatch else []), known)

/-- Move the blocks of the pending dispatches to the verified blocks. Every pending
dispatch has been processed after it. -/
def verifyWithSignatureChecks : TempQuorum W :=
  let (blocks, known) := q.pendingDispatches.foldl (q.collectPending verifySignatures)
    ([], q.verifiedSignatureTreeHashes)
  (({ q with pendingDispatches := [], verifiedSignatureTreeHashes := known } :
    TempQuorum W).recordVerifiedBlocks blocks).refreshBlocksHash

end

def verify (q : TempQuorum W) : TempQuorum W := q.verifyWithSignatureChecks true

def verifyTrusted (q : TempQuorum W) : TempQuorum W := q.verifyWithSignatureChecks false

def activateTrustedAcknowledgement (sender : W) : Action (TempQuorum W) Failure Unit := do
  let q ← get
  match q.pendingTrustedAcknowledgements[sender]? with
  | none => pure ()
  | some acknowledgement =>
    let pending := q.pendingTrustedAcknowledgements.erase sender
    set { q with pendingTrustedAcknowledgements := pending }
    let count ← check (TrustedAcknowledgementCount.record q.trustedAcknowledgements acknowledgement)
    modify fun q => { q with trustedAcknowledgements := count }

def activateTrustedConfirmation (sender : W) : Action (TempQuorum W) Failure Unit := do
  let q ← get
  match q.pendingTrustedConfirmations[sender]? with
  | none => pure ()
  | some confirmation =>
    set { q with pendingTrustedConfirmations := q.pendingTrustedConfirmations.erase sender }
    let count ← check (TrustedConfirmationCount.record q.trustedConfirmations confirmation)
    modify fun q => { q with trustedConfirmations := count }

def activatePendingTrustedMessages : Action (TempQuorum W) Failure Unit := do
  let q ← get
  ((q.pendingTrustedAcknowledgements.toList.filter fun (_, acknowledgement) =>
    (q.trustedCandidateBlocks acknowledgement.body).isSome).map Prod.fst).forM
      activateTrustedAcknowledgement
  let q ← get
  ((q.pendingTrustedConfirmations.toList.filter fun (_, confirmation) =>
    (q.trustedCandidateBlocks confirmation.body).isSome).map Prod.fst).forM
      activateTrustedConfirmation

def proposalMatchesVerifiedBlocks (q : TempQuorum W) (p : Proposal W) : Bool :=
  decide (p.body.approvedBlocks = some q.verifiedBlockSet ∧
    p.body.approvedHash = q.verifiedBlocksHash)

def activateProposal (matching : Proposal W → Bool) (q : TempQuorum W) (entry : W × Proposal W) :
    TempQuorum W :=
  if matching entry.2 then
    { q with
      pendingProposals := q.pendingProposals.erase entry.1
      proposals := PropCount.record q.proposals entry.2 }
  else q

def activatePendingProposals (q : TempQuorum W) : TempQuorum W :=
  q.pendingProposals.toList.foldl (activateProposal q.proposalMatchesVerifiedBlocks) q

def recordCommitVote (q : TempQuorum W) (message : Commit W) (requiredSignatures : ℕ) :
    TempQuorum W :=
  let sender := message.header.sender
  let trueSenders := if message.body.consensus then q.commitTrueSenders.insert sender
    else q.commitTrueSenders.erase sender
  { q with
    pendingCommits := q.pendingCommits.erase sender
    commitSenders := q.commitSenders.insert sender
    commitTrueSenders := trueSenders
    epochSignatures :=
      if message.body.consensus then
        match message.body.epochSignature with
        | some signature => q.epochSignatures.insert sender signature
        | none => q.epochSignatures
      else q.epochSignatures.erase sender
    commitSent := decide (requiredSignatures ≤ trueSenders.size) }

def activatePendingTrueCommits (q : TempQuorum W) (requiredSignatures : ℕ) : TempQuorum W :=
  if PropCount.consensus q.proposals ≠ some true then q
  else
    (values q.pendingCommits).foldl (fun q message => q.recordCommitVote message requiredSignatures)
      { q with pendingCommits := ∅ }

end Crypto

end TempQuorum

end Blossom
