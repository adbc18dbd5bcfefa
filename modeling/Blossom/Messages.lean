import Blossom.Epoch

/-!
# Consensus messages

A message has a header, which names its sender and the epoch target and round it is for,
and a body. The signature in the header covers the kind of the message, the header and
the body.
-/

namespace Blossom

open CheckedSteps OrderedMap MajorityQuorum

variable {W : Type}

inductive MsgKey where
  | dispatch | echoResponse | echoRequest | echoReDispatch | verification | proposal | commit
  | epochStarted | roundSkipVote | roundSkipCertificate | reconcileAppraisal | reconcileRequest
  | reconcileResponse | reconcileCommit | trustedAcknowledgement
  deriving DecidableEq

def MsgKey.signatureTag : MsgKey → ℕ
  | .dispatch => 0
  | .echoResponse => 1
  | .echoRequest => 2
  | .echoReDispatch => 3
  | .verification => 4
  | .proposal => 5
  | .commit => 6
  | .epochStarted => 7
  | .roundSkipVote => 8
  | .roundSkipCertificate => 9
  | .reconcileAppraisal => 10
  | .reconcileRequest => 11
  | .reconcileResponse => 12
  | .reconcileCommit => 13
  | .trustedAcknowledgement => 14

structure Header (W : Type) where
  sender : W
  lastEpoch : W
  nonce : ℕ
  round : ℕ
  signature : Signature W
  deriving DecidableEq

section Bodies

variable (W) [LinearOrder W]

structure SignaturesForHash where
  signatures : List (W × Signature W)
  blocks : BTreeSet W
  deriving DecidableEq

abbrev SignatureTree := BTreeMap W (SignaturesForHash W)

structure DispatchBody where
  blocks : BTreeMap W (Block W)
  blocksHash : W
  signatureTree : SignatureTree W
  signatureTreeHash : W
  deriving DecidableEq

structure Dispatch where
  header : Header W
  body : DispatchBody W
  deriving DecidableEq

/-- A dispatch as it comes from the wire. Its payload is kept; `toDispatch` is what it
decodes to. -/
structure HotDispatch where
  header : Header W
  blocksHash : W
  signatureTreeHash : W
  payloadLen : ℕ
  toDispatch : Result (Dispatch W)

structure VerificationBody where
  blocksHash : W
  blocks : BTreeSet W
  deriving DecidableEq

structure Verification where
  header : Header W
  body : VerificationBody W
  deriving DecidableEq

structure TrustedAcknowledgement where
  header : Header W
  body : VerificationBody W
  deriving DecidableEq

structure ProposalBody where
  consensus : Bool
  approvedBlocks : Option (BTreeSet W)
  approvedHash : Option W
  verif : Option (List (W × Signature W))
  signatureTree : Option (BTreeSet W)
  signatureTreeHash : Option W
  deriving DecidableEq

structure Proposal where
  header : Header W
  body : ProposalBody W
  deriving DecidableEq

structure CommitBody where
  consensus : Bool
  signatureTreeInsert : Option (SignatureTree W)
  epochHash : Option W
  epochSignature : Option (Signature W)
  deriving DecidableEq

structure Commit where
  header : Header W
  body : CommitBody W
  deriving DecidableEq

structure EchoResponseBody where
  sender : W
  blocksHash : W
  signatureTreeHash : W
  deriving DecidableEq

structure EchoResponse where
  header : Header W
  body : EchoResponseBody W
  deriving DecidableEq

structure EchoRequest where
  header : Header W
  requestedBlocks : BTreeSet W
  deriving DecidableEq

structure EchoReDispatch where
  header : Header W
  redispatchedBlocks : BTreeMap W (Block W)
  deriving DecidableEq

structure EpochStarted where
  header : Header W
  deriving DecidableEq

structure DataDisseminationManifest where
  lastEpoch : W
  nonce : ℕ
  firstFanoutRound : ℕ
  lastCertifiedRound : Option ℕ
  certifiedBlocksHash : W
  carriedBlocks : BTreeSet W
  droppedLocalBlocks : BTreeSet W
  sourceNodes : BTreeSet W
  replicaHolders : BTreeMap W (BTreeSet W)
  deriving DecidableEq

structure RoundSkipVote where
  voter : W
  lastEpoch : W
  nonce : ℕ
  fromRound : ℕ
  toRound : ℕ
  manifestHash : W
  signature : Signature W
  deriving DecidableEq

structure RoundSkipCertificate where
  lastEpoch : W
  nonce : ℕ
  fromRound : ℕ
  toRound : ℕ
  manifestHash : W
  votes : List (RoundSkipVote W)
  deriving DecidableEq

structure RoundSkipVoteMessage where
  header : Header W
  vote : RoundSkipVote W
  manifest : DataDisseminationManifest W
  deriving DecidableEq

structure RoundSkipCertificateMessage where
  header : Header W
  certificate : RoundSkipCertificate W
  manifest : DataDisseminationManifest W
  deriving DecidableEq

structure ReconcileAppraisal where
  header : Header W
  blocksHash : W
  blocks : BTreeSet W
  manifestHash : W
  deriving DecidableEq

structure ReconcileRequest where
  header : Header W
  blocksHash : W
  missingBlocks : BTreeSet W
  deriving DecidableEq

structure ReconcileResponse where
  header : Header W
  blocksHash : W
  blocks : BTreeMap W (Block W)
  deriving DecidableEq

structure ReconcileCommit where
  header : Header W
  blocksHash : W
  epochHash : W
  signatures : List (W × Signature W)
  deriving DecidableEq

inductive Msg where
  | dispatch (m : Dispatch W)
  | echoResponse (m : EchoResponse W)
  | verification (m : Verification W)
  | proposal (m : Proposal W)
  | commit (m : Commit W)
  | epochStarted (m : EpochStarted W)
  | echoRequest (m : EchoRequest W)
  | echoReDispatch (m : EchoReDispatch W)
  | roundSkipVote (m : RoundSkipVoteMessage W)
  | roundSkipCertificate (m : RoundSkipCertificateMessage W)
  | reconcileAppraisal (m : ReconcileAppraisal W)
  | reconcileRequest (m : ReconcileRequest W)
  | reconcileResponse (m : ReconcileResponse W)
  | reconcileCommit (m : ReconcileCommit W)
  | trustedAcknowledgement (m : TrustedAcknowledgement W)
  | ok
  | fail
  deriving DecidableEq

end Bodies

section Fields

variable [LinearOrder W]

def hashSetFields (s : BTreeSet W) : List (Field W) := listFields (fun w => [.word w]) s.toList

def signatureListFields (s : List (W × Signature W)) : List (Field W) :=
  listFields (fun (key, signature) => .word key :: signatureFields signature) s

def DispatchBody.fields (b : DispatchBody W) : List (Field W) :=
  [.word b.blocksHash, .word b.signatureTreeHash]

def VerificationBody.fields (b : VerificationBody W) : List (Field W) :=
  .word b.blocksHash :: hashSetFields b.blocks

def ProposalBody.fields (b : ProposalBody W) : List (Field W) :=
  if b.consensus then
    [Field.num 1] ++ optionFields hashSetFields b.approvedBlocks ++
      optionFields (fun w => [.word w]) b.approvedHash ++
      optionFields signatureListFields b.verif ++
      optionFields hashSetFields b.signatureTree ++
      optionFields (fun w => [.word w]) b.signatureTreeHash
  else [Field.num 0]

def CommitBody.fields (b : CommitBody W) : List (Field W) :=
  [Field.num b.consensus.toNat] ++
    optionFields (fun tree => listFields (fun w => [.word w]) tree.keys) b.signatureTreeInsert ++
    match b.epochHash, b.epochSignature with
    | some epochHash, some signature => [Field.num 1, .word epochHash] ++ signatureFields signature
    | _, _ => [Field.num 0]

def EchoResponseBody.fields (b : EchoResponseBody W) : List (Field W) :=
  [.word b.sender, .word b.blocksHash, .word b.signatureTreeHash]

def DataDisseminationManifest.fields (m : DataDisseminationManifest W) : List (Field W) :=
  [Field.tag .roundSkipManifest, .word m.lastEpoch, .num m.nonce, .num m.firstFanoutRound] ++
    optionFields (fun round => [.num round]) m.lastCertifiedRound ++
    [Field.word m.certifiedBlocksHash] ++ hashSetFields m.carriedBlocks ++
    hashSetFields m.droppedLocalBlocks ++ hashSetFields m.sourceNodes ++
    listFields (fun (block, holders) => .word block :: hashSetFields holders)
      m.replicaHolders.toList

omit [LinearOrder W] in
def RoundSkipVote.fields (v : RoundSkipVote W) : List (Field W) :=
  [.tag .roundSkipVote, .word v.voter, .word v.lastEpoch, .num v.nonce, .num v.fromRound,
    .num v.toRound, .word v.manifestHash]

def RoundSkipVoteMessage.fields (m : RoundSkipVoteMessage W) : List (Field W) :=
  m.vote.fields ++ signatureFields m.vote.signature ++ m.manifest.fields

def RoundSkipCertificateMessage.fields (m : RoundSkipCertificateMessage W) : List (Field W) :=
  [Field.word m.certificate.lastEpoch, .num m.certificate.nonce, .num m.certificate.fromRound,
    .num m.certificate.toRound, .word m.certificate.manifestHash] ++
    listFields (fun v => v.fields ++ signatureFields v.signature) m.certificate.votes ++
    m.manifest.fields

def ReconcileAppraisal.fields (m : ReconcileAppraisal W) : List (Field W) :=
  .word m.blocksHash :: hashSetFields m.blocks ++ [Field.word m.manifestHash]

def ReconcileRequest.fields (m : ReconcileRequest W) : List (Field W) :=
  .word m.blocksHash :: hashSetFields m.missingBlocks

def ReconcileCommit.fields (m : ReconcileCommit W) : List (Field W) :=
  [Field.word m.blocksHash, .word m.epochHash] ++ signatureListFields m.signatures

end Fields

section Crypto

variable [ProtocolCrypto W]

def blockMapFields (blocks : BTreeMap W (Block W)) : List (Field W) :=
  listFields (fun (hash, block) => [Field.word hash, .word block.hash, .word block.body.bodyHash] ++
    signatureFields block.signature) blocks.toList

def EchoReDispatch.fields (m : EchoReDispatch W) : List (Field W) :=
  blockMapFields m.redispatchedBlocks

def ReconcileResponse.fields (m : ReconcileResponse W) : List (Field W) :=
  .word m.blocksHash :: blockMapFields m.blocks

def blockSetHash (blocks : BTreeSet W) : W := hashWords blocks.toList

def keySet {V : Type} (m : BTreeMap W V) : BTreeSet W := .ofList m.keys compare

def treeHash (tree : SignatureTree W) : W := hashWords tree.keys

def signatureHashForBody (sender lastEpoch : W) (nonce round : ℕ) (kind : MsgKey)
    (body : List (Field W)) : W :=
  protocolHash ([Field.tag .messageSignature, .num kind.signatureTag, .word sender, .word lastEpoch,
    .num nonce, .num round] ++ body)

def Header.signatureHash (h : Header W) (kind : MsgKey) (body : List (Field W)) : W :=
  signatureHashForBody h.sender h.lastEpoch h.nonce h.round kind body

def Header.verifySignature (h : Header W) (kind : MsgKey) (body : List (Field W)) : Result Unit :=
  checkSignature h.signature [.word (h.signatureHash kind body)] h.sender

def signatureTreeVerify (tree : SignatureTree W) : Bool :=
  tree.toList.all fun (blocksHash, entry) => decide (blockSetHash entry.blocks = blocksHash) &&
    entry.signatures.all fun (key, signature) =>
      ProtocolCrypto.verify signature [.word blocksHash] key

def DispatchBody.validate (b : DispatchBody W) : Result Unit := do
  reject (blockSetHash (keySet b.blocks) ≠ b.blocksHash)
    (wireProtocol "dispatch blocks hash does not match block set")
  reject (treeHash b.signatureTree ≠ b.signatureTreeHash)
    (wireProtocol "dispatch signature-tree hash does not match signature tree")

def VerificationBody.validate (b : VerificationBody W) : Result Unit :=
  reject (blockSetHash b.blocks ≠ b.blocksHash)
    (wireProtocol "verification blocks hash does not match block set")

def VerificationBody.of (blocks : BTreeSet W) : VerificationBody W := ⟨blockSetHash blocks, blocks⟩

def ProposalBody.validate (b : ProposalBody W) : Result Unit := do
  if b.consensus then
    let approvedBlocks ← require b.approvedBlocks
      (wireProtocol "consensus proposal must include approved blocks")
    let approvedHash ← require b.approvedHash
      (wireProtocol "consensus proposal must include approved hash")
    reject (blockSetHash approvedBlocks ≠ approvedHash)
      (wireProtocol "proposal approved hash does not match approved blocks")
    match b.signatureTree, b.signatureTreeHash with
    | some tree, some hash =>
      reject (blockSetHash tree ≠ hash)
        (wireProtocol "proposal signature-tree hash does not match signature tree")
    | _, _ => pure ()

def DataDisseminationManifest.hash (m : DataDisseminationManifest W) : W := protocolHash m.fields

def RoundSkipVote.verifySignature (v : RoundSkipVote W) : Result Unit :=
  checkSignature v.signature [.word (protocolHash v.fields)] v.voter

def byzantineFaultBound (total : ℕ) : ℕ := (total - 1) / 3

def DataDisseminationManifest.validateAvailability (m : DataDisseminationManifest W)
    (currentValidators : BTreeSet W) (minReplicasPerBlock : ℕ) : Result Unit := do
  let minReplicas := max minReplicasPerBlock 1
  reject (∃ source ∈ m.sourceNodes.toList, source ∉ currentValidators)
    (wireProtocol "data-dissemination manifest source is not a current validator")
  reject (∃ block ∈ m.carriedBlocks.toList, block ∈ m.droppedLocalBlocks)
    (wireProtocol "data-dissemination manifest cannot both carry and drop the same block")
  reject (∃ block ∈ m.replicaHolders.keys, block ∉ m.carriedBlocks)
    (wireProtocol "data-dissemination manifest has replica evidence for an uncarried block")
  reject (∃ holders ∈ values m.replicaHolders, ∃ holder ∈ holders.toList,
      holder ∉ m.sourceNodes ∨ holder ∉ currentValidators) (wireProtocol
    "data-dissemination manifest replica holder is not an eligible validator")
  reject (∃ block ∈ m.carriedBlocks.toList,
      ((m.replicaHolders[block]?).map (·.size)).getD 0 < minReplicas)
    (wireProtocol ("data-dissemination manifest carried block has fewer than " ++
      s!"{minReplicas} replica holders"))

def RoundSkipVote.matchesCertificate (v : RoundSkipVote W) (c : RoundSkipCertificate W) : Bool :=
  decide (v.lastEpoch = c.lastEpoch ∧ v.nonce = c.nonce ∧ v.fromRound = c.fromRound ∧
    v.toRound = c.toRound ∧ v.manifestHash = c.manifestHash)

def RoundSkipCertificate.validVoters (c : RoundSkipCertificate W) (currentValidators : BTreeSet W) :
    BTreeSet W :=
  .ofList ((c.votes.filter fun vote => vote.matchesCertificate c &&
    currentValidators.contains vote.voter && vote.verifySignature.isOk).map (·.voter)) compare

def RoundSkipCertificate.validateAgainstEpochAndManifest (c : RoundSkipCertificate W)
    (currentValidators : BTreeSet W) (expectedLastEpoch : W) (expectedNonce : ℕ)
    (manifest : DataDisseminationManifest W) (minReplicasPerBlock : ℕ) : Result Unit := do
  reject (c.manifestHash ≠ manifest.hash)
    (wireProtocol "round-skip certificate manifest hash does not match manifest")
  manifest.validateAvailability currentValidators minReplicasPerBlock
  reject (c.toRound ≤ c.fromRound)
    (wireProtocol "round-skip certificate must advance to a future round")
  reject (c.lastEpoch ≠ expectedLastEpoch ∨ c.nonce ≠ expectedNonce)
    (wireProtocol "round-skip certificate is stale for this epoch")
  let validDistinctVotes := (c.validVoters currentValidators).size
  let requiredVotes := supermajorityCount currentValidators.size
  reject (hasSupermajority currentValidators.size validDistinctVotes = false)
    (wireProtocol (s!"round-skip certificate has {validDistinctVotes} valid votes, " ++
      s!"needs {requiredVotes}"))

end Crypto

end Blossom
