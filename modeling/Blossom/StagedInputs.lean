import Blossom.RoundSkips
import Blossom.RuntimeOperations

/-!
# Staged membership inputs

A node stages member operations, admissions and encounter records for a block of its own. The
operations go to the open block, the records beside the queue. A dispatch that finds no queued block
makes an empty one, which takes the records with it; nothing ever closes the open block. The records
are lost when the empty block is not sent, which is when an earlier block of the same writer is
carried into the round.
-/

namespace Blossom

open CheckedSteps OrderedMap MajorityQuorum StatefulSteps LocalState

variable {W : Type} [ProtocolCrypto W]
variable {q q' queue : LocalBlock W} {f : LocalBlock W → Result (LocalBlock W)}

structure StagingCodec (W : Type) where
  encodeMemberOperation : CommittedMemberOperation W → List UInt8
  encodedLength : Transaction W → ℕ
  maxFrameSize : ℕ

def CommittedMemberOperation.toTransaction (codec : StagingCodec W)
    (op : CommittedMemberOperation W) : Transaction W :=
  .new (memberOperationPrefix ++ codec.encodeMemberOperation op)

def MemberSet.validateOperation (m : MemberSet W) (op : MemberOperation W) : Result Unit := do
  let _ ← m.apply op
  pure ()

def EncounterRecord.hash (r : EncounterRecord W) : W :=
  protocolHash (r.body.fields ++ signatureFields r.signature)

namespace LocalBlock

def addEncounterRecord (q : LocalBlock W) (record : EncounterRecord W) : Result (LocalBlock W) := do
  record.verify
  pure { q with encounterRecords := q.encounterRecords ++ [record] }

def addNodeAdmission (q : LocalBlock W) (admission : NodeAdmission W) : Result (LocalBlock W) := do
  admission.verify
  pure { q with nodeAdmissions := q.nodeAdmissions ++ [admission] }

omit [ProtocolCrypto W] in
def addTransaction (q : LocalBlock W) (tx : Transaction W) : LocalBlock W :=
  { q with buildBlock := { q.buildBlock with
      body := { q.buildBlock.body with txs := q.buildBlock.body.txs ++ [tx] } } }

end LocalBlock

namespace NodeRuntime

/-! ### The calls -/

def onLocalBlocks (f : LocalBlock W → Result (LocalBlock W)) : Operation W Unit := do
  let rt ← get
  let queue ← check (f rt.localBlocks)
  set { rt with localBlocks := queue }

def submitTransaction (c : RuntimeConfig W) (codec : StagingCodec W) (tx : Transaction W) :
    Operation W W := do
  check (ensureConsensusMode c "submit application transaction")
  check (reject (tx.payload = [])
    (invalidConfiguration "application transactions must not be empty"))
  check (reject (codec.maxFrameSize < codec.encodedLength tx)
    (invalidConfiguration "application transaction exceeds the configured frame bound"))
  onLocalBlocks fun queue => pure (queue.addTransaction tx)
  pure tx.hash

def setApplicationState (c : RuntimeConfig W) (bytes : List UInt8) : Operation W Unit := do
  check (ensureConsensusMode c "set application state")
  check (reject (blockApplicationStateMaxBytes < bytes.length)
    (.error (.blockApplicationStateTooLarge blockApplicationStateMaxBytes bytes.length)))
  onLocalBlocks fun queue => pure { queue with applicationState := bytes }

def addEncounterRecord (c : RuntimeConfig W) (record : EncounterRecord W) : Operation W W := do
  check (ensureConsensusMode c "add encounter record")
  let rt ← get
  check (reject (record.body.observer ≠ rt.state.selfNode.publicKey) (.error .keyMismatch))
  onLocalBlocks (·.addEncounterRecord record)
  pure record.hash

def isCurrentVerifier (s : LocalState W) (publicKey : W) : Bool :=
  s.head?.any fun epoch => epoch.body.verifiers.contains publicKey

def stageNodeAdmission (c : RuntimeConfig W) (admission : NodeAdmission W) :
    Operation W (Option (NodeIdentity W)) := do
  check (ensureConsensusMode c "stage node admission")
  check admission.verify
  let target ← onState (nextEpochTarget c)
  check (reject (admission.body.lastEpoch ≠ target.lastEpoch ∨ admission.body.nonce ≠ target.nonce)
    (.error .invalidEpochNonce))
  let rt ← get
  if isCurrentVerifier rt.state admission.body.node.publicKey then pure none
  else
    onLocalBlocks (·.addNodeAdmission admission)
    pure (some admission.body.node)

def stageMemberOperation (c : RuntimeConfig W) (codec : StagingCodec W) (op : MemberOperation W) :
    Operation W W := do
  check (ensureConsensusMode c "stage member operation")
  let rt ← get
  let head ← check (require rt.state.head? (.error .emptyEpochChain))
  check (reject (¬head.body.verifiers.contains rt.state.selfNode.publicKey) (.error .unknownSender))
  check (head.body.members.validateOperation op)
  let tx := CommittedMemberOperation.toTransaction codec ⟨c.groupId, head.hash, op⟩
  onLocalBlocks fun queue => pure (queue.addTransaction tx)
  pure tx.hash

/-! ### What is staged and what is sent -/

end NodeRuntime

/-- An input that a stage call has accepted; an operation is staged as its transaction. -/
inductive StagedInput (W : Type) where
  | memberOperation (tx : Transaction W)
  | nodeAdmission (admission : NodeAdmission W)
  | encounterRecord (record : EncounterRecord W)

namespace StagedInput

section

omit [ProtocolCrypto W]

def Staged (q : LocalBlock W) : StagedInput W → Prop
  | memberOperation tx => tx ∈ q.buildBlock.body.txs
  | nodeAdmission admission => admission ∈ q.nodeAdmissions
  | encounterRecord record => record ∈ q.encounterRecords

def In (block : Block W) : StagedInput W → Prop
  | memberOperation tx => tx ∈ block.body.txs
  | nodeAdmission admission => admission ∈ block.body.nodeAdmissions
  | encounterRecord record => record ∈ block.body.encounterRecords

def IsRecord : StagedInput W → Prop
  | memberOperation _ => False
  | _ => True

end

/-- A block of the node's own with the input is among the blocks. -/
def SentIn (c : RuntimeConfig W) (blocks : BTreeMap W (Block W)) (x : StagedInput W) : Prop :=
  ∃ signer block, c.signer = some signer ∧ block ∈ values blocks ∧
    block.body.validator = signer.publicKey ∧ x.In block

end StagedInput

namespace NodeRuntime

open StagedInput

/-- The records of a queue and its open block, which a dispatch either keeps or, apart from the
block, empties. -/
structure SameStaged (q q' : LocalBlock W) : Prop where
  buildBlock_eq : q'.buildBlock = q.buildBlock
  encounterRecords_eq : q'.encounterRecords = q.encounterRecords
  nodeAdmissions_eq : q'.nodeAdmissions = q.nodeAdmissions

omit [ProtocolCrypto W] in
theorem SameStaged.staged (h : SameStaged q q') (x : StagedInput W) : x.Staged q' ↔ x.Staged q := by
  cases x <;> simp only [Staged, h.buildBlock_eq, h.encounterRecords_eq, h.nodeAdmissions_eq]

theorem sameStaged_dequeueBlock (q : LocalBlock W) (validator : Option W) (target : EpochNonce W) :
    SameStaged q (q.dequeueBlock validator target).2 := by
  unfold LocalBlock.dequeueBlock
  split
  · exact ⟨rfl, rfl, rfl⟩
  · dsimp only
    split_ifs <;> exact ⟨rfl, rfl, rfl⟩

theorem dequeueBlock_of_nil (h : q.blockDeque = []) (validator : Option W) (target : EpochNonce W) :
    (q.dequeueBlock validator target).1 = .ok none := by
  rw [LocalBlock.dequeueBlock, h]
  rfl

def taken (q : LocalBlock W) : LocalBlock W :=
  { q with encounterRecords := [], nodeAdmissions := [] }

variable {α : Type} {x : StagedInput W}

omit [ProtocolCrypto W] in
theorem staged_taken : x.Staged (taken q) ↔ x.Staged q ∧ ¬x.IsRecord := by
  cases x <;> simp [Staged, IsRecord, taken]

theorem run_onState {R : NodeRuntime W → NodeRuntime W → Prop} {rt : NodeRuntime W}
    (m : StateOperation W α) (hR : ∀ s, R rt { rt with state := s }) :
    Run R rt (onState m) fun _ _ => True := by
  unfold Run onState
  cases m rt.state with
  | ok a s => exact ⟨.single (hR s), trivial⟩
  | error e s => exact .single (hR s)

theorem onState_returns {m : StateOperation W α} {rt rt' : NodeRuntime W} {a : α} :
    onState m rt = .ok a rt' ↔ ∃ s, m rt.state = .ok a s ∧ rt' = { rt with state := s } := by
  unfold onState
  cases m rt.state with
  | error e s => simp
  | ok b s => simp [eq_comm]

section NextBlock

variable {c : RuntimeConfig W} {created : ℕ} {target : EpochNonce W} {rt : NodeRuntime W}
  {queue : LocalBlock W}

theorem nextLocalBlock_of_error {e : Failure}
    (h : rt.localBlocks.dequeueBlock c.blockService target = (.error e, queue)) :
    nextLocalBlock c created target rt = .error e { rt with localBlocks := queue } := by
  unfold nextLocalBlock
  rw [bind_get, h]
  rfl

theorem nextLocalBlock_of_some {block : Block W}
    (h : rt.localBlocks.dequeueBlock c.blockService target = (.ok (some block), queue)) :
    nextLocalBlock c created target rt =
      (check (checkAcceptedBlock (rt.acceptedLocalBlocks[target.nonce]?) (some block)) >>=
        fun _ => pure block) { rt with localBlocks := queue } := by
  unfold nextLocalBlock
  rw [bind_get, h]
  rfl

theorem nextLocalBlock_of_none
    (h : rt.localBlocks.dequeueBlock c.blockService target = (.ok none, queue)) :
    nextLocalBlock c created target rt =
      (check (checkAcceptedBlock (rt.acceptedLocalBlocks[target.nonce]?) none) >>=
        fun _ => check (emptyBlock c rt.state.selfNode.publicKey target created queue))
          { rt with localBlocks := taken queue } := by
  unfold nextLocalBlock
  rw [bind_get, h]
  rfl

end NextBlock

section Dispatch

variable [ShuffleSeed W]

def sealedDispatch (rt : NodeRuntime W) (round : ℕ) (target : EpochNonce W) : Option (Dispatch W) :=
  (rt.state.getQuorum target round).bind (·.localDispatch)

variable {c : RuntimeConfig W} {created round : ℕ} {target : EpochNonce W} {rt rt' : NodeRuntime W}

theorem dispatchLocalBlock_of_sealed {dispatch : Dispatch W}
    (h : rt.sealedDispatch round target = some dispatch) :
    dispatchLocalBlock c created round target rt = .ok dispatch rt := by
  rw [sealedDispatch] at h
  rw [dispatchLocalBlock, bind_get, h]
  rfl

theorem dispatchLocalBlock_of_none (h : rt.sealedDispatch round target = none) :
    dispatchLocalBlock c created round target rt =
      (nextLocalBlock c created target >>=
        sendBlock c rt.state.selfNode.publicKey round target) rt := by
  rw [sealedDispatch] at h
  rw [dispatchLocalBlock, bind_get, h]

/-- The dispatch makes an empty block. -/
def TakesStaged (c : RuntimeConfig W) (rt : NodeRuntime W) (round : ℕ) (target : EpochNonce W) :
    Prop :=
  rt.sealedDispatch round target = none ∧
    (rt.localBlocks.dequeueBlock c.blockService target).1 = .ok none

theorem localBlocks_sendBlock (selfKey : W) (block : Block W) (rt : NodeRuntime W) :
    (after (sendBlock c selfKey round target block) rt).localBlocks = rt.localBlocks := by
  refine Run.after_congr (Q := fun _ _ => True) ?_
  refine (run_onState _ fun _ => rfl).bind fun carried rt' _ => Run.bind_check fun header _ => ?_
  exact (run_onState _ fun _ => rfl).bind fun _ rt'' _ => Run.bind_modify (.single rfl) (Run.pure trivial)

/-- The queue after a dispatch that chooses a block: as `nextLocalBlock` leaves it. -/
theorem localBlocks_dispatch (h : rt.sealedDispatch round target = none) :
    (after (dispatchLocalBlock c created round target) rt).localBlocks =
      (after (nextLocalBlock c created target) rt).localBlocks := by
  unfold after
  rw [dispatchLocalBlock_of_none h]
  cases hnext : nextLocalBlock c created target rt with
  | error e rt' => rw [bind_of_error hnext]
  | ok block rt' =>
    rw [bind_of_ok hnext]
    exact localBlocks_sendBlock _ block rt'

/-- A dispatch that makes no empty block keeps what is staged. -/
theorem sameStaged_dispatch (h : ¬TakesStaged c rt round target) :
    SameStaged rt.localBlocks
      (after (dispatchLocalBlock c created round target) rt).localBlocks := by
  cases hsealed : rt.sealedDispatch round target with
  | some dispatch =>
    rw [after_of_ok (dispatchLocalBlock_of_sealed hsealed)]
    exact ⟨rfl, rfl, rfl⟩
  | none =>
    have hsame := sameStaged_dequeueBlock rt.localBlocks c.blockService target
    rw [localBlocks_dispatch hsealed]
    rcases hqueue : rt.localBlocks.dequeueBlock c.blockService target with ⟨next, queue⟩
    rw [hqueue] at hsame
    match next with
    | .error e =>
      rw [after_of_error (nextLocalBlock_of_error hqueue)]
      exact hsame
    | .ok none => exact absurd ⟨hsealed, by rw [hqueue]⟩ h
    | .ok (some block) =>
      unfold after
      rw [nextLocalBlock_of_some hqueue]
      cases checkAcceptedBlock (rt.acceptedLocalBlocks[target.nonce]?) (some block) <;> exact hsame

/-- A dispatch that makes an empty block takes the records, whether or not it sends them. -/
theorem localBlocks_of_takes (h : TakesStaged c rt round target) :
    (after (dispatchLocalBlock c created round target) rt).localBlocks =
      taken (rt.localBlocks.dequeueBlock c.blockService target).2 := by
  rw [localBlocks_dispatch h.1]
  rcases hqueue : rt.localBlocks.dequeueBlock c.blockService target with ⟨next, queue⟩
  have hnone := h.2
  rw [hqueue] at hnone
  cases hnone
  unfold after
  rw [nextLocalBlock_of_none hqueue]
  cases hcheck : checkAcceptedBlock (rt.acceptedLocalBlocks[target.nonce]?) none with
  | error e => rfl
  | ok _ => cases emptyBlock c rt.state.selfNode.publicKey target created queue <;> rfl

/-- The target has a consensus: the source panics on any other. -/
def Addressable (target : EpochNonce W) : Prop := ¬(target.lastEpoch = default ∧ 1 < target.nonce)

theorem withQuorum_returns {m : Action (TempQuorum W) Failure α} (round : ℕ) (s : LocalState W)
    (h : Addressable target) (hm : ∀ q, ∃ a q', m q = .ok a q') :
    ∃ a s', withQuorum target round m s = .ok a s' := by
  obtain ⟨a, q', hq⟩ := hm ((s.consensusOrInit target).quorumOrInit round)
  unfold withQuorum withConsensus
  rw [if_neg h]
  dsimp only
  rw [hq]
  exact ⟨_, _, rfl⟩

theorem addressable_of_withQuorum {m : Action (TempQuorum W) Failure α} {s s' : LocalState W}
    {a : α} (h : withQuorum target round m s = .ok a s') : Addressable target := by
  intro hbad
  unfold withQuorum withConsensus at h
  rw [if_pos hbad] at h
  cases h

omit [ShuffleSeed W] in
theorem emptyBlock_returns (hver : c.trustMode.isTrusted = false) {signer : Signer W}
    (hsigner : c.signer = some signer) (selfKey : W) (target : EpochNonce W) (created : ℕ)
    (queue : LocalBlock W) :
    ∃ block, emptyBlock c selfKey target created queue = .ok block := by
  simp only [emptyBlock, hver, Bool.false_eq_true, if_false, hsigner]
  exact ⟨_, rfl⟩

omit [ShuffleSeed W] in
theorem emptyBlock_spec (hver : c.trustMode.isTrusted = false) {selfKey : W} {block : Block W} :
    emptyBlock c selfKey target created queue = .ok block →
      ∃ signer, c.signer = some signer ∧ block.body.validator = signer.publicKey ∧
        block.body.encounterRecords = queue.encounterRecords ∧
        block.body.nodeAdmissions = queue.nodeAdmissions := by
  intro h
  unfold emptyBlock at h
  simp only [hver, Bool.false_eq_true, if_false, bind_eq_ok, require_eq_ok, pure_eq_ok] at h
  obtain ⟨signer, hsigner, rfl⟩ := h
  exact ⟨signer, hsigner, rfl, rfl, rfl⟩

/-- The dispatch with an empty block is sent when no block has been accepted for its target and the
node can sign; it has the carried blocks and, unless its writer has one among them, the block. -/
theorem returned_of_takes (hver : c.trustMode.isTrusted = false)
    (h : TakesStaged c rt round target) {blocks : BTreeMap W (Block W)} :
    (∃ dispatch, returned (dispatchLocalBlock c created round target) rt = some dispatch ∧
        dispatch.body.blocks = blocks) ↔
      rt.acceptedLocalBlocks[target.nonce]? = none ∧ Addressable target ∧
      ∃ carried block, returned (carriedBlocks target round) rt.state = some carried ∧
        emptyBlock c rt.state.selfNode.publicKey target created
          (rt.localBlocks.dequeueBlock c.blockService target).2 = .ok block ∧
        blocks = dispatchBlocks carried block := by
  rcases hqueue : rt.localBlocks.dequeueBlock c.blockService target with ⟨next, queue⟩
  have hnone := h.2
  rw [hqueue] at hnone
  cases hnone
  simp only [returned_eq_some, dispatchLocalBlock_of_none h.1, bind_returns,
    nextLocalBlock_of_none hqueue, check_returns]
  constructor
  · rintro ⟨dispatch, ⟨rt', block, rt₁, ⟨_, _, ⟨hacc, rfl⟩, hempty, rfl⟩, hsend⟩, rfl⟩
    unfold sendBlock at hsend
    simp only [bind_returns, check_returns, onState_returns] at hsend
    obtain ⟨carried, _, ⟨s, hcar, rfl⟩, header, _, ⟨-, rfl⟩, _, _, ⟨s', hseal, rfl⟩, _, _, -,
      hpure⟩ := hsend
    cases hpure
    refine ⟨?_, addressable_of_withQuorum hseal, carried, block, ⟨s, hcar⟩, hempty, rfl⟩
    cases hthere : rt.acceptedLocalBlocks[target.nonce]? with
    | none => rfl
    | some hash =>
      rw [hthere] at hacc
      cases hacc
  · rintro ⟨hacc, haddr, carried, block, ⟨s, hcar⟩, hempty, rfl⟩
    obtain ⟨signer, hsigner, -⟩ := emptyBlock_spec hver hempty
    let body : DispatchBody W := ⟨dispatchBlocks carried block,
      blockSetHash (keySet (dispatchBlocks carried block)), ∅, treeHash ∅⟩
    obtain ⟨header, hheader⟩ : ∃ header, signedHeaderForBody c rt.state.selfNode.publicKey target
        round .dispatch body.fields = .ok header := by
      simp only [signedHeaderForBody, signBody, hver, Bool.false_eq_true, if_false, hsigner]
      exact ⟨_, rfl⟩
    obtain ⟨_, s', hseal⟩ := withQuorum_returns round s haddr
      (m := modify (sealDispatch · ⟨header, body⟩)) fun q => ⟨_, _, rfl⟩
    have hsend : ∃ rt', sendBlock c rt.state.selfNode.publicKey round target block
        { rt with localBlocks := taken queue } = .ok ⟨header, body⟩ rt' := by
      unfold sendBlock
      simp only [bind_returns, check_returns, onState_returns]
      exact ⟨_, carried, _, ⟨s, hcar, rfl⟩, header, _, ⟨hheader, rfl⟩, _, _, ⟨s', hseal, rfl⟩,
        _, _, rfl, rfl⟩
    obtain ⟨rt', hrt'⟩ := hsend
    refine ⟨⟨header, body⟩, ⟨rt', block, _, ⟨(), _, ⟨?_, rfl⟩, hempty, rfl⟩, hrt'⟩, rfl⟩
    rw [hacc]
    rfl

/-- The empty block of a dispatch is sent with the records it has taken, or they have been sent with
an earlier block. -/
structure SendsStaged (c : RuntimeConfig W) (rt : NodeRuntime W) (round : ℕ)
    (target : EpochNonce W) :
    Prop where
  accepted : rt.acceptedLocalBlocks[target.nonce]? = none
  addressable : Addressable target
  carried : ∃ signer carried, c.signer = some signer ∧
    returned (carriedBlocks target round) rt.state = some carried ∧
    ((∀ block ∈ values carried, block.body.validator ≠ signer.publicKey) ∨
      ∀ x : StagedInput W, x.IsRecord → x.Staged rt.localBlocks → x.SentIn c carried)

def KeepsStaged (c : RuntimeConfig W) (rt : NodeRuntime W) (round : ℕ) (target : EpochNonce W) :
    Prop :=
  TakesStaged c rt round target →
    (∀ x : StagedInput W, x.IsRecord → ¬x.Staged rt.localBlocks) ∨ SendsStaged c rt round target

theorem staged_of_takes (h : TakesStaged c rt round target) :
    x.Staged (after (dispatchLocalBlock c created round target) rt).localBlocks ↔
      x.Staged rt.localBlocks ∧ ¬x.IsRecord := by
  rw [localBlocks_of_takes h, staged_taken, (sameStaged_dequeueBlock ..).staged]

omit [ShuffleSeed W] in
theorem values_any_iff {carried : BTreeMap W (Block W)} {key : W} :
    ((values carried).any fun other => decide (other.body.validator = key)) = true ↔
      ∃ block ∈ values carried, block.body.validator = key := by
  simp only [List.any_eq_true, decide_eq_true_eq]

theorem sent_of_takes (hver : c.trustMode.isTrusted = false) (h : TakesStaged c rt round target)
    (hsends : SendsStaged c rt round target) (hrec : x.IsRecord) (hx : x.Staged rt.localBlocks) :
    ∃ dispatch, returned (dispatchLocalBlock c created round target) rt = some dispatch ∧
      x.SentIn c dispatch.body.blocks := by
  obtain ⟨hacc, haddr, signer, carried, hsigner, hcar, hown⟩ := hsends
  obtain ⟨block, hblock⟩ := emptyBlock_returns hver hsigner rt.state.selfNode.publicKey target
    created (rt.localBlocks.dequeueBlock c.blockService target).2
  obtain ⟨dispatch, hdisp, hblocks⟩ := (returned_of_takes hver h).mpr
    ⟨hacc, haddr, carried, block, hcar, hblock, rfl⟩
  refine ⟨dispatch, hdisp, ?_⟩
  obtain ⟨signer', hsigner', hval, hencs, hadmissions⟩ :=
    emptyBlock_spec hver hblock
  cases hsigner.symm.trans hsigner'
  rw [hblocks, dispatchBlocks]
  split
  next hany =>
    obtain ⟨other, hother, hwriter⟩ := values_any_iff.mp hany
    exact (hown.resolve_left fun hnone => hnone other hother (hwriter.trans hval)) x hrec
      hx
  next =>
    refine ⟨signer, block, hsigner, mem_values.mpr ⟨block.hash, ?_⟩, hval, ?_⟩
    · rw [lookup_insert, if_pos rfl]
    · rw [← (sameStaged_dequeueBlock rt.localBlocks c.blockService target).staged] at hx
      cases x with
      | memberOperation => cases hrec
      | nodeAdmission =>
        rw [StagedInput.In, hadmissions]
        exact hx
      | encounterRecord =>
        rw [StagedInput.In, hencs]
        exact hx

/-- A dispatch keeps or sends everything staged exactly when it meets the condition. -/
theorem dispatch_keeps_iff (hver : c.trustMode.isTrusted = false) :
    (∀ x : StagedInput W, x.Staged rt.localBlocks →
      x.Staged (after (dispatchLocalBlock c created round target) rt).localBlocks ∨
      ∃ dispatch, returned (dispatchLocalBlock c created round target) rt = some dispatch ∧
        x.SentIn c dispatch.body.blocks) ↔ KeepsStaged c rt round target := by
  constructor
  · intro hkept htakes
    by_cases hnone : ∀ x : StagedInput W, x.IsRecord → ¬x.Staged rt.localBlocks
    · exact .inl hnone
    · right
      push Not at hnone
      have hsent {x : StagedInput W} (hrec : x.IsRecord) (hx : x.Staged rt.localBlocks) :
          ∃ dispatch, returned (dispatchLocalBlock c created round target) rt = some dispatch ∧
            x.SentIn c dispatch.body.blocks :=
        (hkept x hx).resolve_left fun hstill => ((staged_of_takes htakes).mp hstill).2 hrec
      obtain ⟨x, hrec, hx⟩ := hnone
      obtain ⟨dispatch, hdisp, -⟩ := hsent hrec hx
      obtain ⟨hacc, haddr, carried, block, hcar, hblock, hblocks⟩ :=
        (returned_of_takes hver htakes).mp ⟨dispatch, hdisp, rfl⟩
      obtain ⟨signer, hsigner, hval, -⟩ := emptyBlock_spec hver hblock
      refine ⟨hacc, haddr, signer, carried, hsigner, hcar, ?_⟩
      by_cases hany : ∃ other ∈ values carried, other.body.validator = signer.publicKey
      · right
        intro y hyrecord hy
        obtain ⟨dispatch', hdisp', hyin⟩ := hsent hyrecord hy
        cases hdisp.symm.trans hdisp'
        rw [hblocks, dispatchBlocks, hval, if_pos (values_any_iff.mpr hany)] at hyin
        exact hyin
      · left
        push Not at hany
        exact hany
  · intro hkeeps x hx
    by_cases htakes : TakesStaged c rt round target
    · by_cases hrec : x.IsRecord
      · exact .inr (sent_of_takes hver htakes
          ((hkeeps htakes).resolve_left fun hnone => hnone x hrec hx) hrec hx)
      · exact .inl ((staged_of_takes htakes).mpr ⟨hx, hrec⟩)
    · exact .inl (((sameStaged_dispatch htakes).staged x).mpr hx)

end Dispatch

/-! ### Runs -/

/-- The other calls of the application and of the node that change the queue. -/
inductive StagingCall (W : Type) where
  | submitTransaction (tx : Transaction W)
  | setApplicationState (bytes : List UInt8)
  | addEncounterRecord (record : EncounterRecord W)
  | stageNodeAdmission (admission : NodeAdmission W)
  | stageMemberOperation (op : MemberOperation W)
  | submitBlock (block : Block W)

section Calls

def Retains (rt rt' : NodeRuntime W) : Prop :=
  ∀ x : StagedInput W, x.Staged rt.localBlocks → x.Staged rt'.localBlocks

variable {c : RuntimeConfig W} {codec : StagingCodec W} {rt rt' : NodeRuntime W}

theorem retains_of_run {m : Operation W α} {Q : α → NodeRuntime W → Prop} (h : Run Retains rt m Q) :
    Retains rt (after m rt) :=
  h.after_self (fun _ _ hx => hx) fun hab hbc x hx => hbc x (hab x hx)

theorem retains_onState (m : StateOperation W α) : Run Retains rt (onState m) fun _ _ => True :=
  run_onState m fun _ _ hx => hx

/-- A call that stages one input more. -/
theorem retains_onLocalBlocks {y : StagedInput W}
    (hf : ∀ queue, f rt.localBlocks = .ok queue → ∀ x, x.Staged queue ↔ x.Staged rt.localBlocks ∨ x = y) :
    Run Retains rt (onLocalBlocks f) fun _ rt' => y.Staged rt'.localBlocks := by
  refine Run.bind_get (Run.bind_check fun queue hqueue => Run.ofSet (.single fun x hx => ?_) ?_)
  · exact (hf queue hqueue x).mpr (.inl hx)
  · exact (hf queue hqueue y).mpr (.inr rfl)

theorem retains_addTransaction (tx : Transaction W) :
    Run Retains rt (onLocalBlocks fun queue => pure (queue.addTransaction tx)) fun _ rt' =>
      (memberOperation tx).Staged rt'.localBlocks := by
  refine retains_onLocalBlocks fun queue hqueue x => ?_
  cases hqueue
  cases x <;> simp [Staged, LocalBlock.addTransaction]

theorem staged_addEncounterRecord {record : EncounterRecord W}
    (h : q.addEncounterRecord record = .ok q') (x : StagedInput W) :
    x.Staged q' ↔ x.Staged q ∨ x = .encounterRecord record := by
  simp only [LocalBlock.addEncounterRecord, bind_eq_ok, pure_eq_ok] at h
  obtain ⟨_, -, rfl⟩ := h
  cases x <;> simp [Staged]

theorem staged_addNodeAdmission {admission : NodeAdmission W}
    (h : q.addNodeAdmission admission = .ok q') (x : StagedInput W) :
    x.Staged q' ↔ x.Staged q ∨ x = .nodeAdmission admission := by
  simp only [LocalBlock.addNodeAdmission, bind_eq_ok, pure_eq_ok] at h
  obtain ⟨_, -, rfl⟩ := h
  cases x <;> simp [Staged]

variable [EpochCodec W]

def StagingCall.perform (c : RuntimeConfig W) (codec : StagingCodec W) :
    StagingCall W → Operation W Unit
  | submitTransaction tx => do let _ ← NodeRuntime.submitTransaction c codec tx
  | setApplicationState bytes => NodeRuntime.setApplicationState c bytes
  | addEncounterRecord record => do let _ ← NodeRuntime.addEncounterRecord c record
  | stageNodeAdmission admission => do let _ ← NodeRuntime.stageNodeAdmission c admission
  | stageMemberOperation op => do let _ ← NodeRuntime.stageMemberOperation c codec op
  | submitBlock block => do let _ ← NodeRuntime.submitBlock c block

theorem retains_persistLocalBlock (block : Block W) : Run Retains rt (persistLocalBlock block)
    fun _ rt' => rt'.localBlocks = rt.localBlocks := by
  refine Run.bind_get ?_
  split
  · exact Run.pure rfl
  · exact Run.bind_check fun log _ => Run.ofSet (.single fun _ hx => hx) rfl

theorem retains_submitBlock (block : Block W) :
    Run Retains rt (submitBlock c block) fun _ _ => True := by
  refine (retains_onState _).bind fun target rt₁ _ => Run.bind_get ?_
  iterate 6 refine Run.bind_check fun _ _ => ?_
  refine (retains_persistLocalBlock block).bind fun _ rt₂ hsame => ?_
  refine Run.bind_check fun queue hqueue => ?_
  refine Run.bind_modify (.single fun x hx => ?_) (Run.pure trivial)
  rw [hsame] at hx
  simp only [LocalBlock.enqueuePreverifiedBlock, bind_eq_ok, pure_eq_ok] at hqueue
  obtain ⟨_, -, rfl⟩ := hqueue
  cases x <;> exact hx

section

omit [EpochCodec W]

theorem addEncounterRecord_run {record : EncounterRecord W} :
    Run Retains rt (addEncounterRecord c record) fun _ rt' =>
      (encounterRecord record).Staged rt'.localBlocks := by
  refine Run.bind_check fun _ _ => Run.bind_get (Run.bind_check fun _ _ => ?_)
  exact (retains_onLocalBlocks fun _ => staged_addEncounterRecord).bind fun _ _ hx => Run.pure hx

theorem stageNodeAdmission_run {admission : NodeAdmission W} :
    Run Retains rt (stageNodeAdmission c admission) fun node rt' =>
      node ≠ none → (nodeAdmission admission).Staged rt'.localBlocks := by
  iterate 2 refine Run.bind_check fun _ _ => ?_
  refine (retains_onState _).bind fun target rt₁ _ => Run.bind_check fun _ _ => Run.bind_get ?_
  split
  · exact Run.pure fun hnone => absurd rfl hnone
  · exact (retains_onLocalBlocks fun _ => staged_addNodeAdmission).bind fun _ _ hx =>
      Run.pure fun _ => hx

theorem stageMemberOperation_run {op : MemberOperation W} :
    Run Retains rt (stageMemberOperation c codec op) fun _ rt' => ∀ head,
      rt.state.head? = some head → (memberOperation (CommittedMemberOperation.toTransaction codec
        ⟨c.groupId, head.hash, op⟩)).Staged rt'.localBlocks := by
  refine Run.bind_check fun _ _ => Run.bind_get (Run.bind_check fun head hhead => ?_)
  iterate 2 refine Run.bind_check fun _ _ => ?_
  refine (retains_addTransaction _).bind fun _ _ hx => Run.pure fun head' hhead' => ?_
  cases (require_eq_ok.mp hhead).symm.trans hhead'
  exact hx

end

theorem retains_perform (call : StagingCall W) : Retains rt (after (call.perform c codec) rt) := by
  refine retains_of_run (Q := fun _ _ => True) ?_
  cases call with
  | submitTransaction tx =>
    refine Run.bind_pure (Q := fun _ _ => True) ?_
    iterate 3 refine Run.bind_check fun _ _ => ?_
    exact (retains_addTransaction tx).bind_pure
  | setApplicationState bytes =>
    iterate 2 refine Run.bind_check fun _ _ => ?_
    refine Run.bind_get (Run.bind_check fun queue hqueue => Run.ofSet (.single fun x hx => ?_) trivial)
    cases hqueue
    cases x <;> exact hx
  | addEncounterRecord record => exact addEncounterRecord_run.bind_pure
  | stageNodeAdmission admission => exact stageNodeAdmission_run.bind_pure
  | stageMemberOperation op => exact stageMemberOperation_run.bind_pure
  | submitBlock block =>
    exact (retains_submitBlock block).bind_pure

inductive Accepts (c : RuntimeConfig W) (codec : StagingCodec W) (rt : NodeRuntime W) :
    StagedInput W → NodeRuntime W → Prop
  | memberOperation {op : MemberOperation W} {hash : W} {rt' : NodeRuntime W} {head : Epoch W} :
      stageMemberOperation c codec op rt = .ok hash rt' → rt.state.head? = some head →
      Accepts c codec rt
        (.memberOperation
          (CommittedMemberOperation.toTransaction codec ⟨c.groupId, head.hash, op⟩)) rt'
  | nodeAdmission {admission : NodeAdmission W} {node : NodeIdentity W} {rt' : NodeRuntime W} :
      stageNodeAdmission c admission rt = .ok (some node) rt' →
      Accepts c codec rt (.nodeAdmission admission) rt'
  | encounterRecord {record : EncounterRecord W} {hash : W} {rt' : NodeRuntime W} :
      addEncounterRecord c record rt = .ok hash rt' →
      Accepts c codec rt (.encounterRecord record) rt'

omit [EpochCodec W] in
theorem Accepts.staged (h : Accepts c codec rt x rt') : x.Staged rt'.localBlocks := by
  cases h with
  | memberOperation h hhead => exact (stageMemberOperation_run.of_ok h).2 _ hhead
  | nodeAdmission h => exact (stageNodeAdmission_run.of_ok h).2 nofun
  | encounterRecord h => exact (addEncounterRecord_run.of_ok h).2

variable [ShuffleSeed W]

/-- A run and the dispatches in it, each of which meets the condition. Between the calls the node
may do anything that does not touch its queue: take messages, change the round, install epochs. -/
inductive KeepingRun (c : RuntimeConfig W) (codec : StagingCodec W) (rt : NodeRuntime W) :
    List (Dispatch W) → NodeRuntime W → Prop
  | start : KeepingRun c codec rt [] rt
  | call {sent : List (Dispatch W)} {rt' : NodeRuntime W} (call : StagingCall W) :
      KeepingRun c codec rt sent rt' → KeepingRun c codec rt sent (after (call.perform c codec) rt')
  | proceed {sent : List (Dispatch W)} {rt' rt'' : NodeRuntime W} :
      KeepingRun c codec rt sent rt' → rt''.localBlocks = rt'.localBlocks →
      KeepingRun c codec rt sent rt''
  | dispatch {sent : List (Dispatch W)} {rt' : NodeRuntime W} (created round : ℕ)
      (target : EpochNonce W) : KeepingRun c codec rt sent rt' → KeepsStaged c rt' round target →
      KeepingRun c codec rt
        (sent ++ (returned (dispatchLocalBlock c created round target) rt').toList)
        (after (dispatchLocalBlock c created round target) rt')

theorem KeepingRun.staged_or_sent (hver : c.trustMode.isTrusted = false)
    {sent : List (Dispatch W)} (hrun : KeepingRun c codec rt sent rt')
    (hx : x.Staged rt.localBlocks) :
    x.Staged rt'.localBlocks ∨ x.IsRecord ∧ ∃ dispatch ∈ sent, x.SentIn c dispatch.body.blocks := by
  induction hrun with
  | start => exact .inl hx
  | call call _ ih => exact ih.imp_left (retains_perform call x)
  | proceed _ hsame ih =>
    rw [hsame]
    exact ih
  | @dispatch sent rt' created round target _ hkeeps ih =>
    rcases ih with hstaged | ⟨hrec, dispatch, hdisp, hsent⟩
    · by_cases htakes : TakesStaged c rt' round target
      · by_cases hrec : x.IsRecord
        · right
          obtain ⟨dispatch, hreturned, hsent⟩ := sent_of_takes hver htakes
            ((hkeeps htakes).resolve_left fun hnone => hnone x hrec hstaged) hrec hstaged
          exact ⟨hrec, dispatch, List.mem_append_right _ (Option.mem_toList.mpr hreturned),
            hsent⟩
        · exact .inl ((staged_of_takes htakes).mpr ⟨hstaged, hrec⟩)
      · exact .inl (((sameStaged_dispatch htakes).staged x).mpr hstaged)
    · exact .inr ⟨hrec, dispatch, List.mem_append_left _ hdisp, hsent⟩

end Calls

/-! ### A network of six -/

namespace Six

/-- Six verifiers in quorums of three, which need two rounds. -/
def genesis : Epoch NumberWord := NumberWord.genesis 6

def config : RuntimeConfig NumberWord := NumberWord.config .verified 0

def codec : StagingCodec NumberWord := ⟨fun _ => [], fun _ => 0, 0⟩

def started : NodeRuntime NumberWord := NumberWord.started 6 0

def candidate : NodeAdmission NumberWord :=
  let body : NodeAdmissionBody NumberWord :=
    ⟨NumberWord.identity 9, ⟨.consensus, .key 9, [], [], 9⟩, genesis.hash, 1⟩
  ⟨body, ⟨.key 9, NumberWord.digest body.fields⟩⟩

def prefilled : NodeRuntime NumberWord := after (tryBroadcastPrefillDispatch config 0) started

end Six

end NodeRuntime

end Blossom
