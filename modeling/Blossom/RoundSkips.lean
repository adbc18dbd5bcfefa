import Blossom.StateUpdates
import Blossom.TopologyRounds

/-!
# Round skips

A certificate of a supermajority moves a node to a later round. The node checks the votes, the
target of the certificate and the holders of the carried blocks.
-/

namespace Blossom

open CheckedSteps OrderedMap MajorityQuorum StatefulSteps Relation LocalState

variable {W : Type}

section Votes

variable [ProtocolCrypto W]

/-- What an accepted round skip should be: certificate and manifest for the next epoch, a
destination within the topology, enough holders of every carried block, and the votes of a
supermajority for exactly this skip. -/
structure RoundSkipCertificateMessage.WellFormed (m : RoundSkipCertificateMessage W)
    (head : Epoch W) (rounds : ℕ) : Prop where
  certificateTarget : (⟨m.certificate.lastEpoch, m.certificate.nonce⟩ : EpochNonce W) = head.target
  manifestTarget : (⟨m.manifest.lastEpoch, m.manifest.nonce⟩ : EpochNonce W) = head.target
  destination : m.certificate.toRound < rounds
  available : ∀ block ∈ m.manifest.carriedBlocks, ∃ holders,
    m.manifest.replicaHolders[block]? = some holders ∧
      byzantineFaultBound head.body.verifiers.size + 1 ≤ holders.size ∧
      ∀ holder ∈ holders, holder ∈ head.body.verifiers
  signed : ∃ voters : BTreeSet W, hasSupermajority head.body.verifiers.size voters.size = true ∧
    ∀ voter ∈ voters, voter ∈ head.body.verifiers ∧ ∃ signature,
      (⟨voter, head.target.lastEpoch, head.target.nonce, m.certificate.fromRound,
        m.certificate.toRound, m.manifest.hash, signature⟩ : RoundSkipVote W).verifySignature =
          .ok ()

theorem mem_keySet {V : Type} {m : BTreeMap W V} {key : W} : key ∈ keySet m ↔ key ∈ m := by
  rw [keySet, Std.ExtTreeSet.mem_ofList, List.contains_iff_mem, Std.ExtTreeMap.mem_keys]

theorem size_keySet {V : Type} (m : BTreeMap W V) : (keySet m).size = m.size := by
  rw [keySet, Std.ExtTreeSet.size_ofList, Std.ExtTreeMap.length_keys]
  exact Std.ExtTreeMap.distinct_keys

theorem exists_vote_of_mem_validVoters {c : RoundSkipCertificate W} {validators : BTreeSet W}
    {voter : W} (h : voter ∈ c.validVoters validators) : voter ∈ validators ∧ ∃ signature,
      (⟨voter, c.lastEpoch, c.nonce, c.fromRound, c.toRound, c.manifestHash, signature⟩ :
        RoundSkipVote W).verifySignature = .ok () := by
  rw [RoundSkipCertificate.validVoters, Std.ExtTreeSet.mem_ofList, List.contains_iff_mem,
    List.mem_map] at h
  obtain ⟨vote, hvote, rfl⟩ := h
  obtain ⟨-, hvote⟩ := List.mem_filter.mp hvote
  simp only [Bool.and_eq_true, RoundSkipVote.matchesCertificate, decide_eq_true_eq] at hvote
  obtain ⟨⟨⟨hlast, hnonce, hfrom, hto, hman⟩, hval⟩, hsignature⟩ := hvote
  refine ⟨Std.ExtTreeSet.mem_iff_contains.mpr hval, vote.signature, ?_⟩
  rw [← hlast, ← hnonce, ← hfrom, ← hto, ← hman]
  cases hres : vote.verifySignature with
  | error e => simp [hres, Except.isOk, Except.toBool] at hsignature
  | ok _ => rfl

/-- A manifest that passes its check has enough holders of every block it carries. -/
theorem holders_of_validateAvailability {m : DataDisseminationManifest W}
    {validators : BTreeSet W} {minReplicas : ℕ}
    (h : m.validateAvailability validators minReplicas = .ok ()) {block : W}
    (hblock : block ∈ m.carriedBlocks) : ∃ holders, m.replicaHolders[block]? = some holders ∧
      minReplicas ≤ holders.size ∧ ∀ holder ∈ holders, holder ∈ validators := by
  rw [DataDisseminationManifest.validateAvailability] at h
  simp only [↓guard_bind_eq_ok, reject_eq_ok] at h
  obtain ⟨-, -, -, heligible, hthreshold⟩ := h
  have hcount : ¬((m.replicaHolders[block]?).map (·.size)).getD 0 < max minReplicas 1 :=
    fun hlt => hthreshold ⟨block, Std.ExtTreeSet.mem_toList.mpr hblock, hlt⟩
  cases hholders : m.replicaHolders[block]? with
  | none =>
    rw [hholders] at hcount
    simp at hcount
  | some holders =>
    rw [hholders, Option.map_some, Option.getD_some] at hcount
    refine ⟨holders, rfl, by omega, fun holder hhold => ?_⟩
    by_contra hout
    exact heligible ⟨holders, mem_values.mpr ⟨block, hholders⟩, holder,
      Std.ExtTreeSet.mem_toList.mpr hhold, .inr hout⟩

theorem wellFormed_of_validate {m : RoundSkipCertificateMessage W} {head : Epoch W} {rounds : ℕ}
    (h : m.certificate.validateAgainstEpochAndManifest (NodeRuntime.currentValidators head)
      head.target.lastEpoch head.target.nonce m.manifest
      (NodeRuntime.minReplicas (NodeRuntime.currentValidators head).size) = .ok ())
    (hman : (⟨m.manifest.lastEpoch, m.manifest.nonce⟩ : EpochNonce W) = head.target)
    (hround : m.certificate.toRound < rounds) : m.WellFormed head rounds := by
  have hsize : (NodeRuntime.currentValidators head).size = head.body.verifiers.size :=
    size_keySet head.body.verifiers
  rw [RoundSkipCertificate.validateAgainstEpochAndManifest] at h
  simp only [↓guard_bind_eq_ok, reject_eq_ok, not_or, not_not, hsize] at h
  obtain ⟨hhash, havail, -, ⟨hlast, hnonce⟩, hvotes⟩ := h
  refine ⟨by rw [hlast, hnonce], hman, hround, fun block hblock => ?_,
    m.certificate.validVoters (NodeRuntime.currentValidators head), by simpa using hvotes, ?_⟩
  · obtain ⟨holders, hholders, hcount, hmem⟩ := holders_of_validateAvailability havail hblock
    exact ⟨holders, hholders, hcount, fun holder hhold => mem_keySet.mp (hmem holder hhold)⟩
  · intro voter hvoter
    obtain ⟨hval, signature, hvote⟩ := exists_vote_of_mem_validVoters hvoter
    rw [hlast, hnonce, hhash] at hvote
    exact ⟨mem_keySet.mp hval, signature, hvote⟩

end Votes

namespace NodeRuntime

variable [ProtocolCrypto W] [ShuffleSeed W] {s : LocalState W} {c : RuntimeConfig W} {α : Type}

/-- A step keeps the head, and the round of the next target unless the checks of the
certificate passed. -/
def SkipStep (message : RoundSkipCertificateMessage W) (head : Epoch W) (s s' : LocalState W) :
    Prop :=
  s'.head? = s.head? ∧
    ((s'.consensusOrInit head.target).round = (s.consensusOrInit head.target).round ∨
      message.certificate.validateAgainstEpochAndManifest (currentValidators head)
        head.target.lastEpoch head.target.nonce message.manifest
        (minReplicas (currentValidators head).size) = .ok ())

theorem receiveRoundSkipCertificate_steps {message : RoundSkipCertificateMessage W}
    {head : Epoch W} (hhead : s.head? = some head) :
    Run (SkipStep message head) s (receiveRoundSkipCertificate c message) fun _ _ => True := by
  apply verifyMessageSignature_bind
  intro head' hhead' htgt
  rw [hhead, Option.some.injEq] at hhead'
  subst hhead'
  apply Run.bind_check
  intro _ _
  refine Run.bind (Q := fun _ s' => s'.head? = some head) ?_ fun _ s₁ hhead₁ => ?_
  · rw [verifyHeader, htgt]
    refine withConsensus_step ⟨rfl, .inl ?_⟩ fun _ _ _ => hhead
    rw [consensusOrInit_setConsensus, after_get_check]
  · apply Run.bind_reading
    intro latest hlatest
    rw [require_eq_ok, hhead₁, Option.some.injEq] at hlatest
    subst hlatest
    refine Run.bind_check fun _ hvalid => Run.bind_check fun _ _ => ?_
    exact Run.bind (Q := fun _ _ => True) (withConsensus_step ⟨rfl, .inr hvalid⟩
      fun _ _ _ => trivial) fun _ _ _ => Run.pure trivial

/-- A skip that moved the node is well formed exactly when its manifest is for the next
epoch and its destination is a round of the topology. -/
theorem receiveRoundSkipCertificate_wellFormed_iff (s : LocalState W) (c : RuntimeConfig W)
    (message : RoundSkipCertificateMessage W) {head : Epoch W} (hhead : s.head? = some head)
    (hmoved : ((after (receiveRoundSkipCertificate c message) s).consensusOrInit
      head.target).round ≠ (s.consensusOrInit head.target).round) :
    message.WellFormed head (s.peersInConsensus head.hash).length ↔
      (⟨message.manifest.lastEpoch, message.manifest.nonce⟩ : EpochNonce W) = head.target ∧
        message.certificate.toRound < (s.peersInConsensus head.hash).length := by
  constructor
  · exact fun h => ⟨h.manifestTarget, h.destination⟩
  · rintro ⟨hmanifest, hround⟩
    refine wellFormed_of_validate ?_ hmanifest hround
    by_contra hinvalid
    have hkept {s' : LocalState W} (h : ReflTransGen (SkipStep message head) s s') :
        (s'.consensusOrInit head.target).round = (s.consensusOrInit head.target).round := by
      induction h with
      | refl => rfl
      | tail _ hstep ih =>
        rcases hstep.2 with hsame | hvalid
        · exact hsame.trans ih
        · exact absurd hvalid hinvalid
    exact hmoved (hkept (receiveRoundSkipCertificate_steps hhead).after)

end NodeRuntime

/-!
## Members with number words
-/

namespace NumberWord

instance : EpochCodec NumberWord := ⟨hashWords, fun _ => none⟩

def sign (member : ℕ) (word : NumberWord) : Signature NumberWord :=
  ⟨key member, digest [.word word]⟩

def identity (member : ℕ) : NodeIdentity NumberWord := ⟨key member, [], [], member, false⟩

def genesis (members : ℕ) : Epoch NumberWord :=
  genesisEpoch default ((List.range members).map identity) (.new .least)

def config (trustMode : TrustMode) (member : ℕ) : RuntimeConfig NumberWord :=
  ⟨default, trustMode, .consensus, some ⟨key member, sign member⟩, none, ⟨100, 100⟩⟩

def started (members member : ℕ) : NodeRuntime NumberWord :=
  .fresh (identity member) .disabled 8 [genesis members]

def signedHeader (member : ℕ) (target : EpochNonce NumberWord) (round : ℕ) (kind : MsgKey)
    (body : List (Field NumberWord)) : Header NumberWord :=
  ⟨key member, target.lastEpoch, target.nonce, round,
    sign member (signatureHashForBody (key member) target.lastEpoch target.nonce round kind body)⟩

/-- A skip from round zero that four of six members sign, with a manifest that carries no
block. -/
def skip (toRound manifestNonce : ℕ) : RoundSkipCertificateMessage NumberWord :=
  let target := (genesis 6).target
  let manifest : DataDisseminationManifest NumberWord :=
    ⟨target.lastEpoch, manifestNonce, 0, none, default, ∅, ∅, ∅, ∅⟩
  let votes := (List.range 4).map fun i =>
    let vote : RoundSkipVote NumberWord :=
      ⟨key i, target.lastEpoch, target.nonce, 0, toRound, manifest.hash, default⟩
    { vote with signature := sign i (protocolHash vote.fields) }
  let certificate : RoundSkipCertificate NumberWord :=
    ⟨target.lastEpoch, target.nonce, 0, toRound, manifest.hash, votes⟩
  let unsigned : RoundSkipCertificateMessage NumberWord :=
    ⟨⟨key 1, target.lastEpoch, target.nonce, 0, default⟩, certificate, manifest⟩
  { unsigned with header := signedHeader 1 target 0 .roundSkipCertificate unsigned.fields }

def roundAfterSkip (toRound manifestNonce : ℕ) : ℕ :=
  ((after (NodeRuntime.receiveMessage (config .verified 0)
    (.roundSkipCertificate (skip toRound manifestNonce))) (started 6 0)).state.consensusOrInit
      (genesis 6).target).round

end NumberWord

open NumberWord in
/-- A member of a network with two rounds follows a skip to round seven, and one with a
manifest for another epoch. -/
theorem skip_beyond_topology :
    ((started 6 0).state.peersInConsensus (genesis 6).hash).length = 2 ∧
      roundAfterSkip 7 1 = 7 ∧ roundAfterSkip 1 5 = 1 ∧
      ¬(skip 7 1).WellFormed (genesis 6) 2 ∧ ¬(skip 1 5).WellFormed (genesis 6) 2 := by
  refine ⟨by decide +kernel, by decide +kernel, by decide +kernel, fun h => ?_, fun h => ?_⟩
  · exact absurd h.destination (by decide)
  · exact absurd (congrArg EpochNonce.nonce h.manifestTarget) (by decide)

open NumberWord in
theorem receiveRoundSkipCertificate_wellFormed_iff_second :
    (skip 1 1).WellFormed (genesis 6)
      ((started 6 0).state.peersInConsensus (genesis 6).hash).length :=
  (NodeRuntime.receiveRoundSkipCertificate_wellFormed_iff (started 6 0).state (config .verified 0)
    (skip 1 1) rfl (by decide +kernel)).mpr ⟨by decide +kernel, by decide +kernel⟩

end Blossom
