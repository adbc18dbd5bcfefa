import Blossom.OrderedVoting
import Blossom.NumberWord

/-!
# One global order

Honest participants that vote with care never back two statements for one position, even
across a change of the committee. The engine does not require this care: validators that have
voted for another committee go on and certify a position of their own generation, and the next
committee certifies another reference for it.
-/

namespace Blossom

open CheckedSteps OrderedMap OrderedImage MajorityQuorum GlobalOrderedEngine

variable {W : Type} [ProtocolCrypto W]
variable {signatures : BTreeMap W (Signature W)} {message : List (Field W)}

/-! ### The votes of the committees -/

def members (validators : BTreeSet W) : Finset W := validators.toList.toFinset

theorem mem_members {validators : BTreeSet W} {v : W} :
    v ∈ members validators ↔ validators.contains v = true := by
  rw [members, List.mem_toFinset, Std.ExtTreeSet.mem_toList, Std.ExtTreeSet.mem_iff_contains]

theorem card_members (validators : BTreeSet W) : (members validators).card = validators.size :=
  card_elements validators

theorem verifySignatures_spec {validators : BTreeSet W}
    (h : verifySignatures signatures message validators = .ok ()) :
    (∀ v ∈ signatures.keys, validators.contains v = true) ∧
      hasSupermajority validators.size signatures.size = true := by
  rw [verifySignatures] at h
  simp only [↓guard_bind_eq_ok, List.forM_eq_forM, forM_eq_ok, reject_eq_ok, not_not,
    Bool.not_eq_false] at h
  refine ⟨fun v hv => ?_, h.2⟩
  rw [← Std.ExtTreeMap.map_fst_toList_eq_keys, List.mem_map] at hv
  obtain ⟨entry, hent, rfl⟩ := hv
  exact (h.1 entry hent).1

namespace OrderedSetting

open CommitteeOrder

def protocol (S : OrderedSetting W) :
    Protocol W (OrderStatement W) (CommitteeTransitionStatement W) where
  honest v := S.honest v = true
  quorum V Q := Q ⊆ V ∧ 0 < V.card ∧ supermajorityCount V.card ≤ Q.card
  generation := OrderStatement.validatorGeneration
  position := OrderStatement.position
  source := CommitteeTransitionStatement.previousValidatorGeneration
  boundary := CommitteeTransitionStatement.activatedAt
  next t := members t.nextValidators

variable {S : OrderedSetting W} {validators : BTreeSet W}

theorem FewFaults.trusty (h : S.FewFaults validators) : Trusty S.protocol (members validators) := by
  rintro Q Q' ⟨hsub, hpos, hcount⟩ ⟨hsub', -, hcount'⟩
  change ∃ v ∈ Q, v ∈ Q' ∧ S.honest v = true
  refine exists_honest_common hsub hsub' ?_
  have hfaulty : ((members validators).filter fun v => ¬S.honest v = true).card ≤
      (validators.toList.filter fun v => S.honest v = false).length := by
    have heq : (members validators).filter (fun v => ¬S.honest v = true) =
        (validators.toList.filter fun v => S.honest v = false).toFinset := by
      ext v
      simp [members]
    rw [heq]
    exact List.toFinset_card_le _
  have hbound := hfaulty.trans h
  rw [card_members] at hpos hcount hcount' ⊢
  unfold supermajorityCount at hcount hcount'
  unfold byzantineFaultBound at hbound
  omega

theorem backed {X : Type} {votes : W → X → Prop} {x : X}
    (h : verifySignatures signatures message validators = .ok ())
    (hvotes : ∀ v ∈ signatures.keys, S.honest v = true → votes v x) :
    Backed S.protocol votes (members validators) x := by
  obtain ⟨hmems, hcount⟩ := verifySignatures_spec h
  have hkeys : signatures.keys.toFinset.card = signatures.size := card_keys signatures
  simp only [hasSupermajority, decide_eq_true_eq] at hcount
  refine ⟨signatures.keys.toFinset, ⟨fun v hv => ?_, ?_, ?_⟩, fun v hv honest => ?_⟩
  · exact mem_members.mpr (hmems v (List.mem_toFinset.mp hv))
  · rw [card_members]
    exact hcount.1
  · rw [card_members, hkeys]
    exact hcount.2.2
  · exact hvotes v (List.mem_toFinset.mp hv) honest

end OrderedSetting

namespace OrderedNetwork

open CommitteeOrder

variable {S : OrderedSetting W} {N N' : OrderedNetwork W} {v w : W}

def ballots (N : OrderedNetwork W) :
    Ballots W (OrderStatement W) (CommitteeTransitionStatement W) where
  orders v st := ∃ vote ∈ N.orderVotes, vote.validator = v ∧ vote.statement = st
  moves v st := ∃ vote ∈ N.transitionVotes, vote.validator = v ∧ vote.statement = st

def view (S : OrderedSetting W) (N : OrderedNetwork W) (v : W) : View W (OrderStatement W) where
  committee n V := ∃ validators,
    S.genesis.committee (N.storeOf v).committeeTransitions n = some validators ∧
      V = members validators
  accepted st := ∃ (p : ℕ) (c : OrderCertificate W),
    (N.storeOf v).finalizedPositions[p]? = some c ∧ c.statement = st

structure FewFaults (S : OrderedSetting W) (N : OrderedNetwork W) : Prop where
  genesis : S.FewFaults S.genesis.validators
  later : ∀ v, S.honest v = true → ∀ (k : ℕ) t,
    (N.storeOf v).committeeTransitions[k]? = some t → S.FewFaults t.statement.nextValidators

theorem FewFaults.trusty (h : FewFaults S N) (hv : S.honest v = true) (n : ℕ) (V : Finset W)
    (hV : (view S N v).committee n V) : Trusty S.protocol V := by
  obtain ⟨validators, hvals, rfl⟩ := hV
  unfold Genesis.committee at hvals
  split_ifs at hvals
  · cases hvals
    exact h.genesis.trusty
  · obtain ⟨t, ht, rfl⟩ := Option.map_eq_some_iff.mp hvals
    exact (h.later v hv n t ht).trusty

variable [ReferenceCodec W]

theorem Chained.position (h : Chained S N v) {p : ℕ} {c : OrderCertificate W}
    (hc : (N.storeOf v).finalizedPositions[p]? = some c) : c.statement.position = p ∧ 0 < p := by
  obtain ⟨hdur, log, hlog⟩ := h.reaches.represents
  rw [← hdur.mirrored] at hlog
  have hlook : (N.storeOf v).image.finalized[p]? = some c := hc
  obtain ⟨i, rfl, hi⟩ := hlog.finalized.eq_some hlook
  exact ⟨(hlog.chain.entry hi).1, i.succ_pos⟩

theorem Chained.valid (h : Chained S N v) :
    Valid S.protocol N.ballots S.genesis.generation (members S.genesis.validators)
      (view S N v) where
  first_le n V hV := by
    obtain ⟨validators, hvals, -⟩ := hV
    unfold Genesis.committee at hvals
    split_ifs at hvals with hn
    · exact hn.ge
    · obtain ⟨t, ht, -⟩ := Option.map_eq_some_iff.mp hvals
      obtain ⟨m, rfl, hle, -⟩ := h.succeeds.replaced n t ht
      omega
  founded V hV := by
    obtain ⟨validators, hvals, rfl⟩ := hV
    unfold Genesis.committee at hvals
    rw [if_pos rfl] at hvals
    cases hvals
    rfl
  replaced n V hn hV := by
    obtain ⟨validators, hvals, rfl⟩ := hV
    unfold Genesis.committee at hvals
    rw [if_neg (by omega)] at hvals
    obtain ⟨t, ht, rfl⟩ := Option.map_eq_some_iff.mp hvals
    obtain ⟨m, hm, -, hprev, validators, hcommittee, hsig⟩ := h.succeeds.replaced _ t ht
    obtain rfl : m = n := by omega
    exact ⟨t.statement, members validators, ⟨validators, hcommittee, rfl⟩, hprev, rfl,
      OrderedSetting.backed hsig (h.transitions _ t ht)⟩
  ordered st hst := by
    obtain ⟨p, c, hc, rfl⟩ := hst
    obtain ⟨-, -, validators, hcommittee, hsig⟩ := h.succeeds.ordered p c hc
    exact ⟨members validators, ⟨validators, hcommittee, rfl⟩,
      OrderedSetting.backed hsig (h.orders p c hc)⟩
  passed st n hst hle hlt := by
    obtain ⟨p, c, hc, rfl⟩ := hst
    obtain ⟨-, hgen, -⟩ := h.succeeds.ordered p c hc
    have hlt' : n < c.statement.validatorGeneration := hlt
    obtain ⟨t, ht, -, hlater⟩ := h.succeeds.passed n hle (by omega)
    obtain ⟨m, hm, -, hprev, validators, hcommittee, hsig⟩ := h.succeeds.replaced _ t ht
    obtain rfl : m = n := by omega
    refine ⟨t.statement, members validators, ⟨validators, hcommittee, rfl⟩, hprev,
      OrderedSetting.backed hsig (h.transitions _ t ht), ?_⟩
    change t.statement.activatedAt < c.statement.position
    rw [(h.position hc).1]
    exact hlater p c hc hlt'

/-- The locks keep the votes of an honest participant apart. -/
theorem Sound.disciplined (hinj : HashInjective W) (h : Sound S N) :
    Disciplined S.protocol N.ballots where
  order_unique u st st' honest := by
    rintro ⟨vote, hvote, hu, rfl⟩ ⟨vote', hvote', hu', rfl⟩ hgen hpos
    have hcare := h.careful u honest
    obtain ⟨cluster, hscope⟩ := hcare.grouped vote hvote hu
    obtain ⟨cluster', hscope'⟩ := hcare.grouped vote' hvote' hu'
    have hgroup : vote.statement.consensusGroupId = vote'.statement.consensusGroupId :=
      congrArg Prod.snd (Option.some.inj (hscope.symm.trans hscope'))
    have hkey : vote.statement.voteKey = vote'.statement.voteKey := by
      unfold OrderStatement.voteKey
      rw [hgroup]
      exact congrArg₂ (fun g p => toLex (_, toLex (g, p))) hgen hpos
    have hlocked := hcare.orderLocked vote hvote hu
    rw [hkey, hcare.orderLocked vote' hvote' hu'] at hlocked
    exact (OrderStatement.voteHash_injective hinj (Option.some.inj hlocked)).symm
  move_unique u st st' honest := by
    rintro ⟨vote, hvote, hu, rfl⟩ ⟨vote', hvote', hu', rfl⟩ hsrc
    have hcare := h.careful u honest
    have hlocked := hcare.transitionLocked vote hvote hu
    have hsrc' : vote.statement.previousValidatorGeneration =
        vote'.statement.previousValidatorGeneration := hsrc
    rw [hsrc', hcare.transitionLocked vote' hvote' hu'] at hlocked
    exact (CommitteeTransitionStatement.voteHash_injective hinj (Option.some.inj hlocked)).symm
  excluded u st t honest := by
    rintro ⟨vote, hvote, hu, rfl⟩ ⟨move, hmove, hu', rfl⟩ hgen
    exact (h.careful u honest).excluded vote hvote hu move hmove hu' hgen

theorem Chained.finalized_eq (h : Chained S N v) :
    (N.validators v).node.image.finalized = (N.storeOf v).finalizedPositions := by
  obtain ⟨hdur, -⟩ := h.reaches.represents
  exact (congrArg OrderedImage.finalized hdur.mirrored).symm

variable [SecretSigner W]

/-- In every run in which honest participants vote with care, no two of them ever have
different references at one position. -/
theorem one_global_order (hinj : HashInjective W) (h : Reached S VotesWithCare N)
    (hfaults : FewFaults S N) (hv : S.honest v = true) (hw : S.honest w = true) {p : ℕ}
    {c d : OrderCertificate W} (hc : (N.validators v).node.image.finalized[p]? = some c)
    (hd : (N.validators w).node.image.finalized[p]? = some d) :
    c.statement.referenceHash = d.statement.referenceHash := by
  obtain ⟨site, storeGeneration, hleads⟩ := h
  have hsound := hleads.sound hinj (fun _ _ _ hcare => hcare) (sound_start site storeGeneration)
  have hchained := hsound.chained v hv
  have hchained' := hsound.chained w hw
  rw [hchained.finalized_eq] at hc
  rw [hchained'.finalized_eq] at hd
  have heq := accepted_eq (hsound.disciplined hinj) hchained.valid hchained'.valid
    (hfaults.trusty hv) (hfaults.trusty hw) ⟨p, c, hc, rfl⟩ ⟨p, d, hd, rfl⟩
    ((hchained.position hc).1.trans (hchained'.position hd).1.symm)
  rw [heq]

end OrderedNetwork

/-! ### Four validators and their successor -/

namespace VoteSample

open NumberWord OrderedSample

instance : SecretSigner NumberWord := ⟨sign⟩

def siteOf (v : NumberWord) : SiteId :=
  if v = key 1 ∨ v = key 2 then site 1 else if v = key 3 ∨ v = key 4 then site 2 else site 3

def keys (numbers : List ℕ) : BTreeSet NumberWord := .ofList (numbers.map key) compare

def holders (epoch : ℕ) : HolderMembership NumberWord where
  epoch := epoch
  membersBySite := .ofList [(site 1, keys [1, 2]), (site 2, keys [3, 4]), (site 3, keys [5])] compare
  storeGenerations := .ofList ([1, 2, 3, 4, 5].map fun n => (key n, 1)) compare
  holderFaultBound := 0

def config : OrderedEngineConfig NumberWord where
  mode := .activeSyncGlobalOrdered
  holderMembership := holders 0
  validatorGeneration := 0
  validators := keys [1, 2, 3, 4]
  orderTrustMode := .verified
  routeGeneration := 1
  commandSpecVersion := 1

def batch : CommandBatch := batchFrom 1 1

def reference (generation : ℕ) : BatchReference NumberWord :=
  referenceOf key generation 1 batch default

instance : ReferenceCodec NumberWord where
  decodeReference
    | [generation] => .ok (reference generation.toNat)
    | _ => .error (wireProtocol "decode batch reference")

section

variable (generation : ℕ)

def availability : AvailabilityCertificate NumberWord :=
  availabilityOf key [(1, 1), (2, 1), (5, 3)] (reference generation)

def block (verifiers : List ℕ) : Block NumberWord :=
  let writer := key (verifiers.headD 0)
  let unsigned : Block NumberWord := Block.sealUnsigned ⟨default, default,
    { BlockBody.empty 0 with
      txs := [.new (referenceTransactionDomain ++ [generation.toUInt8])] }⟩ writer
  { unsigned with signature := sign writer [.word unsigned.hash] }

def epoch (verifiers : List ℕ) : Epoch NumberWord :=
  let unsigned : Epoch NumberWord := Epoch.setHash
    { hash := default
      signatures := ∅
      body :=
        { groupId := key 22
          members := ⟨∅⟩
          verifiers := .ofList (verifiers.map fun n => (key n, ⟨key n, [], [], 0, false⟩)) compare
          lastEpoch := default
          previousNonce := none
          nonce := 1
          merkleRoot := default
          blocks := .ofList [((block generation verifiers).hash, block generation verifiers)] compare
          consensusParameters := none } }
  { unsigned with signatures := .ofList (verifiers.zipIdx.map fun entry =>
    (entry.2, sign (key entry.1) [.word unsigned.hash])) compare }

def statement (verifiers : List ℕ) : OrderStatement NumberWord :=
  ⟨key 22, (epoch generation verifiers).hash, 1, hashOf (reference generation), default, generation⟩

def certificate (verifiers signers : List ℕ) : OrderCertificate NumberWord :=
  signedBy key signers (statement generation verifiers)

end

/-- The fifth participant replaces the four validators before the first position. -/
def transition : CommitteeTransitionStatement NumberWord where
  clusterId := key 21
  consensusGroupId := key 22
  previousHolderMembershipEpoch := 0
  previousValidatorGeneration := 0
  nextHolderMembership := holders 1
  nextValidatorGeneration := 1
  nextValidators := keys [5]
  activatedAt := 0
  orderCertificateHash := default

def transitionCertificate (signers : List ℕ) : CommitteeTransitionCertificate NumberWord :=
  ⟨transition, .ofList (signers.map fun n =>
    (key n, sign (key n) (CommitteeTransitionCertificate.signingBytes transition)))
    compare⟩

def setting : OrderedSetting NumberWord := ⟨⟨0, keys [1, 2, 3, 4]⟩, fun _ => true⟩

theorem fewFaults (N : OrderedNetwork NumberWord) : OrderedNetwork.FewFaults setting N := by
  have hfew (validators : BTreeSet NumberWord) : setting.FewFaults validators := by
    simp [OrderedSetting.FewFaults, setting]
  exact ⟨hfew _, fun _ _ _ _ _ => hfew _⟩

def first : OrderedNetwork NumberWord := .start siteOf fun _ => 1

def opened (n : ℕ) : List (NumberWord × NetworkAction NumberWord) :=
  [(key n, .call (.reopen config fun _ => true)),
    (key n, .call (.storeBatch (reference 0) batch true))]

def offered (generation n : ℕ) : NumberWord × NetworkAction NumberWord :=
  (key n, .call (.markAvailable (availability generation) true true))

def ordered (n : ℕ) : NumberWord × NetworkAction NumberWord :=
  (key n, .voteForEpoch (epoch 0 [1, 2, 3, 4]) true)

def finalized (n : ℕ) : NumberWord × NetworkAction NumberWord :=
  (key n, .call (.finalize (certificate 0 [1, 2, 3, 4] [2, 3, 4]) true))

/-- Three validators vote for their successor and then for the first position. One engine
finalizes that position, the other one activates the successor, which gives the position to
another reference. -/
def split : List (NumberWord × NetworkAction NumberWord) :=
  [1, 2, 3, 4, 5].flatMap opened ++
    ([2, 3, 4].flatMap fun n =>
      [(key n, .voteForTransition transition true), offered 0 n, ordered n]) ++
    [offered 0 1, finalized 1,
      (key 5, .call (.activateCommitteeTransition (transitionCertificate [2, 3, 4]) true)),
      offered 1 5, (key 5, .voteForEpoch (epoch 1 [5]) true),
      (key 5, .call (.finalize (certificate 1 [5] [5]) true))]

/-- Three validators vote for the first position, and two engines finalize it. -/
def agreed : List (NumberWord × NetworkAction NumberWord) :=
  [1, 2, 3, 4].flatMap opened ++ [1, 2, 3, 4].map (offered 0) ++ [2, 3, 4].map ordered ++
    [finalized 1, finalized 2]

def hasCertificate (c : OrderCertificate NumberWord) (n : ℕ) (N : OrderedNetwork NumberWord) :
    Bool :=
  (N.validators (key n)).node.image.finalized[1]? = some c

theorem exists_reached (allowed : OrderedNetwork NumberWord → NumberWord →
      NetworkAction NumberWord → Prop) [∀ N v action, Decidable (allowed N v action)]
    (actions : List (NumberWord × NetworkAction NumberWord)) (P : OrderedNetwork NumberWord → Bool)
    (h : (OrderedNetwork.play setting allowed actions first).any P = true) :
    ∃ N, OrderedNetwork.Reached setting allowed N ∧ P N = true := by
  obtain ⟨N, hplay, hP⟩ := Option.any_eq_true _ _ |>.mp h
  exact ⟨N, ⟨siteOf, fun _ => 1, OrderedNetwork.leads_of_play hplay⟩, hP⟩

end VoteSample

open VoteSample NumberWord OrderedNetwork in
/-- Without a faulty participant, two engines finalize different references at the first
position: one under the first committee, one under the next. -/
theorem two_orders_across_transition :
    ∃ (S : OrderedSetting NumberWord) (N : OrderedNetwork NumberWord) (v w : NumberWord)
      (c d : OrderCertificate NumberWord), (∀ u, S.honest u = true) ∧
      Reached S (fun _ _ _ => True) N ∧ FewFaults S N ∧
      (N.validators v).node.image.finalized[1]? = some c ∧
      (N.validators w).node.image.finalized[1]? = some d ∧
      c.statement.referenceHash ≠ d.statement.referenceHash := by
  obtain ⟨N, hreached, h⟩ := exists_reached (fun _ _ _ => True) split
    (fun N => hasCertificate (certificate 0 [1, 2, 3, 4] [2, 3, 4]) 1 N ∧
      hasCertificate (certificate 1 [5] [5]) 5 N) (by decide +kernel)
  simp only [hasCertificate, decide_eq_true_eq] at h
  exact ⟨setting, N, key 1, key 5, _, _, fun _ => rfl, hreached, fewFaults N, h.1, h.2,
    by decide +kernel⟩

open VoteSample NumberWord OrderedNetwork in
theorem one_global_order_first :
    ∃ (N : OrderedNetwork NumberWord) (c d : OrderCertificate NumberWord),
      Reached setting VotesWithCare N ∧
      (N.validators (key 1)).node.image.finalized[1]? = some c ∧
      (N.validators (key 2)).node.image.finalized[1]? = some d ∧
      c.statement.referenceHash = d.statement.referenceHash := by
  obtain ⟨N, hreached, h⟩ := exists_reached VotesWithCare agreed
    (fun N => hasCertificate (certificate 0 [1, 2, 3, 4] [2, 3, 4]) 1 N ∧
      hasCertificate (certificate 0 [1, 2, 3, 4] [2, 3, 4]) 2 N) (by decide +kernel)
  simp only [hasCertificate, decide_eq_true_eq] at h
  exact ⟨N, _, _, hreached, h.1, h.2,
    one_global_order NumberWord.hash_injective hreached (fewFaults N) rfl rfl h.1 h.2⟩

end Blossom
