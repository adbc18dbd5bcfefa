import Blossom.ConsecutiveList
import Blossom.RoundSkips

/-!
# Certified catch-up

A node that is behind asks a peer for the certified epochs after its own tip, a bounded
number at a time, and installs them after it has validated every link.
-/

namespace Blossom

open CheckedSteps OrderedMap StatefulSteps Relation LocalState ConsecutiveList

variable {W : Type} [ProtocolCrypto W] [EpochCodec W]
variable {policy : ConsensusNodeRemovalPolicy}

def CertifiedChain (policy : ConsensusNodeRemovalPolicy) (chain : List (Epoch W)) : Prop :=
  chain.IsChain fun previous epoch => validateCertifiedExtension previous epoch policy = .ok ()

namespace NodeRuntime

variable {policy : ConsensusNodeRemovalPolicy}

theorem validateCertifiedLinks_eq_ok {previous : Epoch W} {epochs : List (Epoch W)} :
    validateCertifiedLinks policy previous epochs = .ok () ↔
      CertifiedChain policy (previous :: epochs) := by
  induction epochs generalizing previous with
  | nil => simp [validateCertifiedLinks, CertifiedChain]
  | cons epoch rest ih =>
    rw [validateCertifiedLinks, guard_bind_eq_ok, ih, CertifiedChain, CertifiedChain,
      List.isChain_cons_cons]

end NodeRuntime

namespace CertifiedChain

open NodeRuntime

variable {policy : ConsensusNodeRemovalPolicy} {chain : List (Epoch W)}

theorem consecutive (h : CertifiedChain policy chain) :
    Consecutive (fun epoch : Epoch W => epoch.body.nonce) chain :=
  List.IsChain.imp (fun _ _ hlink => (validateCertifiedExtension_spec hlink).1.2.2.2.1) h

theorem groupId_eq (h : CertifiedChain policy chain) {first epoch : Epoch W}
    (hfirst : chain.head? = some first) (hepoch : epoch ∈ chain) :
    epoch.body.groupId = first.body.groupId := by
  induction chain generalizing first with
  | nil => cases hfirst
  | cons head rest ih =>
    cases hfirst
    rcases List.mem_cons.mp hepoch with rfl | hrest
    · rfl
    · cases rest with
      | nil => cases hrest
      | cons next rest =>
        obtain ⟨hlink, htail⟩ := List.isChain_cons_cons.mp h
        exact (ih htail rfl hrest).trans (validateCertifiedExtension_spec hlink).1.1

theorem findIdx?_eq {before rest : List (Epoch W)} {tip : Epoch W}
    (h : CertifiedChain policy (before ++ tip :: rest)) :
    (before ++ tip :: rest).findIdx? (fun epoch =>
      decide (epoch.hash = tip.hash ∧ epoch.body.nonce = tip.body.nonce)) =
        some before.length := by
  have hbefore : before.findIdx? (fun epoch =>
      decide (epoch.hash = tip.hash ∧ epoch.body.nonce = tip.body.nonce)) = none := by
    rw [List.findIdx?_eq_none_iff]
    intro epoch hepoch
    rw [decide_eq_false_iff_not]
    rintro ⟨-, hnonce⟩
    obtain ⟨i, hi⟩ := List.getElem?_of_mem hepoch
    have hlt : i < before.length := (List.getElem?_eq_some_iff.mp hi).1
    have htip : (before ++ tip :: rest)[before.length]? = some tip := by simp
    have hat : (before ++ tip :: rest)[i]? = some epoch := by
      rw [List.getElem?_append_left hlt, hi]
    obtain ⟨first, hfirst⟩ : ∃ first, (before ++ tip :: rest).head? = some first := by
      cases before <;> exact ⟨_, rfl⟩
    have h₁ := h.consecutive.getElem? hfirst htip
    have h₂ := h.consecutive.getElem? hfirst hat
    omega
  rw [List.findIdx?_append, hbefore, List.findIdx?_cons]
  simp

end CertifiedChain

namespace NodeRuntime

variable {c cp : RuntimeConfig W} {s peer : LocalState W} {before rest : List (Epoch W)}
  {tip first : Epoch W}

theorem certifiedEpochSuffix_eq (hmode : cp.trustMode = .verified)
    (hpeer : peer.epochchain = before ++ tip :: rest)
    (hchain : CertifiedChain policy peer.epochchain) (maxEpochs : ℕ) :
    certifiedEpochSuffix cp peer tip.hash tip.body.nonce maxEpochs =
      .ok ⟨certifiedEpochSuffixVersion, cp.groupId, tip.hash, tip.body.nonce,
        rest.take (min maxEpochs maxCertifiedEpochSuffix)⟩ := by
  rw [hpeer] at hchain
  have hdrop : (before ++ tip :: rest).drop (before.length + 1) = rest := by
    rw [← List.singleton_append, ← List.append_assoc]
    exact List.drop_left' (by simp)
  rw [certifiedEpochSuffix, hpeer, hchain.findIdx?_eq]
  simp only [↓guard_bind_eq_ok, bind_eq_ok, reject_eq_ok, require_eq_ok, pure_eq_ok]
  exact ⟨fun h => h hmode, before.length, rfl, by rw [hdrop]⟩

variable {suffix : CertifiedEpochSuffix W}

omit [EpochCodec W] in
theorem certifiedEpochSuffix_anchor {anchorHash : W} {anchorNonce maxEpochs : ℕ}
    (h : certifiedEpochSuffix cp peer anchorHash anchorNonce maxEpochs = .ok suffix) :
    suffix.anchorHash = anchorHash ∧ suffix.anchorNonce = anchorNonce ∧
      ∃ epoch ∈ peer.epochchain, epoch.hash = anchorHash ∧ epoch.body.nonce = anchorNonce := by
  rw [certifiedEpochSuffix] at h
  simp only [↓guard_bind_eq_ok, bind_eq_ok, reject_eq_ok, require_eq_ok, pure_eq_ok] at h
  obtain ⟨-, index, hindex, rfl⟩ := h
  obtain ⟨hlt, hfound, -⟩ := List.findIdx?_eq_some_iff_getElem.mp hindex
  exact ⟨rfl, rfl, _, List.getElem_mem hlt, of_decide_eq_true hfound⟩

variable [ShuffleSeed W]

def SameChain (s s' : LocalState W) : Prop :=
  s'.epochchain = s.epochchain ∧ s'.consensusNodeRemovalPolicy = s.consensusNodeRemovalPolicy

omit [ShuffleSeed W] [EpochCodec W] in
theorem SameChain.of_steps {s' : LocalState W} (h : ReflTransGen SameChain s s') :
    SameChain s s' := by
  induction h with
  | refl => exact ⟨rfl, rfl⟩
  | tail _ hstep ih => exact ⟨hstep.1.trans ih.1, hstep.2.trans ih.2⟩

def openNextQuorum (c : RuntimeConfig W) : StateOperation W Bool := do
  let target ← nextEpochTarget c
  withQuorum target 0 (pure ())
  pure true

omit [EpochCodec W] in
theorem openNextQuorum_sameChain :
    SameChain s (after (openNextQuorum c) s) := by
  apply SameChain.of_steps
  refine Run.after (Q := fun _ _ => True) (nextEpochTarget_bind fun head _ => ?_)
  refine Run.bind (Q := fun _ _ => True) (withConsensus_step ⟨rfl, rfl⟩ fun _ _ _ => trivial) ?_
  exact fun _ _ _ => Run.pure trivial

/-- The checks of a suffix against the own tip. -/
def acceptSuffix (tip : Epoch W) (policy : ConsensusNodeRemovalPolicy)
    (suffix : CertifiedEpochSuffix W) : Result Unit := do
  reject (suffix.anchorHash ≠ tip.hash ∨ suffix.anchorNonce ≠ tip.body.nonce)
    (.error .invalidEpochNonce)
  suffix.validateFrom tip policy

omit [ShuffleSeed W] in
theorem acceptSuffix_eq_ok :
    acceptSuffix tip policy suffix = .ok () ↔ (suffix.anchorHash = tip.hash ∧
      suffix.anchorNonce = tip.body.nonce) ∧ suffix.validateFrom tip policy = .ok () := by
  rw [acceptSuffix, guard_bind_eq_ok, reject_eq_ok, not_or, not_not, not_not]

theorem catchUpCertifiedSuffix_eq (hmode : c.trustMode = .verified) (hhead : s.head? = some tip) :
    catchUpCertifiedSuffix c suffix s =
      match acceptSuffix tip s.consensusNodeRemovalPolicy suffix with
      | .error e => .error e s
      | .ok _ => if suffix.epochs = [] then .ok false s
        else openNextQuorum c { s with epochchain := s.epochchain ++ suffix.epochs } := by
  unfold catchUpCertifiedSuffix acceptSuffix
  rw [bind_reject (not_not.mpr hmode), bind_get, bind_require hhead]
  cases hanchor : reject (suffix.anchorHash ≠ tip.hash ∨ suffix.anchorNonce ≠ tip.body.nonce)
      (Failure.error .invalidEpochNonce) with
  | error e => rfl
  | ok _ =>
    cases hvalid : suffix.validateFrom tip s.consensusNodeRemovalPolicy with
    | error e => rfl
    | ok _ =>
      change (if suffix.epochs = [] then pure false else do
        set { s with epochchain := s.epochchain ++ suffix.epochs }
        openNextQuorum c : StateOperation W Bool) s = if suffix.epochs = [] then .ok false s
          else openNextQuorum c { s with epochchain := s.epochchain ++ suffix.epochs }
      split
      · rfl
      · rfl

theorem catchUpCertifiedSuffix_after (hmode : c.trustMode = .verified) (hhead : s.head? = some tip)
    (hanchor : suffix.anchorHash = tip.hash ∧ suffix.anchorNonce = tip.body.nonce)
    (hvalid : suffix.validateFrom tip s.consensusNodeRemovalPolicy = .ok ()) :
    (after (catchUpCertifiedSuffix c suffix) s).epochchain = s.epochchain ++ suffix.epochs ∧
      (after (catchUpCertifiedSuffix c suffix) s).consensusNodeRemovalPolicy =
        s.consensusNodeRemovalPolicy := by
  rw [after, catchUpCertifiedSuffix_eq hmode hhead, acceptSuffix_eq_ok.mpr ⟨hanchor, hvalid⟩]
  by_cases hnil : suffix.epochs = []
  · simp [hnil]
  · simp only [if_neg hnil]
    exact openNextQuorum_sameChain

theorem catchUpCertifiedSuffix_of_ne (hhead : s.head? = some tip)
    (hanchor : ¬(suffix.anchorHash = tip.hash ∧ suffix.anchorNonce = tip.body.nonce)) :
    after (catchUpCertifiedSuffix c suffix) s = s := by
  have hkept : Run Eq s (catchUpCertifiedSuffix c suffix) fun _ _ => False := by
    refine Run.bind_check fun _ _ => Run.bind_get (Run.bind_check fun localTip htip => ?_)
    rw [require_eq_ok, hhead, Option.some.injEq] at htip
    subst htip
    refine Run.bind_check fun _ hok => ?_
    rw [reject_eq_ok, not_or, not_not, not_not] at hok
    exact absurd hok hanchor
  exact hkept.after_eq

/-- Ask a peer for the epochs after the own tip, and install what it exports. -/
def request (cp : RuntimeConfig W) (peer : LocalState W) (c : RuntimeConfig W) (s : LocalState W)
    (maxEpochs : ℕ) : LocalState W :=
  match s.head? with
  | none => s
  | some tip =>
    match certifiedEpochSuffix cp peer tip.hash tip.body.nonce maxEpochs with
    | .error _ => s
    | .ok suffix => after (catchUpCertifiedSuffix c suffix) s

omit [ShuffleSeed W] in
theorem validateFrom_exported (hfirst : peer.epochchain.head? = some first)
    (hgroup : cp.groupId = first.body.groupId) (hchain : CertifiedChain policy peer.epochchain)
    (hpeer : peer.epochchain = before ++ tip :: rest) (maxEpochs : ℕ) :
    CertifiedEpochSuffix.validateFrom ⟨certifiedEpochSuffixVersion, cp.groupId, tip.hash,
      tip.body.nonce, rest.take (min maxEpochs maxCertifiedEpochSuffix)⟩ tip policy = .ok () := by
  have htip : tip ∈ peer.epochchain := by simp [hpeer]
  have hgroups := hchain.groupId_eq hfirst htip
  have hlinks : CertifiedChain policy (tip :: rest.take (min maxEpochs maxCertifiedEpochSuffix)) := by
    rw [hpeer] at hchain
    exact List.IsChain.take (List.IsChain.right_of_append hchain)
      (min maxEpochs maxCertifiedEpochSuffix + 1)
  rw [CertifiedEpochSuffix.validateFrom, guard_bind_eq_ok, validateCertifiedLinks_eq_ok]
  refine ⟨reject_eq_ok.mpr ?_, hlinks⟩
  simp only [hgroup, hgroups, List.length_take, not_or, not_not, not_lt, true_and]
  omega

section Requests

variable (hmode : c.trustMode = .verified) (hpeerMode : cp.trustMode = .verified)
  (hfirst : peer.epochchain.head? = some first) (hgroup : cp.groupId = first.body.groupId)
include hmode hpeerMode hfirst hgroup

theorem request_eq (hchain : CertifiedChain s.consensusNodeRemovalPolicy peer.epochchain)
    (hlocal : s.epochchain = before ++ [tip]) (hpeer : peer.epochchain = before ++ tip :: rest)
    (maxEpochs : ℕ) :
    (request cp peer c s maxEpochs).epochchain =
      before ++ tip :: rest.take (min maxEpochs maxCertifiedEpochSuffix) ∧
    (request cp peer c s maxEpochs).consensusNodeRemovalPolicy = s.consensusNodeRemovalPolicy := by
  have hhead : s.head? = some tip := by simp [head?, hlocal]
  have hinst := catchUpCertifiedSuffix_after hmode hhead ⟨rfl, rfl⟩
    (validateFrom_exported hfirst hgroup hchain hpeer maxEpochs)
  have hrequest : request cp peer c s maxEpochs = after (catchUpCertifiedSuffix c
      ⟨certifiedEpochSuffixVersion, cp.groupId, tip.hash, tip.body.nonce,
        rest.take (min maxEpochs maxCertifiedEpochSuffix)⟩) s := by
    simp only [request, hhead, certifiedEpochSuffix_eq hpeerMode hpeer hchain]
  rw [hrequest, hinst.1, hinst.2, hlocal, List.append_assoc]
  exact ⟨rfl, rfl⟩

theorem requests_eq (hchain : CertifiedChain s.consensusNodeRemovalPolicy peer.epochchain)
    (hlocal : s.epochchain = before ++ [tip]) (hpeer : peer.epochchain = before ++ tip :: rest)
    (bounds : List ℕ) :
    (bounds.foldl (request cp peer c) s).epochchain =
      before ++ tip :: rest.take (bounds.map (min · maxCertifiedEpochSuffix)).sum := by
  induction bounds generalizing s before tip rest with
  | nil => simpa using hlocal
  | cons maxEpochs bounds ih =>
    obtain ⟨hnext, hpolicy⟩ := request_eq hmode hpeerMode hfirst hgroup hchain hlocal hpeer maxEpochs
    rw [List.foldl_cons, List.map_cons, List.sum_cons, List.take_add]
    set taken := min maxEpochs maxCertifiedEpochSuffix with htaken
    -- the last epoch taken over is the next tip
    have hsplit := List.take_append_drop taken rest
    rw [← hpolicy] at hchain
    rcases List.eq_nil_or_concat (rest.take taken) with hnil | ⟨between, next, hbetween⟩
    · rw [hnil, List.nil_append] at hsplit
      rw [hnil] at hnext
      rw [ih hchain hnext hpeer, hnil, hsplit, List.nil_append]
    · rw [List.concat_eq_append] at hbetween
      rw [hbetween] at hnext hsplit ⊢
      have hlocal' : (request cp peer c s maxEpochs).epochchain =
          (before ++ tip :: between) ++ [next] := by
        simpa using hnext
      have hpeer' : peer.epochchain = (before ++ tip :: between) ++ next :: rest.drop taken := by
        rw [hpeer]
        conv_lhs => rw [← hsplit]
        simp
      rw [ih hchain hlocal' hpeer']
      simp

theorem requests_reach (hchain : CertifiedChain s.consensusNodeRemovalPolicy peer.epochchain)
    (hlocal : s.epochchain = before ++ [tip]) (hpeer : peer.epochchain = before ++ tip :: rest)
    {bounds : List ℕ} (hpositive : ∀ maxEpochs ∈ bounds, 1 ≤ maxEpochs)
    (henough : rest.length ≤ bounds.length) :
    (bounds.foldl (request cp peer c) s).epochchain = peer.epochchain := by
  have hsum : bounds.length ≤ (bounds.map (min · maxCertifiedEpochSuffix)).sum := by
    clear henough
    induction bounds with
    | nil => exact le_rfl
    | cons maxEpochs bounds ih =>
      have hrest := ih fun other hother => hpositive other (List.mem_cons_of_mem _ hother)
      have hone := hpositive maxEpochs List.mem_cons_self
      rw [List.length_cons, List.map_cons, List.sum_cons, maxCertifiedEpochSuffix]
      rw [maxCertifiedEpochSuffix] at hrest
      omega
  rw [requests_eq hmode hpeerMode hfirst hgroup hchain hlocal hpeer, hpeer,
    List.take_of_length_le (henough.trans hsum)]

end Requests

/-- Catching up with a peer replays the peer's chain: what the peer exports for the own tip
is installed link by link, requests one after another reach the peer's tip, and nothing
changes when the peer does not have the own tip. -/
theorem catchUp_eq_replay (c cp : RuntimeConfig W) (s peer : LocalState W) {first : Epoch W}
    (hmode : c.trustMode = .verified) (hpeerMode : cp.trustMode = .verified)
    (hfirst : peer.epochchain.head? = some first) (hgroup : cp.groupId = first.body.groupId)
    (hchain : CertifiedChain s.consensusNodeRemovalPolicy peer.epochchain) :
    (∀ before tip rest, s.epochchain = before ++ [tip] → peer.epochchain = before ++ tip :: rest →
      (∀ maxEpochs, ∃ suffix,
        certifiedEpochSuffix cp peer tip.hash tip.body.nonce maxEpochs = .ok suffix ∧
        suffix.epochs = rest.take (min maxEpochs maxCertifiedEpochSuffix) ∧
        (after (catchUpCertifiedSuffix c suffix) s).epochchain =
          peer.epochchain.take (s.epochchain.length + suffix.epochs.length) ∧
        CertifiedChain s.consensusNodeRemovalPolicy
          (after (catchUpCertifiedSuffix c suffix) s).epochchain) ∧
      ∀ bounds : List ℕ, (∀ maxEpochs ∈ bounds, 1 ≤ maxEpochs) → rest.length ≤ bounds.length →
        (bounds.foldl (request cp peer c) s).epochchain = peer.epochchain) ∧
    ∀ tip, s.head? = some tip →
      (∀ epoch ∈ peer.epochchain, ¬(epoch.hash = tip.hash ∧ epoch.body.nonce = tip.body.nonce)) →
      (∀ maxEpochs, request cp peer c s maxEpochs = s) ∧
      ∀ anchorHash anchorNonce maxEpochs suffix,
        certifiedEpochSuffix cp peer anchorHash anchorNonce maxEpochs = .ok suffix →
          after (catchUpCertifiedSuffix c suffix) s = s := by
  refine ⟨fun before tip rest hlocal hpeer => ⟨fun maxEpochs => ?_, fun bounds hpositive henough =>
    requests_reach hmode hpeerMode hfirst hgroup hchain hlocal hpeer hpositive henough⟩, ?_⟩
  · have hhead : s.head? = some tip := by simp [head?, hlocal]
    have hinstalled := catchUpCertifiedSuffix_after hmode hhead ⟨rfl, rfl⟩
      (validateFrom_exported hfirst hgroup hchain hpeer maxEpochs)
    set taken := rest.take (min maxEpochs maxCertifiedEpochSuffix) with htaken
    have htake : peer.epochchain.take (s.epochchain.length + taken.length) =
        s.epochchain ++ taken := by
      have hprefix : s.epochchain ++ taken <+: peer.epochchain := by
        rw [hlocal, hpeer, List.append_assoc, List.prefix_append_right_inj, List.singleton_append,
          List.cons_prefix_cons]
        exact ⟨rfl, List.take_prefix _ _⟩
      rw [← List.length_append]
      exact (List.prefix_iff_eq_take.mp hprefix).symm
    refine ⟨_, certifiedEpochSuffix_eq hpeerMode hpeer hchain maxEpochs, rfl, ?_, ?_⟩
    · rw [hinstalled.1, htake]
    · rw [hinstalled.1, ← htake]
      exact List.IsChain.take hchain _
  · intro tip hhead hmissing
    have hrefused {anchorHash : W} {anchorNonce maxEpochs : ℕ} {suffix : CertifiedEpochSuffix W}
        (h : certifiedEpochSuffix cp peer anchorHash anchorNonce maxEpochs = .ok suffix) :
        after (catchUpCertifiedSuffix c suffix) s = s := by
      obtain ⟨hhash, hnonce, epoch, hepoch, hanchor⟩ := certifiedEpochSuffix_anchor h
      refine catchUpCertifiedSuffix_of_ne hhead fun heq => hmissing epoch hepoch ?_
      rw [hanchor.1, hanchor.2, ← hhash, ← hnonce]
      exact heq
    refine ⟨fun maxEpochs => ?_, fun _ _ _ _ h => hrefused h⟩
    rw [request, hhead]
    dsimp only
    split
    · rfl
    · next h => exact hrefused h

end NodeRuntime

namespace NumberWord

/-- The epoch after another one of three members, without blocks, signed by two. -/
def epochAfter (previous : Epoch NumberWord) : Epoch NumberWord :=
  let epoch := (buildVerifiedEpoch previous ∅ .disabled).setHash
  { epoch with signatures := .ofList [(0, sign 0 epoch.hash), (1, sign 1 epoch.hash)] compare }

def secondEpoch : Epoch NumberWord := epochAfter (genesis 3)

def stateWith (chain : List (Epoch NumberWord)) : LocalState NumberWord :=
  (NodeRuntime.fresh (identity 0) .disabled 8 chain).state

end NumberWord

open NumberWord in
/-- A member at the first epoch catches up with a peer at the third one in two requests. -/
theorem catchUp_eq_replay_third :
    ([1, 1].foldl (NodeRuntime.request (config .verified 1)
      (stateWith [genesis 3, secondEpoch, epochAfter secondEpoch]) (config .verified 0))
      (stateWith [genesis 3])).epochchain = [genesis 3, secondEpoch, epochAfter secondEpoch] := by
  have hlinks : validateCertifiedExtension (genesis 3) secondEpoch .disabled = .ok () ∧
      validateCertifiedExtension secondEpoch (epochAfter secondEpoch) .disabled = .ok () := by
    decide +kernel
  have hchain : CertifiedChain .disabled [genesis 3, secondEpoch, epochAfter secondEpoch] :=
    List.isChain_cons_cons.mpr ⟨hlinks.1, List.isChain_cons_cons.mpr
      ⟨hlinks.2, List.isChain_singleton _⟩⟩
  have hreplay := NodeRuntime.catchUp_eq_replay (config .verified 0) (config .verified 1)
    (stateWith [genesis 3]) (stateWith [genesis 3, secondEpoch, epochAfter secondEpoch]) rfl rfl rfl
    rfl hchain
  exact (hreplay.1 [] (genesis 3) [secondEpoch, epochAfter secondEpoch] rfl rfl).2 [1, 1] (by simp)
    (by simp)

end Blossom
