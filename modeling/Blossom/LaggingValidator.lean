import Blossom.CatchUpHints

/-!
# Validators that lag behind

A validator at the head of the chain announces the epoch that it has started, and it announces it
again to those that have not acknowledged it.
-/

namespace Blossom

open CheckedSteps OrderedMap StatefulSteps Relation LocalState NodeRuntime ConsecutiveList

variable {W : Type} [ProtocolCrypto W] [ShuffleSeed W] [EpochCodec W]
variable {peer : LocalState W} {policy : ConsensusNodeRemovalPolicy}

/-!
## Announcements
-/

/-- An announcement that a validator has signed for a target. -/
structure Genuine (key : W) (target : EpochNonce W) (message : EpochStarted W) : Prop where
  sender : message.header.sender = key
  target : message.header.target = target
  round : message.header.round = 0
  signature : message.header.verifySignature .epochStarted [.num 0] = .ok ()

def SignsAs (c : RuntimeConfig W) (key : W) : Prop :=
  ∀ signer, c.signer = some signer →
    ∀ word, checkSignature (signer.sign word) [.word word] key = .ok ()

def announcedTo (c : RuntimeConfig W) (node : DriverNode W) (service : Service W) :
    Option (EpochStarted W) :=
  match tryProduceEpochStarted c node with
  | .ok (some message) node' =>
    if service ∈ epochStartedRetryServices node' message then some message else none
  | _ => none

def heard (c : RuntimeConfig W) (message : EpochStarted W) (node : DriverNode W) : DriverNode W :=
  { node with runtime := after (receiveMessage c (.epochStarted message)) node.runtime }

section Announcement

variable {c : RuntimeConfig W} {node : DriverNode W} {rt : NodeRuntime W} {tip : Epoch W} {key : W}
  {target : EpochNonce W} {message : EpochStarted W}

omit [ShuffleSeed W] [EpochCodec W] in
theorem genuine_of_signed {header : Header W} (hmode : c.trustMode = .verified)
    (hsigns : SignsAs c key)
    (h : signedHeaderForBody c key target 0 .epochStarted [.num 0] = .ok header) :
    Genuine key target ⟨header⟩ := by
  have hver : signBody c key target 0 .epochStarted [.num 0] = (do
      let signer ← require c.signer (.error .missingSecretKey)
      pure (signer.sign (signatureHashForBody key target.lastEpoch target.nonce 0 .epochStarted
        [.num 0])) : Result (Signature W)) := by
    rw [signBody, hmode]
    rfl
  simp only [signedHeaderForBody, hver, bind_eq_ok, require_eq_ok, pure_eq_ok] at h
  obtain ⟨signature, ⟨signer, hsigner, rfl⟩, rfl⟩ := h
  exact ⟨rfl, rfl, rfl, hsigns signer hsigner _⟩

omit [EpochCodec W] in
theorem announcement_genuine {service : Service W} (hmode : c.trustMode = .verified)
    (hkey : node.runtime.state.selfNode.publicKey = key) (hsigns : SignsAs c key)
    (hretry : ∀ retry, node.epochStartedRetry = some retry →
      Genuine key retry.message.header.target retry.message)
    (hhead : node.runtime.state.head? = some tip)
    (h : announcedTo c node service = some message) : Genuine key tip.target message := by
  obtain ⟨node', hproduced⟩ : ∃ node', tryProduceEpochStarted c node = .ok (some message) node' := by
    rw [announcedTo] at h
    split at h
    next produced node' hproduced =>
      split at h
      · cases h
        exact ⟨node', hproduced⟩
      · cases h
    next => cases h
  unfold tryProduceEpochStarted at hproduced
  obtain ⟨_, node₁, hcheck, hchk⟩ := bind_returns.mp hproduced
  obtain ⟨-, rfl⟩ := check_returns.mp hcheck
  obtain ⟨target', node₂, htgt, hstarted⟩ := bind_returns.mp hchk
  obtain ⟨rt, hrt, rfl⟩ := onRuntime_returns.mp htgt
  obtain ⟨s, hs, rfl⟩ := onState_returns.mp hrt
  obtain ⟨-, rfl, head, hhead', rfl⟩ := nextEpochTarget_returns.mp hs
  obtain rfl : head = tip := Option.some.inj (hhead'.symm.trans hhead)
  rw [bind_get] at hstarted
  obtain ⟨latest, node₃, hlatest, hread⟩ := bind_returns.mp hstarted
  obtain ⟨-, rfl⟩ := check_returns.mp hlatest
  split at hread
  · cases hread
  · obtain ⟨_, node₄, -, hannounce⟩ := bind_returns.mp hread
    split at hannounce
    · -- The announcement that is kept for the target is sent again.
      obtain ⟨hmsg, -⟩ := EStateM.Result.ok.inj hannounce
      obtain ⟨retry, hfilter, rfl⟩ := Option.map_eq_some_iff.mp hmsg
      obtain ⟨hkept, hmatch⟩ := Option.filter_eq_some_iff.mp hfilter
      have hgenuine := hretry retry hkept
      rwa [(of_decide_eq_true hmatch).1] at hgenuine
    · obtain ⟨header, node₅, hheader, hsent⟩ := bind_returns.mp hannounce
      obtain ⟨hsig, rfl⟩ := check_returns.mp hheader
      cases hsent
      rw [← hkey] at hsigns ⊢
      exact genuine_of_signed hmode hsigns hsig

omit [ShuffleSeed W] [EpochCodec W] in
theorem insert_of_getElem? {hints : BTreeMap W (EpochNonce W)} (h : hints[key]? = some target) :
    hints.insert key target = hints := by
  refine Std.ExtTreeMap.ext_getElem? fun other => ?_
  rw [lookup_insert]
  split
  next heq => rw [← heq, h]
  next => rfl

/-- A genuine announcement of a later target by a validator becomes a hint, unless it is too far
ahead. -/
theorem receiveMessage_epochStarted (hmode : c.trustMode = .verified) (hcons : c.mode ≠ .overlay)
    (hhead : rt.state.head? = some tip) (hgenuine : Genuine key target message)
    (hlater : tip.target.nonce < target.nonce) (hmem : tip.body.verifiers.contains key = true) :
    (tip.target.nonce + maxCertifiedEpochSuffix < target.nonce →
      receiveMessage c (.epochStarted message) rt = .error (.error .invalidEpochNonce) rt) ∧
    (target.nonce ≤ tip.target.nonce + maxCertifiedEpochSuffix →
      (∀ previous, rt.epochStartedHints[key]? = some previous →
        previous = target ∨ previous.nonce < target.nonce) →
      receiveMessage c (.epochStarted message) rt = .ok "epoch_started_catch_up"
        { rt with epochStartedHints := rt.epochStartedHints.insert key target }) := by
  have hne : target ≠ tip.target := fun h => by rw [h] at hlater; exact lt_irrefl _ hlater
  have henv : onState (verifyMessageEnvelope c (.epochStarted message)) rt = .ok () rt := by
    refine onState_returns.mpr ⟨rt.state, ?_, rfl⟩
    have hsig : verifyMessageEnvelope c (.epochStarted message) =
        check (message.header.verifySignature .epochStarted [.num 0]) := by
      rw [verifyMessageEnvelope, hmode]
      rfl
    rw [hsig]
    exact check_returns.mpr ⟨hgenuine.signature, rfl⟩
  have hbuffer : bufferFutureRoundMessageIfNeeded (.epochStarted message) rt = .ok false rt := rfl
  have htip : onState (reading fun s : LocalState W => require s.head? (Failure.error .emptyEpochChain))
      rt = .ok tip rt :=
    onState_returns.mpr ⟨rt.state, reading_returns.mpr ⟨by rw [hhead]; rfl, rfl⟩, rfl⟩
  have hrcv : receiveMessage c (.epochStarted message) rt =
      receiveEpochStarted c message rt := by
    unfold receiveMessage
    rw [ensureConsensusMode, bind_reject hcons, bind_of_ok henv, bind_of_ok hbuffer]
    rfl
  rw [hrcv]
  unfold receiveEpochStarted
  rw [bind_of_ok henv, bind_of_ok htip]
  simp only [hgenuine.target, hgenuine.sender, hgenuine.round]
  constructor
  · intro hfar
    refine bind_of_error (check_fails.mpr ⟨?_, rfl⟩) _
    rw [reject, if_pos (.inr hfar)]
  · intro hnear hprev
    have hwindow : ¬(target.nonce < tip.target.nonce ∨
        tip.target.nonce + maxCertifiedEpochSuffix < target.nonce) := by omega
    have hpeer : onState (W := W) (pure false) rt = .ok false rt := rfl
    rw [bind_reject hwindow, if_neg hne, bind_of_ok hpeer, bind_reject (not_not.mpr hmem),
      if_pos hne, bind_reject fun h => h.1 rfl, bind_reject fun h => h rfl, bind_get]
    cases hhint : rt.epochStartedHints[key]? with
    | none => rfl
    | some previous =>
      have hagrees : ¬(previous.nonce = target.nonce ∧ previous.lastEpoch ≠ target.lastEpoch) := by
        rintro ⟨hsame, hdiffers⟩
        rcases hprev previous hhint with rfl | hlt
        · exact hdiffers rfl
        · exact hlt.ne hsame
      refine (bind_reject hagrees _).trans ?_
      rcases hprev previous hhint with rfl | hlt
      · rw [if_neg (lt_irrefl _), insert_of_getElem? hhint]
        rfl
      · rw [if_pos hlt]
        rfl

end Announcement

/-!
## Ticks
-/

/-- The answers follow a chain: to a request for what comes after one of its epochs no answer is
refused, and each suffix continues along the chain. -/
def FollowsChain (policy : ConsensusNodeRemovalPolicy) (chain : List (Epoch W))
    (input : TickInput W) : Prop :=
  ∀ service before tip rest, chain = before ++ tip :: rest →
    outcome tip policy (input.ask service (suffixRequest tip)) ≠ .refused ∧
    ∀ suffix, input.ask service (suffixRequest tip) = .ok (.certifiedEpochSuffix suffix) →
      suffix.epochs <+: rest

/-- A service that answers as the node with a chain does. -/
def AnswersFrom (cp : RuntimeConfig W) (peer : LocalState W) (service : Service W)
    (input : TickInput W) : Prop :=
  ∀ before tip rest, peer.epochchain = before ++ tip :: rest →
    input.ask service (suffixRequest tip) =
      (certifiedEpochSuffix cp peer tip.hash tip.body.nonce 4096).map .certifiedEpochSuffix

def ticks (c : RuntimeConfig W) (config : ConsensusDriverConfig) :
    (ℕ → TickInput W) → ℕ → DriverNode W → DriverNode W
  | _, 0, node => node
  | inputs, n + 1, node =>
    ticks c config (fun i => inputs (i + 1)) n (after (driveConsensusOnce c (inputs 0) config) node)

section Ticks

variable {c cp : RuntimeConfig W} {input : TickInput W} {node : DriverNode W} {tip : Epoch W}
  {before rest chain : List (Epoch W)} {service : Service W} {key : W} {target : EpochNonce W}

omit [ShuffleSeed W] [EpochCodec W] in
theorem mem_hintedServices (hhint : node.runtime.epochStartedHints[key]? = some target)
    (hlater : tip.target.nonce < target.nonce) (hother : target.lastEpoch ≠ tip.hash)
    (hserv : node.addressBook.serviceFor .consensus key = some service) :
    service ∈ hintedServices node tip := by
  refine List.mem_filterMap.mpr ⟨(key, target), List.mem_filter.mpr ⟨?_, ?_⟩, hserv⟩
  · exact Std.ExtTreeMap.mem_toList_iff_getElem?_eq_some.mpr hhint
  · exact decide_eq_true ⟨hlater, hother⟩

/-- A tick takes over epochs of the chain from the first hinted peer that has any. -/
theorem tick_advances (config : ConsensusDriverConfig) (hmode : c.trustMode = .verified)
    (hcons : c.mode ≠ .overlay) (hlocal : node.runtime.state.epochchain = before ++ [tip])
    (hfol : FollowsChain node.runtime.state.consensusNodeRemovalPolicy (before ++ tip :: rest)
      input)
    (hserv : service ∈ hintedServices node tip) (hhonest : HonestlyAhead input node service) :
    ∃ taken, taken ≠ [] ∧ taken <+: rest ∧
      Advanced node taken (after (driveConsensusOnce c input config) node) := by
  have hhead : node.runtime.state.head? = some tip := by
    rw [head?, hlocal, List.getLast?_concat]
  have htick := driveConsensusOnce_eq input config hmode hcons hhead
  rw [if_neg (List.ne_nil_of_mem hserv)] at htick
  have hres := catchUpFromPeers_result hmode hhead input (hintedServices node tip) 0 none
  set outcomes := (hintedServices node tip).map fun service =>
    outcome tip node.runtime.state.consensusNodeRemovalPolicy
      (input.ask service (suffixRequest tip)) with houtcomes
  have hinstalls : .installs ∈ outcomes :=
    List.mem_map.mpr ⟨service, hserv, hhonest.installs hhead⟩
  have hrefused : .refused ∉ outcomes := by
    intro hmem
    obtain ⟨other, -, hother⟩ := List.mem_map.mp hmem
    exact (hfol other before tip rest rfl).1 hother
  cases hres with
  | installs before' later epochs heq hbefore hne hvalid hans hadv hupd =>
    obtain ⟨other, suffix, hask, rfl⟩ := hans
    refine ⟨suffix.epochs, hne, (hfol other before tip rest rfl).2 suffix hask, ?_⟩
    rw [(after_of_bind_pure htick hupd rfl).1]
    exact hadv
  | refused before' later e heq => exact absurd (by simp [heq]) hrefused
  | failed e hnot => exact absurd hinstalls hnot
  | current hnot => exact absurd hinstalls hnot

def Stalled (node : DriverNode W) (tip : Epoch W) (input : TickInput W) : Prop :=
  ∃ before later, ((hintedServices node tip).map fun service =>
    outcome tip node.runtime.state.consensusNodeRemovalPolicy
      (input.ask service (suffixRequest tip))) = before ++ .refused :: later ∧ .installs ∉ before

theorem tick_stalled (config : ConsensusDriverConfig) (hmode : c.trustMode = .verified)
    (hcons : c.mode ≠ .overlay) (hhead : node.runtime.state.head? = some tip) (h : Stalled node tip input) :
    after (driveConsensusOnce c input config) node = node := by
  obtain ⟨before, later, houtcomes, hbefore⟩ := h
  have hne : hintedServices node tip ≠ [] := by
    intro hnil
    simp [hnil] at houtcomes
  have htick := driveConsensusOnce_eq input config hmode hcons hhead
  rw [if_neg hne] at htick
  have hres := catchUpFromPeers_result hmode hhead input (hintedServices node tip) 0 none
  rw [houtcomes] at hres
  cases hres with
  | installs before' later' epochs heq hnot =>
    exact absurd (first_outcome_unique rfl hbefore heq) hnot
  | refused before' later' e heq hnot hloop =>
    exact after_of_error (htick.trans (bind_of_error hloop _))
  | failed e hnot hrefused => exact absurd (by simp) hrefused
  | current hnot hrefused => exact absurd (by simp) hrefused

theorem ticks_stalled (config : ConsensusDriverConfig) (hmode : c.trustMode = .verified)
    (hcons : c.mode ≠ .overlay) (hhead : node.runtime.state.head? = some tip)
    {inputs : ℕ → TickInput W} (hinputs : ∀ i, Stalled node tip (inputs i))
    (n : ℕ) : ticks c config inputs n node = node := by
  induction n generalizing inputs with
  | zero => rfl
  | succ n ih =>
    rw [ticks, tick_stalled config hmode hcons hhead (hinputs 0)]
    exact ih fun i => hinputs (i + 1)

omit [ShuffleSeed W] in
theorem exported_follows {first : Epoch W} (hpeerMode : cp.trustMode = .verified)
    (hfirst : peer.epochchain.head? = some first) (hgroup : cp.groupId = first.body.groupId)
    (hchain : CertifiedChain policy peer.epochchain)
    (hpeer : peer.epochchain = before ++ tip :: rest) {answer : Except Failure (WireResponse W)}
    (hans : answer = (certifiedEpochSuffix cp peer tip.hash tip.body.nonce 4096).map .certifiedEpochSuffix) :
    outcome tip policy answer ≠ .refused ∧
      ∀ suffix, answer = .ok (.certifiedEpochSuffix suffix) → suffix.epochs <+: rest := by
  constructor
  · rw [hans, outcome_exported hpeerMode hfirst hgroup hchain hpeer]
    split <;> simp
  · intro suffix hsuffix
    rw [hans, certifiedEpochSuffix_eq hpeerMode hpeer hchain] at hsuffix
    cases hsuffix
    exact List.take_prefix _ _

/-- A node that knows the service of a validator at the head and has its hint until it is there
itself. -/
structure Hinted (peer : LocalState W) (key : W) (service : Service W) (node : DriverNode W) :
    Prop where
  certified : CertifiedChain node.runtime.state.consensusNodeRemovalPolicy peer.epochchain
  reachable : node.addressBook.serviceFor .consensus key = some service
  hint : ∀ tip head, node.runtime.state.head? = some tip → peer.head? = some head →
    tip.target.nonce < head.target.nonce → node.runtime.epochStartedHints[key]? = some head.target

/-- What a tick meets while the validator at the head answers it. -/
structure Served (cp : RuntimeConfig W) (peer : LocalState W) (service : Service W)
    (policy : ConsensusNodeRemovalPolicy) (input : TickInput W) : Prop where
  follows : FollowsChain policy peer.epochchain input
  answers : AnswersFrom cp peer service input

omit [ShuffleSeed W] in
/-- The last epoch of a certified chain is as many nonces later as there are epochs in between. -/
theorem exists_head_ahead (hchain : CertifiedChain policy peer.epochchain)
    (hpeer : peer.epochchain = before ++ tip :: rest) (hne : rest ≠ []) :
    ∃ head, rest.getLast? = some head ∧ peer.head? = some head ∧
      head.target.nonce = tip.target.nonce + rest.length ∧ 0 < rest.length := by
  obtain ⟨head, hlast⟩ : ∃ head, rest.getLast? = some head :=
    ⟨rest.getLast hne, List.getLast?_eq_some_getLast hne⟩
  have hhead : (tip :: rest).getLast? = some head := by
    rw [List.getLast?_cons, hlast]
    rfl
  rw [hpeer] at hchain
  have htail : CertifiedChain policy (tip :: rest) := List.IsChain.right_of_append hchain
  have hnonce : head.body.nonce = tip.body.nonce + rest.length :=
    htail.consecutive.getElem? rfl (List.getLast?_eq_getElem? ▸ hhead)
  refine ⟨head, hlast, ?_, ?_, List.length_pos_iff.mpr hne⟩
  · rw [head?, hpeer, List.getLast?_append_cons, hhead]
  · change head.body.nonce + 1 = tip.body.nonce + 1 + rest.length
    omega

theorem ticks_reach (config : ConsensusDriverConfig) {first : Epoch W}
    (hmode : c.trustMode = .verified) (hcons : c.mode ≠ .overlay)
    (hpeerMode : cp.trustMode = .verified) (hfirst : peer.epochchain.head? = some first)
    (hgroup : cp.groupId = first.body.groupId) (hdist : (peer.epochchain.map Epoch.hash).Nodup)
    (hhinted : Hinted peer key service node)
    (hlocal : node.runtime.state.epochchain = before ++ [tip])
    (hpeer : peer.epochchain = before ++ tip :: rest) (inputs : ℕ → TickInput W)
    (hinputs : ∀ i, Served cp peer service node.runtime.state.consensusNodeRemovalPolicy (inputs i)) :
    ∃ n, (ticks c config inputs n node).runtime.state.epochchain = peer.epochchain := by
  -- Every tick leaves fewer epochs to take over.
  induction hlen : rest.length using Nat.strong_induction_on
    generalizing node before tip rest inputs with
  | _ length ih =>
    by_cases hdone : rest = []
    · refine ⟨0, ?_⟩
      rw [hpeer, hdone]
      exact hlocal
    · obtain ⟨head, hlast, hpeerHead, hnonce, hpositive⟩ :=
        exists_head_ahead hhinted.certified hpeer hdone
      have hlater : tip.target.nonce < head.target.nonce := by omega
      have hhead : node.runtime.state.head? = some tip := by
        rw [head?, hlocal, List.getLast?_concat]
      have hother : head.hash ≠ tip.hash := by
        rw [hpeer, List.map_append, List.map_cons] at hdist
        intro heq
        have hnodup := (List.nodup_append.mp hdist).2.1
        exact (List.nodup_cons.mp hnodup).1
          (List.mem_map.mpr ⟨head, List.mem_of_getLast? hlast, heq⟩)
      have hhint := hhinted.hint tip head hhead hpeerHead hlater
      have hserv : service ∈ hintedServices node tip :=
        mem_hintedServices hhint hlater hother hhinted.reachable
      have hserved := hinputs 0
      have hhonest : HonestlyAhead (inputs 0) node service :=
        ⟨cp, peer, first, before, rest, tip, hpeerMode, hfirst, hgroup, hhinted.certified, hlocal,
          hpeer, hdone, hserved.answers before tip rest hpeer⟩
      obtain ⟨taken, hne, ⟨rest', rfl⟩, hadv⟩ := tick_advances config hmode hcons
        hlocal (hpeer ▸ hserved.follows) hserv hhonest
      obtain ⟨between, next, rfl⟩ : ∃ between next, taken = between ++ [next] :=
        ⟨_, _, (List.dropLast_append_getLast hne).symm⟩
      set node' := after (driveConsensusOnce c (inputs 0) config) node with hnode'
      have hlocal' : node'.runtime.state.epochchain = (before ++ tip :: between) ++ [next] := by
        rw [hadv.chain, hlocal]
        simp
      have hpeer' : peer.epochchain = (before ++ tip :: between) ++ next :: rest' := by
        rw [hpeer]
        simp
      have hhinted' : Hinted peer key service node' := by
        refine ⟨?_, ?_, ?_⟩
        · rw [hadv.policy]
          exact hhinted.certified
        · rw [hadv.book]
          exact hhinted.reachable
        · intro tip' head' htip' hhead' hlater'
          cases hpeerHead.symm.trans hhead'
          refine hadv.hints key head.target hhint fun found hfound => ?_
          cases htip'.symm.trans hfound
          exact hlater'
      have hshorter : rest'.length < length := by
        rw [← hlen, List.length_append, List.length_append, List.length_singleton]
        omega
      obtain ⟨n, hn⟩ := ih rest'.length hshorter hhinted' hlocal' hpeer' (fun i => inputs (i + 1))
        (fun i => by rw [hadv.policy]; exact hinputs (i + 1)) rfl
      exact ⟨n + 1, hn⟩

end Ticks

/-- A validator whose chain is a proper part of the chain of another one, which is among the verifiers
of its tip. What it has heard from that one so far are epochs of that chain. -/
structure Lagging (cp : RuntimeConfig W) (node ahead : DriverNode W) (missing : List (Epoch W))
    (service : Service W) : Prop where
  peerMode : cp.trustMode = .verified
  chain : ahead.runtime.state.epochchain = node.runtime.state.epochchain ++ missing
  behind : missing ≠ []
  certified : CertifiedChain node.runtime.state.consensusNodeRemovalPolicy
    ahead.runtime.state.epochchain
  group : ∃ first, ahead.runtime.state.epochchain.head? = some first ∧
    cp.groupId = first.body.groupId
  distinct : (ahead.runtime.state.epochchain.map Epoch.hash).Nodup
  member : ∃ tip, node.runtime.state.head? = some tip ∧
    tip.body.verifiers.contains ahead.runtime.state.selfNode.publicKey = true
  reachable : node.addressBook.serviceFor .consensus ahead.runtime.state.selfNode.publicKey =
    some service
  signs : SignsAs cp ahead.runtime.state.selfNode.publicKey
  retry : ∀ retry, ahead.epochStartedRetry = some retry → Genuine
    ahead.runtime.state.selfNode.publicKey retry.message.header.target retry.message
  heard : ∀ target, node.runtime.epochStartedHints[ahead.runtime.state.selfNode.publicKey]? =
    some target → ∃ epoch ∈ ahead.runtime.state.epochchain, epoch.target = target

section Reach

variable {c cp : RuntimeConfig W} {node ahead : DriverNode W} {missing : List (Epoch W)}
  {service own : Service W} {message : EpochStarted W}

/-- The announcement of a validator at the head brings a validator that lags behind to the head if it
misses at most as many epochs as a suffix may have, as long as no answer to its requests is refused.
If it misses more, the announcement is refused and nothing changes, and ticks in which an answer is
refused before one is installed change nothing either. -/
theorem lagging_validator_reaches_head (h : Lagging cp node ahead missing service)
    (hmode : c.trustMode = .verified) (hconsensus : c.mode ≠ .overlay)
    (hmessage : announcedTo cp ahead own = some message) (config : ConsensusDriverConfig)
    (inputs : ℕ → TickInput W) (hinputs : ∀ i, Served cp ahead.runtime.state service
      node.runtime.state.consensusNodeRemovalPolicy (inputs i)) :
    (missing.length ≤ maxCertifiedEpochSuffix →
      ∃ n, (ticks c config inputs n (heard c message node)).runtime.state.epochchain =
        ahead.runtime.state.epochchain) ∧
    (maxCertifiedEpochSuffix < missing.length → heard c message node = node) ∧
    ∀ (tip : Epoch W) (refusing : ℕ → TickInput W),
      (heard c message node).runtime.state.head? = some tip →
      (∀ i, Stalled (heard c message node) tip (refusing i)) →
        ∀ n, ticks c config refusing n (heard c message node) = heard c message node := by
  obtain ⟨tip, hhead, hmember⟩ := h.member
  obtain ⟨before, hlocal⟩ : ∃ before, node.runtime.state.epochchain = before ++ [tip] :=
    List.getLast?_eq_some_iff.mp hhead
  have hpeer : ahead.runtime.state.epochchain = before ++ tip :: missing := by
    rw [h.chain, hlocal, List.append_assoc]
    rfl
  obtain ⟨head, -, hpeerHead, hnonce, hpositive⟩ :=
    exists_head_ahead h.certified hpeer h.behind
  have hgenuine := announcement_genuine h.peerMode rfl h.signs h.retry hpeerHead hmessage
  obtain ⟨hfar, hnear⟩ :=
    receiveMessage_epochStarted hmode hconsensus hhead hgenuine (by omega) hmember
  refine ⟨?_, ?_, fun tip refusing htip hrefusing => ticks_stalled config hmode hconsensus htip hrefusing⟩
  · intro hwindow
    have hprevious : ∀ previous, node.runtime.epochStartedHints[
        ahead.runtime.state.selfNode.publicKey]? = some previous →
          previous = head.target ∨ previous.nonce < head.target.nonce := by
      intro previous hhint
      obtain ⟨epoch, hepoch, rfl⟩ := h.heard previous hhint
      have hle : epoch.body.nonce ≤ head.body.nonce :=
        h.certified.consecutive.le_last hepoch hpeerHead
      rcases hle.eq_or_lt with heq | hlt
      · left
        rw [h.certified.consecutive.eq_of_eq hepoch (List.mem_of_getLast? hpeerHead) heq]
      · exact .inr (Nat.succ_lt_succ hlt)
    have hreceived := hnear (by omega) hprevious
    obtain ⟨first, hfirst, hgroup⟩ := h.group
    have hheard : heard c message node = { node with runtime := { node.runtime with
        epochStartedHints := node.runtime.epochStartedHints.insert
          ahead.runtime.state.selfNode.publicKey head.target } } := by
      rw [heard, after_of_ok hreceived]
    have hhinted : Hinted ahead.runtime.state ahead.runtime.state.selfNode.publicKey service
        (heard c message node) := by
      rw [hheard]
      refine ⟨h.certified, h.reachable, fun tip' head' _ hhead' _ => ?_⟩
      cases hpeerHead.symm.trans hhead'
      exact (lookup_insert _ _ _ _).trans (if_pos rfl)
    have hsame : (heard c message node).runtime.state = node.runtime.state := by rw [hheard]
    exact ticks_reach config hmode hconsensus h.peerMode hfirst hgroup h.distinct hhinted
      (hsame ▸ hlocal) hpeer inputs (hsame ▸ hinputs)
  · intro hwindow
    rw [heard, after_of_error (hfar (by omega))]

end Reach

namespace NumberWord

theorem answered_answersFrom (answer : WireResponse NumberWord) :
    AnswersFrom (config .verified 2) thirdNode.runtime.state (consensusService 2)
      (answered answer) := by
  intro before tip rest _
  have hne : consensusService 2 ≠ consensusService 1 := by decide +kernel
  exact answered_other answer hne tip

theorem signsAs (member : ℕ) : SignsAs (config .verified member) (key member) := by
  intro signer hsigner word
  cases hsigner
  exact reject_eq_ok.mpr (by simp [ProtocolCrypto.verify, sign])

theorem thirdNode_ahead : Lagging (config .verified 2) (hintedNode [1, 2]) thirdNode [secondEpoch]
    (consensusService 2) where
  peerMode := rfl
  chain := rfl
  behind := by simp
  certified := secondEpoch_chain
  group := ⟨genesis 3, rfl, rfl⟩
  distinct := by decide +kernel
  member := ⟨genesis 3, rfl, by decide +kernel⟩
  reachable := by decide +kernel
  signs := signsAs 2
  retry := fun _ h => by cases h
  heard := by
    intro target htgt
    have hhint : (hintedNode [1, 2]).runtime.epochStartedHints[key 2]? = some secondEpoch.target := by
      decide +kernel
    exact ⟨secondEpoch, by simp [thirdNode, NodeRuntime.fresh],
      Option.some.inj (hhint.symm.trans htgt)⟩

/-- The first member after announcements of the third and ticks in any order. -/
def afterEvents (answer : WireResponse NumberWord) (message : EpochStarted NumberWord)
    (node : DriverNode NumberWord) (events : List Bool) : DriverNode NumberWord :=
  events.foldl (fun node announced => if announced then heard (config .verified 0) message node
    else after (driveConsensusOnce (config .verified 0) (answered answer) singleRound) node) node

end NumberWord

open NumberWord in
/-- A refused answer of the second member keeps the first one at its epoch for ever, whatever number of
announcements of the third are delivered to it and of ticks it makes. -/
theorem refused_peer_strands_validator : ∃ message,
    announcedTo (config .verified 2) thirdNode (consensusService 0) = some message ∧
    Lagging (config .verified 2) (hintedNode [1, 2]) thirdNode [secondEpoch] (consensusService 2) ∧
    AnswersFrom (config .verified 2) thirdNode.runtime.state (consensusService 2)
      (answered (.certifiedEpochSuffix ⟨0, default, default, 0, []⟩)) ∧
    ∀ events, (afterEvents (.certifiedEpochSuffix ⟨0, default, default, 0, []⟩) message
      (hintedNode [1, 2]) events).runtime.state.epochchain = [genesis 3] := by
  obtain ⟨message, hmessage⟩ := Option.isSome_iff_exists.mp (show (announcedTo (config .verified 2)
    thirdNode (consensusService 0)).isSome = true by decide +kernel)
  refine ⟨message, hmessage, thirdNode_ahead, answered_answersFrom _, fun events => ?_⟩
  have hhead : (hintedNode [1, 2]).runtime.state.head? = some (genesis 3) := rfl
  have hgenuine : Genuine (key 2) secondEpoch.target message :=
    announcement_genuine rfl rfl (signsAs 2) (fun _ h => by cases h) rfl hmessage
  have hhint : (hintedNode [1, 2]).runtime.epochStartedHints[key 2]? = some secondEpoch.target := by
    decide +kernel
  -- The hint of the third member is there already, and every tick ends with the second one's answer.
  have hheard : heard (config .verified 0) message (hintedNode [1, 2]) = hintedNode [1, 2] := by
    have hreceived := (receiveMessage_epochStarted (c := config .verified 0) rfl (by decide) hhead
      hgenuine (by decide +kernel) (by decide +kernel)).2 (by decide +kernel) fun previous hprevious =>
        .inl (Option.some.inj (hprevious.symm.trans hhint))
    rw [heard, after_of_ok hreceived, insert_of_getElem? hhint]
  have hstalled : Stalled (hintedNode [1, 2]) (genesis 3)
      (answered (.certifiedEpochSuffix ⟨0, default, default, 0, []⟩)) := by
    refine ⟨[], [.installs], ?_, List.not_mem_nil⟩
    decide +kernel
  have htick := tick_stalled (c := config .verified 0) singleRound rfl (by decide) hhead hstalled
  have hevents : afterEvents (.certifiedEpochSuffix ⟨0, default, default, 0, []⟩) message
      (hintedNode [1, 2]) events = hintedNode [1, 2] := by
    induction events with
    | nil => rfl
    | cons announced events ih =>
      rw [afterEvents, List.foldl_cons]
      cases announced with
      | true => rw [if_pos rfl, hheard]; exact ih
      | false => rw [if_neg (by simp), htick]; exact ih
  rw [hevents]
  rfl

open NumberWord in
/-- The first member reaches the second epoch after the announcement of the third, though the second
one answers with an error. -/
theorem lagging_member_reaches_second : ∃ message n,
    announcedTo (config .verified 2) thirdNode (consensusService 0) = some message ∧
    (ticks (config .verified 0) singleRound (fun _ => answered (.error "")) n
      (heard (config .verified 0) message (hintedNode [1, 2]))).runtime.state.epochchain =
        [genesis 3, secondEpoch] := by
  obtain ⟨message, hmessage⟩ := Option.isSome_iff_exists.mp (show (announcedTo (config .verified 2)
    thirdNode (consensusService 0)).isSome = true by decide +kernel)
  have hserved : Served (config .verified 2) thirdNode.runtime.state (consensusService 2) .disabled
      (answered (.error "")) := by
    refine ⟨fun service before tip rest hchain => ?_, answered_answersFrom _⟩
    by_cases hsecond : service = consensusService 1
    · rw [answered_second _ hsecond]
      exact ⟨by simp [outcome], fun _ h => by cases h⟩
    · exact exported_follows rfl rfl rfl secondEpoch_chain hchain (answered_other _ hsecond tip)
  obtain ⟨n, hn⟩ := (lagging_validator_reaches_head (c := config .verified 0) thirdNode_ahead rfl
    (by decide) hmessage singleRound (fun _ => answered (.error "")) fun _ => hserved).1 (by decide)
  exact ⟨message, n, hmessage, hn⟩

end Blossom
