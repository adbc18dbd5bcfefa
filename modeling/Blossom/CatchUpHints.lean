import Blossom.ConsensusDriver

/-!
# Hints to catch up

A validator that announces a later epoch is asked for the certified epochs up to it before a tick
goes through its stages. The validators are asked in the order of their keys until one answers with
epochs that can be installed.
-/

namespace Blossom

open CheckedSteps OrderedMap StatefulSteps Relation LocalState NodeRuntime

variable {W : Type} [ProtocolCrypto W] [ShuffleSeed W] [EpochCodec W]

inductive AnswerOutcome where
  | installs | current | refused | failed
  deriving DecidableEq

def outcome (tip : Epoch W) (policy : ConsensusNodeRemovalPolicy) :
    Except Failure (WireResponse W) → AnswerOutcome
  | .ok (.certifiedEpochSuffix suffix) =>
    match acceptSuffix tip policy suffix with
    | .error _ => .refused
    | .ok _ => if suffix.epochs = [] then .current else .installs
  | .ok (.epochChain _) => .refused
  | .ok (.error _) | .ok (.other _) | .error _ => .failed

def suffixRequest (tip : Epoch W) : WireRequest W :=
  .certifiedEpochSuffix tip.hash tip.body.nonce 4096

def hintedServices (node : DriverNode W) (tip : Epoch W) : List (Service W) :=
  (node.runtime.epochStartedHints.toList.filter fun (_, target) =>
    decide (tip.target.nonce < target.nonce ∧ target.lastEpoch ≠ tip.target.lastEpoch)).filterMap
      fun (sender, _) => node.addressBook.serviceFor .consensus sender

omit [ShuffleSeed W] in
theorem validateCertifiedLinks_of_validateFrom {tip : Epoch W} {suffix : CertifiedEpochSuffix W}
    {policy : ConsensusNodeRemovalPolicy}
    (h : suffix.validateFrom tip policy = .ok ()) :
    validateCertifiedLinks policy tip suffix.epochs = .ok () := by
  rw [CertifiedEpochSuffix.validateFrom, guard_bind_eq_ok] at h
  exact h.2

section Loop

variable {c : RuntimeConfig W} {input : TickInput W} {node : DriverNode W} {tip : Epoch W}

omit [ShuffleSeed W] [EpochCodec W] in
theorem onRuntime_returns {α : Type} {m : NodeRuntime.Operation W α} {a : α} {node' : DriverNode W} :
    onRuntime m node = .ok a node' ↔
      ∃ rt, m node.runtime = .ok a rt ∧ node' = { node with runtime := rt } := by
  unfold onRuntime
  cases m node.runtime with
  | error e rt => simp
  | ok b rt => simp [eq_comm]

section OnState

variable {α : Type} {m : StateOperation W α} {s : LocalState W}

omit [ShuffleSeed W] [EpochCodec W] in
theorem onState_of_ok {a : α} (h : m node.runtime.state = .ok a s) : onRuntime (onState m) node =
    .ok a { node with runtime := { node.runtime with state := s } } := by
  rw [onRuntime, onState, h]

omit [ShuffleSeed W] [EpochCodec W] in
theorem onState_of_error {e : Failure} (h : m node.runtime.state = .error e s) :
    onRuntime (onState m) node =
      .error e { node with runtime := { node.runtime with state := s } } := by
  rw [onRuntime, onState, h]

end OnState

variable {suffix : CertifiedEpochSuffix W} (hmode : c.trustMode = .verified)
  (hhead : node.runtime.state.head? = some tip)
include hmode hhead

theorem installCertifiedSuffix_of_error {e : Failure}
    (h : acceptSuffix tip node.runtime.state.consensusNodeRemovalPolicy suffix = .error e) :
    installCertifiedSuffix c suffix node = .error e node := by
  refine bind_of_error (onState_of_error ?_) _
  rw [catchUpCertifiedSuffix_eq hmode hhead, h]

theorem installCertifiedSuffix_of_nil
    (h : acceptSuffix tip node.runtime.state.consensusNodeRemovalPolicy suffix = .ok ())
    (hnil : suffix.epochs = []) : installCertifiedSuffix c suffix node = .ok false node := by
  have hsuffix : catchUpCertifiedSuffix c suffix node.runtime.state =
      .ok false node.runtime.state := by
    rw [catchUpCertifiedSuffix_eq hmode hhead, h]
    simp only [hnil, if_true]
  exact bind_of_ok (onState_of_ok hsuffix) _

omit hmode hhead in
structure Advanced (node : DriverNode W) (epochs : List (Epoch W)) (node' : DriverNode W) : Prop where
  chain : node'.runtime.state.epochchain = node.runtime.state.epochchain ++ epochs
  policy : node'.runtime.state.consensusNodeRemovalPolicy =
    node.runtime.state.consensusNodeRemovalPolicy
  book : node'.addressBook = node.addressBook
  hints : ∀ (key : W) (target : EpochNonce W), node.runtime.epochStartedHints[key]? = some target →
    (∀ head, node'.runtime.state.head? = some head → head.target.nonce < target.nonce) →
      node'.runtime.epochStartedHints[key]? = some target

theorem installCertifiedSuffix_of_ne_nil
    (h : acceptSuffix tip node.runtime.state.consensusNodeRemovalPolicy suffix = .ok ())
    (hne : suffix.epochs ≠ []) :
    Advanced node suffix.epochs (after (installCertifiedSuffix c suffix) node) ∧
    ∀ updated node', installCertifiedSuffix c suffix node = .ok updated node' → updated = true := by
  set grown := { node.runtime.state with
    epochchain := node.runtime.state.epochchain ++ suffix.epochs } with hgrown
  have hsuffix : catchUpCertifiedSuffix c suffix node.runtime.state = openNextQuorum c grown := by
    rw [catchUpCertifiedSuffix_eq hmode hhead, h]
    simp only [hne, if_false, hgrown]
  have hopened {s : LocalState W} (hs : after (openNextQuorum c) grown = s) :
      Advanced node suffix.epochs { node with runtime := { node.runtime with state := s } } := by
    have hsame := openNextQuorum_sameChain (c := c) (s := grown)
    rw [hs] at hsame
    exact ⟨hsame.1, hsame.2, rfl, fun _ _ hhint _ => hhint⟩
  cases hopen : openNextQuorum c grown with
  | error e s =>
    have hend : installCertifiedSuffix c suffix node = .error e _ :=
      bind_of_error (onState_of_error (hsuffix.trans hopen)) _
    rw [after_of_error hend]
    exact ⟨hopened (after_of_error hopen), fun _ _ hok => by cases hend.symm.trans hok⟩
  | ok updated s =>
    obtain rfl : updated = true := by
      obtain ⟨_, _, -, hrest⟩ := bind_returns.mp hopen
      obtain ⟨_, _, -, hpure⟩ := bind_returns.mp hrest
      cases hpure
      rfl
    have hcall := onState_of_ok (hsuffix.trans hopen)
    have hadv := hopened (after_of_ok hopen)
    cases hnext : nextEpochTarget c s with
    | error e s' =>
      obtain rfl := nextEpochTarget_fails hnext
      have hend : installCertifiedSuffix c suffix node = .error e _ :=
        (bind_of_ok hcall _).trans (bind_of_error (onState_of_error hnext) _)
      rw [after_of_error hend]
      exact ⟨hadv, fun _ _ hok => by cases hend.symm.trans hok⟩
    | ok target s' =>
      obtain ⟨-, rfl, head, hhead', rfl⟩ := nextEpochTarget_returns.mp hnext
      have hend : installCertifiedSuffix c suffix node = .ok true _ :=
        (bind_of_ok hcall _).trans (bind_of_ok (onState_of_ok hnext) _)
      rw [after_of_ok hend]
      refine ⟨⟨hadv.chain, hadv.policy, rfl, fun key target hhint hahead => ?_⟩,
        fun _ _ hok => by cases hend.symm.trans hok; rfl⟩
      -- The hints that are kept are those ahead of the new target.
      change (node.runtime.epochStartedHints.filter _)[key]? = _
      rw [Std.ExtTreeMap.getElem?_filter', Option.filter_eq_some_iff]
      exact ⟨hhint, decide_eq_true (.inl (hahead head hhead'))⟩

omit hmode hhead in
variable (input node tip) in
/-- What the loop does with the answers of some peers, from a number of successful responses and a
last error on. -/
inductive LoopResult (outcomes : List AnswerOutcome) (successful : ℕ) (lastError : Option Failure)
    (loop : DriverOperation W ℕ) : Prop
  | installs (before later : List AnswerOutcome) (epochs : List (Epoch W))
      (heq : outcomes = before ++ .installs :: later) (hbefore : .refused ∉ before)
      (hne : epochs ≠ [])
      (hvalid : validateCertifiedLinks node.runtime.state.consensusNodeRemovalPolicy tip epochs =
        .ok ())
      (hans : ∃ service suffix, input.ask service (suffixRequest tip) =
        .ok (.certifiedEpochSuffix suffix) ∧ suffix.epochs = epochs)
      (hadv : Advanced node epochs (after loop node))
      (hupd : ∀ updates node', loop node = .ok updates node' → updates = 1)
  | refused (before later : List AnswerOutcome) (e : Failure)
      (heq : outcomes = before ++ .refused :: later) (hbefore : .installs ∉ before)
      (hloop : loop node = .error e node)
  | failed (e : Failure) (hinstalls : .installs ∉ outcomes) (hrefused : .refused ∉ outcomes)
      (hcur : successful = 0 ∧ .current ∉ outcomes ∧ (lastError ≠ none ∨ outcomes ≠ []))
      (hloop : loop node = .error e node)
  | current (hinstalls : .installs ∉ outcomes) (hrefused : .refused ∉ outcomes)
      (hcur : successful ≠ 0 ∨ .current ∈ outcomes ∨ (lastError = none ∧ outcomes = []))
      (hloop : loop node = .ok 0 node)

omit hmode hhead [ShuffleSeed W] in
theorem LoopResult.cons {first : AnswerOutcome} {outcomes : List AnswerOutcome} {successful successful' : ℕ}
    {lastError lastError' : Option Failure} {loop loop' : DriverOperation W ℕ}
    (h : LoopResult input node tip outcomes successful' lastError' loop')
    (hloop : loop node = loop' node)
    (hfirst : first = .current ∧ successful' = successful + 1 ∧ lastError' = lastError ∨
      first = .failed ∧ successful' = successful ∧ lastError' ≠ none) :
    LoopResult input node tip (first :: outcomes) successful lastError loop := by
  have hinstalls : first ≠ .installs := by rcases hfirst with ⟨rfl, -⟩ | ⟨rfl, -⟩ <;> decide
  have hrefused : first ≠ .refused := by rcases hfirst with ⟨rfl, -⟩ | ⟨rfl, -⟩ <;> decide
  cases h with
  | installs before later epochs heq hbefore hne hvalid hans hadv hupd =>
    refine .installs (first :: before) later epochs (by rw [heq]; rfl) ?_ hne hvalid hans ?_ ?_
    · simp [hbefore, hrefused.symm]
    · rw [after, hloop]
      exact hadv
    · rw [hloop]
      exact hupd
  | refused before later e heq hbefore herror =>
    refine .refused (first :: before) later e (by rw [heq]; rfl) ?_ (hloop.trans herror)
    simp [hbefore, hinstalls.symm]
  | failed e hnot hnone hcur herror =>
    refine .failed e ?_ ?_ ?_ (hloop.trans herror)
    · simp [hnot, hinstalls.symm]
    · simp [hnone, hrefused.symm]
    · rcases hfirst with ⟨-, hsuccess, -⟩ | ⟨rfl, hsuccess, -⟩
      · omega
      · refine ⟨hsuccess ▸ hcur.1, ?_, .inr (List.cons_ne_nil _ _)⟩
        simp [hcur.2.1]
  | current hnot hnone hcur hok =>
    refine .current ?_ ?_ ?_ (hloop.trans hok)
    · simp [hnot, hinstalls.symm]
    · simp [hnone, hrefused.symm]
    · rcases hfirst with ⟨rfl, -⟩ | ⟨rfl, hsuccess, herror⟩
      · exact .inr (.inl List.mem_cons_self)
      · rcases hcur with h | h | ⟨h, -⟩
        · exact .inl (hsuccess ▸ h)
        · exact .inr (.inl (List.mem_cons_of_mem _ h))
        · exact absurd h herror

theorem catchUpFromPeers_cons (input : TickInput W) (service : Service W)
    (services : List (Service W)) (successful : ℕ) (lastError : Option Failure) :
    catchUpFromPeers c input (service :: services) successful lastError node =
      (match input.ask service (suffixRequest tip) with
      | .ok (.certifiedEpochSuffix suffix) => do
        let updated ← installCertifiedSuffix c suffix
        if updated then pure 1
        else catchUpFromPeers c input services (successful + 1) lastError
      | .ok (.epochChain chain) => do
        let updated ← onRuntime (catchUpFromEpochStarted c chain)
        if updated then pure 1
        else catchUpFromPeers c input services (successful + 1) lastError
      | .ok (.error message) =>
        catchUpFromPeers c input services successful (some (externalService message))
      | .ok (.other kind) =>
        catchUpFromPeers c input services successful
          (some (wireProtocol s!"expected epoch_chain response during catch-up, got {kind}"))
      | .error e => catchUpFromPeers c input services successful (some e) :
        DriverOperation W ℕ) node := by
  have htrust : c.trustMode.isTrusted = false := by
    rw [hmode]
    rfl
  rw [catchUpFromPeers, htrust]
  rw [bind_get, bind_require hhead]
  rfl

theorem catchUpFromPeers_result (input : TickInput W) (services : List (Service W)) (successful : ℕ)
    (lastError : Option Failure) :
    LoopResult input node tip (services.map fun service =>
      outcome tip node.runtime.state.consensusNodeRemovalPolicy
        (input.ask service (suffixRequest tip))) successful lastError
      (catchUpFromPeers c input services successful lastError) := by
  induction services generalizing successful lastError with
  | nil =>
    cases successful with
    | zero =>
      cases lastError with
      | none => exact .current (by simp) (by simp) (.inr (.inr ⟨rfl, rfl⟩)) rfl
      | some e => exact .failed e (by simp) (by simp) ⟨rfl, by simp, .inl (by simp)⟩ rfl
    | succ n => exact .current (by simp) (by simp) (.inl (Nat.succ_ne_zero n)) rfl
  | cons service services ih =>
    have hloop := catchUpFromPeers_cons hmode hhead input service services successful lastError
    rw [List.map_cons]
    cases hans : input.ask service (suffixRequest tip) with
    | error e =>
      rw [hans] at hloop
      exact (ih successful (some e)).cons hloop (.inr ⟨rfl, rfl, by simp⟩)
    | ok response =>
      rw [hans] at hloop
      cases response with
      | error message => exact (ih _ _).cons hloop (.inr ⟨rfl, rfl, by simp⟩)
      | other kind => exact (ih _ _).cons hloop (.inr ⟨rfl, rfl, by simp⟩)
      | epochChain chain =>
        -- A verified node takes no chain without certificates.
        have hrefused : onRuntime (catchUpFromEpochStarted c chain) node = .error
            (invalidConfiguration
              "verified catch-up requires (anchor hash, anchor nonce, certified suffix)") node := by
          rw [onRuntime, catchUpFromEpochStarted, hmode]
          rfl
        exact .refused [] _ _ rfl (by simp) (hloop.trans (bind_of_error hrefused _))
      | certifiedEpochSuffix suffix =>
        dsimp only at hloop
        rw [outcome]
        cases hacc : acceptSuffix tip node.runtime.state.consensusNodeRemovalPolicy suffix with
        | error e =>
          refine .refused [] _ e rfl (by simp) (hloop.trans (bind_of_error ?_ _))
          exact installCertifiedSuffix_of_error hmode hhead hacc
        | ok _ =>
          dsimp only
          split
          next hnil =>
            have hinst := installCertifiedSuffix_of_nil hmode hhead hacc hnil
            exact (ih (successful + 1) lastError).cons
              (hloop.trans (bind_of_ok hinst _)) (.inl ⟨rfl, rfl, rfl⟩)
          next hne =>
            obtain ⟨hadv, hupdated⟩ := installCertifiedSuffix_of_ne_nil hmode hhead hacc hne
            have hvalid := validateCertifiedLinks_of_validateFrom (acceptSuffix_eq_ok.mp hacc).2
            obtain ⟨hafter, hone⟩ := after_of_bind_pure hloop hupdated rfl
            exact .installs [] _ suffix.epochs rfl (by simp) hne hvalid ⟨service, suffix, hans, rfl⟩
              (hafter ▸ hadv) hone

end Loop

def HonestlyAhead (input : TickInput W) (node : DriverNode W) (service : Service W) : Prop :=
  ∃ (cp : RuntimeConfig W) (peer : LocalState W) (first : Epoch W)
    (before rest : List (Epoch W)) (tip : Epoch W), cp.trustMode = .verified ∧
      peer.epochchain.head? = some first ∧ cp.groupId = first.body.groupId ∧
      CertifiedChain node.runtime.state.consensusNodeRemovalPolicy peer.epochchain ∧
      node.runtime.state.epochchain = before ++ [tip] ∧ peer.epochchain = before ++ tip :: rest ∧
      rest ≠ [] ∧ input.ask service (suffixRequest tip) =
        (certifiedEpochSuffix cp peer tip.hash tip.body.nonce 4096).map .certifiedEpochSuffix

section Tick

variable {c : RuntimeConfig W} {input : TickInput W} {node : DriverNode W} {tip : Epoch W}

omit [ShuffleSeed W] in
/-- The answer of a node with a chain brings the epochs after the tip. -/
theorem outcome_exported {cp : RuntimeConfig W} {peer : LocalState W} {first : Epoch W}
    {before rest : List (Epoch W)} {policy : ConsensusNodeRemovalPolicy}
    (hmode : cp.trustMode = .verified) (hfirst : peer.epochchain.head? = some first)
    (hgroup : cp.groupId = first.body.groupId) (hchain : CertifiedChain policy peer.epochchain)
    (hpeer : peer.epochchain = before ++ tip :: rest) :
    outcome tip policy ((certifiedEpochSuffix cp peer tip.hash tip.body.nonce 4096).map
      .certifiedEpochSuffix) = if rest = [] then .current else .installs := by
  rw [certifiedEpochSuffix_eq hmode hpeer hchain]
  have hvalid := validateFrom_exported hfirst hgroup hchain hpeer 4096
  have hacc := acceptSuffix_eq_ok.mpr ⟨⟨rfl, rfl⟩, hvalid⟩
  simp only [Except.map, outcome, hacc]
  simp [maxCertifiedEpochSuffix]

omit [ShuffleSeed W] in
theorem HonestlyAhead.installs {service : Service W} (h : HonestlyAhead input node service)
    (hhead : node.runtime.state.head? = some tip) :
    outcome tip node.runtime.state.consensusNodeRemovalPolicy
      (input.ask service (suffixRequest tip)) = .installs := by
  obtain ⟨cp, peer, first, before, rest, tip', hmode, hfirst, hgroup, hchain, hlocal, hpeer, hne,
    hask⟩ := h
  obtain rfl : tip' = tip := by
    rw [head?, hlocal, List.getLast?_concat] at hhead
    exact Option.some.inj hhead
  rw [hask, outcome_exported hmode hfirst hgroup hchain hpeer, if_neg hne]

/-- A tick asks the hinted peers, and goes through its stages if nothing was installed. -/
theorem driveConsensusOnce_eq (input : TickInput W) (config : ConsensusDriverConfig)
    (hmode : c.trustMode = .verified) (hcons : c.mode ≠ .overlay)
    (hhead : node.runtime.state.head? = some tip) :
    driveConsensusOnce c input config node = (do
      let updates ← if hintedServices node tip = [] then pure 0
        else catchUpFromEpochStartedPeers c input (hintedServices node tip)
      if updates ≠ 0 then pure updates
      else
        driveStages c input config tip.target
        pure 0 : DriverOperation W ℕ) node := by
  have htgt : onRuntime (onState (nextEpochTarget c)) node = .ok tip.target node := by
    rw [onRuntime, onState, nextEpochTarget_returns.mpr ⟨hcons, rfl, tip, hhead, rfl⟩]
  have hpeers : epochStartedCatchUpServices c node = .ok (hintedServices node tip) node := by
    rw [epochStartedCatchUpServices, if_neg (not_not.mpr hmode), bind_of_ok htgt, bind_get]
    rfl
  rw [driveConsensusOnce, bind_of_ok htgt, bind_of_ok hpeers]

/-- In a list in which one kind of answer comes before all of another kind, it comes first. -/
theorem first_outcome_unique {outcomes before later before' later' : List AnswerOutcome}
    (h : outcomes = before ++ .refused :: later) (hbefore : .installs ∉ before)
    (h' : outcomes = before' ++ .installs :: later') : .refused ∈ before' := by
  rw [h] at h'
  rcases List.append_eq_append_iff.mp h' with ⟨rest, rfl, hrest⟩ | ⟨rest, rfl, hrest⟩
  · cases rest with
    | nil => cases hrest
    | cons first rest =>
      cases hrest
      simp
  · cases rest with
    | nil => cases hrest
    | cons first rest =>
      cases hrest
      simp at hbefore

/-- Hints of validators do no harm exactly as long as no answer is refused: a peer that is ahead
brings a certified suffix unless an answer before it is refused, and without one the stages run unless
an answer is refused or none was a suffix. -/
theorem hints_harmless_iff (config : ConsensusDriverConfig) (hmode : c.trustMode = .verified)
    (hconsensus : c.mode ≠ .overlay) (hhead : node.runtime.state.head? = some tip)
    {outcomes : List AnswerOutcome}
    (houtcomes : outcomes = (hintedServices node tip).map fun service =>
      outcome tip node.runtime.state.consensusNodeRemovalPolicy
        (input.ask service (suffixRequest tip))) :
    ((∃ service ∈ hintedServices node tip, HonestlyAhead input node service) →
      ((∃ epochs, epochs ≠ [] ∧
        validateCertifiedLinks node.runtime.state.consensusNodeRemovalPolicy tip epochs = .ok () ∧
        (after (driveConsensusOnce c input config) node).runtime.state.epochchain =
          node.runtime.state.epochchain ++ epochs) ↔
        ∃ before later, outcomes = before ++ .installs :: later ∧ .refused ∉ before)) ∧
    (.installs ∉ outcomes →
      (.refused ∉ outcomes ∧ (outcomes = [] ∨ .current ∈ outcomes) →
        driveConsensusOnce c input config node = (do
          driveStages c input config tip.target
          pure 0 : DriverOperation W ℕ) node) ∧
      (¬(.refused ∉ outcomes ∧ (outcomes = [] ∨ .current ∈ outcomes)) →
        ∃ e, driveConsensusOnce c input config node = .error e node)) := by
  have htick := driveConsensusOnce_eq input config hmode hconsensus hhead
  by_cases hnone : hintedServices node tip = []
  · -- Without hints the tick goes through its stages.
    rw [hnone] at houtcomes
    refine ⟨?_, fun _ => ⟨fun _ => ?_, fun hnot => ?_⟩⟩
    · rintro ⟨service, hservice, -⟩
      rw [hnone] at hservice
      cases hservice
    · rw [htick, if_pos hnone]
      rfl
    · subst houtcomes
      exact absurd ⟨by simp, .inl rfl⟩ hnot
  · rw [if_neg hnone] at htick
    have hahead : (∃ service ∈ hintedServices node tip, HonestlyAhead input node service) →
        .installs ∈ outcomes := by
      rintro ⟨service, hservice, hhonest⟩
      rw [houtcomes]
      exact List.mem_map.mpr ⟨service, hservice, hhonest.installs hhead⟩
    have hresult : LoopResult input node tip outcomes 0 none
        (catchUpFromEpochStartedPeers c input (hintedServices node tip)) := by
      rw [houtcomes]
      exact catchUpFromPeers_result hmode hhead input _ 0 none
    cases hresult with
    | installs before later epochs heq hbefore hne hvalid hanswer hadvanced hupdates =>
      refine ⟨fun _ => iff_of_true ⟨epochs, hne, hvalid, ?_⟩ ⟨before, later, heq, hbefore⟩,
        fun hnot => absurd (by simp [heq]) hnot⟩
      rw [(after_of_bind_pure htick hupdates rfl).1]
      exact hadvanced.chain
    | refused before later e heq hbefore hloop =>
      have hend := htick.trans (bind_of_error hloop _)
      refine ⟨fun _ => iff_of_false ?_ ?_, fun _ => ⟨fun hcond => ?_, fun _ => ⟨e, hend⟩⟩⟩
      · rintro ⟨epochs, hne, -, hchain⟩
        rw [after_of_error hend] at hchain
        exact hne (List.self_eq_append_right.mp hchain)
      · rintro ⟨before', later', heq', hbefore'⟩
        exact hbefore' (first_outcome_unique heq hbefore heq')
      · exact absurd (by simp [heq]) hcond.1
    | failed e hinstalls hrefused hcurrent hloop =>
      have hend := htick.trans (bind_of_error hloop _)
      refine ⟨fun hhonest => absurd (hahead hhonest) hinstalls, fun _ => ⟨fun hcond => ?_,
        fun _ => ⟨e, hend⟩⟩⟩
      obtain ⟨-, hnot, hsome⟩ := hcurrent
      rcases hcond.2 with hnil | hmem
      · exact absurd hnil (hsome.resolve_left (by simp))
      · exact absurd hmem hnot
    | current hinstalls hrefused hcurrent hloop =>
      refine ⟨fun hhonest => absurd (hahead hhonest) hinstalls, fun _ => ⟨fun _ =>
        htick.trans (bind_of_ok hloop _), fun hnot => absurd ⟨hrefused, ?_⟩ hnot⟩⟩
      rcases hcurrent with h | h | ⟨-, h⟩
      · exact absurd rfl h
      · exact .inr h
      · exact .inl h

end Tick

namespace NumberWord

def consensusService (member : ℕ) : Service NumberWord := ⟨.consensus, key member, [], [], member⟩

/-- The first of three members at the first epoch, with hints of some others that announced the
second. -/
def hintedNode (members : List ℕ) : DriverNode NumberWord where
  runtime := { NodeRuntime.fresh (identity 0) .disabled 8 [genesis 3] with
    epochStartedHints := .ofList (members.map fun member => (key member, secondEpoch.target)) compare }
  addressBook := .fromServices (members.map consensusService)
  announced := ∅
  epochStartedRetry := none
  prefillDispatchRetry := none
  broadcasts := []

def thirdNode : DriverNode NumberWord where
  runtime := NodeRuntime.fresh (identity 2) .disabled 8 [genesis 3, secondEpoch]
  addressBook := .fromServices [consensusService 0]
  announced := ∅
  epochStartedRetry := none
  prefillDispatchRetry := none
  broadcasts := []

def thirdAnswer : WireRequest NumberWord → Except Failure (WireResponse NumberWord)
  | .certifiedEpochSuffix anchorHash anchorNonce maxEpochs =>
    (certifiedEpochSuffix (config .verified 2) thirdNode.runtime.state anchorHash anchorNonce
      maxEpochs).map .certifiedEpochSuffix
  | .epochChain => .ok (.epochChain thirdNode.runtime.state.epochchain)

/-- The second member gives a fixed answer, and the third one answers from its chain. -/
def answered (answer : WireResponse NumberWord) : TickInput NumberWord where
  created := 0
  unrecoverable := false
  ask service request := if service = consensusService 1 then .ok answer else thirdAnswer request
  accepted _ _ := true

theorem answered_second (answer : WireResponse NumberWord) {service : Service NumberWord}
    (h : service = consensusService 1) (request : WireRequest NumberWord) :
    (answered answer).ask service request = .ok answer :=
  if_pos h

theorem answered_other (answer : WireResponse NumberWord) {service : Service NumberWord}
    (h : service ≠ consensusService 1) (tip : Epoch NumberWord) :
    (answered answer).ask service (suffixRequest tip) = (certifiedEpochSuffix (config .verified 2)
      thirdNode.runtime.state tip.hash tip.body.nonce 4096).map .certifiedEpochSuffix :=
  if_neg h

def singleRound : ConsensusDriverConfig := ⟨0, false, true⟩

theorem secondEpoch_chain : CertifiedChain .disabled [genesis 3, secondEpoch] :=
  List.isChain_cons_cons.mpr ⟨by decide +kernel, List.isChain_singleton _⟩

theorem third_honestlyAhead (answer : WireResponse NumberWord) (members : List ℕ) :
    HonestlyAhead (answered answer) (hintedNode members) (consensusService 2) := by
  have hne : consensusService 2 ≠ consensusService 1 := by decide +kernel
  exact ⟨config .verified 2, thirdNode.runtime.state, genesis 3, [], [secondEpoch], genesis 3, rfl,
    rfl, rfl, secondEpoch_chain, rfl, rfl, by simp, answered_other answer hne _⟩

end NumberWord

open NumberWord in
/-- A refused answer of the second member keeps the first one from the epoch that the third one has,
and an error of the second member keeps it from the stages that it goes through without hints. -/
theorem hinted_peer_stalls_tick :
    (HonestlyAhead (answered (.certifiedEpochSuffix ⟨0, default, default, 0, []⟩))
        (hintedNode [1, 2]) (consensusService 2) ∧
      (after (driveConsensusOnce (config .verified 0)
        (answered (.certifiedEpochSuffix ⟨0, default, default, 0, []⟩)) singleRound)
        (hintedNode [1, 2])).runtime.state.epochchain = [genesis 3]) ∧
    (returned (driveConsensusOnce (config .verified 0) (answered (.error "")) singleRound)
        (hintedNode [1]) = none ∧
      (after (driveConsensusOnce (config .verified 0) (answered (.error "")) singleRound)
        (hintedNode [1])).broadcasts.length = 0 ∧
      (after (driveConsensusOnce (config .verified 0) (answered (.error "")) singleRound)
        (hintedNode [])).broadcasts.length = 1) := by
  refine ⟨⟨third_honestlyAhead _ _, ?_⟩, ?_⟩
  · decide +kernel
  · decide +kernel

open NumberWord in
/-- A tick that installs the epoch of the third member after an error of the second. -/
theorem hinted_tick_installs :
    ∃ epochs, epochs ≠ [] ∧
      (after (driveConsensusOnce (config .verified 0) (answered (.error "")) singleRound)
        (hintedNode [1, 2])).runtime.state.epochchain = [genesis 3] ++ epochs := by
  have houtcomes : ([.failed, .installs] : List AnswerOutcome) = (hintedServices (hintedNode [1, 2])
      (genesis 3)).map fun service => outcome (genesis 3) .disabled
        ((answered (.error "")).ask service (suffixRequest (genesis 3))) := by decide +kernel
  have hhead : (hintedNode [1, 2]).runtime.state.head? = some (genesis 3) := rfl
  have hmem : consensusService 2 ∈ hintedServices (hintedNode [1, 2]) (genesis 3) := by
    decide +kernel
  have hresult := (hints_harmless_iff (c := config .verified 0) singleRound rfl (by decide)
    hhead houtcomes).1 ⟨consensusService 2, hmem, third_honestlyAhead _ _⟩
  obtain ⟨epochs, hne, -, hchain⟩ := hresult.mpr ⟨[.failed], [], rfl, by decide⟩
  exact ⟨epochs, hne, hchain⟩

end Blossom
