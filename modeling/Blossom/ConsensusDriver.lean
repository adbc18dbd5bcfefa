import Blossom.BufferedReplay
import Blossom.AddressBook

/-!
# The consensus driver

A tick of the driver catches up with the members that announced a later epoch, announces the own
epoch, and then goes through the stages of the current round: prefill, replay, dispatch,
acknowledgement, verification, proposal and commit.

A tick is one step here: no other task works on the runtime between its calls. The answers of the
peers are inputs of the tick.
-/

namespace Blossom

open CheckedSteps OrderedMap StatefulSteps LocalState NodeRuntime

variable {W : Type}

def AddressBook.serviceFor [LinearOrder W] (book : AddressBook W) (kind : ServiceKind) (key : W) :
    Option (Service W) :=
  book.services[(⟨kind, key⟩ : ServiceKey W)]?

structure ConsensusDriverConfig where
  maxRound : ℕ
  drivePrefill : Bool
  driveDispatch : Bool

/-- The own announcement of an epoch, and the validators that have not acknowledged it. -/
structure EpochStartedRetry (W : Type) [LinearOrder W] where
  message : EpochStarted W
  pendingValidators : BTreeSet W

structure PrefillDispatchRetry (W : Type) [LinearOrder W] where
  dispatch : Dispatch W
  pendingRecipients : BTreeSet W

inductive WireRequest (W : Type) where
  | epochChain
  | certifiedEpochSuffix (anchorHash : W) (anchorNonce maxEpochs : ℕ)

inductive WireResponse (W : Type) [LinearOrder W] where
  | certifiedEpochSuffix (suffix : CertifiedEpochSuffix W)
  | epochChain (chain : List (Epoch W))
  | error (message : String)
  | other (kind : String)

inductive Sent (W : Type) [LinearOrder W] where
  | prefillDispatch (dispatch : Dispatch W)
  | message (message : Msg W)

/-- A node with its driver. The own key is among the senders of `epoch_started_senders` for the
targets in `announced`. -/
structure DriverNode (W : Type) [LinearOrder W] where
  runtime : NodeRuntime W
  addressBook : AddressBook W
  announced : BTreeSet (EpochNonce W)
  epochStartedRetry : Option (EpochStartedRetry W)
  prefillDispatchRetry : Option (PrefillDispatchRetry W)
  broadcasts : List (Sent W)

/-- What a tick meets: the clock, whether the progress of the round is lost, the answers of the peers,
and which of them accept a message. -/
structure TickInput (W : Type) [LinearOrder W] where
  created : ℕ
  unrecoverable : Bool
  ask : Service W → WireRequest W → Except Failure (WireResponse W)
  accepted : Service W → Sent W → Bool

abbrev DriverOperation (W : Type) [LinearOrder W] (α : Type) := Action (DriverNode W) Failure α

section Parts

variable [LinearOrder W] {α : Type}

def onRuntime (m : NodeRuntime.Operation W α) : DriverOperation W α := fun node =>
  match m node.runtime with
  | .ok a rt => .ok a { node with runtime := rt }
  | .error e rt => .error e { node with runtime := rt }

/-- Send a message to services, and report whether one of them did not accept it. -/
def broadcast (input : TickInput W) (services : List (Service W)) (sent : Sent W) :
    DriverOperation W Bool := do
  modify fun node => { node with broadcasts := node.broadcasts ++ [sent] }
  pure (services.any fun service => !input.accepted service sent)

end Parts

variable [ProtocolCrypto W] [ShuffleSeed W] [EpochCodec W]

/-!
## Catching up
-/

section CatchUp

/-- The services of the members that announced a later epoch, by their keys. -/
def epochStartedCatchUpServices (c : RuntimeConfig W) : DriverOperation W (List (Service W)) := do
  if c.trustMode ≠ .verified then pure []
  else
    let localTarget ← onRuntime (onState (nextEpochTarget c))
    let node ← get
    pure ((node.runtime.epochStartedHints.toList.filter fun (_, target) =>
      decide (localTarget.nonce < target.nonce ∧ target.lastEpoch ≠ localTarget.lastEpoch)).filterMap
        fun (sender, _) => node.addressBook.serviceFor .consensus sender)

def pruneEpochStartedHints (localTarget : EpochNonce W) (rt : NodeRuntime W) : NodeRuntime W :=
  { rt with epochStartedHints := rt.epochStartedHints.filter fun _ target =>
      decide (localTarget.nonce < target.nonce ∨
        (target.nonce = localTarget.nonce ∧ target.lastEpoch ≠ localTarget.lastEpoch)) }

/-- `catch_up_certified_suffix` with the entry for the own announcement and the hints that are left.
The node does not announce an epoch that it has installed in this way. -/
def installCertifiedSuffix (c : RuntimeConfig W) (suffix : CertifiedEpochSuffix W) :
    DriverOperation W Bool := do
  let updated ← onRuntime (onState (catchUpCertifiedSuffix c suffix))
  if updated then
    let target ← onRuntime (onState (nextEpochTarget c))
    modify fun node => { node with
      announced := node.announced.insert target
      runtime := pruneEpochStartedHints target node.runtime }
  else pure ()
  pure updated

/-- The loop of `catch_up_from_epoch_started_peers`: the first peer whose epochs are installed ends
it, and so does the first whose answer is refused. -/
def catchUpFromPeers (c : RuntimeConfig W) (input : TickInput W) :
    List (Service W) → (successfulResponses : ℕ) → Option Failure → DriverOperation W ℕ
  | [], successfulResponses, lastError =>
    match successfulResponses, lastError with
    | 0, some e => throw e
    | _, _ => pure 0
  | service :: services, successfulResponses, lastError => do
    let node ← get
    let localTip ← check (require node.runtime.state.head? (.error .emptyEpochChain))
    let request : WireRequest W :=
      if c.trustMode.isTrusted then .epochChain
      else .certifiedEpochSuffix localTip.hash localTip.body.nonce 4096
    match input.ask service request with
    | .ok (.certifiedEpochSuffix suffix) =>
      let updated ← installCertifiedSuffix c suffix
      if updated then pure 1
      else catchUpFromPeers c input services (successfulResponses + 1) lastError
    | .ok (.epochChain chain) =>
      let updated ← onRuntime (catchUpFromEpochStarted c chain)
      if updated then pure 1
      else catchUpFromPeers c input services (successfulResponses + 1) lastError
    | .ok (.error message) =>
      catchUpFromPeers c input services successfulResponses
        (some (externalService message))
    | .ok (.other kind) =>
      catchUpFromPeers c input services successfulResponses
        (some (wireProtocol s!"expected epoch_chain response during catch-up, got {kind}"))
    | .error e => catchUpFromPeers c input services successfulResponses (some e)

def catchUpFromEpochStartedPeers (c : RuntimeConfig W) (input : TickInput W)
    (peers : List (Service W)) : DriverOperation W ℕ :=
  catchUpFromPeers c input peers 0 none

end CatchUp

/-!
## Announcing an epoch
-/

section Announce

def tryProduceEpochStarted (c : RuntimeConfig W) : DriverOperation W (Option (EpochStarted W)) := do
  check (ensureConsensusMode c "produce epoch-start announcement")
  let target ← onRuntime (onState (nextEpochTarget c))
  let node ← get
  let latest ← check (require node.runtime.state.head? (.error .emptyEpochChain))
  if latest.body.nonce = 0 then pure none
  else
    onRuntime (onState (withQuorum target 0 (pure ())))
    if target ∈ node.announced then
      pure ((node.epochStartedRetry.filter fun retry =>
        decide (retry.message.header.target = target ∧ retry.pendingValidators ≠ ∅)).map
          (·.message))
    else
      let selfKey := node.runtime.state.selfNode.publicKey
      let header ← check (signedHeaderForBody c selfKey target 0 .epochStarted [.num 0])
      modify fun node => { node with
        announced := node.announced.insert target
        epochStartedRetry := some ⟨⟨header⟩, (keySet latest.body.verifiers).erase selfKey⟩ }
      pure (some ⟨header⟩)

def epochStartedRetryFor (node : DriverNode W) (message : EpochStarted W) :
    Option (EpochStartedRetry W) :=
  node.epochStartedRetry.filter fun retry =>
    decide (retry.message.header.target = message.header.target)

def epochStartedRetryServices (node : DriverNode W) (message : EpochStarted W) :
    List (Service W) :=
  match epochStartedRetryFor node message with
  | some retry => retry.pendingValidators.toList.filterMap (node.addressBook.serviceFor .consensus)
  | none => []

def completeEpochStartedBroadcast (message : EpochStarted W) (acknowledged : List W)
    (node : DriverNode W) : DriverNode W :=
  match epochStartedRetryFor node message with
  | some retry => { node with
      epochStartedRetry := some { retry with
        pendingValidators := acknowledged.foldl (·.erase ·) retry.pendingValidators } }
  | none => node

def announceEpochStarted (c : RuntimeConfig W) (input : TickInput W) : DriverOperation W Unit := do
  let produced ← tryProduceEpochStarted c
  match produced with
  | none => pure ()
  | some message =>
    let node ← get
    let services := epochStartedRetryServices node message
    let _ ← broadcast input services (.message (.epochStarted message))
    modify (completeEpochStartedBroadcast message ((services.filter fun service =>
      input.accepted service (.message (.epochStarted message))).map (·.publicKey)))

end Announce

/-!
## The stages
-/

section Stages

variable (c : RuntimeConfig W) (input : TickInput W)

def targetIsCurrent (driveTarget : EpochNonce W) : DriverOperation W Bool := do
  let target ← onRuntime (onState (nextEpochTarget c))
  pure (decide (target = driveTarget))

def whileCurrent (driveTarget : EpochNonce W) (rest : DriverOperation W Unit) :
    DriverOperation W Unit := do
  let current ← targetIsCurrent c driveTarget
  if current then rest else pure ()

def roundConsensusServices (round : ℕ) : DriverOperation W (List (Service W)) := do
  check (ensureConsensusMode c "select round consensus services")
  let target ← onRuntime (onState (nextEpochTarget c))
  let consensus ← onRuntime (onState (withConsensus target get))
  let node ← get
  pure (((consensus.peers[round]?).getD ∅).toList.filterMap
    (node.addressBook.serviceFor .consensus))

def broadcastRoundMessage (round : ℕ) (message : Msg W) : DriverOperation W Bool := do
  let services ← roundConsensusServices c round
  broadcast input services (.message message)

/-- `prefill_dispatch_plan`: the target and the recipients. -/
def prefillDispatchPlan : StateOperation W (EpochNonce W × BTreeSet W) := do
  check (ensureConsensusMode c "plan v2 prefill dispatch")
  let target ← nextEpochTarget c
  reading fun s => do
    let epoch ← require s.head? (.error .emptyEpochChain)
    pure (target, selectPrefillRecipientsWithSize epoch.body.verifiers s.selfNode.publicKey
      target.lastEpoch s.selfNode.shuffle epoch.body.effectiveConsensusParameters.quorumSize)

def prefillRetryFor (node : DriverNode W) (target : EpochNonce W) :
    Option (PrefillDispatchRetry W) :=
  node.prefillDispatchRetry.filter fun retry => decide (retry.dispatch.header.target = target)

def completePrefillBroadcast (target : EpochNonce W) (acknowledged : List W)
    (node : DriverNode W) : DriverNode W :=
  match prefillRetryFor node target with
  | some retry => { node with
      prefillDispatchRetry := some { retry with
        pendingRecipients := acknowledged.foldl (·.erase ·) retry.pendingRecipients } }
  | none => node

/-- The prefill dispatch that is sent and the recipients that have not acknowledged it: the one that
is kept for the target of the plan, or else a new one. -/
def preparePrefillDispatch (target : EpochNonce W) (recipients : BTreeSet W) :
    DriverOperation W (PrefillDispatchRetry W) := do
  let node ← get
  match prefillRetryFor node target with
  | some retry => pure retry
  | none =>
    let target ← onRuntime (onState (nextEpochTarget c))
    let dispatch ← onRuntime (dispatchLocalBlock c input.created 0 target)
    onRuntime (onState (recordPrefillDispatch dispatch))
    modify fun node => { node with prefillDispatchRetry := some ⟨dispatch, recipients⟩ }
    pure ⟨dispatch, recipients⟩

def broadcastPrefillDispatch : DriverOperation W Unit := do
  let (target, recipients) ← onRuntime (onState (prefillDispatchPlan c))
  let retry ← preparePrefillDispatch c input target recipients
  let node ← get
  let services := (recipients.toList.filter retry.pendingRecipients.contains).filterMap
    (node.addressBook.serviceFor .consensus)
  let _ ← broadcast input services (.prefillDispatch retry.dispatch)
  let accepted := (services.filter fun service =>
    input.accepted service (.prefillDispatch retry.dispatch)).map (·.publicKey)
  modify (completePrefillBroadcast target accepted)

def drivePrefillDispatch : DriverOperation W Unit := do
  let rounds ← onRuntime (onState (quorumRoundCount c))
  if rounds ≤ 1 then pure ()
  else
    let target ← onRuntime (onState (nextEpochTarget c))
    let node ← get
    if (prefillRetryFor node target).any fun retry => decide (retry.pendingRecipients = ∅) then
      pure ()
    else broadcastPrefillDispatch c input

def currentConsensusRound : StateOperation W ℕ := do
  check (ensureConsensusMode c "read current consensus round")
  let target ← nextEpochTarget c
  let consensus ← withConsensus target get
  pure consensus.round

/-- The dispatch stage; a dispatch that was not delivered to all ends the tick. -/
def driveDispatch (config : ConsensusDriverConfig) (round : ℕ) (driveTarget : EpochNonce W) :
    DriverOperation W Bool := do
  if config.driveDispatch = false then pure true
  else
    let produced ← onRuntime
      (tryProduceDispatchForTarget c input.created round (some driveTarget))
    match produced with
    | none => pure true
    | some dispatch =>
      let failed ← broadcastRoundMessage c input round (.dispatch dispatch)
      if failed then
        onRuntime (onState (scheduleDispatchRetry c round dispatch.body.blocksHash))
        pure false
      else pure true

def driveAcknowledgement (round : ℕ) : DriverOperation W Unit := do
  if c.trustMode.isTrusted = false then pure ()
  else
    let produced ← onRuntime (onState (tryProduceTrustedAcknowledgement c round))
    match produced with
    | none => pure ()
    | some acknowledgement =>
      let failed ← broadcastRoundMessage c input round
        (.trustedAcknowledgement acknowledgement)
      if failed then
        onRuntime (onState
          (scheduleTrustedAcknowledgementRetry c round acknowledgement.body.blocksHash))
      else pure ()

def driveVerification (round : ℕ) : DriverOperation W Unit := do
  let produced ← onRuntime (tryProduceVerification c round)
  match produced with
  | none => pure ()
  | some verification =>
    let blocksHash := verification.body.blocksHash
    let failed ← broadcastRoundMessage c input round (.verification verification)
    if failed then
      onRuntime (onState (if c.trustMode.isTrusted then
        scheduleTrustedConfirmationRetry c round blocksHash
      else scheduleVerificationRetry c round blocksHash))
    else pure ()
    if c.trustMode.isTrusted then
      let _ ← onRuntime (completeTrustedVerification c round blocksHash)
      pure ()
    else pure ()

def driveTrustedCompletion (round : ℕ) : DriverOperation W Unit := do
  let _ ← onRuntime (tryCompleteTrustedVerification c round)
  announceEpochStarted c input

def sendProposal (round : ℕ) (produce : StateOperation W (Option (Proposal W))) :
    DriverOperation W Unit := do
  let produced ← onRuntime (onState produce)
  match produced with
  | none => pure ()
  | some proposal =>
    let failed ← broadcastRoundMessage c input round (.proposal proposal)
    if failed then
      onRuntime (onState (scheduleProposalRetry c round proposal.header.signature))
    else pure ()

def driveProposal (round : ℕ) : DriverOperation W Unit :=
  sendProposal c input round (tryProduceProposal c round)

def driveFalseProposal (round : ℕ) : DriverOperation W Unit :=
  sendProposal c input round (tryProduceFalseProposal c round input.unrecoverable)

def isFinalConsensusRound (round : ℕ) : StateOperation W Bool := do
  let target ← nextEpochTarget c
  let consensus ← withConsensus target get
  pure (decide (consensus.peers.length = round + 1))

def produceCommit (final : Bool) (round : ℕ) : StateOperation W (Option (Commit W)) := do
  let commit ← tryProduceCommit c round
  if commit.isNone = true ∧ final = true then retryFinalCommit c round else pure commit

def driveCommit (round : ℕ) : DriverOperation W Unit := do
  let final ← onRuntime (onState (isFinalConsensusRound c round))
  let produced ← onRuntime (onState (produceCommit c final round))
  match produced with
  | none => pure ()
  | some commit =>
    if final then
      let _ ← broadcast input [] (.message (.commit commit))
      pure ()
    else
      let _ ← broadcastRoundMessage c input round (.commit commit)
      pure ()

def driveVerifiedVotes (round : ℕ) (driveTarget : EpochNonce W) : DriverOperation W Unit := do
  driveProposal c input round
  whileCurrent c driveTarget do
    driveFalseProposal c input round
    whileCurrent c driveTarget (driveCommit c input round)

section

variable (config : ConsensusDriverConfig)

def driveRound (driveTarget : EpochNonce W) : DriverOperation W Unit := do
  let round ← onRuntime (onState (currentConsensusRound c))
  check (reject (config.maxRound < round) (wireProtocol
    s!"consensus advanced to round {round}, beyond configured maximum {config.maxRound}"))
  onRuntime (replayBufferedMessages c)
  let delivered ← driveDispatch c input config round driveTarget
  if delivered = false then pure ()
  else
    whileCurrent c driveTarget do
      driveAcknowledgement c input round
      whileCurrent c driveTarget do
        driveVerification c input round
        whileCurrent c driveTarget
          (if c.trustMode.isTrusted then driveTrustedCompletion c input round
          else driveVerifiedVotes c input round driveTarget)

/-- The prefill stage; the round starts when every expected prefill has come. -/
def drivePrefill (config : ConsensusDriverConfig) : DriverOperation W Bool :=
  if (config.drivePrefill || (!c.trustMode.isTrusted && decide (0 < config.maxRound))) &&
      decide (0 < config.maxRound) then do
    drivePrefillDispatch c input
    onRuntime (onState (tryActivatePrefillRound c))
  else pure true

/-- A tick after it has tried to catch up. -/
def driveStages (driveTarget : EpochNonce W) : DriverOperation W Unit := do
  if c.trustMode.isTrusted then pure () else announceEpochStarted c input
  whileCurrent c driveTarget do
    let ready ← drivePrefill c input config
    if ready = false then pure ()
    else whileCurrent c driveTarget (driveRound c input config driveTarget)

/-- `drive_consensus_once`: a tick, which returns the number of installed suffixes. -/
def driveConsensusOnce : DriverOperation W ℕ := do
  let driveTarget ← onRuntime (onState (nextEpochTarget c))
  let catchUpPeers ← epochStartedCatchUpServices c
  let catchUpUpdates ← if catchUpPeers = [] then pure 0
    else catchUpFromEpochStartedPeers c input catchUpPeers
  if catchUpUpdates ≠ 0 then pure catchUpUpdates
  else
    driveStages c input config driveTarget
    pure 0

end

end Stages

end Blossom
