import Blossom.OrderedCommittees
import Blossom.OrderVotes
import Blossom.CommitteeOrder
import Blossom.Messages

/-!
# A network of ordered engines

Each honest participant has one durable store, runs an engine over it, crashes and restarts
from it, and signs votes. The votes are sent to everyone. The other participants sign what
they like, but they cannot sign for an honest one: a certificate that is handed to an engine
carries the signature of an honest validator only if that validator has sent this vote.
-/

namespace Blossom

open CheckedSteps OrderedMap OrderedImage MajorityQuorum GlobalOrderedEngine

variable {W : Type} [ProtocolCrypto W]

/-- An engine or its store, and the vote tables of the store. -/
structure OrderedValidator (W : Type) [ProtocolCrypto W] where
  node : OrderedNode W
  votes : VoteTables W

/-- The honest participants by their keys, and the votes that they have sent. -/
structure OrderedNetwork (W : Type) [ProtocolCrypto W] where
  validators : W → OrderedValidator W
  orderVotes : List (OrderVote W)
  transitionVotes : List (CommitteeTransitionVote W)
  barrierVotes : List (ReadBarrierVote W)

/-- What a participant does: a call of its engine, a restart, or a vote. -/
inductive NetworkAction (W : Type) [ProtocolCrypto W] where
  | call (op : OrderedOperation W)
  | voteForEpoch (epoch : Epoch W) (io : Bool)
  | voteForTransition (statement : CommitteeTransitionStatement W) (io : Bool)
  | voteForReadBarrier (challenge : List UInt8) (io : Bool)

/-- The first committee of the network and its honest participants. -/
structure OrderedSetting (W : Type) [ProtocolCrypto W] where
  genesis : Genesis W
  honest : W → Bool

namespace OrderedNetwork

def start (site : W → SiteId) (storeGeneration : W → ℕ) : OrderedNetwork W where
  validators v := ⟨.stopped (.openStore v (site v) (storeGeneration v)), .empty⟩
  orderVotes := []
  transitionVotes := []
  barrierVotes := []

def withNode (N : OrderedNetwork W) (v : W) (node : OrderedNode W) : OrderedNetwork W :=
  { N with validators := Function.update N.validators v { N.validators v with node := node } }

def withVotes (N : OrderedNetwork W) (v : W) (votes : VoteTables W) : OrderedNetwork W :=
  { N with validators := Function.update N.validators v { N.validators v with votes := votes } }

variable [ReferenceCodec W] [SecretSigner W]

/-- The network after an action. A vote is sent when its lock is durable. -/
def perform (N : OrderedNetwork W) (v : W) : NetworkAction W → OrderedNetwork W
  | .call op => N.withNode v (op.perform (N.validators v).node)
  | .voteForEpoch epoch io =>
    match (N.validators v).node with
    | .stopped _ => N
    | .running e =>
      match e.voteForEpoch (N.validators v).votes epoch io with
      | .error _ => N
      | .ok (vote, votes) => { N.withVotes v votes with orderVotes := N.orderVotes ++ [vote] }
  | .voteForTransition statement io =>
    match (N.validators v).node with
    | .stopped _ => N
    | .running e =>
      match e.signCommitteeTransition (N.validators v).votes statement io with
      | .error _ => N
      | .ok (vote, votes) =>
        { N.withVotes v votes with transitionVotes := N.transitionVotes ++ [vote] }
  | .voteForReadBarrier challenge io =>
    match (N.validators v).node with
    | .stopped _ => N
    | .running e =>
      match e.voteForReadBarrier (N.validators v).votes challenge io with
      | .error _ => N
      | .ok (vote, votes) => { N.withVotes v votes with barrierVotes := N.barrierVotes ++ [vote] }

end OrderedNetwork

namespace OrderedSetting

section

variable (S : OrderedSetting W)

def FewFaults (validators : BTreeSet W) : Prop :=
  (validators.toList.filter fun v => S.honest v = false).length ≤
    byzantineFaultBound validators.size

/-- The honest signers of a statement have sent votes for it. -/
def Signed {V T : Type} (votes : List V) (validator : V → W) (voted : V → T) (signers : List W)
    (statement : T) : Prop :=
  ∀ v ∈ signers, S.honest v = true → ∃ vote ∈ votes, validator vote = v ∧ voted vote = statement

abbrev OrderSigned (votes : List (OrderVote W)) (c : OrderCertificate W) : Prop :=
  S.Signed votes (·.validator) (·.statement) c.signatures.keys c.statement

abbrev TransitionSigned (votes : List (CommitteeTransitionVote W))
    (c : CommitteeTransitionCertificate W) : Prop :=
  S.Signed votes (·.validator) (·.statement) c.signatures.keys c.statement

abbrev BarrierSigned (votes : List (ReadBarrierVote W)) (c : ReadBarrierCertificate W) : Prop :=
  S.Signed votes (·.validator) (·.statement) c.signatures.keys c.statement

/-- What can happen: honest participants start verified engines with the first committee, and
their signatures are not forged. -/
def Genuine (N : OrderedNetwork W) (v : W) (action : NetworkAction W) : Prop :=
  S.honest v = true ∧ match action with
  | .call (.reopen config _) => config.orderTrustMode = .verified ∧
      config.validatorGeneration = S.genesis.generation ∧ config.validators = S.genesis.validators
  | .call (.finalize c _) => S.OrderSigned N.orderVotes c
  | .call (.activateCommitteeTransition c _) => S.TransitionSigned N.transitionVotes c
  | _ => True

end

end OrderedSetting

/-- A participant votes for the position of a reference only when it has not voted for another
committee in this generation and the reference has no position yet. -/
def VotesWithCare [ReferenceCodec W] (N : OrderedNetwork W) (v : W) : NetworkAction W → Prop
  | .voteForEpoch epoch _ =>
    match (N.validators v).node with
    | .stopped _ => True
    | .running e =>
      (N.validators v).votes.committeeTransitionVotes[e.validatorGeneration]? = none ∧
        match e.orderStatementForFinalizedEpoch epoch with
        | .error _ => True
        | .ok statement => statement.referenceHash ∉ values e.finalReferenceByPosition
  | _ => True

namespace OrderedNetwork

variable [ReferenceCodec W] [SecretSigner W] {S : OrderedSetting W}
  {allowed : OrderedNetwork W → W → NetworkAction W → Prop} {N N' : OrderedNetwork W} {v : W}

/-- One network comes from another by actions that can happen and are allowed. -/
inductive Leads (S : OrderedSetting W) (allowed : OrderedNetwork W → W → NetworkAction W → Prop)
    (N : OrderedNetwork W) : OrderedNetwork W → Prop where
  | refl : Leads S allowed N N
  | step {N' : OrderedNetwork W} (leads : Leads S allowed N N') (v : W) (action : NetworkAction W)
      (genuine : S.Genuine N' v action) (careful : allowed N' v action) :
      Leads S allowed N (N'.perform v action)

def Reached (S : OrderedSetting W) (allowed : OrderedNetwork W → W → NetworkAction W → Prop)
    (N : OrderedNetwork W) : Prop :=
  ∃ site storeGeneration, Leads S allowed (start site storeGeneration) N

/-! ### Runs of given actions -/

instance (S : OrderedSetting W) {V T : Type} [DecidableEq T] (votes : List V) (validator : V → W)
    (voted : V → T) (signers : List W) (statement : T) :
    Decidable (S.Signed votes validator voted signers statement) :=
  inferInstanceAs (Decidable (∀ v ∈ signers, S.honest v = true →
    ∃ vote ∈ votes, validator vote = v ∧ voted vote = statement))

instance (S : OrderedSetting W) (N : OrderedNetwork W) (v : W) :
    (action : NetworkAction W) → Decidable (S.Genuine N v action)
  | .call (.reopen config _) => inferInstanceAs (Decidable (S.honest v = true ∧
      config.orderTrustMode = .verified ∧
      config.validatorGeneration = S.genesis.generation ∧
      config.validators = S.genesis.validators))
  | .call (.finalize c _) =>
    inferInstanceAs (Decidable (S.honest v = true ∧ S.OrderSigned N.orderVotes c))
  | .call (.activateCommitteeTransition c _) =>
    inferInstanceAs (Decidable (S.honest v = true ∧ S.TransitionSigned N.transitionVotes c))
  | .call (.storeBatch ..) | .call (.markAvailable ..) | .call (.markAvailableWithBatch ..)
  | .call (.finalizeTrusted ..) | .call (.finalizeTrustedEpoch ..) | .call (.applyContiguousTo ..)
  | .call (.activateApplicationContract ..) | .voteForEpoch .. | .voteForTransition ..
  | .voteForReadBarrier .. => inferInstanceAs (Decidable (S.honest v = true ∧ True))

instance (N : OrderedNetwork W) (v : W) :
    (action : NetworkAction W) → Decidable (VotesWithCare N v action)
  | .voteForEpoch epoch _ => by
    unfold VotesWithCare
    cases (N.validators v).node with
    | stopped s => exact instDecidableTrue
    | running e =>
      dsimp only
      cases e.orderStatementForFinalizedEpoch epoch <;>
        · dsimp only
          infer_instance
  | .call _ | .voteForTransition .. | .voteForReadBarrier .. => instDecidableTrue

/-- A run of given actions, which stops at one that cannot happen or is not allowed. -/
def play (S : OrderedSetting W) (allowed : OrderedNetwork W → W → NetworkAction W → Prop)
    [∀ N v action, Decidable (allowed N v action)] :
    List (W × NetworkAction W) → OrderedNetwork W → Option (OrderedNetwork W)
  | [], N => some N
  | (v, action) :: actions, N =>
    if S.Genuine N v action ∧ allowed N v action then play S allowed actions (N.perform v action)
    else none

theorem Leads.trans {N₁ N₂ N₃ : OrderedNetwork W} (h : Leads S allowed N₁ N₂)
    (h' : Leads S allowed N₂ N₃) : Leads S allowed N₁ N₃ := by
  induction h' with
  | refl => exact h
  | step _ v action genuine careful ih => exact ih.step v action genuine careful

theorem leads_of_play [∀ N v action, Decidable (allowed N v action)]
    {actions : List (W × NetworkAction W)} (h : play S allowed actions N = some N') :
    Leads S allowed N N' := by
  induction actions generalizing N with
  | nil =>
    cases h
    exact .refl
  | cons entry actions ih =>
    obtain ⟨v, action⟩ := entry
    rw [play] at h
    split_ifs at h with hstep
    exact (Leads.refl.step v action hstep.1 hstep.2).trans (ih h)

end OrderedNetwork

end Blossom
