import Blossom.OrderedEngine

/-!
# Votes of a validator

A validator signs the next position of the order, a replacement of its committee, and its
tail for a reader's challenge. The store writes a lock before each signature: one order
statement for a position of a generation, one replacement for a generation, one tail for a
challenge. The three kinds of locks are in tables of their own and know nothing of each other.
-/

namespace Blossom

open CheckedSteps OrderedMap MajorityQuorum

variable {W : Type}

structure OrderVote (W : Type) where
  statement : OrderStatement W
  validator : W
  signature : Signature W
  deriving DecidableEq

structure CommitteeTransitionVote (W : Type) [LinearOrder W] where
  statement : CommitteeTransitionStatement W
  validator : W
  signature : Signature W
  deriving DecidableEq

structure ReadBarrierVote (W : Type) where
  statement : ReadBarrierStatement W
  validator : W
  signature : Signature W
  deriving DecidableEq

structure ReadBarrierCertificate (W : Type) [LinearOrder W] where
  statement : ReadBarrierStatement W
  signatures : BTreeMap W (Signature W)
  deriving DecidableEq

/-- The signatures of the holders of secret keys, by their public keys. -/
class SecretSigner (W : Type) where
  sign : W → List (Field W) → Signature W

/-- The vote tables of the admission store. No other call reads or writes them. -/
structure VoteTables (W : Type) [LinearOrder W] where
  orderVotes : BTreeMap (W ×ₗ ℕ ×ₗ ℕ) W
  readBarrierVotes : BTreeMap (W ×ₗ ℕ ×ₗ List ℕ) W
  committeeTransitionVotes : BTreeMap ℕ W

def VoteTables.empty [LinearOrder W] : VoteTables W := ⟨∅, ∅, ∅⟩

def lockVote {K : Type} [LinearOrder K] [DecidableEq W] (table : BTreeMap K W) (key : K) (hash : W)
    (refusal : String) (io : Bool) : Result (BTreeMap K W) := do
  reject (table[key]?.any fun existing => existing ≠ hash) (invalidConfiguration refusal)
  DurableAdmissionStore.transact io
  pure (if (table[key]?).isSome then table else table.insert key hash)

theorem lookup_lockVote {K : Type} [LinearOrder K] [DecidableEq W] {table table' : BTreeMap K W}
    {key : K} {hash : W} {refusal : String} {io : Bool}
    (h : lockVote table key hash refusal io = .ok table') :
    (∀ (k : K) x, table[k]? = some x → table'[k]? = some x) ∧ table'[key]? = some hash := by
  rw [lockVote] at h
  simp only [↓guard_bind_eq_ok, reject_eq_ok, pure_eq_ok, not_any_ne,
    DurableAdmissionStore.transact] at h
  obtain ⟨hknown, -, rfl⟩ := h
  split_ifs with hsome
  · obtain ⟨existing, hex⟩ := Option.isSome_iff_exists.mp hsome
    exact ⟨fun _ _ hx => hx, hknown existing hex ▸ hex⟩
  · refine ⟨fun k x hx => lookup_insert_eq_some.mpr (.inr ⟨?_, hx⟩),
      lookup_insert_eq_some.mpr (.inl ⟨rfl, rfl⟩)⟩
    rintro rfl
    simp [hx] at hsome

def ReadBarrierStatement.fields (s : ReadBarrierStatement W) : List (Field W) :=
  [.word s.clusterId, .word s.consensusGroupId, .num s.validatorGeneration, .num s.routeGeneration,
    .num s.commandSpecVersion, .bytes s.challenge, .num s.position, .word s.orderCertificateHash]

def OrderStatement.voteKey (s : OrderStatement W) : W ×ₗ ℕ ×ₗ ℕ :=
  toLex (s.consensusGroupId, toLex (s.validatorGeneration, s.position))

def ReadBarrierStatement.voteKey (s : ReadBarrierStatement W) : W ×ₗ ℕ ×ₗ List ℕ :=
  toLex (s.consensusGroupId, toLex (s.validatorGeneration, s.challenge.map UInt8.toNat))

section Crypto

variable [ProtocolCrypto W]

def OrderStatement.voteHash (s : OrderStatement W) : W :=
  protocolHash (.tag .orderVote :: s.fields)

def ReadBarrierStatement.voteHash (s : ReadBarrierStatement W) : W :=
  protocolHash (.tag .readBarrierVote :: s.fields)

def CommitteeTransitionStatement.voteHash (s : CommitteeTransitionStatement W) : W :=
  protocolHash (.tag .committeeTransitionStatement :: s.fields)

theorem OrderStatement.voteHash_injective (hinj : HashInjective W) :
    Function.Injective (voteHash : OrderStatement W → W) := by
  rintro ⟨group, epoch, position, reference, previous, generation⟩
    ⟨group', epoch', position', reference', previous', generation'⟩ h
  have hfields := hinj h
  simp only [fields, List.cons.injEq, Field.word.injEq, Field.num.injEq, and_true, true_and]
    at hfields
  obtain ⟨rfl, rfl, rfl, rfl, rfl, rfl⟩ := hfields
  rfl

theorem HolderMembership.fields_prefixCode :
    PrefixCode (HolderMembership.fields : HolderMembership W → List (Field W)) := by
  have hsite : PrefixCode fun entry : SiteId × BTreeSet W =>
      siteFields entry.1 ++ listFields (fun w => [.word w]) entry.2.toList := by
    rintro ⟨⟨name⟩, members⟩ ⟨⟨name'⟩, members'⟩ r s h
    simpa [siteFields, strFields_prefixCode.append_eq_iff, Std.ExtTreeSet.toList_inj,
      (listFields_prefixCode word_prefixCode).append_eq_iff, and_assoc] using h
  have hgen : PrefixCode fun entry : W × ℕ => [Field.word entry.1, .num entry.2] := by
    intro a b r s h
    simpa [Prod.ext_iff, and_assoc] using h
  rintro ⟨epoch, sites, generations, bound⟩ ⟨epoch', sites', generations', bound'⟩ r s h
  simp only [HolderMembership.fields, List.append_assoc, List.cons_append, List.nil_append,
    List.cons.injEq, Field.num.injEq, (listFields_prefixCode hsite).append_eq_iff,
    (listFields_prefixCode hgen).append_eq_iff, Std.ExtTreeMap.toList_inj] at h
  obtain ⟨rfl, rfl, rfl, rfl, hrest⟩ := h
  exact ⟨rfl, hrest⟩

theorem CommitteeTransitionStatement.voteHash_injective (hinj : HashInjective W) :
    Function.Injective (voteHash : CommitteeTransitionStatement W → W) := by
  rintro ⟨cluster, group, epoch, previous, holders, next, validators, boundary, tail⟩
    ⟨cluster', group', epoch', previous', holders', next', validators', boundary', tail'⟩ h
  have hfields := hinj h
  simp only [CommitteeTransitionStatement.fields, List.append_assoc, List.cons_append,
    List.nil_append, List.cons.injEq, Field.word.injEq, Field.num.injEq, true_and, and_true,
    HolderMembership.fields_prefixCode.append_eq_iff,
    (listFields_prefixCode word_prefixCode).append_eq_iff, Std.ExtTreeSet.toList_inj] at hfields
  obtain ⟨rfl, rfl, rfl, rfl, rfl, rfl, rfl, rfl, rfl⟩ := hfields
  rfl

def ReadBarrierCertificate.signingBytes (s : ReadBarrierStatement W) : List (Field W) :=
  .tag .readBarrierStatement :: s.fields

def ReadBarrierCertificate.verify (c : ReadBarrierCertificate W) (expectedChallenge : List UInt8)
    (validatorGeneration : ℕ) (validators : BTreeSet W) : Result Unit := do
  reject (c.statement.challenge ≠ expectedChallenge ∨
    c.statement.validatorGeneration ≠ validatorGeneration ∨
    validators.size < c.signatures.size) (.error .failedConsensus)
  validateRouteGeneration c.statement.routeGeneration
  validateCommandSpecVersion c.statement.commandSpecVersion
  reject (¬((c.statement.position = 0) ↔ (c.statement.orderCertificateHash = default)))
    (.error .failedConsensus)
  verifySignatures c.signatures (signingBytes c.statement) validators

variable [SecretSigner W]

namespace DurableAdmissionStore

section

variable (s : DurableAdmissionStore W) (votes : VoteTables W)

def signOrderStatement (statement : OrderStatement W) (io : Bool) : Result
    (OrderVote W × VoteTables W) := do
  reject (statement.position = 0) (invalidConfiguration "order positions start at one")
  let table ← lockVote votes.orderVotes statement.voteKey statement.voteHash
    "validator refuses to equivocate at one order position" io
  pure (⟨statement, s.holder, SecretSigner.sign s.holder (OrderCertificate.signingBytes statement)⟩,
    { votes with orderVotes := table })

def signReadBarrierStatement (statement : ReadBarrierStatement W) (io : Bool) :
    Result (ReadBarrierVote W × VoteTables W) := do
  let table ← lockVote votes.readBarrierVotes statement.voteKey statement.voteHash
    "validator refuses to equivocate for one read-barrier challenge" io
  pure (⟨statement, s.holder,
    SecretSigner.sign s.holder (ReadBarrierCertificate.signingBytes statement)⟩,
    { votes with readBarrierVotes := table })

def signCommitteeTransitionStatement (statement : CommitteeTransitionStatement W) (io : Bool) :
    Result (CommitteeTransitionVote W × VoteTables W) := do
  statement.validate
  let scope ← require s.protocolScope (invalidConfiguration
    "committee transition voting requires a bound protocol scope")
  reject (statement.clusterId ≠ scope.1 ∨ statement.consensusGroupId ≠ scope.2)
    (invalidConfiguration "committee transition vote scope does not match the durable store")
  let table ← lockVote votes.committeeTransitionVotes statement.previousValidatorGeneration
    statement.voteHash "validator already voted for another committee at this generation" io
  pure (⟨statement, s.holder,
    SecretSigner.sign s.holder (CommitteeTransitionCertificate.signingBytes statement)⟩,
    { votes with committeeTransitionVotes := table })

end

end DurableAdmissionStore

namespace GlobalOrderedEngine

def signCommitteeTransition (e : GlobalOrderedEngine W) (votes : VoteTables W)
    (statement : CommitteeTransitionStatement W) (io : Bool) :
    Result (CommitteeTransitionVote W × VoteTables W) := do
  let scope ← require e.store.protocolScope (invalidConfiguration
    "committee transition voting requires a bound protocol scope")
  reject (¬e.validators.contains e.store.holder ∨ statement.clusterId ≠ scope.1 ∨
    statement.consensusGroupId ≠ scope.2 ∨
    statement.previousHolderMembershipEpoch ≠ e.holderMembership.epoch ∨
    statement.previousValidatorGeneration ≠ e.validatorGeneration ∨
    statement.activatedAt ≠ e.appliedWatermark ∨
    statement.orderCertificateHash ≠ e.lastOrderCertificateHash ∨ e.quiescent = false)
    (invalidConfiguration "committee transition vote does not match the current quiescent boundary")
  e.store.signCommitteeTransitionStatement votes statement io

def voteForReadBarrier (e : GlobalOrderedEngine W) (votes : VoteTables W) (challenge : List UInt8)
    (io : Bool) : Result (ReadBarrierVote W × VoteTables W) := do
  reject (¬e.validators.contains e.store.holder) (.error .unknownSender)
  let statement ← e.readBarrierStatement challenge
  e.store.signReadBarrierStatement votes statement io

variable [ReferenceCodec W]

omit [SecretSigner W] in
/-- The next position for the only reference of an approved epoch. -/
def orderStatementForFinalizedEpoch (e : GlobalOrderedEngine W) (epoch : Epoch W) :
    Result (OrderStatement W) := do
  let references ← orderedBatchReferences epoch
  e.validateEpochValidatorSet epoch
  match references with
  | [reference] => e.orderStatementForReference reference epoch.hash
  | _ => .error (invalidConfiguration
      "single-reference ordering API requires exactly one batch reference transaction")

/-- The vote of a validator for the position that its engine derives from an epoch. -/
def voteForEpoch (e : GlobalOrderedEngine W) (votes : VoteTables W) (epoch : Epoch W)
    (io : Bool) : Result (OrderVote W × VoteTables W) := do
  let statement ← e.orderStatementForFinalizedEpoch epoch
  e.store.signOrderStatement votes statement io

end GlobalOrderedEngine

end Crypto

end Blossom
