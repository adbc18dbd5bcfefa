import Blossom.OrderedRun

/-!
# One position for a reference

A reference has at most one position in every run whose calls finalize references
without a position, and then the next position can always be applied. The engine itself
does not ask for that: it finalizes an available reference a second time, and the second
position cannot be applied after the first.
-/

namespace Blossom

open CheckedSteps OrderedMap OrderedImage

variable {W : Type} [ProtocolCrypto W]

namespace GlobalOrderedEngine

variable {e : GlobalOrderedEngine W} {log : List (OrderCertificate W)}

def OrderedOnce (e : GlobalOrderedEngine W) : Prop :=
  ∀ (p q : ℕ) (c d : OrderCertificate W), e.finalized[p]? = some c → e.finalized[q]? = some d →
    c.statement.referenceHash = d.statement.referenceHash → p = q

theorem orderedOnce_of_orderly (h : e.image.Represents log) (ho : e.image.Orderly log) :
    e.OrderedOnce := by
  intro p q c d hc hd heq
  obtain ⟨i, rfl, hi⟩ := h.finalized.eq_some hc
  obtain ⟨j, rfl, hj⟩ := h.finalized.eq_some hd
  have hi' : (orderedReferences log)[i]? = some c.statement.referenceHash := by
    simp [orderedReferences, hi]
  have hj' : (orderedReferences log)[j]? = some c.statement.referenceHash := by
    simp [orderedReferences, hj, heq]
  have hij := (List.getElem?_inj (List.getElem?_eq_some_iff.mp hi').1 ho.unique).mp
    (hi'.trans hj'.symm)
  rw [hij]

theorem nextToApply_of_orderly (h : e.image.Represents log) (ho : e.image.Orderly log)
    (hroom : e.appliedWatermark < maxCounter) : ∃ next, e.nextToApply = .ok next := by
  unfold nextToApply
  split
  · exact ⟨none, rfl⟩
  · next c hc =>
    obtain ⟨k, hk, hlog, -, -⟩ := h.next hc
    have happ : k = e.image.applied := by
      change min (e.appliedWatermark + 1) maxCounter = k + 1 at hk
      change k = e.appliedWatermark
      omega
    have hmem : c.statement.referenceHash ∈ (orderedReferences log).drop e.image.applied := by
      have href : (orderedReferences log)[k]? = some c.statement.referenceHash := by
        simp [orderedReferences, hlog]
      rw [← happ, List.drop_eq_getElem_cons (List.getElem?_eq_some_iff.mp href).1,
        (List.getElem?_eq_some_iff.mp href).2]
      exact List.mem_cons_self
    obtain ⟨a, ha⟩ := contains_iff.mp (ho.pending _ hmem)
    have ha' : e.available[c.statement.referenceHash]? = some a := ha
    rw [ha']
    exact ⟨_, rfl⟩

end GlobalOrderedEngine

namespace OrderedNode

variable [ReferenceCodec W]

/-- In every run of fresh calls a reference has one position, and application does not run
into a missing availability certificate. -/
theorem finalized_once {e : GlobalOrderedEngine W}
    (h : Reaches (fun e op => op.Fresh e) (.running e)) :
    e.OrderedOnce ∧
      (e.appliedWatermark < maxCounter → ∃ next, e.nextToApply = .ok next) := by
  obtain ⟨-, log, hlog, horderly⟩ := h.orderly
  exact ⟨GlobalOrderedEngine.orderedOnce_of_orderly hlog horderly,
    GlobalOrderedEngine.nextToApply_of_orderly hlog horderly⟩

variable {allowed : GlobalOrderedEngine W → OrderedOperation W → Prop}
  [∀ e op, Decidable (allowed e op)]

/-- A run of given operations, which stops at one that is not allowed. -/
def play (allowed : GlobalOrderedEngine W → OrderedOperation W → Prop)
    [∀ e op, Decidable (allowed e op)] :
    List (OrderedOperation W) → OrderedNode W → Option (OrderedNode W)
  | [], n => some n
  | op :: ops, .running e =>
    if allowed e op then play allowed ops (op.perform (.running e)) else none
  | op :: ops, .stopped s => play allowed ops (op.perform (.stopped s))

theorem reaches_of_play {ops : List (OrderedOperation W)} {n n' : OrderedNode W}
    (hn : Reaches allowed n) (h : play allowed ops n = some n') : Reaches allowed n' := by
  induction ops generalizing n with
  | nil =>
    cases h
    exact hn
  | cons op ops ih =>
    cases n with
    | running e =>
      rw [play] at h
      split_ifs at h with hall
      refine ih (hn.step op ?_) h
      intro e' heq
      cases heq
      exact hall
    | stopped s =>
      refine ih (hn.step op ?_) h
      intro e' heq
      cases heq

def runs (P : GlobalOrderedEngine W → Bool) : OrderedNode W → Bool
  | .running e => P e
  | .stopped _ => false

theorem exists_reaches (allowed : GlobalOrderedEngine W → OrderedOperation W → Prop)
    [∀ e op, Decidable (allowed e op)] (ops : List (OrderedOperation W))
    {s : DurableAdmissionStore W} (P : GlobalOrderedEngine W → Bool) (hs : Reaches allowed (.stopped s))
    (h : (play allowed ops (.stopped s)).any (runs P) = true) :
    ∃ e, Reaches allowed (.running e) ∧ P e = true := by
  cases hn : play allowed ops (.stopped s) with
  | none =>
    rw [hn] at h
    cases h
  | some n =>
    rw [hn, Option.any_some] at h
    cases n with
    | running e => exact ⟨e, reaches_of_play hs hn, h⟩
    | stopped s => cases h

end OrderedNode

/-! ### An engine with three holders and four validators -/

/-! ### References of one origin -/

namespace OrderedSample

open FreeWord

def site (n : UInt8) : SiteId := ⟨[n]⟩

/-- Commands of one client from an origin sequence on. -/
def batchFrom (first count : ℕ) : CommandBatch :=
  ⟨(List.range' first count).map fun n => ⟨n, ⟨[7], 0, n, [9]⟩⟩⟩

section Words

variable {W : Type} [ProtocolCrypto W]

def sign (signer : W) (message : List (Field W)) : Signature W := ⟨signer, protocolHash message⟩

def hashOf (r : BatchReference W) : W := r.hash.toOption.getD default

variable (key : ℕ → W)

def referenceOf (generation first : ℕ) (batch : CommandBatch) (previous : W) :
    BatchReference W where
  formatVersion := 2
  codecVersion := 2
  clusterId := key 21
  consensusGroupId := key 22
  shard := [1]
  routeGeneration := 1
  commandSpecVersion := 1
  origin := key 1
  originIncarnation := generation
  originKeyGeneration := 0
  firstOriginSequence := first
  lastOriginSequence := first + batch.commands.length - 1
  commandCount := batch.commands.length
  byteLength := batch.encodedLength
  merkleRoot := batch.merkleRoot.toOption.getD default
  dataHolderMembershipEpoch := generation
  validatorGeneration := generation
  previousOriginReferenceHash := previous

/-- The receipts of holders, each with the number of its site. -/
def availabilityOf (holders : List (ℕ × UInt8)) (r : BatchReference W) : AvailabilityCertificate W :=
  ⟨r, .trusted, holders.map fun holder =>
    let body : AvailabilityReceiptBody W :=
      ⟨hashOf r, key holder.1, site holder.2, r.dataHolderMembershipEpoch, 1⟩
    ⟨body, sign (key holder.1) body.fields⟩⟩

def signedBy (signers : List ℕ) (s : OrderStatement W) : OrderCertificate W :=
  ⟨s, .ofList (signers.map fun n =>
    (key n, sign (key n) (OrderCertificate.signingBytes s))) compare⟩

end Words

def holders : HolderMembership FreeWord where
  epoch := 0
  membersBySite := .ofList [(site 1, .ofList [key 1] compare), (site 2, .ofList [key 2] compare),
    (site 3, .ofList [key 3] compare)] compare
  storeGenerations := .ofList [(key 1, 1), (key 2, 1), (key 3, 1)] compare
  holderFaultBound := 0

def config (trust : TrustMode) : OrderedEngineConfig FreeWord where
  mode := .activeSyncGlobalOrdered
  holderMembership := holders
  validatorGeneration := 0
  validators := .ofList [key 11, key 12, key 13, key 14] compare
  orderTrustMode := trust
  routeGeneration := 1
  commandSpecVersion := 1

def batch : CommandBatch := batchFrom 1 3

def reference : BatchReference FreeWord := referenceOf key 0 1 batch default

theorem batch_of_reference : reference.verifyBatch batch = .ok () ∧
    ∀ other, reference.verifyBatch other = .ok () → other = batch := by
  have hbatch : reference.verifyBatch batch = .ok () := by decide +kernel
  exact ⟨hbatch, fun other hother => reference.batch_unique FreeWord.hash_injective hother hbatch⟩

/-- The next reference of the same origin. -/
def nextReference : BatchReference FreeWord := referenceOf key 0 4 (batchFrom 4 3) (hashOf reference)

def availability (r : BatchReference FreeWord) : AvailabilityCertificate FreeWord :=
  availabilityOf key [(1, 1), (2, 2)] r

def statement (r : BatchReference FreeWord) (position : ℕ) (tail : FreeWord) :
    OrderStatement FreeWord :=
  ⟨key 22, key 23, position, hashOf r, tail, 0⟩

instance : ReferenceCodec FreeWord := ⟨fun _ => .error (wireProtocol "decode batch reference")⟩

def application (b : OrderedBatch FreeWord) : Result (List (List UInt8)) :=
  .ok (b.batch.commands.map fun _ => [])

def store : DurableAdmissionStore FreeWord := .openStore (key 1) (site 1) 1

def orderFirst : List (OrderedOperation FreeWord) :=
  [.reopen (config .trusted) fun _ => true,
    .markAvailableWithBatch batch (availability reference) true true true,
    .finalizeTrusted (statement reference 1 default) true]

def firstTail : FreeWord := (OrderCertificate.trusted (statement reference 1 default)).hash

def orderNext : List (OrderedOperation FreeWord) :=
  orderFirst ++
    [.markAvailableWithBatch (batchFrom 4 3) (availability nextReference) true true true,
      .finalizeTrusted (statement nextReference 2 firstTail) true]

/-- The same reference is finalized again, and then applied. -/
def orderTwice : List (OrderedOperation FreeWord) :=
  orderFirst ++
    [.finalizeTrusted (statement reference 2 firstTail) true, .applyContiguousTo application true]

end OrderedSample

open OrderedSample OrderedNode in
/-- A trusted engine gives one reference two positions, and panics at the second one after
it has applied the first. -/
theorem reference_finalized_twice :
    ∃ e : GlobalOrderedEngine FreeWord, Reaches (fun _ _ => True) (.running e) ∧
      ¬e.OrderedOnce ∧
      e.nextToApply = .error (.panicked "finality requires availability certificate") := by
  obtain ⟨e, hreach, h⟩ := exists_reaches (fun _ _ => True) orderTwice
    (fun e => (e.finalized[1]?.map fun c => c.statement.referenceHash) = some (hashOf reference) ∧
      (e.finalized[2]?.map fun c => c.statement.referenceHash) = some (hashOf reference) ∧
      e.nextToApply = .error (.panicked "finality requires availability certificate"))
    (.start (FreeWord.key 1) (site 1) 1) (by decide +kernel)
  simp only [decide_eq_true_eq] at h
  obtain ⟨h₁, h₂, hpanic⟩ := h
  refine ⟨e, hreach, fun honce => ?_, hpanic⟩
  obtain ⟨c, hc, hcr⟩ := Option.map_eq_some_iff.mp h₁
  obtain ⟨d, hd, hdr⟩ := Option.map_eq_some_iff.mp h₂
  have h12 := honce 1 2 c d hc hd (hcr.trans hdr.symm)
  omega

open OrderedSample OrderedNode in
theorem finalized_once_next :
    ∃ e : GlobalOrderedEngine FreeWord, Reaches (fun e op => op.Fresh e) (.running e) ∧
      e.lastFinalizedPosition = 2 ∧ e.OrderedOnce ∧ ∃ next, e.nextToApply = .ok next := by
  obtain ⟨e, hreach, h⟩ := exists_reaches (fun e op => op.Fresh e) orderNext
    (fun e => e.lastFinalizedPosition = 2 ∧ e.appliedWatermark = 0)
    (.start (FreeWord.key 1) (site 1) 1) (by decide +kernel)
  simp only [decide_eq_true_eq] at h
  obtain ⟨honce, hnext⟩ := finalized_once hreach
  exact ⟨e, hreach, h.1, honce, hnext (h.2 ▸ by decide)⟩

end Blossom
