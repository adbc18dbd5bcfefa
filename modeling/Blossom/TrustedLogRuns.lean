import Blossom.TrustedProduction
import Blossom.ConsecutiveList

/-!
# Runs of the trusted log

Every call on a trusted log is one transaction of its store: it takes effect as a whole or, if it
fails or the member crashes before it is durable, not at all.
-/

namespace Blossom

open CheckedSteps OrderedMap ConsecutiveList Relation

variable {W : Type} [ProtocolCrypto W]
variable {epoch first head last previous : Epoch W} {policy : ConsensusNodeRemovalPolicy}

namespace TrustedEpochLog

variable {log log' : TrustedEpochLog W} {lock : TrustedRoundLock W}

/-! ### The epochs -/

/-- An epoch of a trusted chain that follows another one holds blocks of its own nonce, intact
under their keys. -/
def HoldsOwnBlocks (epoch : Epoch W) : Prop :=
  epoch.body.previousNonce.isSome = true →
    ∀ (key : W) (block : Block W), epoch.body.blocks[key]? = some block →
      block.body.nonce = epoch.body.nonce ∧ block.verifyUnsignedIntegrityWithHash key = .ok ()

theorem validateTrustedExtension_spec [EpochCodec W]
    (h : validateTrustedExtension previous epoch policy = .ok ()) :
    epoch.body.nonce = previous.body.nonce + 1 ∧ epoch.body.previousNonce.isSome = true ∧
      HoldsOwnBlocks epoch := by
  rw [validateTrustedExtension] at h
  simp only [↓guard_bind_eq_ok, bind_eq_ok, reject_eq_ok, not_or, not_not] at h
  obtain ⟨⟨-, -, hprev, hnonce, -⟩, writers, hblocks, -⟩ := h
  have hcand := (validateTrustedBlocks_isOk _).mp ⟨writers, hblocks⟩
  refine ⟨hnonce, by rw [hprev]; rfl, fun _ key block hblock => ?_⟩
  exact ⟨(hcand.target key block hblock).2, hcand.intact key block hblock⟩

theorem validateTrustedLinks_spec [EpochCodec W] {rest : List (Epoch W)}
    (h : validateTrustedLinks policy (first :: rest) = .ok ()) :
    Consecutive (·.body.nonce) (first :: rest) ∧
      ∀ epoch ∈ rest, epoch.body.previousNonce.isSome = true ∧ HoldsOwnBlocks epoch := by
  induction rest generalizing first with
  | nil => exact ⟨List.isChain_singleton _, fun _ hepoch => nomatch hepoch⟩
  | cons epoch rest ih =>
    simp only [validateTrustedLinks, ↓guard_bind_eq_ok] at h
    obtain ⟨hnonce, hblocks⟩ := validateTrustedExtension_spec h.1
    obtain ⟨hchain, hall⟩ := ih h.2
    refine ⟨List.isChain_cons_cons.mpr ⟨hnonce, hchain⟩, ?_⟩
    intro e he
    rcases List.mem_cons.mp he with rfl | he
    · exact hblocks
    · exact hall e he

/-- The epochs are stored under their nonces, up to the head. -/
structure EpochsSound (log : TrustedEpochLog W) : Prop where
  head : ∃ epoch, log.epochs[log.head.1]? = some epoch ∧ epoch.hash = log.head.2
  nonce_eq : ∀ (n : ℕ) (epoch : Epoch W), log.epochs[n]? = some epoch → epoch.body.nonce = n ∧ n ≤ log.head.1
  own_blocks : ∀ (n : ℕ) (epoch : Epoch W), log.epochs[n]? = some epoch → HoldsOwnBlocks epoch

variable {appended : List (Epoch W)}

theorem lookup_writeEpochs {epochs result : BTreeMap ℕ (Epoch W)}
    (h : writeEpochs epochs appended = .ok result) :
    (∀ (n : ℕ) (epoch : Epoch W), epochs[n]? = some epoch → result[n]? = some epoch) ∧
      (∀ (n : ℕ) (epoch : Epoch W), result[n]? = some epoch →
        epochs[n]? = some epoch ∨ epoch ∈ appended ∧ epoch.body.nonce = n) ∧
      ∀ epoch ∈ appended, result.contains epoch.body.nonce = true := by
  induction appended generalizing epochs with
  | nil =>
    cases h
    exact ⟨fun _ _ hold => hold, fun _ _ hold => .inl hold, fun _ hnone => nomatch hnone⟩
  | cons first rest ih =>
    rw [writeEpochs, List.foldlM_cons, bind_eq_ok] at h
    obtain ⟨next, hfirst, hrest⟩ := h
    obtain ⟨hkept, hnew, hall⟩ := ih hrest
    have hthere {epoch : Epoch W} (hepoch : next[first.body.nonce]? = some epoch) :
        ∀ epoch ∈ first :: rest, result.contains epoch.body.nonce = true := by
      intro e he
      rcases List.mem_cons.mp he with rfl | he
      · exact contains_iff.mpr ⟨epoch, hkept _ _ hepoch⟩
      · exact hall e he
    cases hex : epochs[first.body.nonce]? with
    | some existing =>
      simp only [hex, ↓guard_bind_eq_ok, pure_eq_ok] at hfirst
      obtain ⟨-, rfl⟩ := hfirst
      refine ⟨hkept, fun n epoch hepoch => ?_, hthere hex⟩
      rcases hnew n epoch hepoch with hold | ⟨hmem, hn⟩
      · exact .inl hold
      · exact .inr ⟨List.mem_cons_of_mem _ hmem, hn⟩
    | none =>
      simp only [hex, pure_eq_ok] at hfirst
      subst hfirst
      refine ⟨fun n epoch hepoch => hkept n epoch (lookup_insert_of_new hex hepoch),
        fun n epoch hepoch => ?_, hthere (lookup_insert_eq_some.mpr (.inl ⟨rfl, rfl⟩))⟩
      rcases hnew n epoch hepoch with hold | ⟨hmem, hn⟩
      · obtain ⟨hn, rfl⟩ | ⟨-, hold⟩ := lookup_insert_eq_some.mp hold
        · exact .inr ⟨List.mem_cons_self, hn⟩
        · exact .inl hold
      · exact .inr ⟨List.mem_cons_of_mem _ hmem, hn⟩

/-! ### Appending -/

structure Appends (log log' : TrustedEpochLog W) (appended : List (Epoch W)) : Prop where
  chain : Consecutive (·.body.nonce) appended
  own_blocks : ∀ epoch ∈ appended, epoch.body.previousNonce.isSome = true ∧ HoldsOwnBlocks epoch
  first : ∃ first, appended.head? = some first ∧ first.body.nonce = log.head.1 + 1 ∧
    ∀ lock ∈ values log.roundLocks, log.checkReleasedLock first lock = .ok ()
  last : ∃ last, appended.getLast? = some last ∧ log'.head = (last.body.nonce, last.hash) ∧
    log.releaseLocalBlocks appended last = .ok log'.localBlocks
  epochs_eq : writeEpochs log.epochs appended = .ok log'.epochs
  locks_eq : log'.roundLocks = ∅
  manifest_eq : log'.manifest = log.manifest

theorem loadHeadEpoch_spec (h : log.loadHeadEpoch = .ok head) :
    head.hash = log.head.2 ∧ head.body.nonce = log.head.1 := by
  simp only [loadHeadEpoch, ↓guard_bind_eq_ok, bind_eq_ok, reject_eq_ok, pure_eq_ok, not_or,
    not_not] at h
  obtain ⟨epoch, -, htarget, rfl⟩ := h
  exact htarget

theorem appendValidatedEpochs_cases [EpochCodec W] {roundId : Option (TrustedRoundId W)}
    (hhead : log.loadHeadEpoch = .ok head)
    (hlinks : validateTrustedLinks log.manifest.consensusNodeRemovalPolicy (head :: appended) = .ok ())
    (h : log.appendValidatedEpochs appended roundId = .ok log') :
    log' = log ∨ log.Appends log' appended := by
  obtain ⟨hhash, hnonce⟩ := loadHeadEpoch_spec hhead
  obtain ⟨hchain, hown⟩ := validateTrustedLinks_spec hlinks
  rw [appendValidatedEpochs] at h
  simp only [bind_eq_ok, require_eq_ok] at h
  obtain ⟨last, hlast, first, hfirst, h⟩ := h
  split at h
  · exact .inl (pure_eq_ok.mp h).symm
  · simp only [↓guard_bind_eq_ok, bind_eq_ok, pure_eq_ok, List.forM_eq_forM, forM_eq_ok] at h
    obtain ⟨-, epochs, hepochs, localBlocks, hlocal, -, hlocks, -, rfl⟩ := h
    refine .inr ⟨?_, hown, ⟨first, hfirst, ?_, hlocks⟩, ⟨last, hlast, rfl, hlocal⟩, hepochs, rfl, rfl⟩
    · exact hchain.tail
    · rw [← hnonce]
      rw [List.head?_eq_getElem?] at hfirst
      exact hchain.getElem? (i := 1) rfl hfirst

theorem Appends.head_lt (h : log.Appends log' appended) :
    log.head.1 < log'.head.1 := by
  obtain ⟨first, hfirst, hnonce, -⟩ := h.first
  obtain ⟨last, hlast, hhead, -⟩ := h.last
  have hle : first.body.nonce ≤ last.body.nonce :=
    h.chain.le_last (List.mem_of_mem_head? hfirst) hlast
  rw [hhead]
  omega

theorem Appends.lookup_of_mem (h : log.EpochsSound) (happ : log.Appends log' appended)
    (hmem : epoch ∈ appended) : log'.epochs[epoch.body.nonce]? = some epoch := by
  obtain ⟨-, hnew, hall⟩ := lookup_writeEpochs happ.epochs_eq
  obtain ⟨first, hfirst, hnonce, -⟩ := happ.first
  have hle := happ.chain.first_le hmem hfirst
  obtain ⟨other, hother⟩ := contains_iff.mp (hall epoch hmem)
  rcases hnew _ other hother with hold | ⟨hin, hn⟩
  · have hle' := (h.nonce_eq _ other hold).2
    omega
  · rw [hother, happ.chain.eq_of_eq hin hmem hn]

theorem epochsSound_append (h : log.EpochsSound)
    (happ : log.Appends log' appended) : log'.EpochsSound := by
  obtain ⟨-, hnew, -⟩ := lookup_writeEpochs happ.epochs_eq
  obtain ⟨last, hlast, hhead, -⟩ := happ.last
  have hlater := happ.head_lt
  refine ⟨?_, ?_, ?_⟩
  · rw [hhead]
    exact ⟨last, happ.lookup_of_mem h (List.mem_of_mem_getLast? hlast), rfl⟩
  · intro n epoch hepoch
    rcases hnew n epoch hepoch with hold | ⟨hmem, rfl⟩
    · obtain ⟨hn, hle⟩ := h.nonce_eq n epoch hold
      exact ⟨hn, by omega⟩
    · refine ⟨rfl, ?_⟩
      rw [hhead]
      exact happ.chain.le_last hmem hlast
  · intro n epoch hepoch
    rcases hnew n epoch hepoch with hold | ⟨hmem, -⟩
    · exact h.own_blocks n epoch hold
    · exact (happ.own_blocks epoch hmem).2

theorem Appends.lookup_of_le (happ : log.Appends log' appended)
    {n : ℕ} (hn : n ≤ log.head.1) : log'.epochs[n]? = log.epochs[n]? := by
  obtain ⟨hkept, hnew, -⟩ := lookup_writeEpochs happ.epochs_eq
  obtain ⟨first, hfirst, hnonce, -⟩ := happ.first
  apply Option.ext
  intro epoch
  constructor
  · intro hepoch
    rcases hnew n epoch hepoch with hold | ⟨hmem, rfl⟩
    · exact hold
    · have hle := happ.chain.first_le hmem hfirst
      omega
  · exact hkept n epoch

theorem Appends.lookup (h : log.EpochsSound) (happ : log.Appends log' appended) :
    (∀ (n : ℕ) (epoch : Epoch W), log.epochs[n]? = some epoch → log'.epochs[n]? = some epoch) ∧
      ∃ first, appended.head? = some first ∧ log'.epochs[log.head.1 + 1]? = some first := by
  obtain ⟨first, hfirst, hnonce, -⟩ := happ.first
  refine ⟨(lookup_writeEpochs happ.epochs_eq).1, first, hfirst, ?_⟩
  rw [← hnonce]
  exact happ.lookup_of_mem h (List.mem_of_mem_head? hfirst)

/-! ### The locks -/

def roundId (log : TrustedEpochLog W) (round : ℕ) : TrustedRoundId W :=
  ⟨log.manifest.groupId, log.head.2, log.head.1, log.head.1 + 1, round⟩

/-- Locks belong to the rounds after the head, from the first on without a gap, and every one has
the blocks of the one before it. -/
structure LocksSound (log : TrustedEpochLog W) : Prop where
  own : ∀ (id : TrustedRoundId W) (lock : TrustedRoundLock W), log.roundLocks[id]? = some lock →
    lock.roundId = id ∧ id = log.roundId id.round
  contiguous : ∃ n, ∀ k, log.roundLocks.contains (log.roundId k) = true ↔ k < n
  grows : ∀ (k : ℕ) (a b : TrustedRoundLock W), log.roundLocks[log.roundId k]? = some a →
    log.roundLocks[log.roundId (k + 1)]? = some b →
    ∀ hash ∈ a.verification.body.blocks, hash ∈ b.verification.body.blocks

structure Locks (log : TrustedEpochLog W) (lock : TrustedRoundLock W) : Prop where
  target : lock.roundId = log.roundId lock.roundId.round
  new : log.roundLocks[lock.roundId]? = none
  follows : 0 < lock.roundId.round → ∃ other ∈ values log.roundLocks,
    other.roundId.round + 1 = lock.roundId.round ∧
      ∀ hash ∈ other.verification.body.blocks, hash ∈ lock.verification.body.blocks
  highest : ∀ other ∈ values log.roundLocks, other.roundId.round ≤ lock.roundId.round

theorem lockRound_cases (h : log.lockRound lock = .ok log') :
    (log' = log ∧ ∃ other, log.roundLocks[lock.roundId]? = some other ∧
      other.verification.body.blocks = lock.verification.body.blocks) ∨
    log.Locks lock ∧
      log' = { log with roundLocks := log.roundLocks.insert lock.roundId lock } := by
  rw [lockRound] at h
  simp only [↓guard_bind_eq_ok, bind_eq_ok] at h
  obtain ⟨-, head, hhead, htgt, -, -, hfol, hhighest, h⟩ := h
  obtain ⟨hhash, hnonce⟩ := loadHeadEpoch_spec hhead
  simp only [reject_eq_ok, not_or, not_not] at htgt
  obtain ⟨hgroup, hprev, hprevioushash, hn⟩ := htgt
  cases hex : log.roundLocks[lock.roundId]? with
  | some other =>
    rw [hex] at h
    simp only [↓guard_bind_eq_ok, reject_eq_ok, pure_eq_ok, not_or, not_not] at h
    exact .inl ⟨h.2.symm, other, rfl, h.1.2⟩
  | none =>
    rw [hex] at h
    refine .inr ⟨⟨?_, hex, ?_, ?_⟩, (pure_eq_ok.mp h).symm⟩
    · calc lock.roundId
          _ = ⟨lock.roundId.groupId, lock.roundId.previousEpochHash,
            lock.roundId.previousEpochNonce, lock.roundId.nonce, lock.roundId.round⟩ := rfl
          _ = log.roundId lock.roundId.round := by
            rw [hgroup, hprev, hprevioushash, hn, hhash, hnonce, roundId]
    · intro hpos
      rw [reject_eq_ok, not_and, not_not] at hfol
      obtain ⟨other, hother, hround, hsub⟩ := hfol hpos
      exact ⟨other, hother, hround, fun hash hhash => hsub hash (Std.ExtTreeSet.mem_toList.mpr hhash)⟩
    · intro other hother
      rw [reject_eq_ok, not_exists] at hhighest
      exact not_lt.mp fun hlt => hhighest other ⟨hother, hlt⟩

/-- A lock that is there stands under its own round. -/
theorem LocksSound.lookup (h : log.LocksSound) (hlock : lock ∈ values log.roundLocks) :
    lock.roundId = log.roundId lock.roundId.round ∧ log.roundLocks[lock.roundId]? = some lock := by
  obtain ⟨id, hid⟩ := mem_values.mp hlock
  obtain ⟨rfl, hown⟩ := h.own id lock hid
  exact ⟨hown, hid⟩

theorem locksSound_lock (h : log.LocksSound) (hlock : log.Locks lock) :
    LocksSound { log with roundLocks := log.roundLocks.insert lock.roundId lock } := by
  obtain ⟨n, hn⟩ := h.contiguous
  have hround {other : TrustedRoundLock W} (hother : other ∈ values log.roundLocks) :
      log.roundLocks[log.roundId other.roundId.round]? = some other :=
    (h.lookup hother).1 ▸ (h.lookup hother).2
  have hcount : lock.roundId.round = n := by
    have hnew : ¬lock.roundId.round < n := by
      rw [← hn, contains_iff, ← hlock.target, hlock.new]
      simp
    have hhighest : ∀ k < n, k ≤ lock.roundId.round := by
      intro k hk
      obtain ⟨other, hother⟩ := contains_iff.mp ((hn k).mpr hk)
      have hle := hlock.highest other (mem_values.mpr ⟨_, hother⟩)
      rw [(h.own _ other hother).1] at hle
      exact hle
    have hfol : 0 < lock.roundId.round → lock.roundId.round - 1 < n := by
      intro hpos
      obtain ⟨other, hother, heq, -⟩ := hlock.follows hpos
      rw [← hn, contains_iff, ← heq]
      exact ⟨other, hround hother⟩
    omega
  have htgt : lock.roundId = log.roundId n := by
    rw [hlock.target, hcount]
  have hnumber {k : ℕ} (hk : lock.roundId = log.roundId k) : n = k := by
    rw [← hcount, hk]
    rfl
  refine ⟨?_, ⟨n + 1, fun k => ?_⟩, ?_⟩
  · intro id other hother
    obtain ⟨rfl, rfl⟩ | ⟨-, hother⟩ := lookup_insert_eq_some.mp hother
    · exact ⟨rfl, hlock.target⟩
    · exact h.own id other hother
  · change (log.roundLocks.insert lock.roundId lock).contains (log.roundId k) = true ↔ _
    rw [Nat.lt_succ_iff_lt_or_eq, ← hn, contains_iff, contains_iff]
    constructor
    · rintro ⟨other, hother⟩
      obtain ⟨hk, -⟩ | ⟨-, hother⟩ := lookup_insert_eq_some.mp hother
      · exact .inr (hnumber hk).symm
      · exact .inl ⟨other, hother⟩
    · rintro (⟨other, hother⟩ | rfl)
      · exact ⟨other, lookup_insert_of_new hlock.new hother⟩
      · exact ⟨lock, lookup_insert_eq_some.mpr (.inl ⟨htgt, rfl⟩)⟩
  · intro k a b ha hb
    have hold {j : ℕ} {other : TrustedRoundLock W}
        (hother : log.roundLocks[log.roundId j]? = some other) : j < n :=
      (hn j).mp (contains_iff.mpr ⟨other, hother⟩)
    obtain ⟨hk, rfl⟩ | ⟨-, ha⟩ := lookup_insert_eq_some.mp ha <;>
      obtain ⟨hnext, rfl⟩ | ⟨-, hb⟩ := lookup_insert_eq_some.mp hb
    · exact fun _ hhash => hhash
    · have hlt := hold hb
      have hn := hnumber hk
      omega
    · obtain ⟨other, hother, hprev, hsub⟩ := hlock.follows (by rw [hcount, hnumber hnext]; omega)
      have hsame := hround hother
      rw [hcount, hnumber hnext, Nat.succ_inj] at hprev
      rw [hprev] at hsame
      cases hsame.symm.trans ha
      exact hsub
    · exact h.grows k a b ha hb

theorem LocksSound.grows_le (h : log.LocksSound) {j k : ℕ} (hjk : j ≤ k)
    {a b : TrustedRoundLock W} (ha : log.roundLocks[log.roundId j]? = some a)
    (hb : log.roundLocks[log.roundId k]? = some b) :
    ∀ hash ∈ a.verification.body.blocks, hash ∈ b.verification.body.blocks := by
  induction hjk generalizing b with
  | refl =>
    rw [ha] at hb
    cases hb
    exact fun _ hhash => hhash
  | step hle ih =>
    rename_i k
    obtain ⟨n, hn⟩ := h.contiguous
    have hlast := (hn (k + 1)).mp (contains_iff.mpr ⟨b, hb⟩)
    obtain ⟨c, hc⟩ := contains_iff.mp ((hn k).mpr (by omega))
    exact fun hash hhash => h.grows k c b hc hb hash (ih hc hash hhash)

/-! ### The member's own block -/

/-- The only block of the member is intact and for the head. -/
def BlocksSound (log : TrustedEpochLog W) : Prop :=
  ∀ (n : ℕ) (block : Block W), log.localBlocks[n]? = some block → n = log.head.1 + 1 ∧
    block.body.nonce = n ∧ block.body.lastEpoch = log.head.2 ∧
    block.body.validator = log.manifest.selfPublicKey ∧
    block.verifyUnsignedIntegrityWithHash block.hash = .ok ()

variable {block : Block W}

theorem persistLocalBlock_cases (h : log.persistLocalBlock block = .ok log') :
    (log' = log ∧ block.verifyUnsignedIntegrityWithHash block.hash = .ok () ∧
      block.body.nonce = log.head.1 + 1 ∧
      ∃ existing, log.localBlocks[block.body.nonce]? = some existing ∧
        existing.hash = block.hash) ∨
    (block.body.validator = log.manifest.selfPublicKey ∧
      block.verifyUnsignedIntegrityWithHash block.hash = .ok () ∧
      block.body.lastEpoch = log.head.2 ∧ block.body.nonce = log.head.1 + 1 ∧
      log.localBlocks[block.body.nonce]? = none ∧
      log' = { log with localBlocks := log.localBlocks.insert block.body.nonce block }) := by
  rw [persistLocalBlock] at h
  simp only [↓guard_bind_eq_ok, bind_eq_ok] at h
  obtain ⟨hval, hintact, head, hhead, -, htgt, h⟩ := h
  obtain ⟨hhash, hnonce⟩ := loadHeadEpoch_spec hhead
  simp only [reject_eq_ok, not_or, not_not] at hval htgt
  rw [hhash, hnonce] at htgt
  cases hex : log.localBlocks[block.body.nonce]? with
  | some existing =>
    rw [hex] at h
    simp only [↓guard_bind_eq_ok, reject_eq_ok, not_not, pure_eq_ok] at h
    exact .inl ⟨h.2.symm, hintact, htgt.2, existing, rfl, h.1⟩
  | none =>
    rw [hex] at h
    exact .inr ⟨hval, hintact, htgt.1, htgt.2, rfl, (pure_eq_ok.mp h).symm⟩

theorem blocksSound_persist (h : log.BlocksSound)
    (hper : log.persistLocalBlock block = .ok log') : log'.BlocksSound := by
  rcases persistLocalBlock_cases hper with ⟨rfl, -⟩ | ⟨hself, hintact, hlast, hnonce, -, rfl⟩
  · exact h
  · intro n b hb
    obtain ⟨rfl, rfl⟩ | ⟨-, hb⟩ := lookup_insert_eq_some.mp hb
    · exact ⟨hnonce, rfl, hlast, hself, hintact⟩
    · exact h n b hb

def Commits (appended : List (Epoch W)) (block : Block W) : Prop :=
  ∃ epoch ∈ appended, epoch.body.nonce = block.body.nonce ∧
    epoch.body.blocks.contains block.hash = true

theorem retryBlock_spec (head : Epoch W) (hself : block.body.validator = log.manifest.selfPublicKey)
    (hintact : block.verifyUnsignedIntegrityWithHash block.hash = .ok ()) :
    (log.retryBlock block head).body.txs = block.body.txs ∧
      (log.retryBlock block head).verifyUnsignedIntegrityWithHash
        (log.retryBlock block head).hash = .ok () := by
  refine ⟨rfl, ?_⟩
  simp only [Block.verifyUnsignedIntegrityWithHash, ↓guard_bind_eq_ok, reject_eq_ok] at hintact ⊢
  obtain ⟨hstate, hencs, hadmissions, -, -⟩ := hintact
  refine ⟨hstate, ?_, hadmissions, ?_, ?_⟩
  · rw [BlockBody.validateEncounterRecords, hself] at hencs
    exact hencs
  · simp [retryBlock, Block.sealUnsigned]
  · simp [retryBlock, Block.sealUnsigned, BlockBody.computeMerkleRoot]

theorem BlocksSound.cases (h : log.BlocksSound) : log.localBlocks = ∅ ∨ ∃ block,
    log.localBlocks = (∅ : BTreeMap ℕ (Block W)).insert (log.head.1 + 1) block := by
  have hother {n : ℕ} (hn : n ≠ log.head.1 + 1) : log.localBlocks[n]? = none := by
    cases hblock : log.localBlocks[n]? with
    | none => rfl
    | some block => exact absurd (h n block hblock).1 hn
  cases hown : log.localBlocks[log.head.1 + 1]? with
  | none =>
    left
    apply Std.ExtTreeMap.ext_getElem?
    intro n
    by_cases hn : n = log.head.1 + 1
    · rw [hn, hown]
      simp
    · rw [hother hn]
      simp
  | some block =>
    right
    refine ⟨block, Std.ExtTreeMap.ext_getElem? fun n => ?_⟩
    rw [lookup_insert]
    split
    · next hn => rw [← hn, hown]
    · next hn =>
      rw [hother (Ne.symm hn)]
      simp

/-- The member's block after an append: nothing if there was none or it is committed, and else the
same block for the new head. -/
theorem releaseLocalBlocks_spec {result : BTreeMap ℕ (Block W)} (h : log.BlocksSound)
    (hlater : log.head.1 < last.body.nonce)
    (hrel : log.releaseLocalBlocks appended last = .ok result) :
    (log.localBlocks = ∅ ∧ result = ∅) ∨ ∃ block,
      log.localBlocks[log.head.1 + 1]? = some block ∧
      (Commits appended block ∧ result = ∅ ∨ ¬Commits appended block ∧
        result = (∅ : BTreeMap ℕ (Block W)).insert (last.body.nonce + 1)
          (log.retryBlock block last)) := by
  rcases h.cases with hnone | ⟨block, hone⟩
  · refine .inl ⟨hnone, ?_⟩
    have hlist : (∅ : BTreeMap ℕ (Block W)).toList = [] := by simp
    rw [releaseLocalBlocks, hnone, hlist] at hrel
    simp only [List.filter_nil, List.foldl_nil, List.find?_nil, ↓guard_bind_eq_ok,
      pure_eq_ok] at hrel
    exact hrel.2.symm
  · have hown : log.localBlocks[log.head.1 + 1]? = some block := by
      rw [hone, lookup_insert, if_pos rfl]
    have hlist : log.localBlocks.toList = [(log.head.1 + 1, block)] := by
      rw [hone, toList_insert_last (fun _ _ hnone => by simp at hnone)]
      simp
    have herase : log.localBlocks.erase (log.head.1 + 1) = ∅ := by
      rw [hone]
      apply Std.ExtTreeMap.ext_getElem?
      intro n
      rw [lookup_erase, lookup_insert]
      split <;> simp
    refine .inr ⟨block, hown, ?_⟩
    have hnonce : block.body.nonce = log.head.1 + 1 := (h _ block hown).2.1
    have hstale : [(log.head.1 + 1, block)].filter (fun entry => decide (entry.1 ≤ last.body.nonce)) =
        [(log.head.1 + 1, block)] := by
      simpa using Nat.succ_le_of_lt hlater
    have hcommits : Commits appended block ↔ (appended.any fun epoch =>
        decide (epoch.body.nonce = log.head.1 + 1) && epoch.body.blocks.contains block.hash) = true := by
      simp only [Commits, hnonce, List.any_eq_true, Bool.and_eq_true, decide_eq_true_eq]
    rw [releaseLocalBlocks, hlist, hstale] at hrel
    simp only [↓guard_bind_eq_ok, List.foldl_cons, List.foldl_nil, herase, List.find?_cons,
      List.find?_nil] at hrel
    obtain ⟨-, hafter⟩ := hrel
    by_cases hcommitted : Commits appended block
    · rw [hcommits.mp hcommitted] at hafter
      exact .inl ⟨hcommitted, (Except.ok.inj hafter).symm⟩
    · rw [Bool.eq_false_iff.mpr (fun hany => hcommitted (hcommits.mpr hany))] at hafter
      have hfree : (∅ : BTreeMap ℕ (Block W))[(log.retryBlock block last).body.nonce]? = none := by
        simp
      rw [show decide (¬false = true) = true from rfl] at hafter
      dsimp only at hafter
      rw [hfree] at hafter
      exact .inr ⟨hcommitted, (Except.ok.inj hafter).symm⟩

end TrustedEpochLog

/-! ### Runs -/

variable [EpochCodec W]

namespace TrustedEpochLog

/-- `TrustedEpochLog::open` over a store that has been seeded before, or has not. -/
def openLog (stored : Option (TrustedEpochLog W)) (selfPublicKey : W) (seeds : List (Epoch W))
    (policy : ConsensusNodeRemovalPolicy) : Result (TrustedEpochLog W × List (Epoch W)) := do
  validateTrustedChain seeds policy
  let genesis ← require seeds.head? (.error .emptyEpochChain)
  let manifest : TrustedLogManifest W := ⟨genesis.body.groupId, selfPublicKey, genesis.hash,
    genesis.body.effectiveConsensusParameters, policy⟩
  let opened ← match stored with
    | some log => do
      reject (log.manifest ≠ manifest) (invalidConfiguration
        "trusted epoch log manifest conflicts with startup configuration")
      let chain ← log.loadChain
      pure (log, chain)
    | none => do
      let log ← seed manifest seeds
      pure (log, seeds)
  validateTrustedChain opened.2 policy
  reject (opened.2.head?.map (·.hash) ≠ some genesis.hash)
    (invalidConfiguration "trusted epoch log genesis conflicts with startup genesis")
  pure opened

end TrustedEpochLog

inductive TrustedLogCall (W : Type) [LinearOrder W] where
  | openLog (selfPublicKey : W) (seeds : List (Epoch W)) (policy : ConsensusNodeRemovalPolicy)
  | lockRound (lock : TrustedRoundLock W)
  | persistLocalBlock (block : Block W)
  | appendEpoch (epoch : Epoch W) (roundId : Option (TrustedRoundId W))
  | appendSuffix (epochs : List (Epoch W))

def TrustedLogCall.perform (log : TrustedEpochLog W) :
    TrustedLogCall W → Result (TrustedEpochLog W)
  | openLog selfPublicKey seeds policy => do
    let opened ← TrustedEpochLog.openLog (some log) selfPublicKey seeds policy
    pure opened.1
  | lockRound lock => log.lockRound lock
  | persistLocalBlock block => log.persistLocalBlock block
  | appendEpoch epoch roundId => log.appendEpoch epoch roundId
  | appendSuffix epochs => log.appendSuffix epochs

namespace TrustedEpochLog

variable {log log' : TrustedEpochLog W} {lock : TrustedRoundLock W}

def Steps (log log' : TrustedEpochLog W) : Prop :=
  ∃ call : TrustedLogCall W, call.perform log = .ok log'

def Reached (log : TrustedEpochLog W) : Prop :=
  ∃ (selfPublicKey : W) (seeds : List (Epoch W)) (policy : ConsensusNodeRemovalPolicy)
    (first : TrustedEpochLog W × List (Epoch W)),
    openLog none selfPublicKey seeds policy = .ok first ∧ ReflTransGen Steps first.1 log

variable {policy : ConsensusNodeRemovalPolicy} {seeds : List (Epoch W)}
  {opened : TrustedEpochLog W × List (Epoch W)} {selfPublicKey : W}

theorem openLog_some
    (h : openLog (some log) selfPublicKey seeds policy = .ok opened) : opened.1 = log := by
  simp only [openLog, bind_eq_ok, pure_eq_ok] at h
  obtain ⟨_, -, genesis, -, _, -, chain, -, _, rfl, _, -, _, -, rfl⟩ := h
  rfl

theorem openLog_none
    (h : openLog none selfPublicKey seeds policy = .ok opened) :
    validateTrustedChain seeds policy = .ok () ∧ ∃ manifest, seed manifest seeds = .ok opened.1 := by
  simp only [openLog, bind_eq_ok, pure_eq_ok] at h
  obtain ⟨_, hchain, genesis, -, log, hseed, _, rfl, _, -, _, -, rfl⟩ := h
  exact ⟨hchain, _, hseed⟩

structure Sound (log : TrustedEpochLog W) : Prop where
  epochs : log.EpochsSound
  locks : log.LocksSound
  blocks : log.BlocksSound

omit [EpochCodec W] in
theorem locksSound_of_empty (h : log.roundLocks = ∅) : log.LocksSound := by
  have hnone (id : TrustedRoundId W) : log.roundLocks[id]? = none := by
    rw [h]
    simp
  refine ⟨fun id lock hlock => ?_, ⟨0, fun k => ?_⟩, fun k a b ha => ?_⟩
  · rw [hnone] at hlock
    cases hlock
  · rw [contains_iff, hnone]
    simp
  · rw [hnone] at ha
    cases ha

theorem sound_of_openLog
    (h : openLog none selfPublicKey seeds policy = .ok opened) : opened.1.Sound := by
  obtain ⟨hchain, manifest, hseed⟩ := openLog_none h
  simp only [seed, bind_eq_ok, require_eq_ok, pure_eq_ok] at hseed
  obtain ⟨last, hlast, hlog⟩ := hseed
  simp only [validateTrustedChain, bind_eq_ok, require_eq_ok, reject_eq_ok, not_or] at hchain
  obtain ⟨genesis, hgenesis, _, ⟨hfirst, -⟩, _, -, hlinks⟩ := hchain
  obtain ⟨rest, rfl⟩ : ∃ rest, seeds = genesis :: rest := List.head?_eq_some_iff.mp hgenesis
  obtain ⟨hconsecutive, hown⟩ := validateTrustedLinks_spec hlinks
  have hepochs : ∀ (n : ℕ) (epoch : Epoch W), opened.1.epochs[n]? = some epoch →
      epoch ∈ genesis :: rest ∧ epoch.body.nonce = n := by
    intro n epoch hepoch
    rw [← hlog] at hepoch
    obtain ⟨e, he, heq⟩ := List.mem_map.mp (mem_of_lookup_ofList hepoch)
    cases heq
    exact ⟨he, rfl⟩
  have hmem := List.mem_of_mem_getLast? hlast
  refine ⟨⟨?_, fun n epoch hepoch => ?_, fun n epoch hepoch => ?_⟩, ?_, ?_⟩
  · have hcont : opened.1.epochs.contains last.body.nonce = true := by
      rw [← hlog, Std.ExtTreeMap.contains_ofList, List.contains_iff_mem, List.map_map]
      exact List.mem_map_of_mem hmem
    obtain ⟨epoch, hepoch⟩ := contains_iff.mp hcont
    obtain ⟨hin, hn⟩ := hepochs _ epoch hepoch
    rw [hconsecutive.eq_of_eq hin hmem hn] at hepoch
    rw [← hlog] at hepoch ⊢
    exact ⟨last, hepoch, rfl⟩
  · obtain ⟨hmem, hn⟩ := hepochs n epoch hepoch
    refine ⟨hn, ?_⟩
    rw [← hlog, ← hn]
    exact hconsecutive.le_last hmem hlast
  · rcases List.mem_cons.mp (hepochs n epoch hepoch).1 with rfl | hmem
    · exact fun hsome => absurd hsome hfirst
    · exact (hown epoch hmem).2
  · rw [← hlog]
    exact locksSound_of_empty rfl
  · rw [← hlog]
    intro n block hblock
    simp at hblock

omit [EpochCodec W] in
theorem sound_append {appended : List (Epoch W)} (h : log.Sound)
    (happ : log.Appends log' appended) : log'.Sound := by
  refine ⟨epochsSound_append h.epochs happ, locksSound_of_empty happ.locks_eq, ?_⟩
  obtain ⟨last, -, hhead, hrel⟩ := happ.last
  have hlater := happ.head_lt
  rw [hhead] at hlater
  intro n block hblock
  rcases releaseLocalBlocks_spec h.blocks hlater hrel with ⟨-, hnone⟩ |
    ⟨own, hown, ⟨-, hnone⟩ | ⟨-, hretry⟩⟩
  · rw [hnone] at hblock
    simp at hblock
  · rw [hnone] at hblock
    simp at hblock
  · rw [hretry] at hblock
    obtain ⟨rfl, rfl⟩ | ⟨-, hblock⟩ := lookup_insert_eq_some.mp hblock
    · obtain ⟨-, -, -, hself, hintact⟩ := h.blocks _ own hown
      rw [hhead, happ.manifest_eq]
      exact ⟨rfl, rfl, rfl, rfl, (retryBlock_spec last hself hintact).2⟩
    · simp at hblock

theorem steps_cases (h : Steps log log') : log' = log ∨
    (∃ lock, log.Locks lock ∧
      log' = { log with roundLocks := log.roundLocks.insert lock.roundId lock }) ∨
    (∃ block, log.persistLocalBlock block = .ok log') ∨
    ∃ appended, log.Appends log' appended := by
  obtain ⟨call, hcall⟩ := h
  cases call with
  | openLog selfPublicKey seeds policy =>
    simp only [TrustedLogCall.perform, bind_eq_ok, pure_eq_ok] at hcall
    obtain ⟨opened, hopened, rfl⟩ := hcall
    exact .inl (openLog_some hopened)
  | lockRound lock =>
    rcases lockRound_cases hcall with ⟨rfl, -⟩ | hlock
    · exact .inl rfl
    · exact .inr (.inl ⟨lock, hlock⟩)
  | persistLocalBlock block => exact .inr (.inr (.inl ⟨block, hcall⟩))
  | appendEpoch epoch roundId =>
    simp only [TrustedLogCall.perform, appendEpoch, bind_eq_ok] at hcall
    obtain ⟨head, hhead, _, hext, happ⟩ := hcall
    have hlinks : validateTrustedLinks log.manifest.consensusNodeRemovalPolicy [head, epoch] =
        .ok () := by
      simp only [validateTrustedLinks, ↓guard_bind_eq_ok, pure_eq_ok]
      exact ⟨hext, trivial⟩
    rcases appendValidatedEpochs_cases hhead hlinks happ with rfl | happends
    · exact .inl rfl
    · exact .inr (.inr (.inr ⟨_, happends⟩))
  | appendSuffix epochs =>
    simp only [TrustedLogCall.perform, appendSuffix] at hcall
    split at hcall
    · exact .inl (pure_eq_ok.mp hcall).symm
    · simp only [bind_eq_ok] at hcall
      obtain ⟨head, hhead, _, hlinks, happ⟩ := hcall
      rcases appendValidatedEpochs_cases hhead hlinks happ with rfl | happends
      · exact .inl rfl
      · exact .inr (.inr (.inr ⟨_, happends⟩))

theorem sound_steps (h : log.Sound) (hsteps : Steps log log') : log'.Sound := by
  rcases steps_cases hsteps with rfl | ⟨lock, hlock, rfl⟩ | ⟨block, hper⟩ | ⟨appended, happ⟩
  · exact h
  · exact ⟨{ h.epochs with }, locksSound_lock h.locks hlock, h.blocks⟩
  · have hblocks := blocksSound_persist h.blocks hper
    rcases persistLocalBlock_cases hper with ⟨rfl, -⟩ | ⟨-, -, -, -, -, rfl⟩
    · exact h
    · exact ⟨{ h.epochs with }, { h.locks with }, hblocks⟩
  · exact sound_append h happ

theorem sound_of_run (h : log.Sound) (hrun : ReflTransGen Steps log log') : log'.Sound := by
  induction hrun with
  | refl => exact h
  | tail _ hstep ih => exact sound_steps ih hstep

theorem Reached.sound (h : log.Reached) : log.Sound := by
  obtain ⟨selfPublicKey, seeds, policy, first, hopen, hrun⟩ := h
  exact sound_of_run (sound_of_openLog hopen) hrun

/-! ### Durable confirmations -/

def Respects (log : TrustedEpochLog W) (lock : TrustedRoundLock W) : Prop :=
  log.roundLocks[lock.roundId]? = some lock ∨ ∃ epoch,
    log.epochs[lock.roundId.nonce]? = some epoch ∧
      ∀ hash ∈ lock.verification.body.blocks, epoch.body.blocks.contains hash = true

theorem respects_steps (h : log.Sound) (hlock : log.Respects lock) (hsteps : Steps log log') :
    log'.Respects lock := by
  rcases steps_cases hsteps with rfl | ⟨other, hother, rfl⟩ | ⟨block, hper⟩ |
    ⟨appended, happ⟩
  · exact hlock
  · rcases hlock with hthere | hepoch
    · exact .inl (lookup_insert_of_new hother.new hthere)
    · exact .inr hepoch
  · rcases persistLocalBlock_cases hper with ⟨rfl, -⟩ | ⟨-, -, -, -, -, rfl⟩
    · exact hlock
    · exact hlock
  · right
    obtain ⟨hkept, first, hfirst, hlook⟩ := happ.lookup h.epochs
    rcases hlock with hthere | ⟨epoch, hepoch, hblocks⟩
    · obtain ⟨first', hfirst', -, hchk⟩ := happ.first
      cases hfirst.symm.trans hfirst'
      have hcheck := hchk lock (mem_values.mpr ⟨_, hthere⟩)
      rw [checkReleasedLock, reject_eq_ok] at hcheck
      simp only [not_or, not_exists, not_and, not_not] at hcheck
      have hnonce : lock.roundId.nonce = log.head.1 + 1 := by
        rw [(h.locks.own _ lock hthere).2]
        rfl
      refine ⟨first, ?_, fun hash hhash => ?_⟩
      · rw [hnonce]
        exact hlook
      · exact hcheck.2.2.2.2 hash (Std.ExtTreeSet.mem_toList.mpr hhash)
    · exact ⟨epoch, hkept _ _ hepoch, hblocks⟩

theorem respects_of_run (h : log.Sound) (hlock : log.Respects lock)
    (hrun : ReflTransGen Steps log log') : log'.Sound ∧ log'.Respects lock := by
  induction hrun with
  | refl => exact ⟨h, hlock⟩
  | tail _ hstep ih => exact ⟨sound_steps ih.1 hstep, respects_steps ih.1 ih.2 hstep⟩

omit [EpochCodec W] in
/-- A second candidate for a round is refused. -/
theorem lockRound_conflict {other : TrustedRoundLock W}
    (hother : log.roundLocks[lock.roundId]? = some other)
    (hconflict : other.verification.body.blocks ≠ lock.verification.body.blocks)
    (result : TrustedEpochLog W) : log.lockRound lock ≠ .ok result := by
  intro hlock
  rcases lockRound_cases hlock with ⟨-, found, hfound, hsame⟩ | ⟨hlocks, -⟩
  · cases hother.symm.trans hfound
    exact hconflict hsame
  · rw [hlocks.new] at hother
    cases hother

/-- In every run the locks are for the rounds after the head, one candidate for each, from the
first round on without a gap, and the candidates grow. A conflicting lock is refused, also by the
log that is opened again. A lock stays until an epoch is appended after the head, and that epoch
has all of its blocks. -/
theorem round_locks_durable (h : log.Reached) :
    (∀ a ∈ values log.roundLocks, a.roundId = log.roundId a.roundId.round) ∧
    (∀ a ∈ values log.roundLocks, ∀ b ∈ values log.roundLocks,
      a.roundId.round = b.roundId.round → a = b) ∧
    (∃ n, ∀ k, (∃ lock ∈ values log.roundLocks, lock.roundId.round = k) ↔ k < n) ∧
    (∀ a ∈ values log.roundLocks, ∀ b ∈ values log.roundLocks,
      a.roundId.round ≤ b.roundId.round →
      ∀ hash ∈ a.verification.body.blocks, hash ∈ b.verification.body.blocks) ∧
    (∀ other ∈ values log.roundLocks, ∀ lock : TrustedRoundLock W, lock.roundId = other.roundId →
      lock.verification.body.blocks ≠ other.verification.body.blocks → ∀ result : TrustedEpochLog W,
      log.lockRound lock ≠ .ok result ∧ ∀ selfPublicKey seeds policy opened,
        openLog (some log) selfPublicKey seeds policy = .ok opened →
        opened.1.lockRound lock ≠ .ok result) ∧
    ∀ later, ReflTransGen Steps log later → ∀ lock ∈ values log.roundLocks,
      (later.epochs[lock.roundId.nonce]? = none → lock ∈ values later.roundLocks) ∧
      ∀ epoch, later.epochs[lock.roundId.nonce]? = some epoch →
        ∀ hash ∈ lock.verification.body.blocks, epoch.body.blocks.contains hash = true := by
  have hsound := h.sound
  have hround {lock : TrustedRoundLock W} (hlock : lock ∈ values log.roundLocks) :
      log.roundLocks[log.roundId lock.roundId.round]? = some lock :=
    (hsound.locks.lookup hlock).1 ▸ (hsound.locks.lookup hlock).2
  refine ⟨fun a ha => (hsound.locks.lookup ha).1, ?_, ?_, ?_, ?_, ?_⟩
  · intro a ha b hb heq
    have hsame := hround ha
    rw [heq, hround hb] at hsame
    exact (Option.some.inj hsame).symm
  · obtain ⟨n, hn⟩ := hsound.locks.contiguous
    refine ⟨n, fun k => ?_⟩
    rw [← hn, contains_iff]
    constructor
    · rintro ⟨lock, hlock, rfl⟩
      exact ⟨lock, hround hlock⟩
    · rintro ⟨lock, hlock⟩
      refine ⟨lock, mem_values.mpr ⟨_, hlock⟩, ?_⟩
      rw [(hsound.locks.own _ lock hlock).1]
      rfl
  · intro a ha b hb hle
    exact hsound.locks.grows_le hle (hround ha) (hround hb)
  · intro other hother lock hid hconflict result
    have hthere : log.roundLocks[lock.roundId]? = some other :=
      hid ▸ (hsound.locks.lookup hother).2
    have hrefuses := lockRound_conflict hthere hconflict.symm result
    refine ⟨hrefuses, fun selfPublicKey seeds policy opened hopened => ?_⟩
    rw [openLog_some hopened]
    exact hrefuses
  · intro later hrun lock hlock
    obtain ⟨hlater, hrespects⟩ :=
      respects_of_run hsound (.inl (hsound.locks.lookup hlock).2) hrun
    constructor
    · intro hnone
      rcases hrespects with hstill | ⟨epoch, hepoch, -⟩
      · exact mem_values.mpr ⟨_, hstill⟩
      · rw [hnone] at hepoch
        cases hepoch
    · intro epoch hepoch
      rcases hrespects with hstill | ⟨epoch', hepoch', hblocks⟩
      · have hnonce : lock.roundId.nonce = later.head.1 + 1 := by
          rw [(hlater.locks.own _ lock hstill).2]
          rfl
        have hle := (hlater.epochs.nonce_eq _ epoch hepoch).2
        omega
      · cases hepoch.symm.trans hepoch'
        exact hblocks

open MemberWord in
theorem second_candidate_refused :
    ∃ log : TrustedEpochLog MemberWord, log.Reached ∧
      log.roundLocks.contains (MemberWord.lock [2]).roundId = true ∧
      ∀ result, log.lockRound (MemberWord.lock [2]) ≠ .ok result := by
  have hrun : (do
      let first ← openLog none (key 1) [genesis] .disabled
      first.1.lockRound (MemberWord.lock [1]) : Result (TrustedEpochLog MemberWord)).isOk = true := by
    decide +kernel
  obtain ⟨log, hlog⟩ := exists_of_isOk hrun
  obtain ⟨first, hopen, hlock⟩ := bind_eq_ok.mp hlog
  have hreached : log.Reached :=
    ⟨_, _, _, first, hopen, .single ⟨.lockRound (MemberWord.lock [1]), hlock⟩⟩
  obtain ⟨other, hother, hblocks⟩ : ∃ other,
      log.roundLocks[(MemberWord.lock [1]).roundId]? = some other ∧
        other.verification.body.blocks = (MemberWord.lock [1]).verification.body.blocks := by
    rcases lockRound_cases hlock with ⟨rfl, hthere⟩ | ⟨-, rfl⟩
    · exact hthere
    · exact ⟨_, lookup_insert_eq_some.mpr (.inl ⟨rfl, rfl⟩), rfl⟩
  have hmem : other ∈ values log.roundLocks := mem_values.mpr ⟨_, hother⟩
  have hid : (MemberWord.lock [2]).roundId = other.roundId :=
    (hreached.sound.locks.own _ other hother).1.symm
  refine ⟨log, hreached, contains_iff.mpr ⟨other, hother⟩, fun result => ?_⟩
  refine ((round_locks_durable hreached).2.2.2.2.1 other hmem _ hid ?_ result).1
  rw [hblocks]
  decide +kernel

end TrustedEpochLog

end Blossom
