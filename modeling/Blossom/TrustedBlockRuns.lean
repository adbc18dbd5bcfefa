import Blossom.TrustedLogRuns
import Blossom.NodeRuntime

/-!
# A member's own block

A block that a trusted log has taken stays in it until an epoch commits it. While other epochs are
appended it is sealed again for the new head, with the same transactions, so it has a version for
every head it has waited at.
-/

namespace Blossom

open CheckedSteps OrderedMap Relation

variable {W : Type} [ProtocolCrypto W]
variable {appended : List (Epoch W)} {next v : Block W}

namespace TrustedEpochLog

variable {log log' : TrustedEpochLog W}

def pending (log : TrustedEpochLog W) : Option (Block W) := log.localBlocks[log.head.1 + 1]?

/-- The versions of a block after a call: the latest one, and the ones before it. While the latest
one is pending, what is pending after the call is its next version. -/
def follow (log log' : TrustedEpochLog W) (versions : Block W × List (Block W)) :
    Block W × List (Block W) :=
  if log.pending = some versions.1 then
    match log'.pending with
    | some next => if next = versions.1 then versions else (next, versions.1 :: versions.2)
    | none => versions
  else versions

section Follow

variable {log log' : TrustedEpochLog W} {versions : Block W × List (Block W)}

theorem follow_of_pending (h : log.pending = some versions.1) (hnext : log'.pending = some next) :
    log.follow log' versions =
      if next = versions.1 then versions else (next, versions.1 :: versions.2) := by
  rw [follow, if_pos h, hnext]

theorem follow_of_none (h : log'.pending = none) : log.follow log' versions = versions := by
  rw [follow, h, ite_self]

theorem follow_of_not_pending (h : log.pending ≠ some versions.1) :
    log.follow log' versions = versions := if_neg h

end Follow

/-- The versions of a block since the log has taken it. The first one is the block, or what the log
has had under the same hash. -/
inductive Tracks [EpochCodec W] (block : Block W) :
    TrustedEpochLog W → Block W × List (Block W) → Prop
  | persisted {log log' : TrustedEpochLog W} : log.Reached →
      log.persistLocalBlock block = .ok log' → Tracks block log' (log'.pending.getD block, [])
  | step {log log' : TrustedEpochLog W} {versions : Block W × List (Block W)} :
      Tracks block log versions → Steps log log' → Tracks block log' (log.follow log' versions)

def CommitsAt (log : TrustedEpochLog W) (block : Block W) (n : ℕ) : Prop :=
  ∃ epoch, log.epochs[n]? = some epoch ∧ epoch.body.previousNonce.isSome = true ∧
    epoch.body.blocks.contains block.hash = true

variable {block : Block W} {versions : Block W × List (Block W)}

structure TracksSound (block : Block W) (log : TrustedEpochLog W)
    (versions : Block W × List (Block W)) : Prop where
  contents : ∀ v ∈ versions.1 :: versions.2, v.body.txs = block.body.txs ∧
    v.body.bodyHash = v.hash
  older : ∀ v ∈ versions.2, v.body.nonce < versions.1.body.nonce ∧
    v.body.nonce ≤ log.head.1 ∧ ¬log.CommitsAt v v.body.nonce
  latest : log.pending = some versions.1 ∨
    versions.1.body.nonce ≤ log.head.1 ∧ log.CommitsAt versions.1 versions.1.body.nonce

theorem bodyHash_of_intact {hash : W} (h : block.verifyUnsignedIntegrityWithHash hash = .ok ()) :
    block.body.bodyHash = hash := by
  simp only [Block.verifyUnsignedIntegrityWithHash, ↓guard_bind_eq_ok, reject_eq_ok, not_or,
    not_not] at h
  exact h.2.2.2.1.2

theorem CommitsAt.nonce_eq (hinj : HashInjective W) (h : log.EpochsSound)
    (hhash : block.body.bodyHash = block.hash) {n : ℕ} (hcommits : log.CommitsAt block n) :
    n = block.body.nonce := by
  obtain ⟨epoch, hepoch, hsome, hcont⟩ := hcommits
  obtain ⟨found, hfound⟩ := contains_iff.mp hcont
  obtain ⟨hnonce, hintact⟩ := h.own_blocks n epoch hepoch hsome _ found hfound
  have hsame : found.body = block.body := by
    refine BlockBody.bodyHash_injective hinj ?_
    rw [hhash]
    exact bodyHash_of_intact hintact
  rw [← hsame, hnonce, (h.nonce_eq n epoch hepoch).1]

theorem CommitsAt.append (happ : log.Appends log' appended) (h : log.EpochsSound) {n : ℕ}
    (hcommits : log.CommitsAt block n) : log'.CommitsAt block n := by
  obtain ⟨epoch, hepoch, hrest⟩ := hcommits
  exact ⟨epoch, (happ.lookup h).1 n epoch hepoch, hrest⟩

theorem commitsAt_append_of_le (happ : log.Appends log' appended) {n : ℕ} (hn : n ≤ log.head.1) :
    log'.CommitsAt block n ↔ log.CommitsAt block n := by
  unfold CommitsAt
  rw [happ.lookup_of_le hn]

/-- A call that appends nothing neither moves the head nor drops the pending block. -/
structure Idles (log log' : TrustedEpochLog W) : Prop where
  epochs_eq : log'.epochs = log.epochs
  head_eq : log'.head = log.head
  pending_eq : ∀ v, log.pending = some v → log'.pending = some v

theorem idles_or_appends [EpochCodec W] (hsteps : Steps log log') :
    log.Idles log' ∨ ∃ appended, log.Appends log' appended := by
  rcases steps_cases hsteps with rfl | ⟨lock, hlock, rfl⟩ | ⟨own, hper⟩ | happends
  · exact .inl ⟨rfl, rfl, fun _ hv => hv⟩
  · exact .inl ⟨rfl, rfl, fun _ hv => hv⟩
  · left
    rcases persistLocalBlock_cases hper with ⟨rfl, -⟩ | ⟨-, -, -, hnonce, hnew, rfl⟩
    · exact ⟨rfl, rfl, fun _ hv => hv⟩
    · refine ⟨rfl, rfl, fun v hv => ?_⟩
      rw [hnonce] at hnew
      rw [pending, hnew] at hv
      cases hv
  · exact .inr happends

theorem pending_append (h : log.Sound) (happ : log.Appends log' appended)
    (hv : log.pending = some v) :
    (log'.pending = none ∧ log'.CommitsAt v v.body.nonce) ∨
      (¬log'.CommitsAt v v.body.nonce ∧ ∃ next, log'.pending = some next ∧
        next.body.txs = v.body.txs ∧ next.body.nonce = log'.head.1 + 1 ∧
        next.body.bodyHash = next.hash) := by
  obtain ⟨last, hlast, hhead, hrel⟩ := happ.last
  have hlater := happ.head_lt
  rw [hhead] at hlater
  obtain ⟨-, hnonce, -, hself, hintact⟩ := h.blocks _ v hv
  obtain ⟨-, first, hfirst, hlook⟩ := happ.lookup h.epochs
  obtain ⟨first', hfirst', hfirstnonce, -⟩ := happ.first
  cases hfirst.symm.trans hfirst'
  have hmem := List.mem_of_mem_head? hfirst
  -- Only the first appended epoch is for the block.
  have hcommits : Commits appended v ↔ log'.CommitsAt v v.body.nonce := by
    constructor
    · rintro ⟨epoch, hepoch, hn, hcont⟩
      obtain rfl : epoch = first :=
        happ.chain.eq_of_eq hepoch hmem (hn.trans (hnonce.trans hfirstnonce.symm))
      rw [hnonce]
      exact ⟨epoch, hlook, (happ.own_blocks epoch hepoch).1, hcont⟩
    · rintro ⟨epoch, hepoch, -, hcont⟩
      rw [hnonce, hlook] at hepoch
      cases hepoch
      exact ⟨first, hmem, hfirstnonce.trans hnonce.symm, hcont⟩
  rcases releaseLocalBlocks_spec h.blocks hlater hrel with ⟨hnone, -⟩ |
    ⟨own, hown, ⟨hcommitted, hres⟩ | ⟨hkept, hres⟩⟩
  · rw [pending, hnone] at hv
    simp at hv
  · cases hv.symm.trans hown
    refine .inl ⟨?_, hcommits.mp hcommitted⟩
    rw [pending, hres]
    simp
  · cases hv.symm.trans hown
    refine .inr ⟨fun hcommitted => hkept (hcommits.mpr hcommitted), log.retryBlock v last, ?_, rfl,
      ?_, bodyHash_of_intact (retryBlock_spec last hself hintact).2⟩
    · rw [pending, hres, hhead, lookup_insert, if_pos rfl]
    · rw [hhead]
      rfl

theorem tracksSound_step [EpochCodec W] (hsound : log.Sound)
    (h : TracksSound block log versions) (hsteps : Steps log log') :
    TracksSound block log' (log.follow log' versions) := by
  rcases idles_or_appends hsteps with hidle | ⟨appended, happ⟩
  · have hsame : log.follow log' versions = versions := by
      by_cases hpend : log.pending = some versions.1
      · rw [follow_of_pending hpend (hidle.pending_eq _ hpend), if_pos rfl]
      · exact follow_of_not_pending hpend
    have hcommits {v : Block W} {n : ℕ} : log'.CommitsAt v n ↔ log.CommitsAt v n := by
      unfold CommitsAt
      rw [hidle.epochs_eq]
    rw [hsame]
    refine ⟨h.contents, fun v hv => ?_, ?_⟩
    · rw [hidle.head_eq, hcommits]
      exact h.older v hv
    · rw [hidle.head_eq, hcommits]
      exact h.latest.imp_left (hidle.pending_eq _)
  · have hlater := happ.head_lt
    have holder : ∀ v ∈ versions.2, v.body.nonce < versions.1.body.nonce ∧
        v.body.nonce ≤ log'.head.1 ∧ ¬log'.CommitsAt v v.body.nonce := by
      intro v hv
      obtain ⟨hlt, hle, hout⟩ := h.older v hv
      refine ⟨hlt, by omega, ?_⟩
      rw [commitsAt_append_of_le happ hle]
      exact hout
    by_cases hpend : log.pending = some versions.1
    · obtain ⟨-, hnonce, -⟩ := hsound.blocks _ _ hpend
      rcases pending_append hsound happ hpend with ⟨hnone, hcommitted⟩ |
        ⟨hout, next, hnext, htxs, hnextnonce, hhash⟩
      · rw [follow_of_none hnone]
        exact ⟨h.contents, holder, .inr ⟨by omega, hcommitted⟩⟩
      · have hne : next ≠ versions.1 := by
          rintro rfl
          omega
        rw [follow_of_pending hpend hnext, if_neg hne]
        have hmore : versions.1.body.nonce < next.body.nonce := by omega
        refine ⟨?_, ?_, .inl hnext⟩
        · intro v hv
          rcases List.mem_cons.mp hv with rfl | hv
          · exact ⟨htxs.trans (h.contents _ List.mem_cons_self).1, hhash⟩
          · exact h.contents v hv
        · intro v hv
          rcases List.mem_cons.mp hv with rfl | hv
          · exact ⟨hmore, by omega, hout⟩
          · obtain ⟨hlt, hle, hvout⟩ := holder v hv
            exact ⟨hlt.trans hmore, hle, hvout⟩
    · rw [follow_of_not_pending hpend]
      obtain ⟨hle, hcommitted⟩ := h.latest.resolve_left hpend
      exact ⟨h.contents, holder, .inr ⟨by omega, hcommitted.append happ hsound.epochs⟩⟩

theorem pending_persist (hinj : HashInjective W) (h : log.BlocksSound)
    (hper : log.persistLocalBlock block = .ok log') :
    ∃ kept, log'.pending = some kept ∧ kept.body = block.body ∧ kept.hash = block.hash ∧
      block.body.bodyHash = block.hash := by
  rcases persistLocalBlock_cases hper with ⟨rfl, hintact, hnonce, existing, hthere, hsame⟩ |
    ⟨-, hintact, -, hnonce, -, rfl⟩
  · have hhash := bodyHash_of_intact hintact
    have hpend := hthere
    rw [hnonce] at hpend
    refine ⟨existing, hpend, BlockBody.bodyHash_injective hinj ?_, hsame, hhash⟩
    obtain ⟨-, -, -, -, hex⟩ := h _ existing hthere
    rw [bodyHash_of_intact hex, hsame, hhash]
  · exact ⟨block, (lookup_insert ..).trans (if_pos hnonce), rfl, rfl, bodyHash_of_intact hintact⟩

theorem tracksSound_of_tracks [EpochCodec W] (hinj : HashInjective W)
    (h : Tracks block log versions) : log.Sound ∧ TracksSound block log versions := by
  induction h with
  | @persisted log log' hreach hper =>
    have hsound := hreach.sound
    obtain ⟨kept, hkept, hbody, hhash, hown⟩ := pending_persist hinj hsound.blocks hper
    rw [hkept]
    refine ⟨sound_steps hsound ⟨.persistLocalBlock block, hper⟩, ?_,
      (fun _ hnone => nomatch hnone), .inl hkept⟩
    intro v hv
    rw [List.mem_singleton.mp hv, Option.getD_some, hbody, hhash]
    exact ⟨rfl, hown⟩
  | step _ hstep ih => exact ⟨sound_steps ih.1 hstep, tracksSound_step ih.1 ih.2 hstep⟩

theorem BlocksSound.toList_eq (h : log.BlocksSound) (hv : log.pending = some v) :
    log.localBlocks.toList = [(log.head.1 + 1, v)] := by
  rcases h.cases with hnone | ⟨own, hown⟩
  · rw [pending, hnone] at hv
    simp at hv
  · rw [pending, hown, lookup_insert, if_pos rfl] at hv
    cases hv
    rw [hown, toList_insert_last (fun _ _ hnone => by simp at hnone)]
    simp

theorem pendingLocalBlock_of_pending (h : log.Sound) (hv : log.pending = some v) :
    log.pendingLocalBlock = .ok (some v) := by
  obtain ⟨epoch, hepoch, hhash⟩ := h.epochs.head
  obtain ⟨hnonce, -⟩ := h.epochs.nonce_eq _ epoch hepoch
  obtain ⟨-, hvnonce, hlast, hself, hintact⟩ := h.blocks _ v hv
  have hhead : log.loadHeadEpoch = .ok epoch := by
    simp only [loadHeadEpoch, ↓guard_bind_eq_ok, bind_eq_ok, require_eq_ok, reject_eq_ok,
      pure_eq_ok, not_or, not_not]
    exact ⟨epoch, hepoch, ⟨hhash, hnonce⟩, rfl⟩
  rw [pending, ← hnonce] at hv
  rw [pendingLocalBlock, bind_eq_ok]
  refine ⟨epoch, hhead, ?_⟩
  rw [hv]
  simp only [↓guard_bind_eq_ok, reject_eq_ok, pure_eq_ok, not_or, not_not]
  exact ⟨⟨hself, hhash ▸ hlast, hnonce ▸ hvnonce⟩, hintact, trivial⟩

omit [ProtocolCrypto W] in
theorem reconcile_some {queue : LocalBlock W} (hcap : 0 < queue.blockCap) (v : Block W) :
    queue.reconcileDurablePendingBlock (some v) = .ok { queue with blockDeque := [v] } := by
  simp only [LocalBlock.reconcileDurablePendingBlock, LocalBlock.enqueuePreverifiedBlock,
    LocalBlock.ensureEnqueueable, ↓guard_bind_eq_ok, reject_eq_ok, pure_eq_ok]
  refine ⟨⟨?_, ?_⟩, rfl⟩
  · rintro ⟨queued, hqueued, -⟩
    cases hqueued
  · exact not_le.mpr hcap

variable [EpochCodec W]

/-- A block that the log has taken is the only pending one, for the current head and with the same
transactions, and no epoch has any of its versions; or exactly one epoch has exactly one of its
versions, which is the last. -/
theorem local_block_kept_once (hinj : HashInjective W) (h : Tracks block log versions) :
    (∀ v ∈ versions.1 :: versions.2, v.body.txs = block.body.txs) ∧
    ((log.localBlocks.toList = [(log.head.1 + 1, versions.1)] ∧
        versions.1.body.lastEpoch = log.head.2 ∧ versions.1.body.nonce = log.head.1 + 1 ∧
        log.pendingLocalBlock = .ok (some versions.1) ∧
        (∀ queue : LocalBlock W, 0 < queue.blockCap →
          queue.reconcileDurablePendingBlock (some versions.1) =
            .ok { queue with blockDeque := [versions.1] }) ∧
        ∀ v ∈ versions.1 :: versions.2, ∀ n, ¬log.CommitsAt v n) ∨
      (log.pending ≠ some versions.1 ∧ ∃ n, log.CommitsAt versions.1 n ∧
        ∀ v ∈ versions.1 :: versions.2, ∀ n', log.CommitsAt v n' → v = versions.1 ∧ n' = n)) := by
  obtain ⟨hsound, htracks⟩ := tracksSound_of_tracks hinj h
  have hat {v : Block W} (hv : v ∈ versions.1 :: versions.2) {n : ℕ}
      (hcommits : log.CommitsAt v n) : n = v.body.nonce ∧ v = versions.1 := by
    have hn := hcommits.nonce_eq hinj hsound.epochs (htracks.contents v hv).2
    refine ⟨hn, ?_⟩
    rcases List.mem_cons.mp hv with rfl | hold
    · rfl
    · exact absurd (hn ▸ hcommits) (htracks.older v hold).2.2
  refine ⟨fun v hv => (htracks.contents v hv).1, ?_⟩
  by_cases hpending : log.pending = some versions.1
  · left
    obtain ⟨-, hnonce, hlast, -⟩ := hsound.blocks _ _ hpending
    refine ⟨hsound.blocks.toList_eq hpending, hlast, hnonce,
      pendingLocalBlock_of_pending hsound hpending, fun _ hcap => reconcile_some hcap _, ?_⟩
    intro v hv n hcommits
    obtain ⟨rfl, rfl⟩ := hat hv hcommits
    obtain ⟨epoch, hepoch, -⟩ := hcommits
    have hle := (hsound.epochs.nonce_eq _ epoch hepoch).2
    omega
  · right
    obtain ⟨-, hcommitted⟩ := htracks.latest.resolve_left hpending
    refine ⟨hpending, _, hcommitted, fun v hv n' hcommits => ?_⟩
    obtain ⟨rfl, rfl⟩ := hat hv hcommits
    exact ⟨rfl, rfl⟩

open MemberWord in
theorem left_out_block_waits :
    ∃ (log : TrustedEpochLog MemberWord) (versions : Block MemberWord × List (Block MemberWord)),
      Tracks (MemberWord.block [1]) log versions ∧
        log.localBlocks.toList = [(log.head.1 + 1, versions.1)] ∧
        versions.1.body.txs = (MemberWord.block [1]).body.txs ∧
        log.pendingLocalBlock = .ok (some versions.1) ∧ ∀ n, ¬log.CommitsAt versions.1 n := by
  have hrun : (do
      let first ← openLog none (key 1) [genesis] .disabled
      let taken ← first.1.persistLocalBlock (MemberWord.block [1])
      let log ← taken.appendSuffix [prepared [2]]
      reject (taken.pending.isNone = true ∨ log.pending.isNone = true) (.error .duplicateBlock)
      pure log : Result (TrustedEpochLog MemberWord)).isOk = true := by
    decide +kernel
  obtain ⟨log, hlog⟩ := exists_of_isOk hrun
  simp only [bind_eq_ok, ↓guard_bind_eq_ok, reject_eq_ok, pure_eq_ok, not_or,
    Option.isNone_iff_eq_none, ← Option.isSome_iff_ne_none, Option.isSome_iff_exists] at hlog
  obtain ⟨first, hopen, taken, htaken, log, happend, ⟨⟨own, hown⟩, next, hnext⟩, rfl⟩ := hlog
  have hreached : first.1.Reached := ⟨_, _, _, first, hopen, .refl⟩
  have htracks := (Tracks.persisted hreached htaken).step ⟨.appendSuffix [prepared [2]], happend⟩
  have hlatest : (taken.follow log (taken.pending.getD (MemberWord.block [1]), [])).1 = next := by
    rw [follow_of_pending (by rw [hown, Option.getD_some]) hnext]
    split
    next heq => exact heq.symm
    next => rfl
  have hinj : HashInjective MemberWord := NumberWord.hash_injective
  obtain ⟨hcontents, ⟨htable, -, -, hpending, -, hout⟩ | ⟨hnot, -⟩⟩ :=
    local_block_kept_once hinj htracks
  · exact ⟨log, _, htracks, htable, hcontents _ List.mem_cons_self, hpending,
      hout _ List.mem_cons_self⟩
  · rw [hlatest] at hnot
    exact absurd hnext hnot

end TrustedEpochLog

end Blossom
