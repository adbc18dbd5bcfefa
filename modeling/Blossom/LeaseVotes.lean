import Blossom.LeaseReplays

/-!
# Votes for membership leases

A verifier signs at most one statement for a challenge while that statement is valid. What it has
signed it keeps as a watermark in memory, and a snapshot has the watermarks of the moment at which
it is written.
-/

namespace Blossom

open CheckedSteps OrderedMap StatefulSteps

variable {W : Type}
variable {more signed : List (MembershipLeaseStatement W)} {watermark : MembershipLeaseWatermark W}
  {statement : MembershipLeaseStatement W}

structure LeaseSigner (W : Type) where
  publicKey : W
  sign : List (Field W) → Signature W

variable [ProtocolCrypto W]

namespace SnapshotSource

def membershipLeaseStatement (s : SnapshotSource W) (request : MembershipLeaseRequest W)
    (nowUnixMillis : ℕ) : Result (MembershipLeaseStatement W) := do
  reject (request.validForMillis = 0 ∨ maxMembershipLeaseMillis < request.validForMillis)
    (invalidConfiguration "membership lease duration is outside the supported bound")
  let head ← require s.epochchain.getLast? (.error .emptyEpochChain)
  let statement : MembershipLeaseStatement W := ⟨s.groupId, head.hash, head.body.nonce,
    head.body.members.hash, request.challenge, request.issuedAtUnixMillis, request.validForMillis⟩
  let _ ← statement.remainingValidityAt nowUnixMillis
  pure statement

/-- The checks of `vote_membership_lease` before the watermarks: the statement, its expiry and the
signer. -/
def leaseToSign (s : SnapshotSource W) (signer : Option (LeaseSigner W))
    (request : MembershipLeaseRequest W) (nowUnixMillis : ℕ) :
    Result (MembershipLeaseStatement W × ℕ × LeaseSigner W) := do
  let statement ← s.membershipLeaseStatement request nowUnixMillis
  let signer ← require signer (.error .missingSecretKey)
  let head ← require s.epochchain.getLast? (.error .emptyEpochChain)
  reject (¬head.body.verifiers.contains signer.publicKey) (.error .unknownSender)
  let expires ← statement.expiresAtUnixMillis
  pure (statement, expires, signer)

def retainWatermarks (s : SnapshotSource W) (nowUnixMillis : ℕ) : SnapshotSource W :=
  { s with membershipLeaseWatermarks := s.membershipLeaseWatermarks.filter fun _ watermark =>
      decide (nowUnixMillis < watermark.expiresAtUnixMillis) }

def recordWatermark (watermarks : BTreeMap W (MembershipLeaseWatermark W))
    (statement : MembershipLeaseStatement W) (expires : ℕ) :
    Result (BTreeMap W (MembershipLeaseWatermark W)) :=
  match watermarks[statement.challenge]? with
  | some previous => do
    reject (previous.statementHash ≠ statement.hash) (invalidConfiguration
      "membership lease challenge was already signed for a different statement")
    pure watermarks
  | none => pure (watermarks.insert statement.challenge ⟨statement.hash, expires⟩)

/-- `NodeRuntime::vote_membership_lease`, which reads the wall clock twice. -/
def voteMembershipLease (signer : Option (LeaseSigner W)) (request : MembershipLeaseRequest W)
    (nowUnixMillis laterUnixMillis : ℕ) :
    Action (SnapshotSource W) Failure (MembershipLeaseVote W) := do
  let (statement, expires, signer) ← reading (·.leaseToSign signer request nowUnixMillis)
  modify (·.retainWatermarks laterUnixMillis)
  let s ← get
  let watermarks ← check (recordWatermark s.membershipLeaseWatermarks statement expires)
  set { s with membershipLeaseWatermarks := watermarks }
  pure ⟨statement, signer.publicKey, signer.sign statement.signingFields⟩

variable {s s' : SnapshotSource W} {signer : Option (LeaseSigner W)}
  {request : MembershipLeaseRequest W} {now later : ℕ}

theorem lookup_retainWatermarks {challenge : W} :
    (s.retainWatermarks now).membershipLeaseWatermarks[challenge]? = some watermark ↔
      s.membershipLeaseWatermarks[challenge]? = some watermark ∧
        now < watermark.expiresAtUnixMillis := by
  rw [retainWatermarks, Std.ExtTreeMap.getElem?_filter']
  simp [Option.filter_eq_some_iff]

theorem leaseToSign_eq_ok {expires : ℕ} {own : LeaseSigner W}
    (h : s.leaseToSign signer request now = .ok (statement, expires, own)) :
    expires = statement.expiry := by
  simp only [leaseToSign, bind_eq_ok, ↓guard_bind_eq_ok, require_eq_ok, pure_eq_ok] at h
  obtain ⟨_, -, _, -, _, -, -, _, hexp, heq⟩ := h
  cases heq
  exact MembershipLeaseStatement.expiresAtUnixMillis_eq_ok hexp

theorem recordWatermark_eq_ok {watermarks marked : BTreeMap W (MembershipLeaseWatermark W)}
    {expires : ℕ} (h : recordWatermark watermarks statement expires = .ok marked) :
    (∃ previous, watermarks[statement.challenge]? = some previous ∧
      previous.statementHash = statement.hash ∧ marked = watermarks) ∨
    (watermarks[statement.challenge]? = none ∧
      marked = watermarks.insert statement.challenge ⟨statement.hash, expires⟩) := by
  unfold recordWatermark at h
  split at h
  next previous hprev =>
    simp only [↓guard_bind_eq_ok, reject_eq_ok, not_not, pure_eq_ok] at h
    exact .inl ⟨previous, hprev, h.1, h.2.symm⟩
  next hnone =>
    cases h
    exact .inr ⟨hnone, rfl⟩

theorem voteMembershipLease_spec {vote : MembershipLeaseVote W}
    (h : voteMembershipLease signer request now later s = .ok vote s') :
    ∃ watermarks, recordWatermark (s.retainWatermarks later).membershipLeaseWatermarks
        vote.statement vote.statement.expiry = .ok watermarks ∧
      s' = { s with membershipLeaseWatermarks := watermarks } := by
  obtain ⟨⟨statement, expires, own⟩, s₁, hread, h⟩ := bind_returns.mp h
  obtain ⟨hsign, rfl⟩ := reading_returns.mp hread
  obtain rfl := leaseToSign_eq_ok hsign
  obtain ⟨watermarks, s₂, hrec, h⟩ := bind_returns (s := s₁.retainWatermarks later)
    (m := check (recordWatermark (s₁.retainWatermarks later).membershipLeaseWatermarks statement
      statement.expiry)).mp h
  obtain ⟨hmarks, rfl⟩ := check_returns.mp hrec
  cases h
  exact ⟨watermarks, hmarks, rfl⟩

theorem voteMembershipLease_refused {e : Failure}
    (h : voteMembershipLease signer request now later s = .error e s') :
    s' = s ∨ s' = s.retainWatermarks later := by
  rcases bind_fails.mp h with hread | ⟨⟨statement, expires, own⟩, s₁, hread, hrest⟩
  · exact .inl (reading_fails.mp hread).2
  · obtain ⟨-, rfl⟩ := reading_returns.mp hread
    rcases bind_fails (s := s₁.retainWatermarks later)
      (m := check (recordWatermark (s₁.retainWatermarks later).membershipLeaseWatermarks statement
        expires)).mp hrest with hrec | ⟨_, _, -, hset⟩
    · exact .inr (check_fails.mp hrec).2
    · cases hset

/-- A snapshot brings back the watermarks that were written and have not expired. -/
theorem lookup_restoreWatermarks_image {challenge : W} :
    (restoreWatermarks (s.image now) later)[challenge]? = some watermark ↔
      s.membershipLeaseWatermarks[challenge]? = some watermark ∧
        now < watermark.expiresAtUnixMillis ∧ later < watermark.expiresAtUnixMillis := by
  let written := s.membershipLeaseWatermarks.toList.filter fun entry =>
    decide (now < entry.2.expiresAtUnixMillis)
  have hkeys : written.Pairwise fun a b => a.1 ≠ b.1 :=
    (pairwise_toList_ne s.membershipLeaseWatermarks).filter _
  have hexpiries : ∀ entry ∈ written, (Std.ExtTreeMap.ofList
      (s.image now).membershipLeaseWatermarkExpiries compare)[entry.1]? =
        some entry.2.expiresAtUnixMillis := by
    intro entry hent
    change (Std.ExtTreeMap.ofList (written.map fun entry =>
      (entry.1, entry.2.expiresAtUnixMillis)) compare)[entry.1]? = _
    refine (lookup_ofList_iff ?_).mpr (List.mem_map_of_mem hent)
    exact List.pairwise_map.mpr hkeys
  -- Every watermark that was written finds its own expiry again.
  have hread : restoreWatermarks (s.image now) later = .ofList (written.filter fun entry =>
      decide (later < entry.2.expiresAtUnixMillis)) compare := by
    rw [restoreWatermarks]
    congr 2
    change (written.map fun entry => (entry.1, entry.2.statementHash)).map _ = written
    rw [List.map_map]
    refine (List.map_congr_left fun entry hent => ?_).trans (List.map_id written)
    simp [hexpiries entry hent]
  rw [hread, lookup_ofList_iff (hkeys.filter _)]
  simp [written, and_comm]

end SnapshotSource

/-! ### Runs with restarts -/

/-- A verifier with its last snapshot, the time, and the statements it has signed. -/
structure LeaseVoter (W : Type) [LinearOrder W] where
  source : SnapshotSource W
  disk : Option (RuntimeSnapshotV1 W)
  now : ℕ
  signed : List (MembershipLeaseStatement W)

inductive LeaseEvent where
  | vote | commit | persist | restart
  deriving DecidableEq

namespace LeaseVoter

open SnapshotSource

variable [EpochCodec W]

/-- The steps of a verifier. The clock does not go back, an epoch may be committed at any moment, and
a crash is the restart that follows it. -/
inductive Step (signer : Option (LeaseSigner W)) :
    LeaseEvent → LeaseVoter W → LeaseVoter W → Prop
  | vote {v : LeaseVoter W} {request : MembershipLeaseRequest W} {now later : ℕ}
      {vote : MembershipLeaseVote W} {source : SnapshotSource W} : v.now ≤ now → now ≤ later →
      voteMembershipLease signer request now later v.source = .ok vote source →
      Step signer .vote v ⟨source, v.disk, later, v.signed ++ [vote.statement]⟩
  | refuse {v : LeaseVoter W} {request : MembershipLeaseRequest W} {now later : ℕ} {e : Failure}
      {source : SnapshotSource W} : v.now ≤ now → now ≤ later →
      voteMembershipLease signer request now later v.source = .error e source →
      Step signer .vote v ⟨source, v.disk, later, v.signed⟩
  | commit {v : LeaseVoter W} (epoch : Epoch W) :
      Step signer .commit v { v with source :=
        { v.source with epochchain := v.source.epochchain ++ [epoch] } }
  | persist {v : LeaseVoter W} {now : ℕ} {snapshot : RuntimeSnapshotV1 W} : v.now ≤ now →
      v.source.snapshot now = .ok snapshot →
      Step signer .persist v ⟨v.source.retainWatermarks now, some snapshot, now, v.signed⟩
  | restart {v : LeaseVoter W} {now : ℕ} {snapshot : RuntimeSnapshotV1 W}
      {config : RestoredConfig W} : v.now ≤ now → v.disk = some snapshot →
      RestoredConfig.fromSnapshot snapshot v.source.selfNode now = .ok config →
      Step signer .restart v ⟨config.source, v.disk, now, v.signed⟩

def Saved (v : LeaseVoter W) (now : ℕ) : Prop :=
  ∀ snapshot, v.disk = some snapshot → ∀ st ∈ v.signed, now < st.expiry →
    (st.challenge, st.hash) ∈ snapshot.membershipLeaseWatermarks

/-- A run in which every restart finds the unexpired watermarks in the last snapshot. -/
inductive SavedRun (signer : Option (LeaseSigner W)) : LeaseVoter W → LeaseVoter W → Prop
  | refl (v : LeaseVoter W) : SavedRun signer v v
  | step {v₀ v v' : LeaseVoter W} {event : LeaseEvent} : SavedRun signer v₀ v →
      Step signer event v v' → (event = .restart → v.Saved v'.now) → SavedRun signer v₀ v'

def OnlySigned (signed : List (MembershipLeaseStatement W))
    (watermarks : BTreeMap W (MembershipLeaseWatermark W)) : Prop :=
  ∀ (challenge : W) (watermark : MembershipLeaseWatermark W),
    watermarks[challenge]? = some watermark →
      ∃ st ∈ signed, st.challenge = challenge ∧ watermark = ⟨st.hash, st.expiry⟩

structure Sound (v : LeaseVoter W) : Prop where
  marked : ∀ st ∈ v.signed, v.now < st.expiry →
    v.source.membershipLeaseWatermarks[st.challenge]? = some ⟨st.hash, st.expiry⟩
  signed : OnlySigned v.signed v.source.membershipLeaseWatermarks
  disk : ∀ snapshot, v.disk = some snapshot → ∃ (s : SnapshotSource W) (written : ℕ),
    snapshot = s.image written ∧ OnlySigned v.signed s.membershipLeaseWatermarks

def Fresh (v : LeaseVoter W) : Prop :=
  v.source.membershipLeaseWatermarks = ∅ ∧ v.disk = none ∧ v.signed = []

variable {signer : Option (LeaseSigner W)} {v v₀ v' : LeaseVoter W} {now later : ℕ}

section

omit [EpochCodec W]

theorem OnlySigned.mono {watermarks : BTreeMap W (MembershipLeaseWatermark W)}
    (h : OnlySigned signed watermarks) (hsub : signed ⊆ more) : OnlySigned more watermarks := by
  intro challenge watermark hmark
  obtain ⟨st, hst, heq⟩ := h challenge watermark hmark
  exact ⟨st, hsub hst, heq⟩

theorem OnlySigned.retain {s : SnapshotSource W}
    (h : OnlySigned signed s.membershipLeaseWatermarks) :
    OnlySigned signed (s.retainWatermarks now).membershipLeaseWatermarks := by
  intro challenge watermark hmark
  exact h challenge watermark (lookup_retainWatermarks.mp hmark).1

variable {request : MembershipLeaseRequest W} {vote : MembershipLeaseVote W}
  {source : SnapshotSource W} {st : MembershipLeaseStatement W}

/-- A watermark of a statement that is still valid is not forgotten. -/
theorem Sound.retained (h : v.Sound) (hst : st ∈ v.signed) (hnow : v.now ≤ now)
    (hlive : now < st.expiry) :
    (v.source.retainWatermarks now).membershipLeaseWatermarks[st.challenge]? =
      some ⟨st.hash, st.expiry⟩ :=
  lookup_retainWatermarks.mpr ⟨h.marked st hst (hnow.trans_lt hlive), hlive⟩

/-- A verifier signs no second statement for the challenge of one that is still valid. -/
theorem Sound.vote_unique (hinj : HashInjective W) (h : v.Sound) (hnow : v.now ≤ later)
    (hvote : voteMembershipLease signer request now later v.source = .ok vote source)
    (hst : st ∈ v.signed) (hsame : st.challenge = vote.statement.challenge)
    (hlive : later < st.expiry) : st = vote.statement := by
  obtain ⟨watermarks, hrec, -⟩ := voteMembershipLease_spec hvote
  have hmark := h.retained hst hnow hlive
  rw [hsame] at hmark
  rcases recordWatermark_eq_ok hrec with ⟨previous, hprev, hhash, -⟩ | ⟨hnone, -⟩
  · cases hmark.symm.trans hprev
    exact MembershipLeaseStatement.hash_injective hinj hhash
  · cases hmark.symm.trans hnone

theorem Sound.voted (hinj : HashInjective W) (h : v.Sound) (hnow : v.now ≤ later)
    (hvote : voteMembershipLease signer request now later v.source = .ok vote source) :
    Sound ⟨source, v.disk, later, v.signed ++ [vote.statement]⟩ := by
  have hunique : ∀ st ∈ v.signed, st.challenge = vote.statement.challenge → later < st.expiry →
      st = vote.statement := fun st => h.vote_unique hinj hnow hvote
  obtain ⟨watermarks, hrec, rfl⟩ := voteMembershipLease_spec hvote
  have hsub : v.signed ⊆ v.signed ++ [vote.statement] := List.subset_append_left _ _
  have hret : OnlySigned (v.signed ++ [vote.statement])
      (v.source.retainWatermarks later).membershipLeaseWatermarks := h.signed.retain.mono hsub
  have hdisk : ∀ snapshot, v.disk = some snapshot → ∃ (s : SnapshotSource W) (written : ℕ),
      snapshot = s.image written ∧
        OnlySigned (v.signed ++ [vote.statement]) s.membershipLeaseWatermarks := by
    intro snapshot hsnap
    obtain ⟨s, written, himage, honly⟩ := h.disk snapshot hsnap
    exact ⟨s, written, himage, honly.mono hsub⟩
  rcases recordWatermark_eq_ok hrec with ⟨previous, hprev, hhash, rfl⟩ | ⟨hnone, rfl⟩
  · refine ⟨fun st hst hlive => ?_, hret, hdisk⟩
    rcases List.mem_append.mp hst with hst | hst
    · exact h.retained hst hnow hlive
    · -- The watermark is of an earlier statement with the same hash, which is the same statement.
      cases List.mem_singleton.mp hst
      obtain ⟨earlier, -, -, rfl⟩ := h.signed.retain _ _ hprev
      rw [MembershipLeaseStatement.hash_injective hinj hhash] at hprev
      exact hprev
  · refine ⟨fun st hst hlive => ?_, fun challenge watermark hmark => ?_, hdisk⟩
    · rw [lookup_insert]
      split
      next hsame =>
        rcases List.mem_append.mp hst with hst | hst
        · rw [hunique st hst hsame.symm hlive]
        · rw [List.mem_singleton.mp hst]
      next hne =>
        rcases List.mem_append.mp hst with hst | hst
        · exact h.retained hst hnow hlive
        · rw [List.mem_singleton.mp hst] at hne
          exact absurd rfl hne
    · rw [lookup_insert] at hmark
      split at hmark
      next hsame =>
        cases hmark
        exact ⟨vote.statement, by simp, hsame, rfl⟩
      next => exact hret challenge watermark hmark

end

theorem Sound.restart (hinj : HashInjective W) (h : v.Sound) {snapshot : RuntimeSnapshotV1 W}
    {config : RestoredConfig W} (hsaved : v.Saved now) (hdisk : v.disk = some snapshot)
    (hrst : RestoredConfig.fromSnapshot snapshot v.source.selfNode now = .ok config) :
    Sound ⟨config.source, v.disk, now, v.signed⟩ := by
  obtain ⟨s, written, rfl, honly⟩ := h.disk snapshot hdisk
  obtain ⟨-, genesis, -, latest, -, book, -, rfl⟩ := fromSnapshot_eq_ok.mp hrst
  refine ⟨fun st hst hlive => ?_, fun challenge watermark hmark => ?_, h.disk⟩
  · -- The snapshot has a watermark of this statement, hence with its expiry.
    have hwritten := hsaved _ hdisk st hst hlive
    simp only [image, List.mem_map, List.mem_filter, decide_eq_true_eq, Prod.mk.injEq] at hwritten
    obtain ⟨⟨challenge, watermark⟩, ⟨hent, hvalid⟩, rfl, hhash⟩ := hwritten
    have hmark := Std.ExtTreeMap.mem_toList_iff_getElem?_eq_some.mp hent
    obtain ⟨earlier, -, -, rfl⟩ := honly _ _ hmark
    cases MembershipLeaseStatement.hash_injective hinj hhash
    exact lookup_restoreWatermarks_image.mpr ⟨hmark, hvalid, hlive⟩
  · exact honly challenge watermark (lookup_restoreWatermarks_image.mp hmark).1

theorem Sound.step (hinj : HashInjective W) {event : LeaseEvent} (h : v.Sound)
    (hstep : Step signer event v v') (hsaved : event = .restart → v.Saved v'.now) : v'.Sound := by
  cases hstep with
  | vote hnow hlater hvote => exact h.voted hinj (hnow.trans hlater) hvote
  | refuse hnow hlater hrefused =>
    have hle := hnow.trans hlater
    rcases voteMembershipLease_refused hrefused with rfl | rfl
    · exact ⟨fun st hst hlive => h.marked st hst (hle.trans_lt hlive), h.signed, h.disk⟩
    · exact ⟨fun st hst hlive => h.retained hst hle hlive, h.signed.retain, h.disk⟩
  | commit epoch => exact ⟨h.marked, h.signed, h.disk⟩
  | persist hnow hsnap =>
    refine ⟨fun st hst hlive => h.retained hst hnow hlive, h.signed.retain, ?_⟩
    rintro _ ⟨⟩
    exact ⟨v.source, _, (snapshot_eq_ok.mp hsnap).2.symm, h.signed⟩
  | restart hnow hdisk hrst => exact h.restart hinj (hsaved rfl) hdisk hrst

omit [EpochCodec W] in
theorem Fresh.sound (h : v.Fresh) : v.Sound := by
  obtain ⟨hmarks, hdisk, hsig⟩ := h
  refine ⟨by simp [hsig], fun challenge watermark hmark => ?_, by simp [hdisk]⟩
  rw [hmarks] at hmark
  simp at hmark

theorem SavedRun.sound (hinj : HashInjective W) (hstart : v₀.Fresh) (h : SavedRun signer v₀ v) :
    v.Sound := by
  induction h with
  | refl => exact hstart.sound
  | step _ hstep hsaved ih => exact ih.step hinj hstep hsaved

/-- As long as every restart finds the unexpired watermarks in the last snapshot, a verifier never
signs two statements for one challenge while the first is valid. -/
theorem one_statement_per_challenge (hinj : HashInjective W) (hstart : v₀.Fresh)
    (hrun : SavedRun signer v₀ v) {request : MembershipLeaseRequest W}
    {vote : MembershipLeaseVote W} {source : SnapshotSource W} (hnow : v.now ≤ now)
    (hlater : now ≤ later)
    (hvote : voteMembershipLease signer request now later v.source = .ok vote source)
    {st : MembershipLeaseStatement W} (hst : st ∈ v.signed)
    (hsame : st.challenge = vote.statement.challenge) (hlive : later < st.expiry) :
    st = vote.statement :=
  (hrun.sound hinj hstart).vote_unique hinj (hnow.trans hlater) hvote hst hsame hlive

end LeaseVoter

namespace MemberWord

def leaseSigner : LeaseSigner MemberWord := ⟨key 1, sign 1⟩

def leaseRequest (validForMillis : ℕ) : MembershipLeaseRequest MemberWord :=
  ⟨key 7, 1000, validForMillis⟩

def leaseStatement (validForMillis : ℕ) : MembershipLeaseStatement MemberWord :=
  ⟨default, genesis.hash, 0, genesis.body.members.hash, key 7, 1000, validForMillis⟩

def leaseVoter : LeaseVoter MemberWord := ⟨runtime 1, none, 1000, []⟩

/-- What a verifier does that votes, restarts from a snapshot and votes again. -/
structure RestartedVote where
  first : MembershipLeaseVote MemberWord
  source : SnapshotSource MemberWord
  snapshot : RuntimeSnapshotV1 MemberWord
  config : RestoredConfig MemberWord
  second : MembershipLeaseVote MemberWord
  last : SnapshotSource MemberWord

def ask (validForMillis : ℕ) :
    Action (SnapshotSource MemberWord) Failure (MembershipLeaseVote MemberWord) :=
  SnapshotSource.voteMembershipLease (some leaseSigner) (leaseRequest validForMillis) 1000 1000

section

variable (s : SnapshotSource MemberWord)
  (persisted : SnapshotSource MemberWord → Result (RuntimeSnapshotV1 MemberWord)) (again : ℕ)

/-- The snapshot is taken of the state after the first vote or of an earlier one. -/
def restartedVote : Option RestartedVote :=
  match ask 30000 s with
  | .error _ _ => none
  | .ok first source =>
    match persisted source with
    | .error _ => none
    | .ok snapshot =>
      match RestoredConfig.fromSnapshot snapshot source.selfNode 1000 with
      | .error _ => none
      | .ok config =>
        match ask again config.source with
        | .error _ _ => none
        | .ok second last => some ⟨first, source, snapshot, config, second, last⟩

theorem exists_restartedVote (P : RestartedVote → Prop) [DecidablePred P]
    (h : (restartedVote s persisted again).any (fun r => decide (P r)) = true) :
    ∃ r, P r ∧ ask 30000 s = .ok r.first r.source ∧ persisted r.source = .ok r.snapshot ∧
      RestoredConfig.fromSnapshot r.snapshot r.source.selfNode 1000 = .ok r.config ∧
      ask again r.config.source = .ok r.second r.last := by
  obtain ⟨r, hr, hP⟩ := (Option.any_eq_true _ _).mp h
  refine ⟨r, of_decide_eq_true hP, ?_⟩
  unfold restartedVote at hr
  repeat' split at hr
  all_goals cases hr
  refine ⟨?_, ?_, ?_, ?_⟩ <;> assumption

end

end MemberWord

open MemberWord in
/-- A verifier that crashes after a vote signs another statement for the same challenge when it is
back, although the first is valid for another thirty seconds. -/
theorem LeaseVoter.restarted_verifier_signs_again :
    ∃ v : LeaseVoter MemberWord, leaseVoter.Fresh ∧
      Relation.ReflTransGen (fun a b => ∃ event, Step (some leaseSigner) event a b) leaseVoter v ∧
      v.signed = [leaseStatement 30000, leaseStatement 20000] ∧
      v.now < (leaseStatement 30000).expiry := by
  -- the verifier has persisted its state before the first vote
  obtain ⟨r, ⟨hfirst, hsecond⟩, hvote, hsnapshot, hconfig, hagain⟩ := exists_restartedVote
    ((runtime 1).retainWatermarks 1000) (fun _ => (runtime 1).snapshot 1000) 20000
    (fun r => r.first.statement = leaseStatement 30000 ∧ r.second.statement = leaseStatement 20000)
    (by decide +kernel)
  refine ⟨_, ⟨rfl, rfl, rfl⟩, .tail (.tail (.tail (.single ⟨_, .persist le_rfl hsnapshot⟩)
    ⟨_, .vote le_rfl le_rfl hvote⟩) ⟨_, .restart le_rfl rfl hconfig⟩)
    ⟨_, .vote le_rfl le_rfl hagain⟩, ?_, ?_⟩
  · rw [hfirst, hsecond]
    rfl
  · change 1000 < 31000
    decide

open MemberWord in
/-- A verifier that has persisted its vote signs the same statement after a restart. -/
theorem LeaseVoter.vote_after_restart_agrees :
    ∃ (v : LeaseVoter MemberWord) (vote : MembershipLeaseVote MemberWord)
        (source : SnapshotSource MemberWord),
      SavedRun (some leaseSigner) leaseVoter v ∧ v.disk.isSome = true ∧
      leaseStatement 30000 ∈ v.signed ∧
      SnapshotSource.voteMembershipLease (some leaseSigner) (leaseRequest 30000) 1000 1000 v.source =
        .ok vote source ∧ leaseStatement 30000 = vote.statement := by
  obtain ⟨r, ⟨hfirst, hsecond, hsaved⟩, hvote, hsnapshot, hconfig, hagain⟩ :=
    exists_restartedVote (runtime 1) (·.snapshot 1000) 30000
    (fun r => r.first.statement = leaseStatement 30000 ∧ r.second.statement = leaseStatement 30000 ∧
      (r.first.statement.challenge, r.first.statement.hash) ∈ r.snapshot.membershipLeaseWatermarks)
    (by decide +kernel)
  have hrun : SavedRun (some leaseSigner) leaseVoter
      ⟨r.config.source, some r.snapshot, 1000, [r.first.statement]⟩ :=
    .step (.step (.step (.refl _) (.vote le_rfl le_rfl hvote) (by simp))
      (.persist le_rfl hsnapshot) (by simp)) (.restart le_rfl rfl hconfig)
      fun _ snapshot hdisk st hst _ => by
        cases hdisk
        cases List.mem_singleton.mp hst
        exact hsaved
  rw [hfirst] at hrun
  have hinj : HashInjective MemberWord := NumberWord.hash_injective
  have hlive : 1000 < (leaseStatement 30000).expiry := by decide
  exact ⟨_, r.second, r.last, hrun, rfl, List.mem_singleton_self _, hagain,
    one_statement_per_challenge hinj ⟨rfl, rfl, rfl⟩ hrun le_rfl le_rfl hagain
      (List.mem_singleton_self _) (congrArg (·.challenge) hsecond.symm) hlive⟩

end Blossom
