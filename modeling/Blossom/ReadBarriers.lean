import Blossom.OrderedAgreement

/-!
# Linearizable reads

A reader sends a new challenge, and a supermajority of the validators signs its tail for it.
The reader then applies its own order up to that tail. The tail covers what was finalized
anywhere before the challenge if the validators that sign it have installed what they have
voted for; the engine does not require this of them.
-/

namespace Blossom

open CheckedSteps OrderedMap OrderedImage MajorityQuorum GlobalOrderedEngine

variable {W : Type} [ProtocolCrypto W]
variable {k p position rounds target watermark : ℕ} {all completions : List (AppliedCompletion W)}
  {t : CommitteeTransitionCertificate W} {e : GlobalOrderedEngine W}

structure CertifiedReadBarrier (W : Type) [LinearOrder W] where
  challenge : List UInt8
  certificate : ReadBarrierCertificate W

inductive ReadConsistency where
  | localRead
  | atLeast (watermark : ℕ)
  | linearizable

namespace GlobalOrderedEngine

def acquireReadBarrier (e : GlobalOrderedEngine W) (barrier : CertifiedReadBarrier W) :
    Result ℕ := do
  barrier.certificate.verify barrier.challenge e.validatorGeneration e.validators
  let statement := barrier.certificate.statement
  let scope ← require e.store.protocolScope (invalidConfiguration
    "read barriers require a bound cluster and consensus-group scope")
  reject (scope ≠ (statement.clusterId, statement.consensusGroupId) ∨
    statement.routeGeneration ≠ e.routeGeneration ∨
    statement.commandSpecVersion ≠ e.commandSpecVersion) (invalidConfiguration
    "read-barrier scope or application contract does not match this engine")
  let localTail ← e.validatedLocalOrderTail
  reject (localTail ≠ (statement.position, statement.orderCertificateHash)) (invalidConfiguration
    "local finality chain has not caught up to the fresh consensus read barrier")
  pure statement.position

/-- The loop of `apply_through_to`. Every round applies one position, so the distance to the
target bounds the number of rounds. -/
def applyRounds (application : OrderedBatch W → Result (List (List UInt8))) (io : ℕ → Bool)
    (target : ℕ) : ℕ → GlobalOrderedEngine W → List (AppliedCompletion W) →
    Outcome W (ApplyProgress W)
  | 0, e, all => (.ok (.applied e.appliedWatermark all), e)
  | rounds + 1, e, all =>
    if target ≤ e.appliedWatermark then (.ok (.applied e.appliedWatermark all), e)
    else match e.applyContiguousTo application (io rounds) with
      | (.error f, e) => (.error f, e)
      | (.ok (.applied watermark completions), e) =>
        if completions.isEmpty ∧ watermark < target then (.error (.error .failedConsensus), e)
        else applyRounds application io target rounds e (all ++ completions)
      | (.ok (.headOfLineUnavailable watermark blocked), e) =>
        (.ok (.headOfLineUnavailable watermark blocked), e)

def applyThroughTo (e : GlobalOrderedEngine W) (target : ℕ)
    (application : OrderedBatch W → Result (List (List UInt8))) (io : ℕ → Bool) :
    Outcome W (ApplyProgress W) :=
  applyRounds application io target (target - e.appliedWatermark) e []

section

variable (e : GlobalOrderedEngine W) (consistency : ReadConsistency)
  (linearizableBarrier : Option (CertifiedReadBarrier W))

def requiredWatermark : Result (Option ℕ) :=
  match consistency with
  | .localRead => pure none
  | .atLeast watermark => pure (some watermark)
  | .linearizable => do
    let barrier ← require linearizableBarrier (invalidConfiguration
      "linearizable Blossom read requires a fresh certified read barrier")
    let position ← e.acquireReadBarrier barrier
    pure (some position)

/-- The text of the last error is kept without the hash of the blocked reference. -/
def satisfyReadConsistencyTo (application : OrderedBatch W → Result (List (List UInt8)))
    (io : ℕ → Bool) : Outcome W ℕ :=
  match e.requiredWatermark consistency linearizableBarrier with
  | .error f => (.error f, e)
  | .ok none => (.ok e.appliedWatermark, e)
  | .ok (some required) =>
    match e.applyThroughTo required application io with
    | (.error f, e) => (.error f, e)
    | (.ok (.applied watermark _), e) =>
      if required ≤ watermark then (.ok e.appliedWatermark, e)
      else (.error (.error .failedConsensus), e)
    | (.ok (.headOfLineUnavailable ..), e) =>
      (.error (invalidConfiguration "read blocked by unavailable reference"), e)

end

variable {e e' : GlobalOrderedEngine W} {log : List (OrderCertificate W)}
  {application : OrderedBatch W → Result (List (List UInt8))} {io : ℕ → Bool}

theorem applyContiguousTo_next (hlog : e.image.Represents log)
    (hroom : e.appliedWatermark < maxCounter) {ok : Bool}
    (h : e.applyContiguousTo application ok = (.ok (.applied watermark completions), e')) :
    watermark = e'.appliedWatermark ∧ (e' = e ∧ completions = [] ∨
      e'.appliedWatermark = e.appliedWatermark + 1) := by
  dsimp only [applyContiguousTo] at h
  split at h
  · cases h
  · cases h
    exact ⟨rfl, .inl ⟨rfl, rfl⟩⟩
  · next c availability hnext =>
    obtain ⟨hc, -⟩ := nextToApply_eq_some hnext
    rw [min_eq_left (by omega)] at hc
    have hpos : c.statement.position = e.appliedWatermark + 1 := by
      obtain ⟨i, hi, hlook⟩ := hlog.finalized.eq_some hc
      rw [hi]
      exact (hlog.chain.entry hlook).1
    split at h
    · cases h
    · cases h
    · split at h
      · cases h
      · unfold GlobalOrderedEngine.commit at h
        split at h
        · cases h
        · cases h
          exact ⟨rfl, .inr hpos⟩

/-- The rounds of the loop suffice: it stops at the target, or where a call fails or is blocked. -/
theorem applyRounds_spec (hd : e.Durable) (hlog : ∃ log, e.image.Represents log)
    (hroom : target ≤ maxCounter) (hrounds : target ≤ e.appliedWatermark + rounds)
    (h : applyRounds application io target rounds e all = (.ok (.applied watermark completions), e')) :
    watermark = e'.appliedWatermark ∧ target ≤ watermark := by
  induction rounds generalizing e all with
  | zero =>
    cases h
    exact ⟨rfl, hrounds⟩
  | succ rounds ih =>
    rw [applyRounds] at h
    split_ifs at h with hdone
    · cases h
      exact ⟨rfl, hdone⟩
    · split at h
      · cases h
      · next applied new e₁ hcall =>
        split_ifs at h with hstuck
        · cases h
        · obtain ⟨log, hlog⟩ := hlog
          have hsteps : Steps False False e (e.applyContiguousTo application (io rounds)).2 :=
            applyContiguousTo_steps application (io rounds) False.elim
          rw [hcall] at hsteps
          have heffect : Effect False e e₁ := hsteps.effect hd
          obtain ⟨rfl, hnext⟩ := applyContiguousTo_next hlog (by omega) hcall
          have hmoved : e₁.appliedWatermark = e.appliedWatermark + 1 := by
            refine hnext.resolve_left ?_
            rintro ⟨rfl, rfl⟩
            exact hstuck ⟨rfl, by omega⟩
          exact ih heffect.durable (heffect.advances.represents hlog) (by omega) h
      · cases h

theorem acquireReadBarrier_spec (hlog : e.image.Represents log) (hc : e.Certified)
    {b : CertifiedReadBarrier W} (h : e.acquireReadBarrier b = .ok position) :
    b.certificate.verify b.challenge e.validatorGeneration e.validators = .ok () ∧
      position = b.certificate.statement.position ∧ position = e.lastFinalizedPosition := by
  rw [acquireReadBarrier, validatedLocalOrderTail_eq hlog hc] at h
  simp only [↓guard_bind_eq_ok, bind_eq_ok, reject_eq_ok, not_not, pure_eq_ok,
    Except.ok.injEq] at h
  obtain ⟨hverify, scope, -, -, tail, rfl, htail, rfl⟩ := h
  exact ⟨hverify, rfl, (congrArg Prod.fst htail).symm⟩

/-- A linearizable read succeeds with a barrier for the tail of the engine, when the engine has
applied its whole order. -/
theorem satisfyReadConsistencyTo_spec (hd : e.Durable) (hlog : e.image.Represents log)
    (hc : e.Certified) {barrier : Option (CertifiedReadBarrier W)}
    (h : e.satisfyReadConsistencyTo .linearizable barrier application io = (.ok watermark, e')) :
    ∃ b, barrier = some b ∧
      b.certificate.verify b.challenge e.validatorGeneration e.validators = .ok () ∧
      b.certificate.statement.position = e.lastFinalizedPosition ∧
      e.lastFinalizedPosition ≤ watermark ∧ watermark = e'.appliedWatermark := by
  unfold satisfyReadConsistencyTo at h
  split at h
  · cases h
  · next hreq =>
    rw [requiredWatermark] at hreq
    simp only [bind_eq_ok, pure_eq_ok, reduceCtorEq, and_false, exists_false] at hreq
  · next required hreq =>
    rw [requiredWatermark] at hreq
    simp only [bind_eq_ok, require_eq_ok, pure_eq_ok, Option.some.injEq] at hreq
    obtain ⟨b, hb, position, hpos, rfl⟩ := hreq
    obtain ⟨hverify, rfl, hlast⟩ := acquireReadBarrier_spec hlog hc hpos
    have hlen : e.lastFinalizedPosition = log.length := hlog.last
    have hbound := hlog.bounded
    split at h
    · cases h
    · next applied completions e₁ happly =>
      obtain ⟨rfl, htgt⟩ := applyRounds_spec hd ⟨log, hlog⟩ (by omega) (by omega) happly
      split_ifs at h
      cases h
      exact ⟨b, hb, hverify, hlast, hlast ▸ htgt, rfl⟩
    · cases h

theorem exists_finalized (hlog : e.image.Represents log) (hpos : 0 < p)
    (hp : p ≤ e.lastFinalizedPosition) : ∃ d, e.finalized[p]? = some d := by
  obtain ⟨i, rfl⟩ := Nat.exists_eq_add_one_of_ne_zero hpos.ne'
  have hlast : e.lastFinalizedPosition = log.length := hlog.last
  exact ⟨_, (hlog.finalized.lookup_succ i).trans (List.getElem?_eq_getElem (by omega))⟩

theorem Step.transitions {fresh room : Prop} (hs : Step fresh room e e')
    (h : e.store.committeeTransitions[k]? = some t) :
    e'.store.committeeTransitions[k]? = some t := by
  cases hs with
  | bind | keep | touch | offer | order | apply | contract => exact h
  | committee d check known =>
    change (e.store.committeeTransitions.insert d.statement.nextValidatorGeneration d)[k]? = some t
    rw [lookup_insert]
    split_ifs with heq
    · subst heq
      rw [known t h]
    · exact h

end GlobalOrderedEngine

namespace OrderedNetwork

open CommitteeOrder

/-- A participant signs its tail only when it has not voted for another committee in this
generation, and has installed the positions of this generation that it has voted for. -/
def ReadsWithCare (N : OrderedNetwork W) (v : W) : NetworkAction W → Prop
  | .voteForReadBarrier .. =>
    match (N.validators v).node with
    | .stopped _ => True
    | .running e =>
      (N.validators v).votes.committeeTransitionVotes[e.validatorGeneration]? = none ∧
        ∀ key ∈ (N.validators v).votes.orderVotes.keys,
          (ofLex (ofLex key).2).1 = e.validatorGeneration →
            (ofLex (ofLex key).2).2 ≤ e.lastFinalizedPosition
  | _ => True

variable {S : OrderedSetting W} {N N' earlier : OrderedNetwork W} {v w : W}
  {challenge : List UInt8}

/-- The tails of the validators that have answered a challenge, against the votes of an earlier
network: the positions that they had voted for are not behind their tails, they had not voted
for another committee, and their tails are past the boundaries of the committees before. -/
structure Answers (S : OrderedSetting W) (earlier N : OrderedNetwork W)
    (barrier : ReadBarrierStatement W) (u : W) : Prop where
  order_le : ∀ vote ∈ earlier.orderVotes, vote.validator = u →
    vote.statement.validatorGeneration = barrier.validatorGeneration →
    vote.statement.position ≤ barrier.position
  unmoved : ∀ move ∈ earlier.transitionVotes, move.validator = u →
    move.statement.previousValidatorGeneration ≠ barrier.validatorGeneration
  passed : ∀ n, S.genesis.generation ≤ n → n < barrier.validatorGeneration →
    ∃ t, (N.storeOf u).committeeTransitions[n + 1]? = some t ∧
      t.statement.activatedAt ≤ barrier.position

structure Follows (S : OrderedSetting W) (earlier : OrderedNetwork W) (challenge : List UInt8)
    (N : OrderedNetwork W) : Prop where
  orders : ∀ vote ∈ earlier.orderVotes, vote ∈ N.orderVotes
  moves : ∀ vote ∈ earlier.transitionVotes, vote ∈ N.transitionVotes
  transitions : ∀ u, S.honest u = true → ∀ (k : ℕ) t,
    (earlier.storeOf u).committeeTransitions[k]? = some t →
    (N.storeOf u).committeeTransitions[k]? = some t
  answers : ∀ vote ∈ N.barrierVotes, S.honest vote.validator = true →
    vote.statement.challenge = challenge → Answers S earlier N vote.statement vote.validator

theorem follows_refl (hfresh : ∀ vote ∈ N.barrierVotes, vote.statement.challenge ≠ challenge) :
    Follows S N challenge N :=
  ⟨fun _ h => h, fun _ h => h, fun _ _ _ _ h => h,
    fun vote hvote _ hchal => absurd hchal (hfresh vote hvote)⟩

theorem Follows.mono (h : Follows S earlier challenge N)
    (horders : ∀ vote ∈ N.orderVotes, vote ∈ N'.orderVotes)
    (hmoves : ∀ vote ∈ N.transitionVotes, vote ∈ N'.transitionVotes)
    (htrans : ∀ u, S.honest u = true → ∀ (k : ℕ) t,
      (N.storeOf u).committeeTransitions[k]? = some t →
      (N'.storeOf u).committeeTransitions[k]? = some t)
    (hanswers : ∀ vote ∈ N'.barrierVotes, S.honest vote.validator = true →
      vote ∈ N.barrierVotes ∨ Answers S earlier N vote.statement vote.validator) :
    Follows S earlier challenge N' := by
  refine ⟨fun vote hvote => horders vote (h.orders vote hvote),
    fun vote hvote => hmoves vote (h.moves vote hvote),
    fun u hu k t ht => htrans u hu k t (h.transitions u hu k t ht),
    fun vote hvote honest hchal => ?_⟩
  have hold : Answers S earlier N vote.statement vote.validator :=
    (hanswers vote hvote honest).elim (fun hold => h.answers vote hold honest hchal) id
  refine ⟨hold.order_le, hold.unmoved, fun n hle hlt => ?_⟩
  obtain ⟨t, ht, hbnd⟩ := hold.passed n hle hlt
  exact ⟨t, htrans _ honest _ t ht, hbnd⟩

variable [ReferenceCodec W]

theorem transitions_perform (h : Chained S N v) (op : OrderedOperation W)
    (ht : (N.storeOf v).committeeTransitions[k]? = some t) :
    (op.perform (N.validators v).node).store.committeeTransitions[k]? = some t := by
  obtain ⟨hdur, hlog⟩ := h.reaches.represents
  exact (h.reaches.kept.perform False False (E := fun _ => True)
    (Q := fun s => s.committeeTransitions[k]? = some t) hdur hlog
    (fun _ _ => ⟨False.elim, False.elim⟩) (fun _ _ hs => hs)
    (fun hstep _ _ _ _ _ hs => ⟨trivial, hstep.transitions hs⟩) (fun _ _ => trivial) ht).2

def tails : Tails (ReadBarrierStatement W) where
  generation := ReadBarrierStatement.validatorGeneration
  position := ReadBarrierStatement.position

def answered (N : OrderedNetwork W) (challenge : List UInt8) (u : W) (r : ReadBarrierStatement W) :
    Prop :=
  ∃ vote ∈ N.barrierVotes, vote.validator = u ∧ vote.statement = r ∧ r.challenge = challenge

theorem Follows.reading (h : Follows S earlier challenge N) (hsound : Sound S N) :
    Reading S.protocol earlier.ballots N.ballots S.genesis.generation
      (members S.genesis.validators) tails (N.answered challenge) where
  order_le u st r honest := by
    rintro ⟨order, horder, hu, rfl⟩ ⟨vote, hvote, rfl, rfl, hchal⟩ heq
    exact (h.answers vote hvote honest hchal).order_le order horder hu heq
  unmoved u st r honest := by
    rintro ⟨move, hmove, hu, rfl⟩ ⟨vote, hvote, rfl, rfl, hchal⟩
    exact (h.answers vote hvote honest hchal).unmoved move hmove hu
  reached u r honest := by
    rintro ⟨vote, hvote, rfl, rfl, hchal⟩
    have hchained := hsound.chained vote.validator honest
    refine ⟨view S N vote.validator, hchained.valid, fun n hle hlt => ?_⟩
    obtain ⟨t, ht, hbnd⟩ := (h.answers vote hvote honest hchal).passed n hle hlt
    obtain ⟨m, hm, -, hprev, validators, hcommittee, hsig⟩ :=
      hchained.succeeds.replaced _ t ht
    obtain rfl : m = n := by omega
    exact ⟨t.statement, members validators, ⟨validators, hcommittee, rfl⟩, hprev,
      OrderedSetting.backed hsig (hchained.transitions _ t ht), hbnd⟩

theorem Chained.current (h : Chained S N v) (he : (N.validators v).node = .running e) :
    (view S N v).committee e.validatorGeneration (members e.validators) := by
  obtain ⟨⟨c, hstored⟩, -, hengine⟩ := h.engine he
  have hcur := committee_eq_some (h.governed e he) (h.reaches.certified e he).known.current
  refine ⟨e.validators, ?_, rfl⟩
  rw [hengine, hstored.transitions]
  exact hcur

variable [SecretSigner W]

theorem answers_voteForReadBarrier {votes' : VoteTables W} {io : Bool} {vote : ReadBarrierVote W}
    (h : Chained S N v) (hc : Careful S N v) (hfol : Follows S earlier challenge N)
    (he : (N.validators v).node = .running e) {asked : List UInt8}
    (hcare : ReadsWithCare N v (.voteForReadBarrier asked io))
    (hvote : e.voteForReadBarrier (N.validators v).votes asked io = .ok (vote, votes')) :
    Answers S earlier N vote.statement v := by
  obtain ⟨hst, -, -, -⟩ := voteForReadBarrier_spec hvote
  obtain ⟨-, log, hlog⟩ := h.reaches.represents
  rw [he] at hlog
  obtain ⟨hgen, hpos⟩ : vote.statement.validatorGeneration = e.validatorGeneration ∧
      vote.statement.position = e.lastFinalizedPosition := by
    rw [readBarrierStatement, validatedLocalOrderTail_eq hlog (h.reaches.certified e he)] at hst
    simp only [bind_eq_ok, pure_eq_ok, Except.ok.injEq] at hst
    obtain ⟨tail, rfl, scope, -, hst⟩ := hst
    rw [← hst]
    exact ⟨rfl, rfl⟩
  rw [ReadsWithCare, he] at hcare
  obtain ⟨hunmoved, hinst⟩ := hcare
  refine ⟨fun order horder hv heq => ?_, fun move hmove hv heq => ?_, fun n hle hlt => ?_⟩
  · have hlocked := hc.orderLocked order (hfol.orders order horder) hv
    rw [hpos]
    refine hinst order.statement.voteKey ?_ (heq.trans hgen)
    rw [Std.ExtTreeMap.mem_keys, Std.ExtTreeMap.mem_iff_isSome_getElem?, hlocked]
    rfl
  · have hlocked := hc.transitionLocked move (hfol.moves move hmove) hv
    rw [heq, hgen, hunmoved] at hlocked
    cases hlocked
  · obtain ⟨⟨c, hstored⟩, hdur, hengine⟩ := h.engine he
    have hsucc := h.succeeds
    rw [hengine, succeeds_iff hstored hdur (h.governed e he)] at hsucc
    obtain ⟨t, ht, hbnd, -⟩ := hsucc.passed n hle (by omega)
    rw [hengine, hstored.transitions, hpos]
    exact ⟨t, ht, hbnd⟩

theorem follows_perform (hsound : Sound S N) (h : Follows S earlier challenge N)
    {action : NetworkAction W} (hgenuine : S.Genuine N v action)
    (hcare : ReadsWithCare N v action) : Follows S earlier challenge (N.perform v action) := by
  have hv := hgenuine.1
  have hsame {votes : VoteTables W} (u : W) : (N.withVotes v votes).storeOf u = N.storeOf u := by
    rcases eq_or_ne u v with rfl | hne
    · exact congrArg OrderedNode.store (withVotes_node u votes)
    · exact congrArg (fun validator : OrderedValidator W => validator.node.store)
        (Function.update_of_ne hne ..)
  cases action with
  | call op =>
    refine h.mono (fun _ hvote => hvote) (fun _ hvote => hvote) (fun u hu k t ht => ?_)
      fun _ hvote _ => .inl hvote
    rcases eq_or_ne u v with rfl | hne
    · have hval : (N.perform u (.call op)).validators u =
          ⟨op.perform (N.validators u).node, (N.validators u).votes⟩ := Function.update_self ..
      rw [storeOf, hval]
      exact transitions_perform (hsound.chained u hu) op ht
    · have hstore : (N.perform v (.call op)).storeOf u = N.storeOf u :=
        congrArg (fun validator : OrderedValidator W => validator.node.store)
          (Function.update_of_ne hne ..)
      rw [hstore]
      exact ht
  | voteForEpoch epoch io =>
    dsimp only [perform]
    split
    · exact h
    · split
      · exact h
      · next vote votes' _ =>
        exact h.mono (fun _ hold => List.mem_append_left _ hold) (fun _ hold => hold)
          (fun u _ k t ht => (hsame u).symm ▸ ht) fun _ hold _ => .inl hold
  | voteForTransition st io =>
    dsimp only [perform]
    split
    · exact h
    · split
      · exact h
      · next vote votes' _ =>
        exact h.mono (fun _ hold => hold) (fun _ hold => List.mem_append_left _ hold)
          (fun u _ k t ht => (hsame u).symm ▸ ht) fun _ hold _ => .inl hold
  | voteForReadBarrier asked io =>
    dsimp only [perform]
    split
    · exact h
    · next e he =>
      split
      · exact h
      · next vote votes' hvote =>
        have hchained := hsound.chained v hv
        have hhold : vote.validator = v :=
          (voteForReadBarrier_spec hvote).2.1.trans (hchained.holder_eq he)
        refine h.mono (fun _ hold => hold) (fun _ hold => hold)
          (fun u _ k t ht => (hsame u).symm ▸ ht) fun other hother _ => ?_
        rcases List.mem_append.mp hother with hold | hnew
        · exact .inl hold
        · rw [List.mem_singleton.mp hnew, hhold]
          exact .inr (answers_voteForReadBarrier hchained (hsound.careful v hv) h he hcare hvote)

def ActsWithCare (N : OrderedNetwork W) (v : W) (action : NetworkAction W) : Prop :=
  VotesWithCare N v action ∧ ReadsWithCare N v action

theorem Leads.follows (hinj : HashInjective W) (h : Leads S ActsWithCare earlier N)
    (hsound : Sound S earlier)
    (hfresh : ∀ vote ∈ earlier.barrierVotes, vote.statement.challenge ≠ challenge) :
    Follows S earlier challenge N := by
  induction h with
  | refl => exact follows_refl hfresh
  | step leads u action genuine careful ih =>
    exact follows_perform (leads.sound hinj (fun _ _ _ hcare => hcare.1) hsound) ih genuine
      careful.2

/-- In every run in which honest participants vote and read with care: what one of them had
finalized before a challenge is not behind a certificate for the challenge that verifies at
another one, and a linearizable read that succeeds there has applied it. -/
theorem linearizable_read_covers (hinj : HashInjective W)
    (hreached : Reached S ActsWithCare earlier)
    (hfresh : ∀ vote ∈ earlier.barrierVotes, vote.statement.challenge ≠ challenge)
    (hleads : Leads S ActsWithCare earlier N) (hfaults : FewFaults S N) (hv : S.honest v = true)
    (hw : S.honest w = true) {p : ℕ} {c : OrderCertificate W}
    (hc : (earlier.validators v).node.image.finalized[p]? = some c) {e : GlobalOrderedEngine W}
    (he : (N.validators w).node = .running e) (b : ReadBarrierCertificate W)
    (hsigned : S.BarrierSigned N.barrierVotes b) :
    (b.verify challenge e.validatorGeneration e.validators = .ok () → p ≤ b.statement.position) ∧
    ∀ application io watermark e',
      e.satisfyReadConsistencyTo .linearizable (some ⟨challenge, b⟩) application io =
        (.ok watermark, e') →
      p ≤ watermark ∧ p ≤ e'.appliedWatermark ∧ ∃ d, e.finalized[p]? = some d ∧
        d.statement.referenceHash = c.statement.referenceHash := by
  obtain ⟨site, storeGeneration, hstart⟩ := hreached
  have hearlier : Sound S earlier :=
    hstart.sound hinj (fun _ _ _ hcare => hcare.1) (sound_start site storeGeneration)
  have hsound : Sound S N := hleads.sound hinj (fun _ _ _ hcare => hcare.1) hearlier
  have hfollows := hleads.follows hinj hearlier hfresh
  have hfaults' : FewFaults S earlier :=
    ⟨hfaults.genesis, fun u hu k t ht => hfaults.later u hu k t (hfollows.transitions u hu k t ht)⟩
  have hchained := hearlier.chained v hv
  have hchained' := hsound.chained w hw
  have horders : ∀ u st, earlier.ballots.orders u st → N.ballots.orders u st := by
    rintro u st ⟨vote, hvote, hspec⟩
    exact ⟨vote, hfollows.orders vote hvote, hspec⟩
  have hmoves : ∀ u st, earlier.ballots.moves u st → N.ballots.moves u st := by
    rintro u st ⟨vote, hvote, hspec⟩
    exact ⟨vote, hfollows.moves vote hvote, hspec⟩
  rw [hchained.finalized_eq] at hc
  have hposition := (hchained.position hc).1
  have hcovers (hverify : b.verify challenge e.validatorGeneration e.validators = .ok ()) :
      p ≤ b.statement.position := by
    rw [ReadBarrierCertificate.verify] at hverify
    simp only [↓guard_bind_eq_ok, reject_eq_ok, not_or, not_not] at hverify
    obtain ⟨⟨hchallenge, hgeneration, -⟩, -, -, -, hsignatures⟩ := hverify
    have hbacked : Backed S.protocol (N.answered challenge) (members e.validators) b.statement := by
      refine OrderedSetting.backed hsignatures fun u hu honest => ?_
      obtain ⟨vote, hvote, hvalidator, hstatement⟩ := hsigned u hu honest
      exact ⟨vote, hvote, hvalidator, hstatement, hchallenge⟩
    have hcommittee := hchained'.current he
    rw [← hgeneration] at hcommittee
    have hle := accepted_le_tail (hsound.disciplined hinj) horders hmoves (hfollows.reading hsound)
      hchained.valid hchained'.valid (hfaults'.trusty hv) (hfaults.trusty hw) ⟨p, c, hc, rfl⟩
      hcommittee hbacked
    exact hposition ▸ hle
  refine ⟨hcovers, fun application io watermark e' hread => ?_⟩
  obtain ⟨hdurable, log, hlog⟩ := hchained'.reaches.represents
  rw [he] at hdurable hlog
  obtain ⟨b', hb, hverify, hlast, hle, rfl⟩ := satisfyReadConsistencyTo_spec
    ⟨hdurable.mirrored, hdurable.started⟩ hlog (hchained'.reaches.certified e he) hread
  cases hb
  have hp := hcovers hverify
  rw [hlast] at hp
  refine ⟨hp.trans hle, hp.trans hle, ?_⟩
  -- The reader has a certificate at the position, and it is for the same reference.
  obtain ⟨d, hd⟩ : ∃ d, e.finalized[p]? = some d :=
    exists_finalized hlog (hchained.position hc).2 hp
  refine ⟨d, hd, ?_⟩
  have hd' : (N.storeOf w).finalizedPositions[p]? = some d := by
    rw [← hchained'.finalized_eq, he]
    exact hd
  have heq := accepted_eq (hsound.disciplined hinj) hchained'.valid
    (hchained.valid.mono horders hmoves) (hfaults.trusty hw) (hfaults'.trusty hv)
    ⟨p, d, hd', rfl⟩ ⟨p, c, hc, rfl⟩ ((hchained'.position hd').1.trans hposition.symm)
  rw [heq]

end OrderedNetwork

namespace VoteSample

open NumberWord OrderedSample

instance (N : OrderedNetwork NumberWord) (v : NumberWord) :
    (action : NetworkAction NumberWord) → Decidable (OrderedNetwork.ReadsWithCare N v action)
  | .voteForReadBarrier .. => by
    unfold OrderedNetwork.ReadsWithCare
    cases (N.validators v).node <;>
      · dsimp only
        infer_instance
  | .call _ | .voteForEpoch .. | .voteForTransition .. => instDecidableTrue

instance (N : OrderedNetwork NumberWord) (v : NumberWord) (action : NetworkAction NumberWord) :
    Decidable (OrderedNetwork.ActsWithCare N v action) :=
  inferInstanceAs (Decidable (VotesWithCare N v action ∧ OrderedNetwork.ReadsWithCare N v action))

def challenge : List UInt8 := [5]

def answered (n : ℕ) : NumberWord × NetworkAction NumberWord :=
  (key n, .voteForReadBarrier challenge true)

def barrier (position : ℕ) (hash : NumberWord) : ReadBarrierCertificate NumberWord :=
  let st : ReadBarrierStatement NumberWord := ⟨key 21, key 22, 0, 1, 1, challenge, position, hash⟩
  ⟨st, .ofList ([2, 3, 4].map fun n =>
    (key n, sign (key n) (ReadBarrierCertificate.signingBytes st))) compare⟩

/-- The validators two to four vote for the first position, and the given engines finalize it. -/
def installed (numbers : List ℕ) : List (NumberWord × NetworkAction NumberWord) :=
  [1, 2, 3, 4].flatMap opened ++ [1, 2, 3, 4].map (offered 0) ++ [2, 3, 4].map ordered ++
    numbers.map finalized

def readAt (b : ReadBarrierCertificate NumberWord) (e : GlobalOrderedEngine NumberWord) :
    Result ℕ × GlobalOrderedEngine NumberWord :=
  e.satisfyReadConsistencyTo .linearizable (some ⟨challenge, b⟩) (fun _ => .ok [[]]) fun _ => true

def reads (b : ReadBarrierCertificate NumberWord) (reader watermark : ℕ)
    (N : OrderedNetwork NumberWord) : Bool :=
  setting.BarrierSigned N.barrierVotes b && match (N.validators (key reader)).node with
    | .stopped _ => false
    | .running e => (readAt b e).1.toOption = some watermark

/-- An engine finalizes the first position, then three validators answer a challenge, and a
participant reads with their answers. -/
theorem exists_read (allowed : OrderedNetwork NumberWord → NumberWord →
      NetworkAction NumberWord → Prop) [∀ N v action, Decidable (allowed N v action)]
    (numbers : List ℕ) (b : ReadBarrierCertificate NumberWord) (reader watermark : ℕ)
    (h : (OrderedNetwork.play setting allowed (installed numbers) first).any (fun N =>
      hasCertificate (certificate 0 [1, 2, 3, 4] [2, 3, 4]) 1 N && N.barrierVotes.isEmpty &&
      (OrderedNetwork.play setting allowed ([2, 3, 4].map answered) N).any
        (reads b reader watermark)) = true) :
    ∃ N N' e e', OrderedNetwork.Reached setting allowed N ∧ N.barrierVotes = [] ∧
      OrderedNetwork.Leads setting allowed N N' ∧
      (N.validators (key 1)).node.image.finalized[1]? =
        some (certificate 0 [1, 2, 3, 4] [2, 3, 4]) ∧
      setting.BarrierSigned N'.barrierVotes b ∧
      (N'.validators (key reader)).node = .running e ∧ readAt b e = (.ok watermark, e') := by
  obtain ⟨N, hplay, hN⟩ := Option.any_eq_true _ _ |>.mp h
  simp only [Bool.and_eq_true, hasCertificate, decide_eq_true_eq, List.isEmpty_iff,
    Option.any_eq_true] at hN
  obtain ⟨⟨hfin, hempty⟩, N', hplay', hreads⟩ := hN
  rw [reads, Bool.and_eq_true, decide_eq_true_eq] at hreads
  obtain ⟨hsig, hread⟩ := hreads
  cases hnode : (N'.validators (key reader)).node with
  | stopped s =>
    rw [hnode] at hread
    cases hread
  | running e =>
    rw [hnode, decide_eq_true_eq] at hread
    cases hres : readAt b e with
    | mk result e' =>
      rw [hres] at hread
      cases result with
      | error f => cases hread
      | ok position =>
        cases hread
        exact ⟨N, N', e, e', ⟨siteOf, fun _ => 1, OrderedNetwork.leads_of_play hplay⟩, hempty,
          OrderedNetwork.leads_of_play hplay', hfin, hsig, hnode, hres⟩

end VoteSample

open VoteSample NumberWord OrderedNetwork in
/-- Without a faulty participant, an engine finalizes the first position. Then the validators that
have voted for it answer a challenge with their empty orders, and a linearizable read
succeeds with nothing applied. -/
theorem linearizable_read_misses :
    ∃ (N N' : OrderedNetwork NumberWord) (v w : NumberWord) (c : OrderCertificate NumberWord)
      (b : ReadBarrierCertificate NumberWord) (e e' : GlobalOrderedEngine NumberWord),
      (∀ u, setting.honest u = true) ∧ Reached setting (fun _ _ _ => True) N ∧
      N.barrierVotes = [] ∧ Leads setting (fun _ _ _ => True) N N' ∧ FewFaults setting N' ∧
      (N.validators v).node.image.finalized[1]? = some c ∧
      (N'.validators w).node = .running e ∧ setting.BarrierSigned N'.barrierVotes b ∧
      b.statement.position = 0 ∧
      e.satisfyReadConsistencyTo .linearizable (some ⟨challenge, b⟩) (fun _ => .ok [[]])
        (fun _ => true) = (.ok 0, e') := by
  obtain ⟨N, N', e, e', hreached, hempty, hleads, hfinalized, hsigned, hnode, hread⟩ :=
    exists_read (fun _ _ _ => True) [1] (barrier 0 default) 4 0 (by decide +kernel)
  exact ⟨N, N', key 1, key 4, _, _, e, e', fun _ => rfl, hreached, hempty, hleads, fewFaults N',
    hfinalized, hnode, hsigned, rfl, hread⟩

open VoteSample NumberWord OrderedNetwork in
theorem linearizable_read_covers_first :
    ∃ (N N' : OrderedNetwork NumberWord) (e e' : GlobalOrderedEngine NumberWord),
      Reached setting ActsWithCare N ∧ Leads setting ActsWithCare N N' ∧
      (N'.validators (key 1)).node = .running e ∧
      e.satisfyReadConsistencyTo .linearizable
        (some ⟨challenge, barrier 1 (certificate 0 [1, 2, 3, 4] [2, 3, 4]).hash⟩)
        (fun _ => .ok [[]]) (fun _ => true) = (.ok 1, e') ∧ 1 ≤ e'.appliedWatermark := by
  obtain ⟨N, N', e, e', hreached, hempty, hleads, hfinalized, hsigned, hnode, hread⟩ :=
    exists_read ActsWithCare [1, 2, 3, 4]
      (barrier 1 (certificate 0 [1, 2, 3, 4] [2, 3, 4]).hash) 1 1 (by decide +kernel)
  have hfresh : ∀ vote ∈ N.barrierVotes, vote.statement.challenge ≠ challenge := by
    intro vote hvote
    rw [hempty] at hvote
    cases hvote
  have hcovers := linearizable_read_covers NumberWord.hash_injective hreached hfresh hleads
    (fewFaults N') rfl rfl hfinalized hnode _ hsigned
  exact ⟨N, N', e, e', hreached, hleads, hnode, hread, (hcovers.2 _ _ _ _ hread).2.1⟩

end Blossom
