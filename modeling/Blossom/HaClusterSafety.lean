import Blossom.HaAgreement

/-!
# Safety of a cluster

In every run of a cluster, with any loss, duplication, delay and reordering of messages and
with members that stop and resume, no two members commit different epochs at one nonce, no
two members apply different certificates in one generation, and every applied certificate
was approved by a strict majority of the members that were active in its generation.
-/

namespace Blossom

open CheckedSteps BitMask MajorityQuorum ReconfiguredLog HighAvailabilityRuntime HaHistory
  HighAvailabilityRuntimeState

variable {W : Type} [ProtocolCrypto W]
variable {x x' : HaMembershipCertificate W} {s : HighAvailabilityRuntimeState W} {selfKey : W}
  {i j : Fin 7}

namespace Cluster

variable {g : HaGenesis W} {H H' : PerSlot (HaHistory W)} {c c' : Cluster W} {i : Fin 7}
  {rt rt' : HighAvailabilityRuntime W}

/-- The invariant, with every vote that was cast among the messages handed out. -/
structure Tracked (g : HaGenesis W) (H : PerSlot (HaHistory W)) (c : Cluster W) : Prop
    extends Inv g H c where
  votes : ∀ j, ∀ v ∈ (H j).votes, .membershipVote v ∈ c.sent ∧ v.sender = j.val

def startAt (H : PerSlot (HaHistory W)) (i : Fin 7) (epochs : List (HaEpoch W)) :
    PerSlot (HaHistory W) :=
  Function.update H i ⟨epochs, [], [], []⟩

omit [ProtocolCrypto W] in
theorem grow_startAt (hi : H i = .empty) (epochs : List (HaEpoch W)) :
    Grow H (startAt H i epochs) := by
  refine (Function.forall_update_iff H fun j h => (H j).Le h).mpr ⟨?_, fun j _ => .refl (H j)⟩
  rw [hi]
  exact ⟨List.nil_prefix, List.nil_prefix, List.nil_subset _, List.nil_subset _⟩

theorem genesis_recorded (h : genesisState g.groupId selfKey g.members g.parameters = .ok s)
    (hself : s.selfSlot = i.val) (H : PerSlot (HaHistory W)) :
    Recorded g (startAt H i s.epochs) i s := by
  obtain ⟨slots, roundId, hslots, hmem, hep, hround, hnonce, hgen, hch, hvotes, -⟩ :=
    genesisState_spec h
  refine ⟨?_, .of_empty (by rw [hround]; rfl) hvotes⟩
  rw [startAt, Function.update_self]
  refine ⟨hself, List.suffix_rfl, by simp [hch], ?_, hgen, ?_, by simp, by simp, by simp, by simp⟩
  · rw [hround, hep]
    exact hnonce
  · rw [hmem, HaMemberSlots.bits_activeMask_new hslots]
    rfl

theorem Tracked.create {store : Option (HaDurableStore W)} {io : Bool} (ht : Tracked g H c)
    (hi : c.node i = none) (hstore : ∀ x ∈ store, x = .empty)
    (hrt : create store g.groupId selfKey g.members g.parameters io = .ok rt)
    (hself : rt.state.selfSlot = i.val) :
    Tracked g (startAt H i rt.state.epochs) (c.withNode i rt) := by
  have hstate := create_state hrt
  have hrec := genesis_recorded hstate hself H
  have hempty := ht.absent i hi
  have hgrow := grow_startAt hempty rt.state.epochs
  obtain ⟨slots, -, hslots, -, hep, -, -, -, -, -, hgood⟩ := genesisState_spec hstate
  have hcase {P : Fin 7 → HaHistory W → Prop} (hnew : P i ⟨rt.state.epochs, [], [], []⟩)
      (hold : ∀ j, P j (H j)) : ∀ j, P j (startAt H i rt.state.epochs j) :=
    (Function.forall_update_iff H P).mpr ⟨hnew, fun j _ => hold j⟩
  have hfirst : ∀ n (e : HaEpoch W), rt.state.epochs[n]? = some e →
      n = 0 ∧ e = .genesis g.groupId slots g.parameters := by
    intro n e he
    rw [hep] at he
    rcases n with - | n
    · exact ⟨rfl, by simpa using he.symm⟩
    · simp at he
  refine ⟨⟨?_, ?_, ?_, ?_, ?_, ?_, ?_, fun m hm => (ht.sent m hm).mono hgrow⟩, ?_⟩
  · refine hcase (P := fun _ h => h.Wf) (wf_start ?_) ht.wf
    intro n e he
    obtain ⟨rfl, rfl⟩ := hfirst n e he
    rfl
  · refine hcase (P := fun _ h => Backed g.reading (ballots _) h.replica) ?_
      fun j => (ht.backed j).mono hgrow.ballots
    rw [hep]
    exact .root rfl
  · refine hcase (P := fun _ h => ∀ k x, h.certificates[k]? = some x → Approved g _ h k x)
      (by simp) fun j k x hx => ?_
    exact (ht.approved j k x hx).mono hgrow (.refl _) (List.getElem?_eq_some_iff.mp hx).1.le
  · refine hcase (P := fun _ h => ∀ e, h.epochs[0]? = some e → ∃ members,
      HaMemberSlots.new g.members = .ok members ∧ e = .genesis g.groupId members g.parameters)
      ?_ ht.root
    exact fun e he => ⟨slots, hslots, (hfirst 0 e he).2⟩
  · refine hcase (P := fun _ h => ∀ n (e : HaEpoch W), n ≠ 0 → h.epochs[n]? = some e → e.Hashed)
      ?_ ht.hashed
    exact fun n e hn he => absurd (hfirst n e he).1 hn
  · intro j hj
    obtain ⟨hne, hj⟩ := withNode_eq_none.mp hj
    rw [startAt, Function.update_of_ne hne]
    exact ht.absent j hj
  · intro j rt₂ hj
    rcases withNode_eq_some.mp hj with ⟨rfl, rfl⟩ | ⟨hne, hj⟩
    · exact create_durably hstore hrt ⟨hgood, hrec⟩
    · refine (ht.node j rt₂ hj).mono ?_
      rintro t ⟨htg, htr⟩
      refine ⟨htg, ?_, htr.backs.mono hgrow⟩
      rw [startAt, Function.update_of_ne hne]
      exact htr.follows
  · exact hcase (P := fun j h => ∀ v ∈ h.votes, .membershipVote v ∈ c.sent ∧ v.sender = j.val)
      (by simp) ht.votes

theorem Tracked.restart {store : HaDurableStore W} {io : Bool} (ht : Tracked g H c)
    (hi : c.node i = some rt) (hstore : rt.store = some store)
    (hopen : HighAvailabilityRuntime.openStore store g.groupId selfKey g.members g.parameters io = .ok rt') :
    Tracked g H (c.withNode i rt') := by
  obtain ⟨p, rfl, hp, -⟩ := (ht.node i rt hi).stored store hstore
  obtain rfl := openStore_image hp.1.valid hopen
  refine { ht with absent := ?_, node := ?_ }
  · exact fun j hj => ht.absent j (withNode_eq_none.mp hj).2
  · intro j rt₂ hj
    rcases withNode_eq_some.mp hj with ⟨rfl, rfl⟩ | ⟨-, hj⟩
    · refine ⟨hp, ?_⟩
      rintro x ⟨⟩
      exact ⟨p, rfl, hp, .refl p⟩
    · exact ht.node j rt₂ hj

section Runs

variable [AmendmentCodec W]

omit [ProtocolCrypto W] [AmendmentCodec W] in
theorem source_mem_sent {l : Label W} {m : HaMessage W} (hm : m ∈ l.source)
    (hd : c.Delivers m) : m ∈ c.sent := by
  rcases hd with hd | ⟨handshake, rfl⟩
  · exact hd
  · cases l <;> cases hm

omit [ProtocolCrypto W] [AmendmentCodec W] in
theorem mem_sent_afterCall {out : Outcome W (List (HaMessage W))} {m : HaMessage W} :
    m ∈ (c.afterCall i out).sent ↔ m ∈ c.sent ∨ ∃ ms, out.1 = .ok ms ∧ m ∈ ms := by
  obtain ⟨r, rt⟩ := out
  cases r <;> simp [afterCall]

theorem Tracked.call (hinj : HashInjective W) (ht : Tracked g H c) (hi : c.node i = some rt)
    {op : Operation W} (hop : op.snapshot = none) (hm : ∀ m ∈ op.message, c.Delivers m) :
    ∃ H', Grow H H' ∧ Tracked g H' (c.afterCall i (op.apply rt)) := by
  obtain ⟨ls, hs, hall, -, -, hout, hvote⟩ := op.apply_explains rt
  have hls : ∀ l ∈ ls, l.snapshot = none ∧ ∀ m ∈ l.source, m ∈ c.sent := by
    intro l hl
    obtain ⟨hsrc, hsnap, -⟩ := hall l hl
    refine ⟨?_, fun m hml => source_mem_sent hml (hm m (hsrc m hml))⟩
    cases hx : l.snapshot with
    | none => rfl
    | some x =>
      have := hsnap x hx
      rw [hop] at this
      cases this
  obtain ⟨H', hgrow, hinv, hsent, hvotes⟩ := ht.toInv.steps hinj hs hi hls
  refine ⟨H', hgrow, { hinv with sent := ?_ }, ?_⟩
  · intro m hms
    rcases mem_sent_afterCall.mp hms with hms | ⟨ms, hok, hms⟩
    · exact hinv.sent m hms
    · obtain ⟨l, hl, ho⟩ := hout ms hok m hms
      exact hsent l hl m ho
  · intro j v hv
    rcases hvotes j v hv with hv | ⟨hse, l, hl, hv⟩
    · obtain ⟨hin, hse⟩ := ht.votes j v hv
      exact ⟨mem_sent_afterCall.mpr (.inl hin), hse⟩
    · exact ⟨mem_sent_afterCall.mpr (.inr (hvote l hl v hv)), hse⟩

theorem Tracked.step (hinj : HashInjective W) (ht : Tracked g H c) (hstep : Step g c c') :
    ∃ H', Grow H H' ∧ Tracked g H' c' := by
  cases hstep with
  | create hi hstore hrt hself =>
    exact ⟨_, grow_startAt (ht.absent _ hi) _, ht.create hi hstore hrt hself⟩
  | call hi hop hm => exact ht.call hinj hi hop hm
  | restart hi hstore hopen => exact ⟨H, fun j => .refl _, ht.restart hi hstore hopen⟩

theorem Tracked.run (hinj : HashInjective W) (ht : Tracked g H c) (hrun : Run g c c') :
    ∃ H', Grow H H' ∧ Tracked g H' c' := by
  induction hrun with
  | refl => exact ⟨H, fun j => .refl _, ht⟩
  | tail _ hstep ih =>
    obtain ⟨H₁, hgrow₁, ht₁⟩ := ih
    obtain ⟨H₂, hgrow₂, ht₂⟩ := ht₁.step hinj hstep
    exact ⟨H₂, fun j => (hgrow₁ j).trans (hgrow₂ j), ht₂⟩

omit [AmendmentCodec W] in
theorem tracked_initial (g : HaGenesis W) : Tracked g (fun _ => .empty) initial :=
  ⟨inv_initial g, by simp [empty]⟩

end Runs

theorem Inv.hash_eq (hinj : HashInjective W) (hi : Inv g H c) {e e' : HaEpoch W}
    (he : e ∈ (H i).epochs) (he' : e' ∈ (H j).epochs) (hn : e.nonce = e'.nonce) :
    e.hash = e'.hash := by
  obtain ⟨n, hidx⟩ := List.getElem?_of_mem he
  obtain ⟨n', hidx'⟩ := List.getElem?_of_mem he'
  obtain rfl : n = n' := by
    rw [← (hi.wf i).nonces n e hidx, ← (hi.wf j).nonces n' e' hidx', hn]
  have hsame : ∀ d d', (H i).epochs[0]? = some d → (H j).epochs[0]? = some d' → d = d' := by
    intro d d' hd hd'
    obtain ⟨slots, hslots, rfl⟩ := hi.root i d hd
    obtain ⟨slots', hslots', rfl⟩ := hi.root j d' hd'
    rw [hslots, Except.ok.injEq] at hslots'
    rw [hslots']
  rcases eq_or_ne n 0 with rfl | hpos
  · rw [hsame e e' hidx hidx']
  · have hkey := (hi.backed i).key_eq (ballots_faithful hinj g hi.wf) g.voters_adjacent
      (fun d d' hk => congrArg (fun k => k.1.membershipGeneration) hk) (hi.backed j)
      (fun d d' hd hd' => by rw [hsame d d' hd hd']) hidx hidx'
    exact (hi.hashed i n e hpos hidx).hash_eq hinj (hi.hashed j n e' hpos hidx')
      (congrArg Prod.fst hkey) (congrArg Prod.snd hkey)

/-- No two members ever commit epochs with one nonce and different hashes. -/
theorem epochs_agree [AmendmentCodec W] (hinj : HashInjective W) {c₁ c₂ : Cluster W}
    (h₁ : Run g initial c₁) (h₂ : Run g c₁ c₂) {i j : Fin 7}
    {rt₁ rt₂ : HighAvailabilityRuntime W} (hi : c₁.node i = some rt₁) (hj : c₂.node j = some rt₂)
    {e₁ e₂ : HaEpoch W} (he₁ : e₁ ∈ rt₁.state.epochs) (he₂ : e₂ ∈ rt₂.state.epochs)
    (hn : e₁.nonce = e₂.nonce) : e₁.hash = e₂.hash := by
  obtain ⟨H₁, -, ht₁⟩ := (tracked_initial g).run hinj h₁
  obtain ⟨H₂, hgrow, ht₂⟩ := ht₁.run hinj h₂
  have hf₁ := (ht₁.node i rt₁ hi).memory.2.follows
  have hf₂ := (ht₂.node j rt₂ hj).memory.2.follows
  exact ht₂.toInv.hash_eq hinj ((hgrow i).epochs.subset (hf₁.retained.subset he₁))
    (hf₂.retained.subset he₂) hn

def numbered (n : ℕ) : HaGenesis FreeWord := ⟨.key 0, numberedMembers .key n, .new 6 1⟩

/-- The first two members commit an empty epoch with each other. -/
def commitTogether : List (Event FreeWord) :=
  [.create 0 (.key 1), .create 1 (.key 2), .call 0 (.buildDispatch [] 0),
    .call 0 (.acknowledge true), .deliver 1 0 true, .call 1 (.acknowledge true),
    .deliver 0 2 true, .deliver 1 1 true, .call 0 (.confirm true true),
    .call 1 (.confirm true true), .deliver 1 3 true, .deliver 0 4 true]

/-- The first two members vote to suspend the third. -/
def suspendThird : List (Event FreeWord) :=
  [.call 0 (.voteToSuspend 2 true), .call 1 (.voteToSuspend 2 true), .deliver 0 6 true,
    .deliver 1 5 true]

/-- A run after which the first two members satisfy a decidable property. -/
theorem exists_run_of_check {g : HaGenesis FreeWord} (events : List (Event FreeWord))
    {p : HighAvailabilityRuntime FreeWord → HighAvailabilityRuntime FreeWord → Bool}
    (h : ((play g events initial).any fun c =>
      match c.node 0, c.node 1 with
      | some rt₁, some rt₂ => p rt₁ rt₂
      | _, _ => false) = true) :
    ∃ c, Run g initial c ∧ ∃ rt₁ rt₂, c.node 0 = some rt₁ ∧ c.node 1 = some rt₂ ∧
      p rt₁ rt₂ = true := by
  cases hc : play g events initial with
  | none =>
    rw [hc] at h
    cases h
  | some c =>
    rw [hc, Option.any_some] at h
    split at h
    · rename_i rt₁ rt₂ h₁ h₂
      exact ⟨c, run_of_play hc, rt₁, rt₂, h₁, h₂, h⟩
    · cases h

/-- Two members that have committed an epoch have committed the same one. -/
theorem epochs_agree_pair : ∃ c, Run (numbered 2) initial c ∧
    ∃ rt₁ rt₂, c.node 0 = some rt₁ ∧ c.node 1 = some rt₂ ∧
      ∃ e₁ ∈ rt₁.state.epochs, ∃ e₂ ∈ rt₂.state.epochs,
        e₁.nonce = 1 ∧ e₂.nonce = 1 ∧ e₁.hash = e₂.hash := by
  obtain ⟨c, hrun, rt₁, rt₂, h₁, h₂, hp⟩ := exists_run_of_check (g := numbered 2)
    commitTogether
    (p := fun rt₁ rt₂ => rt₁.state.epochs.any (·.nonce = 1) && rt₂.state.epochs.any (·.nonce = 1))
    (by decide +kernel)
  simp only [Bool.and_eq_true, List.any_eq_true, decide_eq_true_eq] at hp
  obtain ⟨⟨e₁, he₁, hn₁⟩, e₂, he₂, hn₂⟩ := hp
  exact ⟨c, hrun, rt₁, rt₂, h₁, h₂, e₁, he₁, e₂, he₂, hn₁, hn₂,
    epochs_agree FreeWord.hash_injective hrun .refl h₁ h₂ he₁ he₂ (hn₁.trans hn₂.symm)⟩

omit [ProtocolCrypto W] in
/-- The changes a history had when it was shorter. -/
theorem take_changes_of_le {h h' : HaHistory W} (hle : h.Le h') :
    h'.changes.take h.certificates.length = h.changes := by
  obtain ⟨rest, hrest⟩ := hle.certificates
  rw [changes, ← hrest, List.map_append, ← List.length_map
    HaMembershipCertificate.proposal, List.take_left]
  rfl

theorem Inv.proposal_eq (hinj : HashInjective W) (hi : Inv g H c) (hx : x ∈ (H i).certificates)
    (hx' : x' ∈ (H j).certificates)
    (hgen : x.proposal.membershipGeneration = x'.proposal.membershipGeneration) :
    x.proposal = x'.proposal := by
  obtain ⟨k, hk⟩ := List.getElem?_of_mem hx
  obtain ⟨k', hk'⟩ := List.getElem?_of_mem hx'
  obtain rfl : k = k' := by
    rw [← (hi.approved i k x hk).generation, ← (hi.approved j k' x' hk').generation, hgen]
  refine (hi.backed i).certified.getElem?_eq (ballots_faithful hinj g hi.wf) (hi.backed j).certified
    (k := k) ?_ ?_
  · simp [replica, changes, hk]
  · simp [replica, changes, hk']

/-- A member that is or was in the generation of a certificate has the active mask that the
certificate was voted on. -/
theorem Inv.activeMask_eq (hinj : HashInjective W) (hi : Inv g H c) {h : HaHistory W}
    (hle : h.Le (H i)) (hf : s.Follows g i h) (hx : x ∈ (H j).certificates)
    (hgen : s.membershipGeneration = x.proposal.membershipGeneration) :
    s.members.activeMask = x.proposal.activeMask := by
  obtain ⟨k, hk⟩ := List.getElem?_of_mem hx
  have ha := hi.approved j k x hk
  have hlen : h.certificates.length = k := by
    rw [← hf.generation, hgen, ha.generation]
  have hle_i : k ≤ (H i).changes.length := by
    simpa [changes, ← hlen] using hle.certificates.length_le
  have hle_j : k ≤ (H j).changes.length := by
    simpa [changes] using (List.getElem?_eq_some_iff.mp hk).1.le
  have htake := (hi.backed i).certified.take_eq (ballots_faithful hinj g hi.wf)
    (hi.backed j).certified hle_i hle_j
  apply bits_injective
  rw [hf.active, ha.electorate, ← take_changes_of_le hle, hlen]
  exact congrArg g.voters htake

/-- A certificate was approved by a strict majority of the members active in its generation,
each of which has sent its vote. -/
structure ApprovedIn (c : Cluster W) (x : HaMembershipCertificate W) : Prop where
  active : bits x.approvalMask ⊆ bits x.proposal.activeMask
  majority : highAvailabilityMajority (countOnes x.proposal.activeMask) ≤ countOnes x.approvalMask
  votes : ∀ slot ∈ bits x.approvalMask, ∃ v, .membershipVote v ∈ c.sent ∧ v.sender = slot ∧
    v.proposal = x.proposal

theorem Tracked.approvedIn (ht : Tracked g H c) (hx : x ∈ (H i).certificates) : ApprovedIn c x := by
  obtain ⟨k, hk⟩ := List.getElem?_of_mem hx
  have ha := ht.approved i k x hk
  refine ⟨ha.active, ha.majority, ?_⟩
  intro slot hslot
  obtain ⟨j, rfl, v, hv, hp⟩ := ha.approved slot hslot
  obtain ⟨hsent, hse⟩ := ht.votes j v hv
  exact ⟨v, hsent, hse, hp⟩

/-- No two members ever apply certificates of one generation with different proposals, every
applied certificate was approved by a strict majority of the members that have its generation,
and no member ever has fewer than two active members. -/
theorem certificates_agree [AmendmentCodec W] (hinj : HashInjective W) {c₁ c₂ : Cluster W}
    (h₁ : Run g initial c₁) (h₂ : Run g c₁ c₂) {i j : Fin 7}
    {rt₁ rt₂ : HighAvailabilityRuntime W} (hi : c₁.node i = some rt₁) (hj : c₂.node j = some rt₂) :
    (∀ x₁ ∈ rt₁.state.membershipChanges, ∀ x₂ ∈ rt₂.state.membershipChanges,
      x₁.proposal.membershipGeneration = x₂.proposal.membershipGeneration →
        x₁.proposal = x₂.proposal) ∧
    (∀ x ∈ rt₁.state.membershipChanges, ApprovedIn c₁ x ∧
      (rt₂.state.membershipGeneration = x.proposal.membershipGeneration →
        rt₂.state.members.activeMask = x.proposal.activeMask)) ∧
    (∀ x ∈ rt₂.state.membershipChanges, ApprovedIn c₂ x ∧
      (rt₁.state.membershipGeneration = x.proposal.membershipGeneration →
        rt₁.state.members.activeMask = x.proposal.activeMask)) ∧
    2 ≤ countOnes rt₁.state.members.activeMask := by
  obtain ⟨H₁, -, ht₁⟩ := (tracked_initial g).run hinj h₁
  obtain ⟨H₂, hgrow, ht₂⟩ := ht₁.run hinj h₂
  obtain ⟨hg₁, hr₁⟩ := (ht₁.node i rt₁ hi).memory
  obtain ⟨hg₂, hr₂⟩ := (ht₂.node j rt₂ hj).memory
  have hold : ∀ x ∈ rt₁.state.membershipChanges, x ∈ (H₂ i).certificates := fun x hx =>
    (hgrow i).certificates.subset (hr₁.follows.changes hx)
  refine ⟨?_, ?_, ?_, ?_⟩
  · intro x₁ hx₁ x₂ hx₂ hgen
    exact ht₂.toInv.proposal_eq hinj (hold x₁ hx₁) (hr₂.follows.changes hx₂) hgen
  · intro x hx
    exact ⟨ht₁.approvedIn (hr₁.follows.changes hx), fun hgen =>
      ht₂.toInv.activeMask_eq hinj (.refl _) hr₂.follows (hold x hx) hgen⟩
  · intro x hx
    exact ⟨ht₂.approvedIn (hr₂.follows.changes hx), fun hgen =>
      ht₂.toInv.activeMask_eq hinj (hgrow i) hr₁.follows (hr₂.follows.changes hx) hgen⟩
  · exact (HaMemberSlots.validate_spec hg₁.valid.members).2.2.2.1

/-- Two of three members suspend the third: both hold the certificate, for one proposal. -/
theorem certificates_agree_suspend : ∃ c, Run (numbered 3) initial c ∧
    ∃ rt₁ rt₂, c.node 0 = some rt₁ ∧ c.node 1 = some rt₂ ∧
      ∃ x₁ ∈ rt₁.state.membershipChanges, ∃ x₂ ∈ rt₂.state.membershipChanges,
        x₁.proposal.membershipGeneration = 0 ∧ x₂.proposal.membershipGeneration = 0 ∧
        x₁.proposal = x₂.proposal ∧ ApprovedIn c x₁ ∧
        2 ≤ countOnes rt₁.state.members.activeMask := by
  obtain ⟨c, hrun, rt₁, rt₂, h₁, h₂, hp⟩ := exists_run_of_check (g := numbered 3)
    (commitTogether ++ suspendThird)
    (p := fun rt₁ rt₂ =>
      rt₁.state.membershipChanges.any (·.proposal.membershipGeneration = 0) &&
        rt₂.state.membershipChanges.any (·.proposal.membershipGeneration = 0))
    (by decide +kernel)
  simp only [Bool.and_eq_true, List.any_eq_true, decide_eq_true_eq] at hp
  obtain ⟨⟨x₁, hx₁, hn₁⟩, x₂, hx₂, hn₂⟩ := hp
  obtain ⟨hsame, happroved, -, htwo⟩ :=
    certificates_agree FreeWord.hash_injective hrun .refl h₁ h₂
  exact ⟨c, hrun, rt₁, rt₂, h₁, h₂, x₁, hx₁, x₂, hx₂, hn₁, hn₂,
    hsame x₁ hx₁ x₂ hx₂ (hn₁.trans hn₂.symm), (happroved x₁ hx₁).1, htwo⟩

end Cluster

end Blossom
