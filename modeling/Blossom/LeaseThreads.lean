import Blossom.LeaseReplays

/-!
# Threads that publish membership views

Installing a lease, registering a service and committing an epoch run on different threads of one
runtime. Each reads the head of the chain under the lock and publishes its view later without it.
-/

namespace Blossom

open CheckedSteps OrderedMap

variable {W : Type}

/-- Where a thread stands in a call. `readAt` is the length of the chain when the call read it. -/
inductive LeaseThread (W : Type) [LinearOrder W] where
  | idle
  | installing (readAt : ℕ) (certificate : MembershipLeaseCertificate W) (head : Epoch W)
  | accepted (readAt : ℕ) (head : Epoch W) (leaseExpires deadline : ℕ)
      (relays : BTreeMap W (Service W))
  | leasing (readAt : ℕ) (head : Epoch W) (leaseExpires deadline : ℕ)
      (relays : BTreeMap W (Service W)) (current : VerifiedMembershipView W)
  | registering (readAt : ℕ) (record : SignedServiceRecord W) (members : MemberSet W)
  | recorded (readAt : ℕ) (members : MemberSet W)
  | borrowed (readAt : ℕ) (members : MemberSet W) (current : VerifiedMembershipView W)
  | refreshing (readAt : ℕ) (members : MemberSet W) (current : VerifiedMembershipView W)
  | refreshed (readAt : ℕ) (members : MemberSet W) (deadline : ℕ)
      (relays : BTreeMap W (Service W)) (current : VerifiedMembershipView W)
  | announcing (head : Epoch W)

structure PublishedView (W : Type) [LinearOrder W] where
  view : VerifiedMembershipView W
  head : Option (Epoch W)
  instant : ℕ

structure LeaseSystem (W : Type) [LinearOrder W] where
  shared : LeaseRuntime W
  instant : ℕ
  threads : ℕ → LeaseThread W
  published : List (PublishedView W)

/-- When a thread is about to publish a view that may be fresh: how long the chain was when it read
the head. -/
def LeaseThread.publishes [LinearOrder W] : LeaseThread W → Option ℕ
  | .leasing readAt .. => some readAt
  | .refreshed readAt .. => some readAt
  | _ => none

namespace LeaseSystem

section Updates

variable [LinearOrder W] (s : LeaseSystem W)

def chain : List (Epoch W) := s.shared.source.epochchain

def goto (i : ℕ) (thread : LeaseThread W) : LeaseSystem W :=
  { s with threads := Function.update s.threads i thread }

def publish (i : ℕ) (view : VerifiedMembershipView W) : LeaseSystem W :=
  { s.goto i .idle with
    shared := { s.shared with view := view }
    published := s.published ++ [⟨view, s.chain.getLast?, s.instant⟩] }

def withSource (source : SnapshotSource W) : LeaseSystem W :=
  { s with shared := { s.shared with source := source } }

variable {s}

@[simp] theorem goto_threads_self {i : ℕ} {thread : LeaseThread W} :
    (s.goto i thread).threads i = thread :=
  Function.update_self ..

end Updates

variable [ProtocolCrypto W]

/-- The steps of a thread, between which other threads may take theirs: a step holds one lock, or
replaces the view. -/
inductive Step (i : ℕ) : LeaseSystem W → LeaseSystem W → Prop
  | installRead {s : LeaseSystem W} (certificate : MembershipLeaseCertificate W) {head : Epoch W} :
      s.threads i = .idle → s.chain.getLast? = some head →
      Step i s (s.goto i (.installing s.chain.length certificate head))
  | installAccept {s : LeaseSystem W} {readAt : ℕ} {certificate : MembershipLeaseCertificate W}
      {head : Epoch W} (now verifyNow : ℕ) {leaseExpires remaining : ℕ} :
      s.threads i = .installing readAt certificate head →
      acceptLease s.shared.source.groupId head certificate now verifyNow =
        .ok (leaseExpires, remaining) →
      Step i s (s.goto i (.accepted readAt head leaseExpires
        (clampToRelays (s.instant + fromMillis remaining) s.instant now
          (verifiedRelaySet s.shared.source.addressBook s.shared.source.groupId head.body.members
            now).2)
        (verifiedRelaySet s.shared.source.addressBook s.shared.source.groupId head.body.members
          now).1))
  | installBorrow {s : LeaseSystem W} {readAt : ℕ} {head : Epoch W} {leaseExpires deadline : ℕ}
      {relays : BTreeMap W (Service W)} :
      s.threads i = .accepted readAt head leaseExpires deadline relays →
      Step i s (s.goto i (.leasing readAt head leaseExpires deadline relays s.shared.view))
  | installPublish {s : LeaseSystem W} {readAt : ℕ} {head : Epoch W} {leaseExpires deadline : ℕ}
      {relays : BTreeMap W (Service W)} {current : VerifiedMembershipView W} :
      s.threads i = .leasing readAt head leaseExpires deadline relays current →
      Step i s (s.publish i
        (leaseView s.shared.source.groupId head leaseExpires deadline relays current))
  | registerRead {s : LeaseSystem W} (record : SignedServiceRecord W) {head : Epoch W} :
      s.threads i = .idle → s.chain.getLast? = some head →
      Step i s (s.goto i (.registering s.chain.length record head.body.members))
  | registerApply {s : LeaseSystem W} {readAt : ℕ} {record : SignedServiceRecord W}
      {members : MemberSet W} (now : ℕ) {previous : Option (Service W)} {book : AddressBook W} :
      s.threads i = .registering readAt record members →
      s.shared.source.addressBook.applySignedRecord record s.shared.source.groupId members now =
        .ok (previous, book) →
      Step i s ((s.withSource { s.shared.source with addressBook := book }).goto i
        (.recorded readAt members))
  | registerBorrow {s : LeaseSystem W} {readAt : ℕ} {members : MemberSet W} :
      s.threads i = .recorded readAt members →
      Step i s (s.goto i (.borrowed readAt members s.shared.view))
  | registerCheck {s : LeaseSystem W} {readAt : ℕ} {members : MemberSet W}
      {current : VerifiedMembershipView W} : s.threads i = .borrowed readAt members current →
      current.isFresh s.instant = true →
      some current.epochHash = s.chain.getLast?.map (·.hash) →
      Step i s (s.goto i (.refreshing readAt members current))
  | registerRelays {s : LeaseSystem W} {readAt : ℕ} {members : MemberSet W}
      {current : VerifiedMembershipView W} (now : ℕ) :
      s.threads i = .refreshing readAt members current →
      Step i s (s.goto i (.refreshed readAt members
        (clampToRelays current.validUntil s.instant now
          (verifiedRelaySet s.shared.source.addressBook s.shared.source.groupId members now).2)
        (verifiedRelaySet s.shared.source.addressBook s.shared.source.groupId members now).1
        current))
  | registerPublish {s : LeaseSystem W} {readAt : ℕ} {members : MemberSet W} {deadline : ℕ}
      {relays : BTreeMap W (Service W)} {current : VerifiedMembershipView W} :
      s.threads i = .refreshed readAt members deadline relays current →
      Step i s (s.publish i (relayView members deadline relays current))
  | commit {s : LeaseSystem W} (epochs : List (Epoch W)) : s.threads i = .idle → epochs ≠ [] →
      Step i s (s.withSource { s.shared.source with epochchain := s.chain ++ epochs })
  | commitRead {s : LeaseSystem W} {head : Epoch W} : s.threads i = .idle →
      s.chain.getLast? = some head → Step i s (s.goto i (.announcing head))
  | commitPublish {s : LeaseSystem W} {head : Epoch W} (created : ℕ) :
      s.threads i = .announcing head → created ≤ s.instant →
      Step i s (s.publish i (.expired s.shared.source.groupId head created))
  | giveUp {s : LeaseSystem W} : Step i s (s.goto i .idle)
  | wait {s : LeaseSystem W} (later : ℕ) : s.instant ≤ later →
      Step i s { s with instant := later }
  | discover {s : LeaseSystem W} (book : AddressBook W) :
      Step i s (s.withSource { s.shared.source with addressBook := book })

/-- No epoch was committed since the thread that publishes read the head of the chain. -/
def Undisturbed (s : LeaseSystem W) (i : ℕ) : Prop :=
  ∀ readAt, (s.threads i).publishes = some readAt → s.chain.length = readAt

/-- A run in which no epoch is committed between the moment at which an installation or a
registration reads the chain and the moment at which it publishes its view. -/
inductive UndisturbedRun : LeaseSystem W → LeaseSystem W → Prop
  | refl (s : LeaseSystem W) : UndisturbedRun s s
  | step {s₀ s s' : LeaseSystem W} {i : ℕ} : UndisturbedRun s₀ s → s.Undisturbed i →
      Step i s s' → UndisturbedRun s₀ s'

end LeaseSystem

section Invariant

variable [LinearOrder W]

/-- What a call has read is of the current head unless an epoch was committed since. -/
def LeaseThread.Current (chain : List (Epoch W)) : LeaseThread W → Prop
  | .installing readAt _ head | .accepted readAt head _ _ _ | .leasing readAt head _ _ _ _ =>
    readAt ≤ chain.length ∧ (chain.length = readAt → chain.getLast? = some head)
  | .registering readAt _ members | .recorded readAt members | .borrowed readAt members _ =>
    readAt ≤ chain.length ∧
      (chain.length = readAt → chain.getLast?.map (·.body.members) = some members)
  | .refreshing readAt members current | .refreshed readAt members _ _ current =>
    readAt ≤ chain.length ∧ (chain.length = readAt → ∃ head, chain.getLast? = some head ∧
      head.body.members = members ∧ head.hash = current.epochHash)
  | .idle | .announcing _ => True

def PublishedView.Current (p : PublishedView W) : Prop :=
  p.view.isFresh p.instant = true →
    ∃ head, p.head = some head ∧ p.view.epochHash = head.hash ∧ p.view.members = head.body.members

structure LeaseSystem.Sound (s : LeaseSystem W) : Prop where
  threads : ∀ i, (s.threads i).Current s.chain
  published : ∀ p ∈ s.published, p.Current

theorem LeaseThread.Current.commit {thread : LeaseThread W} {chain epochs : List (Epoch W)}
    (h : thread.Current chain) (hepochs : epochs ≠ []) : thread.Current (chain ++ epochs) := by
  have hlen : chain.length < (chain ++ epochs).length := by
    rw [List.length_append]
    have := List.length_pos_iff.mpr hepochs
    omega
  -- The chain is now longer than it was when the call read it.
  cases thread <;> first
    | trivial
    | exact ⟨h.1.trans hlen.le, fun heq => absurd (heq ▸ h.1) (by omega)⟩

namespace LeaseSystem

variable {s s' s₀ : LeaseSystem W} {i : ℕ}

theorem Sound.goto {thread : LeaseThread W} (h : s.Sound) (hthread : thread.Current s.chain) :
    (s.goto i thread).Sound := by
  refine ⟨fun j => ?_, h.published⟩
  change (Function.update s.threads i thread j).Current s.chain
  rw [Function.update_apply]
  split
  · exact hthread
  · exact h.threads j

theorem Sound.publish {view : VerifiedMembershipView W} (h : s.Sound)
    (hview : PublishedView.Current ⟨view, s.chain.getLast?, s.instant⟩) :
    (s.publish i view).Sound := by
  have hidle : (s.goto i .idle).Sound := h.goto trivial
  refine ⟨hidle.threads, fun p hp => ?_⟩
  rcases List.mem_append.mp hp with hp | hp
  · exact h.published p hp
  · rw [List.mem_singleton.mp hp]
    exact hview

theorem Sound.withSource {source : SnapshotSource W} (h : s.Sound)
    (hchain : source.epochchain = s.chain) : (s.withSource source).Sound := by
  refine ⟨fun j => ?_, h.published⟩
  change (s.threads j).Current source.epochchain
  rw [hchain]
  exact h.threads j

end LeaseSystem

end Invariant

namespace LeaseSystem

variable [ProtocolCrypto W] {s s' s₀ : LeaseSystem W} {i : ℕ}

/-- A step keeps the invariant when no epoch was committed since its thread read the chain. -/
theorem Sound.step (h : s.Sound) (hquiet : s.Undisturbed i) (hstep : Step i s s') : s'.Sound := by
  have hi := h.threads i
  cases hstep with
  | installRead certificate hidle hhead => exact h.goto ⟨le_rfl, fun _ => hhead⟩
  | installAccept now verifyNow hthread hacc | installBorrow hthread | registerBorrow hthread
  | registerRelays now hthread =>
    rw [hthread] at hi
    exact h.goto hi
  | installPublish hthread =>
    rw [hthread] at hi
    have hhead := hi.2 (hquiet _ (by rw [hthread]; rfl))
    exact h.publish fun _ => ⟨_, hhead, rfl, rfl⟩
  | registerRead record hidle hhead =>
    exact h.goto ⟨le_rfl, fun _ => by rw [hhead]; rfl⟩
  | registerApply now hthread happly =>
    rw [hthread] at hi
    refine (h.withSource ?_).goto ?_
    · rfl
    · exact hi
  | registerCheck hthread hfresh hhash =>
    rw [hthread] at hi
    refine h.goto ⟨hi.1, fun hlen => ?_⟩
    obtain ⟨head, hhead, hmems⟩ := Option.map_eq_some_iff.mp (hi.2 hlen)
    rw [hhead] at hhash
    exact ⟨head, hhead, hmems, (Option.some.inj hhash).symm⟩
  | registerPublish hthread =>
    rw [hthread] at hi
    obtain ⟨head, hhead, hmems, hhash⟩ := hi.2 (hquiet _ (by rw [hthread]; rfl))
    exact h.publish fun _ => ⟨head, hhead, hhash.symm, hmems.symm⟩
  | commit epochs hidle hepochs => exact ⟨fun j => (h.threads j).commit hepochs, h.published⟩
  | commitPublish created hthread hcreated =>
    refine h.publish fun hfresh => ?_
    -- The deadline of an expired view has passed when it is published.
    exact absurd (of_decide_eq_true hfresh) hcreated.not_gt
  | commitRead hidle hhead | giveUp => exact h.goto trivial
  | wait later hlater => exact ⟨h.threads, h.published⟩
  | discover book => exact h.withSource rfl

/-- As long as no epoch is committed between a call's reading of the chain and its publication, every
view that is fresh when it is published names the head of the chain and its members. -/
theorem fresh_views_describe_head (hidle : ∀ i, s₀.threads i = .idle) (hnone : s₀.published = [])
    (hrun : UndisturbedRun s₀ s) : ∀ p ∈ s.published, p.view.isFresh p.instant = true →
      ∃ head, p.head = some head ∧ p.view.epochHash = head.hash ∧
        p.view.members = head.body.members := by
  have hsound : s.Sound := by
    induction hrun with
    | refl =>
      refine ⟨fun i => ?_, by simp [hnone]⟩
      rw [hidle i]
      trivial
    | step _ hquiet hstep ih => exact ih.step hquiet hstep
  exact hsound.published

theorem undisturbed_idle (hidle : s.threads i = .idle) : s.Undisturbed i := by
  intro k hk
  rw [hidle] at hk
  cases hk

theorem undisturbed_goto {readAt : ℕ} {thread : LeaseThread W} (hread : s.chain.length = readAt)
    (hthread : ∀ k, thread.publishes = some k → k = readAt) :
    (s.goto i thread).Undisturbed i := by
  intro k hk
  rw [goto_threads_self] at hk
  rw [hthread k hk]
  exact hread

theorem UndisturbedRun.trans {s₀ s s' : LeaseSystem W} (h : UndisturbedRun s₀ s)
    (h' : UndisturbedRun s s') : UndisturbedRun s₀ s' := by
  induction h' with
  | refl => exact h
  | step _ hquiet hstep ih => exact .step ih hquiet hstep

/-- A call that no other thread interrupts installs a lease as `installMembershipLease` does. -/
theorem installMembershipLease_runs {rt : LeaseRuntime W} {clock : LeaseClock}
    {certificate : MembershipLeaseCertificate W} (hidle : s.threads i = .idle)
    (hinstant : s.instant = clock.instant)
    (h : s.shared.installMembershipLease certificate clock = .ok rt) :
    ∃ s', UndisturbedRun s s' ∧ s'.shared = rt ∧
      s'.published = s.published ++ [⟨rt.view, s.chain.getLast?, s.instant⟩] := by
  simp only [LeaseRuntime.installMembershipLease, bind_eq_ok, require_eq_ok, pure_eq_ok] at h
  obtain ⟨head, hhead, ⟨leaseExpires, remaining⟩, hacc, rfl⟩ := h
  refine ⟨_, .step (.step (.step (.step (.refl s) (undisturbed_idle hidle) (.installRead certificate hidle hhead))
    ?_ (.installAccept clock.unixMillis clock.verifyUnixMillis goto_threads_self hacc))
    ?_ (.installBorrow goto_threads_self)) ?_ (.installPublish goto_threads_self),
    ?_, ?_⟩
  · exact undisturbed_goto rfl (by rintro k ⟨⟩)
  · exact undisturbed_goto rfl (by rintro k ⟨⟩)
  · exact undisturbed_goto rfl (by rintro k ⟨⟩; rfl)
  · rw [← hinstant]
    rfl
  · rw [← hinstant]
    rfl

/-- A call that no other thread interrupts registers a service as `registerSignedService` does. -/
theorem registerSignedService_runs {rt : LeaseRuntime W} {clock : RelayClock}
    {record : SignedServiceRecord W} (hidle : s.threads i = .idle)
    (hfresh : s.instant = clock.freshInstant) (hinstant : clock.freshInstant ≤ clock.instant)
    (h : s.shared.registerSignedService record clock = .ok rt) :
    ∃ s', UndisturbedRun s s' ∧ s'.shared = rt := by
  simp only [LeaseRuntime.registerSignedService, SnapshotSource.registerSignedService, bind_eq_ok,
    require_eq_ok, pure_eq_ok] at h
  obtain ⟨head, hhead, ⟨previous, source⟩, ⟨head', hhead', ⟨previous', book⟩, happly, heq⟩, hrt⟩ := h
  cases hhead.symm.trans hhead'
  cases heq
  have hborrowed := UndisturbedRun.step (.step (.step (.refl s) (undisturbed_idle hidle)
    (.registerRead record hidle hhead)) (undisturbed_goto rfl (by rintro k ⟨⟩))
    (.registerApply clock.recordUnixMillis goto_threads_self happly))
    (undisturbed_goto rfl (by rintro k ⟨⟩)) (.registerBorrow goto_threads_self)
  rw [LeaseRuntime.republishFreshMembershipRelays] at hrt
  split at hrt
  next => exact ⟨_, hborrowed, hrt⟩
  next hcheck =>
    simp only [not_or, Bool.not_eq_false, not_not] at hcheck
    subst hrt
    refine ⟨_, .step (.step (.step (.step hborrowed ?_ (.registerCheck goto_threads_self ?_ ?_)) ?_
      (Step.wait (i := i) clock.instant ?_)) ?_ (.registerRelays clock.unixMillis goto_threads_self)) ?_
      (.registerPublish goto_threads_self), ?_⟩
    · exact undisturbed_goto rfl (by rintro k ⟨⟩)
    · rw [← hfresh] at hcheck
      exact hcheck.1
    · exact hcheck.2
    · exact undisturbed_goto rfl (by rintro k ⟨⟩)
    · exact hfresh.trans_le hinstant
    · exact undisturbed_goto rfl (by rintro k ⟨⟩)
    · exact undisturbed_goto rfl (by rintro k ⟨⟩; rfl)
    · rfl

end LeaseSystem

namespace MemberWord

def leaseSystem : LeaseSystem MemberWord := ⟨leaseRuntime, 0, fun _ => .idle, []⟩

theorem acceptLease_genesis :
    acceptLease default genesis (lease 1 30000) 1000 1000 = .ok (31000, 30000) := by
  decide +kernel

end MemberWord

open MemberWord in
/-- A lease of the genesis is installed by one thread while another commits the epoch that suspends
the third member: after the expired view of that epoch, a fresh view of the genesis is published. -/
theorem LeaseSystem.stale_lease_published_fresh :
    ∃ (s : LeaseSystem MemberWord) (expired stale : PublishedView MemberWord),
      Relation.ReflTransGen (fun a b => ∃ i, Step i a b) leaseSystem s ∧
      s.published = [expired, stale] ∧ expired.view.epochHash = suspended.hash ∧
      stale.head = some suspended ∧ stale.view.isFresh stale.instant = true ∧
      stale.view.epochHash ≠ suspended.hash ∧ stale.view.members ≠ suspended.body.members := by
  refine ⟨_, _, _, .tail (.tail (.tail (.tail (.tail (.tail (.tail .refl
    ⟨0, .installRead (lease 1 30000) rfl rfl⟩)
    ⟨0, .installAccept 1000 1000 goto_threads_self acceptLease_genesis⟩)
    ⟨0, .installBorrow goto_threads_self⟩)
    ⟨1, .commit [suspended] rfl (List.cons_ne_nil _ _)⟩)
    ⟨1, .commitRead rfl rfl⟩) ⟨1, .commitPublish 0 goto_threads_self le_rfl⟩)
    ⟨0, .installPublish rfl⟩, rfl, rfl, rfl, ?_, ?_, ?_⟩
  · decide +kernel
  · change genesis.hash ≠ suspended.hash
    decide +kernel
  · change genesis.body.members ≠ suspended.body.members
    decide +kernel

namespace MemberWord

/-- The system after the commit of the epoch that suspends the third member. -/
def committedSystem : LeaseSystem MemberWord :=
  (leaseSystem.withSource { leaseSystem.shared.source with epochchain := [genesis, suspended] }).goto 1
    (.announcing suspended) |>.publish 1 (.expired default suspended 0)

open LeaseSystem in
theorem committedSystem_run : UndisturbedRun leaseSystem committedSystem :=
  .step (.step (.step (i := 1) (.refl _) (undisturbed_idle rfl)
    (.commit [suspended] rfl (List.cons_ne_nil _ _))) (undisturbed_idle rfl) (.commitRead rfl rfl))
    (undisturbed_goto rfl (by rintro k ⟨⟩)) (.commitPublish 0 goto_threads_self le_rfl)

end MemberWord

open MemberWord in
/-- A lease of the new epoch is installed after the commit. -/
theorem LeaseSystem.lease_published_after_commit :
    ∃ (s : LeaseSystem MemberWord) (p : PublishedView MemberWord), UndisturbedRun leaseSystem s ∧
      s.published.length = 2 ∧ p ∈ s.published ∧ p.view.isFresh p.instant = true ∧
      ∃ head, p.head = some head ∧ p.view.epochHash = head.hash ∧
        p.view.members = head.body.members := by
  obtain ⟨rt, hinstall, hview⟩ := exists_of_check (p := fun rt => rt.view.isFresh 0 = true)
    (x := committedSystem.shared.installMembershipLease (leaseOf suspended 1 30000) leaseClock)
    (by decide +kernel)
  obtain ⟨s, hrun, -, hpublished⟩ :=
    installMembershipLease_runs (s := committedSystem) (i := 0) rfl rfl hinstall
  have hmem : (⟨rt.view, some suspended, 0⟩ : PublishedView MemberWord) ∈ s.published := by
    rw [hpublished]
    exact List.mem_append_right _ (List.mem_singleton_self _)
  have hidle : ∀ i, leaseSystem.threads i = .idle := fun _ => rfl
  have hall := committedSystem_run.trans hrun
  exact ⟨s, _, hall, by rw [hpublished]; rfl, hmem, hview,
    fresh_views_describe_head hidle rfl hall _ hmem hview⟩

end Blossom
