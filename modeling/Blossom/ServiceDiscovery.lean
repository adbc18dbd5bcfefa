import Blossom.RuntimeSnapshot

/-!
# Remote service discovery

Remote nodes register services with signed records or with node admissions.
-/

namespace Blossom

open CheckedSteps OrderedMap

variable {W : Type}
variable {record record' : SignedServiceRecord W} {previous : Option (Service W)}
  {keys : List (ServiceRecordKey W)}

namespace ServiceRecordBody

def serviceKey (b : ServiceRecordBody W) : ServiceKey W := ⟨b.serviceKind, b.owner⟩

def endpoint (b : ServiceRecordBody W) : Option (Service W) :=
  if b.tombstone then none else some b.service

end ServiceRecordBody

namespace AddressBook

variable [LinearOrder W]

def removeRecord (book : AddressBook W) (key : ServiceRecordKey W) : AddressBook W :=
  match book.signedRecords[key]? with
  | some record => ⟨book.services.erase record.body.serviceKey, book.signedRecords.erase key⟩
  | none => book

def expiredKeys (book : AddressBook W) (nowUnixMillis : ℕ) : List (ServiceRecordKey W) :=
  book.signedRecords.toList.filterMap fun (key, record) =>
    if record.body.expiresAtUnixMillis ≤ nowUnixMillis then some key else none

def pruneExpiredSignedRecords (book : AddressBook W) (nowUnixMillis : ℕ) : AddressBook W :=
  (book.expiredKeys nowUnixMillis).foldl removeRecord book

variable {book : AddressBook W} {key : ServiceRecordKey W} {record : SignedServiceRecord W}

theorem lookup_removeRecords :
    (keys.foldl removeRecord book).signedRecords[key]? = some record ↔
      key ∉ keys ∧ book.signedRecords[key]? = some record := by
  induction keys generalizing book with
  | nil => simp
  | cons first keys ih =>
    rw [List.foldl_cons, ih, removeRecord]
    split
    next removed hremoved =>
      simp only [lookup_erase, List.mem_cons, not_or]
      by_cases hkey : key = first <;> simp [hkey, eq_comm]
    next hnone =>
      by_cases hkey : key = first
      · simp [hkey, hnone]
      · simp [hkey]

theorem services_removeRecords {pair : ServiceKey W}
    (h : ∀ key ∈ keys, ∀ record, book.signedRecords[key]? = some record → record.body.serviceKey ≠ pair) :
    (keys.foldl removeRecord book).services[pair]? = book.services[pair]? := by
  induction keys generalizing book with
  | nil => rfl
  | cons first keys ih =>
    rw [List.foldl_cons, ih]
    · rw [removeRecord]
      split
      next removed hremoved =>
        have hne := h first List.mem_cons_self removed hremoved
        rw [lookup_erase, if_neg hne]
      next => rfl
    · intro key hkey record hrec
      have hheld : key ∉ [first] ∧ book.signedRecords[key]? = some record :=
        lookup_removeRecords.mp hrec
      exact h key (List.mem_cons_of_mem _ hkey) record hheld.2

variable {now : ℕ}

theorem mem_expiredKeys (hrec : book.signedRecords[key]? = some record) :
    key ∈ book.expiredKeys now ↔ record.body.expiresAtUnixMillis ≤ now := by
  simp [expiredKeys, Std.ExtTreeMap.mem_toList_iff_getElem?_eq_some, hrec]

theorem lookup_pruneExpiredSignedRecords :
    (book.pruneExpiredSignedRecords now).signedRecords[key]? = some record ↔
      book.signedRecords[key]? = some record ∧ now < record.body.expiresAtUnixMillis := by
  rw [pruneExpiredSignedRecords, lookup_removeRecords, and_comm]
  refine and_congr_right fun hrec => ?_
  rw [mem_expiredKeys hrec, not_le]

theorem services_pruneExpiredSignedRecords {pair : ServiceKey W}
    (h : ∀ (key : ServiceRecordKey W) (record : SignedServiceRecord W),
      book.signedRecords[key]? = some record → record.body.serviceKey = pair →
      now < record.body.expiresAtUnixMillis) :
    (book.pruneExpiredSignedRecords now).services[pair]? = book.services[pair]? := by
  refine services_removeRecords fun key hkey record hrec hpair => ?_
  exact ((mem_expiredKeys hrec).mp hkey).not_gt (h key record hrec hpair)

end AddressBook

inductive ServiceRegistration (W : Type) where
  | signedService (record : SignedServiceRecord W)
  | nodeAdmission (admission : NodeAdmission W)

def ServiceRegistration.intoParts :
    ServiceRegistration W → Service W × Option (NodeAdmission W) × Option (SignedServiceRecord W)
  | .signedService record => (record.body.service, none, some record)
  | .nodeAdmission admission => (admission.body.service, some admission, none)

variable [ProtocolCrypto W]

/-- What a `RegisterService` request does to the address book. An admission is staged after that;
where this fails, the request fails and the book stays changed. -/
def SnapshotSource.registerRemoteService (s : SnapshotSource W)
    (registration : ServiceRegistration W) (nowUnixMillis : ℕ) :
    Result (Option (Service W) × SnapshotSource W) :=
  match registration.intoParts with
  | (_, _, some record) => s.registerSignedService record nowUnixMillis
  | (service, admission, none) => do
    let admission ← require admission
      (invalidConfiguration "service registration has no authentication evidence")
    admission.verify
    pure (s.addressBook.services[(⟨service.kind, service.publicKey⟩ : ServiceKey W)]?,
      { s with addressBook := s.addressBook.add service })

def SnapshotSource.pruneExpired (s : SnapshotSource W) (nowUnixMillis : ℕ) : SnapshotSource W :=
  { s with addressBook := s.addressBook.pruneExpiredSignedRecords nowUnixMillis }

namespace SnapshotSource

variable {s s' : SnapshotSource W} {now : ℕ} {previous : Option (Service W)}
  {admission : NodeAdmission W}

theorem registerRemoteService_signed
    (h : s.registerRemoteService (.signedService record) now = .ok (previous, s')) :
    ∃ (members : MemberSet W) (book : AddressBook W),
      s.addressBook.applySignedRecord record s.groupId members now = .ok (previous, book) ∧
      s' = { s with addressBook := book } := by
  simp only [registerRemoteService, ServiceRegistration.intoParts, registerSignedService, bind_eq_ok,
    require_eq_ok, pure_eq_ok] at h
  obtain ⟨latest, -, ⟨previous', book⟩, happly, heq⟩ := h
  cases heq
  exact ⟨_, book, happly, rfl⟩

theorem registerRemoteService_admission
    (h : s.registerRemoteService (.nodeAdmission admission) now = .ok (previous, s')) :
    admission.body.service.kind = .consensus ∧
      s' = { s with addressBook := s.addressBook.add admission.body.service } := by
  simp only [registerRemoteService, ServiceRegistration.intoParts, NodeAdmission.verify,
    validateConsensusServiceBinding, ↓guard_bind_eq_ok, bind_eq_ok, require_eq_ok, reject_eq_ok,
    pure_eq_ok, not_not] at h
  obtain ⟨_, hadm, ⟨⟨hkind, -⟩, -⟩, heq⟩ := h
  cases hadm
  cases heq
  exact ⟨hkind, rfl⟩

theorem registerRemoteService_of_verify (s : SnapshotSource W) (now : ℕ)
    (h : admission.verify = .ok ()) :
    ∃ previous, s.registerRemoteService (.nodeAdmission admission) now =
      .ok (previous, { s with addressBook := s.addressBook.add admission.body.service }) :=
  ⟨_, bind_eq_ok.mpr ⟨admission, require_eq_ok.mpr rfl, bind_eq_ok.mpr ⟨(), h, rfl⟩⟩⟩

end SnapshotSource

theorem AddressBook.applySignedRecord_endpoint {book next : AddressBook W} {groupId : W}
    {members : MemberSet W} {now : ℕ}
    (h : book.applySignedRecord record groupId members now = .ok (previous, next)) :
    (∀ current, book.signedRecords[record.body.key]? = some current →
      current.body.generation < record.body.generation) ∧
    ∀ pair, next.services[pair]? =
      if record.body.serviceKey = pair then record.body.endpoint else book.services[pair]? := by
  simp only [applySignedRecord, ↓guard_bind_eq_ok, bind_eq_ok, require_eq_ok, reject_eq_ok,
    pure_eq_ok, not_or, not_not] at h
  obtain ⟨_, -, -, member, -, -, -, hgen, heq⟩ := h
  cases heq
  refine ⟨fun current hcur => ?_, fun pair => ?_⟩
  · rw [hcur] at hgen
    simpa using hgen
  · change (if record.body.tombstone = true then book.services.erase record.body.serviceKey
      else book.services.insert record.body.serviceKey record.body.service)[pair]? = _
    rw [ServiceRecordBody.endpoint]
    split
    · rw [lookup_erase]
      congr
    · rw [lookup_insert]
      congr

/-! ### Runs -/

/-- A runtime that takes remote registrations, the time, and the signed records it has accepted. -/
structure Discovery (W : Type) [LinearOrder W] where
  source : SnapshotSource W
  now : ℕ
  accepted : List (SignedServiceRecord W)

inductive DiscoveryEvent (W : Type) where
  | register (registration : ServiceRegistration W)
  | prune
  | commit

namespace Discovery

/-- The steps of a runtime. The clock does not go back. A registration that is refused changes
nothing, and an epoch may be committed at any moment. -/
inductive Step : DiscoveryEvent W → Discovery W → Discovery W → Prop
  | signed {s : Discovery W} {record : SignedServiceRecord W} {now : ℕ}
      {previous : Option (Service W)} {source : SnapshotSource W} : s.now ≤ now →
      s.source.registerRemoteService (.signedService record) now = .ok (previous, source) →
      Step (.register (.signedService record)) s ⟨source, now, s.accepted ++ [record]⟩
  | admission {s : Discovery W} {admission : NodeAdmission W} {now : ℕ}
      {previous : Option (Service W)} {source : SnapshotSource W} : s.now ≤ now →
      s.source.registerRemoteService (.nodeAdmission admission) now = .ok (previous, source) →
      Step (.register (.nodeAdmission admission)) s ⟨source, now, s.accepted⟩
  | prune {s : Discovery W} {now : ℕ} : s.now ≤ now →
      Step .prune s ⟨s.source.pruneExpired now, now, s.accepted⟩
  | commit {s : Discovery W} (epochs : List (Epoch W)) :
      Step .commit s { s with source :=
        { s.source with epochchain := s.source.epochchain ++ epochs } }

/-- Discovery has not rolled back: the pair of every record that is held and has not expired has the
endpoint of that record, and of two records that were accepted for a key the later one has the later
generation. -/
structure Monotone (s : Discovery W) : Prop where
  endpoints : ∀ (key : ServiceRecordKey W) (record : SignedServiceRecord W),
    s.source.addressBook.signedRecords[key]? = some record →
      s.now < record.body.expiresAtUnixMillis →
        s.source.addressBook.services[record.body.serviceKey]? = record.body.endpoint
  generations : s.accepted.Pairwise fun earlier later =>
    earlier.body.key = later.body.key → earlier.body.generation < later.body.generation

/-- What a registration must meet: an admission names the endpoint of the unexpired record of its
pair, and a record whose key has none in the book is later than those accepted before they were
pruned. -/
def Guarded (s : Discovery W) (now : ℕ) : DiscoveryEvent W → Prop
  | .register (.signedService record) =>
    s.source.addressBook.signedRecords[record.body.key]? = none →
      ∀ earlier ∈ s.accepted, earlier.body.key = record.body.key →
        earlier.body.generation < record.body.generation
  | .register (.nodeAdmission admission) =>
    ∀ (key : ServiceRecordKey W) (record : SignedServiceRecord W),
      s.source.addressBook.signedRecords[key]? = some record →
        now < record.body.expiresAtUnixMillis →
        record.body.serviceKey = ⟨.consensus, admission.body.service.publicKey⟩ →
          record.body.endpoint = some admission.body.service
  | .prune | .commit => True

inductive GuardedRun : Discovery W → Discovery W → Prop
  | refl (s : Discovery W) : GuardedRun s s
  | step {s₀ s s' : Discovery W} {event : DiscoveryEvent W} : GuardedRun s₀ s →
      Step event s s' → s.Guarded s'.now event → GuardedRun s₀ s'

/-- Every record is kept under its own key, and is the latest that was accepted for it. -/
structure Sound (s : Discovery W) : Prop extends Monotone s where
  keys : ∀ (key : ServiceRecordKey W) (record : SignedServiceRecord W),
    s.source.addressBook.signedRecords[key]? = some record →
      key = record.body.key ∧ record.body.groupId = s.source.groupId
  latest : ∀ (key : ServiceRecordKey W) (record : SignedServiceRecord W),
    s.source.addressBook.signedRecords[key]? = some record → ∀ earlier ∈ s.accepted,
      earlier.body.key = key → earlier.body.generation ≤ record.body.generation

variable {s s' s₀ : Discovery W} {event : DiscoveryEvent W} {now : ℕ}

theorem Sound.eq_of_serviceKey (h : s.Sound) {key key' : ServiceRecordKey W}
    (hrec : s.source.addressBook.signedRecords[key]? = some record)
    (hrec' : s.source.addressBook.signedRecords[key']? = some record')
    (hpair : record.body.serviceKey = record'.body.serviceKey) : record = record' := by
  obtain ⟨rfl, hgroup⟩ := h.keys _ _ hrec
  obtain ⟨rfl, hgroup'⟩ := h.keys _ _ hrec'
  have hkey : record.body.key = record'.body.key := by
    simp only [ServiceRecordBody.serviceKey, ServiceKey.mk.injEq] at hpair
    simp only [ServiceRecordBody.key, hgroup, hgroup', hpair.1, hpair.2]
  rw [hkey] at hrec
  exact Option.some.inj (hrec.symm.trans hrec')

theorem Sound.signed (h : s.Sound) {source : SnapshotSource W} (hnow : s.now ≤ now)
    (hreg : s.source.registerRemoteService (.signedService record) now = .ok (previous, source))
    (hguard : s.Guarded now (.register (.signedService record))) :
    Sound ⟨source, now, s.accepted ++ [record]⟩ := by
  obtain ⟨members, book, happly, rfl⟩ := SnapshotSource.registerRemoteService_signed hreg
  obtain ⟨hadm, hsig⟩ := applySignedRecord_spec happly
  obtain ⟨hheld, hservices⟩ := AddressBook.applySignedRecord_endpoint happly
  have hlater : ∀ earlier ∈ s.accepted, earlier.body.key = record.body.key →
      earlier.body.generation < record.body.generation := by
    intro earlier hearlier hkey
    cases hcur : s.source.addressBook.signedRecords[record.body.key]? with
    | none => exact hguard hcur earlier hearlier hkey
    | some current =>
      exact (h.latest _ _ hcur earlier hearlier hkey).trans_lt (hheld current hcur)
  have hlook : ∀ (key : ServiceRecordKey W) (other : SignedServiceRecord W),
      book.signedRecords[key]? = some other →
        (other = record ∧ key = record.body.key) ∨
        (record.body.key ≠ key ∧ s.source.addressBook.signedRecords[key]? = some other) := by
    intro key other hother
    rw [hsig, lookup_insert] at hother
    split at hother
    next hkey => exact .inl ⟨(Option.some.inj hother).symm, hkey.symm⟩
    next hkey => exact .inr ⟨hkey, hother⟩
  refine ⟨⟨fun key other hother hlive => ?_, ?_⟩, fun key other hother => ?_,
    fun key other hother earlier hearlier hkey => ?_⟩
  · rw [hservices]
    rcases hlook key other hother with ⟨rfl, -⟩ | ⟨hne, hold⟩
    · rw [if_pos rfl]
    · obtain ⟨rfl, hgroup⟩ := h.keys key other hold
      rw [if_neg, h.endpoints _ other hold (hnow.trans_lt hlive)]
      intro hpair
      rw [ServiceRecordBody.serviceKey, ServiceRecordBody.serviceKey, ServiceKey.mk.injEq] at hpair
      refine hne ?_
      rw [ServiceRecordBody.key, ServiceRecordBody.key, hgroup, hadm.groupId_eq, hpair.1,
        hpair.2]
  · refine List.pairwise_append.mpr ⟨h.generations, List.pairwise_singleton _ _, ?_⟩
    intro earlier hearlier later hlater' hkey
    cases List.mem_singleton.mp hlater'
    exact hlater earlier hearlier hkey
  · rcases hlook key other hother with ⟨rfl, hkey⟩ | ⟨-, hold⟩
    · exact ⟨hkey, hadm.groupId_eq⟩
    · exact h.keys key other hold
  · rcases hlook key other hother with ⟨rfl, rfl⟩ | ⟨hne, hold⟩
    · rcases List.mem_append.mp hearlier with hearlier | hearlier
      · exact (hlater earlier hearlier hkey).le
      · rw [List.mem_singleton.mp hearlier]
    · rcases List.mem_append.mp hearlier with hearlier | hearlier
      · exact h.latest key other hold earlier hearlier hkey
      · rw [List.mem_singleton.mp hearlier] at hkey
        exact absurd hkey hne

theorem Sound.admission (h : s.Sound) {admission : NodeAdmission W} {source : SnapshotSource W}
    (hnow : s.now ≤ now)
    (hreg : s.source.registerRemoteService (.nodeAdmission admission) now = .ok (previous, source))
    (hguard : s.Guarded now (.register (.nodeAdmission admission))) :
    Sound ⟨source, now, s.accepted⟩ := by
  obtain ⟨hkind, rfl⟩ := SnapshotSource.registerRemoteService_admission hreg
  refine ⟨⟨fun key record hrec hlive => ?_, h.generations⟩, h.keys, h.latest⟩
  change (s.source.addressBook.services.insert _ _)[record.body.serviceKey]? = _
  rw [lookup_insert, hkind]
  split
  next hpair => exact (hguard key record hrec hlive hpair.symm).symm
  next => exact h.endpoints key record hrec (hnow.trans_lt hlive)

theorem Sound.prune (h : s.Sound) (hnow : s.now ≤ now) :
    Sound ⟨s.source.pruneExpired now, now, s.accepted⟩ := by
  refine ⟨⟨fun key record hrec hlive => ?_, h.generations⟩, fun key record hrec => ?_,
    fun key record hrec => ?_⟩
  · obtain ⟨hheld, -⟩ := AddressBook.lookup_pruneExpiredSignedRecords.mp hrec
    rw [← h.endpoints key record hheld (hnow.trans_lt hlive)]
    refine AddressBook.services_pruneExpiredSignedRecords fun key' record' hrec' hpair => ?_
    rw [h.eq_of_serviceKey hrec' hheld hpair]
    exact hlive
  · exact h.keys key record (AddressBook.lookup_pruneExpiredSignedRecords.mp hrec).1
  · exact h.latest key record (AddressBook.lookup_pruneExpiredSignedRecords.mp hrec).1

theorem Sound.step (h : s.Sound) (hstep : Step event s s') (hguard : s.Guarded s'.now event) :
    s'.Sound := by
  cases hstep with
  | signed hnow hreg => exact h.signed hnow hreg hguard
  | admission hnow hreg => exact h.admission hnow hreg hguard
  | prune hnow => exact h.prune hnow
  | commit epochs => exact ⟨⟨h.endpoints, h.generations⟩, h.keys, h.latest⟩

theorem guarded_of_monotone (hstep : Step event s s') (h : s'.Monotone) :
    s.Guarded s'.now event := by
  cases hstep with
  | signed hnow hreg =>
    intro hnone earlier hearlier
    exact (List.pairwise_append.mp h.generations).2.2 earlier hearlier _ (List.mem_singleton_self _)
  | admission hnow hreg =>
    obtain ⟨hkind, rfl⟩ := SnapshotSource.registerRemoteService_admission hreg
    intro key record hrec hlive hpair
    rw [← h.endpoints key record hrec hlive, hpair, ← hkind]
    change (s.source.addressBook.services.insert _ _)[_]? = _
    rw [lookup_insert, if_pos rfl]
  | prune hnow => trivial
  | commit epochs => trivial

/-- In a run whose registrations are guarded, discovery never rolls back, and the next step rolls it
back exactly when it is not guarded. -/
theorem discovery_monotone_iff_guarded (hrecords : s₀.source.addressBook.signedRecords = ∅)
    (haccepted : s₀.accepted = []) (hrun : GuardedRun s₀ s) :
    s.Monotone ∧ ∀ (event : DiscoveryEvent W) (s' : Discovery W), Step event s s' →
      (s'.Monotone ↔ s.Guarded s'.now event) := by
  have hsound : s.Sound := by
    induction hrun with
    | refl =>
      refine ⟨⟨?_, by rw [haccepted]; exact List.Pairwise.nil⟩, ?_, ?_⟩ <;>
        simp [hrecords]
    | step _ hstep hguard ih => exact ih.step hstep hguard
  exact ⟨hsound.toMonotone, fun event s' hstep => ⟨guarded_of_monotone hstep,
    fun hguard => (hsound.step hstep hguard).toMonotone⟩⟩

end Discovery

namespace MemberWord

def consensusService (host : UInt8) : Service MemberWord :=
  ⟨.consensus, key 3, [1], [host], 1⟩

def announcement (host : UInt8) (generation expires : ℕ) : SignedServiceRecord MemberWord :=
  let body : ServiceRecordBody MemberWord :=
    ⟨default, key 3, .consensus, [1], [host], 1, generation, expires, false⟩
  ⟨body, sign 3 body.signingFields⟩

/-- The admission with which the third member once joined. -/
def oldAdmission : NodeAdmission MemberWord :=
  let body : NodeAdmissionBody MemberWord :=
    ⟨⟨key 3, [1], [8], 1, true⟩, consensusService 8, default, 0⟩
  ⟨body, sign 3 body.fields⟩

def discovery : Discovery MemberWord := ⟨runtime 1, 0, []⟩

theorem step_announcement (host : UInt8) (generation expires : ℕ)
    (h : ((runtime 1).registerRemoteService (.signedService (announcement host generation expires))
      0).isOk = true) :
    ∃ s : Discovery MemberWord,
      Discovery.Step (.register (.signedService (announcement host generation expires))) discovery
        s ∧ s.now = 0 ∧ s.accepted = [announcement host generation expires] ∧
      s.source.addressBook.signedRecords[(announcement host generation expires).body.key]? =
        some (announcement host generation expires) := by
  obtain ⟨⟨previous, source⟩, hreg⟩ := exists_of_isOk h
  obtain ⟨members, book, happly, rfl⟩ := SnapshotSource.registerRemoteService_signed hreg
  refine ⟨_, .signed le_rfl hreg, rfl, rfl, ?_⟩
  rw [(applySignedRecord_spec happly).2, lookup_insert, if_pos rfl]

/-- One record is registered, expires and is pruned, and then another one is registered. -/
theorem steps_around_prune (first second : SignedServiceRecord MemberWord)
    (h : (((runtime 1).registerRemoteService (.signedService first) 0).bind fun result =>
      (result.2.pruneExpired 50).registerRemoteService (.signedService second) 50).isOk = true) :
    ∃ s₁ s₂ s₃ : Discovery MemberWord, Discovery.Step (.register (.signedService first)) discovery s₁ ∧
      Discovery.Step .prune s₁ s₂ ∧ Discovery.Step (.register (.signedService second)) s₂ s₃ ∧
      s₂.accepted = [first] ∧ s₃.accepted = [first, second] := by
  obtain ⟨⟨_, source'⟩, hresult⟩ := exists_of_isOk h
  obtain ⟨⟨_, source⟩, hfirst, hsecond⟩ := bind_eq_ok.mp hresult
  exact ⟨_, _, _, .signed le_rfl hfirst, .prune (Nat.zero_le 50), .signed le_rfl hsecond, rfl, rfl⟩

theorem verify_oldAdmission : oldAdmission.verify = .ok () := by decide +kernel

end MemberWord

open MemberWord in
/-- A replayed admission brings back the endpoint of a member that has announced another one, and a
record of the first generation is accepted again once the second has been pruned. -/
theorem Discovery.replays_roll_back :
    (∃ s : Discovery MemberWord,
      Relation.ReflTransGen (fun a b => ∃ event, Step event a b) discovery s ∧
      s.source.addressBook.signedRecords[(announcement 9 1 100).body.key]? =
        some (announcement 9 1 100) ∧ s.now < 100 ∧
      s.source.addressBook.services[(announcement 9 1 100).body.serviceKey]? =
        some (consensusService 8)) ∧
    ∃ s : Discovery MemberWord,
      Relation.ReflTransGen (fun a b => ∃ event, Step event a b) discovery s ∧
      s.accepted = [announcement 9 2 50, announcement 8 1 100] := by
  constructor
  · obtain ⟨s, hsigned, hnow, -, hheld⟩ := step_announcement 9 1 100 (by decide +kernel)
    obtain ⟨previous, hadmission⟩ :=
      s.source.registerRemoteService_of_verify 0 verify_oldAdmission
    refine ⟨_, .tail (.single ⟨_, hsigned⟩) ⟨_, .admission hnow.le hadmission⟩, hheld,
      Nat.zero_lt_succ _, ?_⟩
    exact (lookup_insert _ _ _ _).trans (if_pos rfl)
  · obtain ⟨s₁, s₂, s₃, hfirst, hprune, hsecond, -, haccepted⟩ :=
      steps_around_prune (announcement 9 2 50) (announcement 8 1 100) (by decide +kernel)
    exact ⟨s₃, .tail (.tail (.single ⟨_, hfirst⟩) ⟨_, hprune⟩) ⟨_, hsecond⟩, haccepted⟩

open MemberWord in
/-- A record of the second generation is accepted after the first has been pruned. -/
theorem Discovery.later_announcement_monotone :
    ∃ s : Discovery MemberWord, GuardedRun discovery s ∧
      s.accepted = [announcement 9 1 50, announcement 8 2 100] ∧ s.Monotone := by
  obtain ⟨s₁, s₂, s₃, hfirst, hprune, hsecond, hone, hboth⟩ :=
    steps_around_prune (announcement 9 1 50) (announcement 8 2 100) (by decide +kernel)
  have hlater : ∀ earlier ∈ s₂.accepted,
      earlier.body.generation < (announcement 8 2 100).body.generation := by
    rw [hone]
    decide
  have hrun := GuardedRun.step (.step (.step (.refl discovery) hfirst fun _ earlier hearlier => by
    cases hearlier) hprune trivial) hsecond fun _ earlier hearlier _ => hlater earlier hearlier
  exact ⟨s₃, hrun, hboth, (discovery_monotone_iff_guarded rfl rfl hrun).1⟩

end Blossom
