import Blossom.MembershipLease

/-!
# Replayed leases

A certificate may be installed more than once, with other certificates and service registrations in
between.
-/

namespace Blossom

open CheckedSteps OrderedMap

variable {W : Type}

def MembershipLeaseStatement.expiry (s : MembershipLeaseStatement W) : ℕ :=
  s.issuedAtUnixMillis + s.validForMillis

variable [ProtocolCrypto W]

structure LeaseInstall (W : Type) [LinearOrder W] where
  certificate : MembershipLeaseCertificate W
  instant : ℕ
  remaining : ℕ

namespace LeaseInstall

def deadline (i : LeaseInstall W) : ℕ := i.instant + fromMillis i.remaining

def IsFirst (log : List (LeaseInstall W)) (i : LeaseInstall W) : Prop :=
  log.find? (fun j => decide (j.certificate = i.certificate)) = some i

theorem isFirst_append {log : List (LeaseInstall W)} {i : LeaseInstall W} (h : IsFirst log i)
    (last : LeaseInstall W) : IsFirst (log ++ [last]) i := by
  simp [IsFirst, List.find?_append, show log.find? _ = some i from h]

theorem isFirst_concat {log : List (LeaseInstall W)} {i : LeaseInstall W}
    (h : ∀ j ∈ log, j.certificate ≠ i.certificate) : IsFirst (log ++ [i]) i := by
  have hnone : log.find? (fun j => decide (j.certificate = i.certificate)) = none := by
    simpa using h
  simp [IsFirst, List.find?_append, hnone]

end LeaseInstall

namespace LeaseRuntime

variable {rt rt' start : LeaseRuntime W} {certificate : MembershipLeaseCertificate W}
  {clock : LeaseClock} {log : List (LeaseInstall W)}

def leaseDeadline (rt : LeaseRuntime W) (head : Epoch W)
    (certificate : MembershipLeaseCertificate W) (clock : LeaseClock) : ℕ :=
  clampToRelays (clock.instant + fromMillis (certificate.statement.expiry - clock.unixMillis))
    clock.instant clock.unixMillis
    (verifiedRelaySet rt.source.addressBook rt.source.groupId head.body.members clock.unixMillis).2

/-- The published view is of the epoch of a certificate and has a lease that ends no earlier. -/
def Outlasts (rt : LeaseRuntime W) (certificate : MembershipLeaseCertificate W) : Prop :=
  rt.view.epochHash = certificate.statement.epochHash ∧
    certificate.statement.expiry ≤ rt.view.leaseExpiresAtUnixMillis

/-- A certificate is covered by the published view: its lease outlasts the certificate, or its deadline
is no earlier than the one of the certificate. -/
def Covers (rt : LeaseRuntime W) (certificate : MembershipLeaseCertificate W)
    (clock : LeaseClock) : Prop :=
  rt.Outlasts certificate ∨ ∀ head, rt.source.epochchain.getLast? = some head →
    rt.leaseDeadline head certificate clock ≤ rt.view.validUntil

theorem installMembershipLease_spec (h : rt.installMembershipLease certificate clock = .ok rt') :
    ∃ head relays, rt.source.epochchain.getLast? = some head ∧
      certificate.statement.epochHash = head.hash ∧
      certificate.statement.remainingValidityAt clock.unixMillis =
        .ok (certificate.statement.expiry - clock.unixMillis) ∧
      rt' = ⟨rt.source, leaseView rt.source.groupId head certificate.statement.expiry
        (rt.leaseDeadline head certificate clock) relays rt.view⟩ := by
  simp only [installMembershipLease, acceptLease, bind_eq_ok, ↓guard_bind_eq_ok, require_eq_ok,
    reject_eq_ok, pure_eq_ok, not_or, not_not] at h
  obtain ⟨head, hhead, ⟨leaseExpires, remaining⟩, hacc, heq⟩ := h
  obtain ⟨-, ⟨-, hhash, -, -⟩, _, hexp, _, hremn, hpair⟩ := hacc
  cases hpair
  have hexpiry : leaseExpires = certificate.statement.expiry :=
    MembershipLeaseStatement.expiresAtUnixMillis_eq_ok hexp
  subst hexpiry
  have hleft : remaining = certificate.statement.expiry - clock.unixMillis := by
    obtain ⟨expires, hagain, -, hleft⟩ :=
      MembershipLeaseStatement.remainingValidityAt_eq_ok hremn
    cases hexp.symm.trans hagain
    exact hleft
  subst hleft
  exact ⟨head, _, hhead, hhash, hremn, heq.symm⟩

theorem validUntil_install_le_iff (h : rt.installMembershipLease certificate clock = .ok rt') :
    rt'.view.validUntil ≤ rt.view.validUntil ↔ rt.Covers certificate clock := by
  obtain ⟨head, relays, hhead, hhash, -, rfl⟩ := installMembershipLease_spec h
  simp only [Covers, Outlasts, leaseView, hhash, hhead, Option.some.injEq, forall_eq']
  by_cases hcov : rt.view.epochHash = head.hash ∧
      certificate.statement.expiry ≤ rt.view.leaseExpiresAtUnixMillis
  · simp [hcov]
  · simp [hcov]

/-- An installation never sets a deadline later than the validity that remains of its lease. -/
theorem validUntil_install_le (h : rt.installMembershipLease certificate clock = .ok rt') :
    rt'.view.validUntil ≤
      clock.instant + fromMillis (certificate.statement.expiry - clock.unixMillis) := by
  obtain ⟨head, relays, -, -, -, rfl⟩ := installMembershipLease_spec h
  have hclamped : rt.leaseDeadline head certificate clock ≤
      clock.instant + fromMillis (certificate.statement.expiry - clock.unixMillis) :=
    clampToRelays_le _ _ _ _
  simp only [leaseView]
  split
  · exact (min_le_left _ _).trans hclamped
  · exact hclamped

theorem validUntil_register_le {record : SignedServiceRecord W} {clock : RelayClock}
    (h : rt.registerSignedService record clock = .ok rt') :
    rt'.view.validUntil ≤ rt.view.validUntil := by
  simp only [registerSignedService, bind_eq_ok, pure_eq_ok] at h
  obtain ⟨head, -, ⟨previous, source⟩, -, rfl⟩ := h
  simp only [republishFreshMembershipRelays]
  split
  · exact le_rfl
  · exact clampToRelays_le _ _ _ _

/-- The successful calls within one epoch, in which a certificate is installed again only when the lease
of the view outlasts it. A failed call changes nothing. -/
inductive CoveredRun (start : LeaseRuntime W) : List (LeaseInstall W) → LeaseRuntime W → Prop
  | start : CoveredRun start [] start
  | install {log : List (LeaseInstall W)} {rt rt' : LeaseRuntime W}
      {certificate : MembershipLeaseCertificate W} {clock : LeaseClock} {remaining : ℕ} :
      CoveredRun start log rt → rt.installMembershipLease certificate clock = .ok rt' →
      certificate.statement.remainingValidityAt clock.unixMillis = .ok remaining →
      ((∃ i ∈ log, i.certificate = certificate) → rt.Outlasts certificate) →
      CoveredRun start (log ++ [⟨certificate, clock.instant, remaining⟩]) rt'
  | register {log : List (LeaseInstall W)} {rt rt' : LeaseRuntime W}
      {record : SignedServiceRecord W} {clock : RelayClock} : CoveredRun start log rt →
      rt.registerSignedService record clock = .ok rt' → CoveredRun start log rt'

theorem CoveredRun.bounded (h : CoveredRun start log rt) (hlog : log ≠ []) :
    ∃ i, LeaseInstall.IsFirst log i ∧ rt.view.validUntil ≤ i.deadline := by
  induction h with
  | start => exact absurd rfl hlog
  | @install log rt rt' certificate clock remaining hrun hinst hremn hcov ih =>
    by_cases hagain : ∃ i ∈ log, i.certificate = certificate
    · -- A covered certificate keeps the bound there was.
      have hkept := (validUntil_install_le_iff hinst).mpr (.inl (hcov hagain))
      obtain ⟨j, hj, -⟩ := hagain
      obtain ⟨i, hfirst, hbound⟩ := ih (List.ne_nil_of_mem hj)
      exact ⟨i, LeaseInstall.isFirst_append hfirst _, hkept.trans hbound⟩
    · have hnew : ∀ j ∈ log, j.certificate ≠ certificate := by
        simpa using hagain
      refine ⟨_, LeaseInstall.isFirst_concat hnew, ?_⟩
      obtain ⟨-, -, -, -, hleft, -⟩ := installMembershipLease_spec hinst
      cases hremn.symm.trans hleft
      exact validUntil_install_le hinst
  | register _ hreg ih =>
    obtain ⟨i, hfirst, hbound⟩ := ih hlog
    exact ⟨i, hfirst, (validUntil_register_le hreg).trans hbound⟩

/-- An installation moves the deadline forward exactly when the view does not cover the certificate, a
registration never does, and as long as the lease of the view outlasts every certificate that is
installed again, the deadline is bounded by the first installation of some certificate. -/
theorem replayed_lease_extends_iff (h : CoveredRun start log rt) :
    (∀ certificate clock rt', rt.installMembershipLease certificate clock = .ok rt' →
      (rt'.view.validUntil ≤ rt.view.validUntil ↔ rt.Covers certificate clock)) ∧
    (∀ record clock rt', rt.registerSignedService record clock = .ok rt' →
      rt'.view.validUntil ≤ rt.view.validUntil) ∧
    (log ≠ [] → ∃ i, LeaseInstall.IsFirst log i ∧ rt.view.validUntil ≤ i.deadline) :=
  ⟨fun _ _ _ => validUntil_install_le_iff, fun _ _ _ => validUntil_register_le, h.bounded⟩

end LeaseRuntime

namespace MemberWord

def leaseOf (epoch : Epoch MemberWord) (challenge validForMillis : ℕ) :
    MembershipLeaseCertificate MemberWord :=
  let statement : MembershipLeaseStatement MemberWord :=
    ⟨default, epoch.hash, epoch.body.nonce, epoch.body.members.hash, NumberWord.key challenge, 1000,
      validForMillis⟩
  ⟨statement, .ofList [(key 1, sign 1 statement.signingFields),
    ((member 2).publicKey, sign 2 statement.signingFields)] compare⟩

def lease (challenge validForMillis : ℕ) : MembershipLeaseCertificate MemberWord :=
  leaseOf genesis challenge validForMillis

def leaseRuntime : LeaseRuntime MemberWord := ⟨runtime 1, .expired default genesis 0⟩

def leaseClock : LeaseClock := ⟨1000, 1000, 0⟩

def deadlineAfter (certificates : List (MembershipLeaseCertificate MemberWord)) : Option ℕ :=
  ((certificates.foldlM (fun (rt : LeaseRuntime MemberWord) certificate =>
    rt.installMembershipLease certificate leaseClock) leaseRuntime).toOption).map
      (·.view.validUntil)

end MemberWord

open MemberWord in
/-- A long lease, a short one and the long one again: the last installation moves the deadline from
ten to thirty seconds. -/
theorem LeaseRuntime.replayed_lease_extends :
    deadlineAfter [lease 1 30000, lease 2 10000] = some (fromMillis 10000) ∧
    deadlineAfter [lease 1 30000, lease 2 10000, lease 1 30000] = some (fromMillis 30000) := by
  decide +kernel

open MemberWord in
/-- A short lease, a long one and the short one again. -/
theorem LeaseRuntime.short_lease_replayed :
    ∃ first rt, leaseRuntime.installMembershipLease (lease 2 10000) leaseClock = .ok first ∧
      first.installMembershipLease (lease 1 30000) leaseClock = .ok rt ∧
      (∀ rt', rt.installMembershipLease (lease 2 10000) leaseClock = .ok rt' →
        rt'.view.validUntil ≤ rt.view.validUntil) ∧
      ∃ i, LeaseInstall.IsFirst [⟨lease 2 10000, 0, 10000⟩, ⟨lease 1 30000, 0, 30000⟩] i ∧
        rt.view.validUntil ≤ i.deadline := by
  obtain ⟨rt, hrun⟩ := exists_of_isOk (x := do
    let first ← leaseRuntime.installMembershipLease (lease 2 10000) leaseClock
    first.installMembershipLease (lease 1 30000) leaseClock) (by decide +kernel)
  obtain ⟨first, hfirst, hrt⟩ := bind_eq_ok.mp hrun
  have hne : lease 2 10000 ≠ lease 1 30000 := fun heq =>
    absurd (congrArg (fun certificate => certificate.statement.validForMillis) heq) (by decide)
  have hshort : CoveredRun leaseRuntime [⟨lease 2 10000, 0, 10000⟩] first :=
    .install .start hfirst rfl (by simp)
  have hcovered : CoveredRun leaseRuntime
      [⟨lease 2 10000, 0, 10000⟩, ⟨lease 1 30000, 0, 30000⟩] rt :=
    hshort.install hrt rfl (by simp [hne])
  obtain ⟨hreplay, -, hbound⟩ := replayed_lease_extends_iff hcovered
  refine ⟨first, rt, hfirst, hrt, fun rt' h => (hreplay _ _ _ h).mpr (.inl ?_), hbound (by simp)⟩
  obtain ⟨head, relays, -, hhash, -, rfl⟩ := installMembershipLease_spec hrt
  refine ⟨hhash.symm, ?_⟩
  change (lease 2 10000).statement.expiry ≤ (lease 1 30000).statement.expiry
  decide

end Blossom
