import Blossom.OrderedRun

/-!
# What the calls of an ordered engine leave alone

Each part of the engine is moved by few calls: the watermark by the application, the
finalized positions by `finalize`, the committees by their activation.
-/

namespace Blossom

open CheckedSteps OrderedMap GlobalOrderedEngine

variable {W : Type} [ProtocolCrypto W]
variable {c : OrderCertificate W}

namespace GlobalOrderedEngine

variable {e : GlobalOrderedEngine W} {β : Type} {f : GlobalOrderedEngine W → β}

/-- A part of the engine that storing a batch, a new available reference and another
application contract leave alone. -/
structure Unaffected (f : GlobalOrderedEngine W → β) : Prop where
  store : ∀ e s, f { e with store := s } = f e
  offer : ∀ e tails available,
    f { e with lastOriginReference := tails, available := available } = f e
  contract : ∀ e route spec,
    f { e with routeGeneration := route, commandSpecVersion := spec } = f e

namespace Unaffected

variable (hf : Unaffected f)

include hf

theorem commit {α : Type} {next : GlobalOrderedEngine W} {value : α}
    {persisted : Result (DurableAdmissionStore W)} (h : f next = f e) :
    f (e.commit next persisted value).2 = f e := by
  unfold GlobalOrderedEngine.commit
  split
  · rfl
  · exact (hf.store _ _).trans h

theorem storeBatch (r : BatchReference W) (b : CommandBatch) (io : Bool) :
    f (e.storeBatch r b io).2 = f e :=
  hf.commit rfl

theorem admitAvailable (a : AvailabilityCertificate W) (io : Bool) :
    f (e.admitAvailable a io).2 = f e := by
  dsimp only [GlobalOrderedEngine.admitAvailable]
  split
  · rfl
  · split_ifs
    · rfl
    · split
      · rfl
      · exact hf.commit (hf.offer _ _ _)

theorem markAvailable (a : AvailabilityCertificate W) (bindIo io : Bool) :
    f (e.markAvailable a bindIo io).2 = f e := by
  unfold GlobalOrderedEngine.markAvailable
  split
  · rfl
  · split
    · rfl
    · exact (hf.admitAvailable a io).trans (hf.store _ _)

theorem markAvailableWithBatch (b : CommandBatch)
    (a : AvailabilityCertificate W) (storeIo bindIo io : Bool) :
    f (e.markAvailableWithBatch b a storeIo bindIo io).2 = f e := by
  have hstored : f (e.storeBatch a.reference b storeIo).2 = f e := hf.storeBatch _ _ _
  unfold GlobalOrderedEngine.markAvailableWithBatch
  split
  · next heq =>
    rw [heq] at hstored
    exact hstored
  · next heq =>
    rw [heq] at hstored
    exact (hf.markAvailable a bindIo io).trans hstored

theorem finalizeValidated (h : f (e.withFinalized c) = f e) (io : Bool) :
    f (e.finalizeValidated c io).2 = f e := by
  dsimp only [GlobalOrderedEngine.finalizeValidated]
  split
  · split_ifs <;> rfl
  · split
    · rfl
    · exact hf.commit h

theorem finalize (h : f (e.withFinalized c) = f e) (io : Bool) :
    f (e.finalize c io).2 = f e := by
  unfold GlobalOrderedEngine.finalize
  split_ifs
  · rfl
  · split
    · rfl
    · exact hf.finalizeValidated h io

theorem finalizeTrusted {s : OrderStatement W}
    (h : f (e.withFinalized (.trusted s)) = f e) (io : Bool) :
    f (e.finalizeTrusted s io).2 = f e := by
  unfold GlobalOrderedEngine.finalizeTrusted
  split_ifs
  · rfl
  · split
    · rfl
    · exact hf.finalizeValidated h io

theorem finalizeTrustedEpoch [ReferenceCodec W]
    (h : ∀ e c, f (withFinalized e c) = f e) (epoch : Epoch W) (io : Bool) :
    f (e.finalizeTrustedEpoch epoch io).2 = f e := by
  have hreceipts (receipts : List (OrderCertificate W)) : f (e.withReceipts receipts) = f e := by
    induction receipts generalizing e with
    | nil => rfl
    | cons c receipts ih => exact ih.trans (h e c)
  dsimp only [GlobalOrderedEngine.finalizeTrustedEpoch]
  split
  · rfl
  · split_ifs
    · rfl
    · split
      · rfl
      · exact hf.commit (hreceipts _)

theorem applyContiguousTo (h : ∀ p hash, f (e.withApplied p hash) = f e)
    (application : OrderedBatch W → Result (List (List UInt8))) (io : Bool) :
    f (e.applyContiguousTo application io).2 = f e := by
  dsimp only [GlobalOrderedEngine.applyContiguousTo]
  split
  · rfl
  · rfl
  · split
    · rfl
    · rfl
    · split
      · rfl
      · exact hf.commit (h _ _)

theorem activateApplicationContract (route spec : ℕ) (io : Bool) :
    f (e.activateApplicationContract route spec io).2 = f e := by
  dsimp only [GlobalOrderedEngine.activateApplicationContract]
  split
  · rfl
  · exact hf.commit (hf.contract _ _ _)

theorem activateCommitteeTransition {c : CommitteeTransitionCertificate W}
    (h : f (e.withCommittee c) = f e) (io : Bool) :
    f (e.activateCommitteeTransition c io).2 = f e := by
  dsimp only [GlobalOrderedEngine.activateCommitteeTransition]
  split
  · rfl
  · exact hf.commit h

/-- A call changes the part only if it finalizes, applies or replaces the committee. -/
theorem call [ReferenceCodec W] {op : OrderedOperation W}
    (hfinalize : (∀ e c, f (withFinalized e c) = f e) ∨ (∀ c io, op ≠ .finalize c io) ∧
      (∀ s io, op ≠ .finalizeTrusted s io) ∧ ∀ epoch io, op ≠ .finalizeTrustedEpoch epoch io)
    (happly : (∀ e p hash, f (withApplied e p hash) = f e) ∨
      ∀ application io, op ≠ .applyContiguousTo application io)
    (hcommittee : (∀ e c, f (withCommittee e c) = f e) ∨
      ∀ c io, op ≠ .activateCommitteeTransition c io) :
    f (op.call e) = f e := by
  cases op with
  | storeBatch r b io => exact hf.storeBatch r b io
  | markAvailable a bindIo io => exact hf.markAvailable a bindIo io
  | markAvailableWithBatch b a storeIo bindIo io =>
    exact hf.markAvailableWithBatch b a storeIo bindIo io
  | finalize c io =>
    have hkept := hfinalize.resolve_right fun hne => hne.1 c io rfl
    exact hf.finalize (hkept e c) io
  | finalizeTrusted s io =>
    have hkept := hfinalize.resolve_right fun hne => hne.2.1 s io rfl
    exact hf.finalizeTrusted (hkept e _) io
  | finalizeTrustedEpoch epoch io =>
    have hkept := hfinalize.resolve_right fun hne => hne.2.2 epoch io rfl
    exact hf.finalizeTrustedEpoch hkept epoch io
  | applyContiguousTo application io =>
    have hkept := happly.resolve_right fun hne => hne application io rfl
    exact hf.applyContiguousTo (hkept e) application io
  | activateApplicationContract route spec io => exact hf.activateApplicationContract route spec io
  | activateCommitteeTransition c io =>
    have hkept := hcommittee.resolve_right fun hne => hne c io rfl
    exact hf.activateCommitteeTransition (hkept e c) io
  | reopen config bindIo => exact hf.store e _

end Unaffected

theorem finalize_finalized (c : OrderCertificate W) (io : Bool) :
    (e.finalize c io).2.finalized = e.finalized ∨
      (e.finalize c io).2.finalized = e.finalized.insert c.statement.position c := by
  unfold finalize
  split_ifs
  · exact .inl rfl
  · split
    · exact .inl rfl
    · dsimp only [finalizeValidated]
      split
      · left
        split_ifs <;> rfl
      · split
        · exact .inl rfl
        · unfold GlobalOrderedEngine.commit
          split
          · exact .inl rfl
          · exact .inr rfl

theorem activateCommitteeTransition_transitions (c : CommitteeTransitionCertificate W) (io : Bool) :
    (e.activateCommitteeTransition c io).2.committeeTransitions = e.committeeTransitions ∨
      (e.activateCommitteeTransition c io).2.committeeTransitions =
        e.committeeTransitions.insert c.statement.nextValidatorGeneration c := by
  dsimp only [activateCommitteeTransition]
  split
  · exact .inl rfl
  · unfold GlobalOrderedEngine.commit
    split
    · exact .inl rfl
    · exact .inr rfl

end GlobalOrderedEngine

variable {e : GlobalOrderedEngine W} {op : OrderedOperation W}

/-- The application is all that moves the watermark. -/
theorem OrderedOperation.call_applied [ReferenceCodec W]
    (h : ∀ application io, op ≠ .applyContiguousTo application io) :
    (op.call e).appliedWatermark = e.appliedWatermark := by
  have hf : Unaffected (appliedWatermark : GlobalOrderedEngine W → ℕ) :=
    ⟨fun _ _ => rfl, fun _ _ _ => rfl, fun _ _ _ => rfl⟩
  exact hf.call (.inl fun _ _ => rfl) (.inr h) (.inl fun _ _ => rfl)

/-- A verified engine finalizes what it is given, and nothing else. -/
theorem OrderedOperation.call_finalized [ReferenceCodec W] (hmode : e.orderTrustMode = .verified)
    {p : ℕ} (h : (op.call e).finalized[p]? = some c) :
    e.finalized[p]? = some c ∨ ∃ io, op = .finalize c io := by
  have hf : Unaffected (finalized : GlobalOrderedEngine W → BTreeMap ℕ (OrderCertificate W)) :=
    ⟨fun _ _ => rfl, fun _ _ _ => rfl, fun _ _ _ => rfl⟩
  have hsame (hcall : (op.call e).finalized = e.finalized) :
      e.finalized[p]? = some c ∨ ∃ io, op = .finalize c io := by
    rw [hcall] at h
    exact .inl h
  cases op with
  | finalize d io =>
    rcases finalize_finalized (e := e) d io with hcall | hcall
    · exact hsame hcall
    · change (e.finalize d io).2.finalized[p]? = some c at h
      rw [hcall, lookup_insert_eq_some] at h
      rcases h with ⟨-, rfl⟩ | ⟨-, h⟩
      · exact .inr ⟨io, rfl⟩
      · exact .inl h
  | finalizeTrusted s io =>
    refine hsame ?_
    dsimp only [OrderedOperation.call, GlobalOrderedEngine.finalizeTrusted]
    rw [if_pos (by rw [hmode]; decide)]
  | finalizeTrustedEpoch epoch io =>
    refine hsame ?_
    have hcheck : ∃ f, e.checkTrustedEpoch epoch = .error f := by
      rw [checkTrustedEpoch, hmode]
      exact ⟨_, rfl⟩
    obtain ⟨f, hcheck⟩ := hcheck
    dsimp only [OrderedOperation.call, GlobalOrderedEngine.finalizeTrustedEpoch]
    rw [hcheck]
  | _ =>
    exact hsame (hf.call (.inr (by simp)) (.inl fun _ _ _ => rfl) (.inl fun _ _ => rfl))

/-- An engine takes over the committees that it is given, and nothing else. -/
theorem OrderedOperation.call_transitions [ReferenceCodec W] {k : ℕ}
    {t : CommitteeTransitionCertificate W} (h : (op.call e).committeeTransitions[k]? = some t) :
    e.committeeTransitions[k]? = some t ∨ ∃ io, op = .activateCommitteeTransition t io := by
  have hf : Unaffected (committeeTransitions :
      GlobalOrderedEngine W → BTreeMap ℕ (CommitteeTransitionCertificate W)) :=
    ⟨fun _ _ => rfl, fun _ _ _ => rfl, fun _ _ _ => rfl⟩
  have hsame (hcall : (op.call e).committeeTransitions = e.committeeTransitions) :
      e.committeeTransitions[k]? = some t ∨ ∃ io, op = .activateCommitteeTransition t io := by
    rw [hcall] at h
    exact .inl h
  cases op with
  | activateCommitteeTransition d io =>
    rcases activateCommitteeTransition_transitions (e := e) d io with hcall | hcall
    · exact hsame hcall
    · change (e.activateCommitteeTransition d io).2.committeeTransitions[k]? = some t at h
      rw [hcall, lookup_insert_eq_some] at h
      rcases h with ⟨-, rfl⟩ | ⟨-, h⟩
      · exact .inr ⟨io, rfl⟩
      · exact .inl h
  | _ => exact hsame (hf.call (.inl fun _ _ => rfl) (.inl fun _ _ _ => rfl) (.inr (by simp)))

end Blossom
