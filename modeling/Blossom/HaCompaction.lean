import Blossom.HaAmendments

/-!
# Compaction of the history

A compaction replaces the history before a sealed epoch by a checkpoint with the membership, the
presence counters and the history hash that a replay of the dropped epochs gives. The amendments of
the dropped epochs are forgotten, and with them the command identities that they used.
-/

namespace Blossom

open CheckedSteps BitMask ConsecutiveList

variable {W : Type} [ProtocolCrypto W]

/-!
## A history and what it comes to
-/

namespace HighAvailabilityRuntimeState

open HighAvailabilityRuntime

variable {s : HighAvailabilityRuntimeState W} {older newer : List (HaEpoch W)} {e : HaEpoch W}

/-- The history of a state with an epoch that is not its first one. -/
structure CutAt (s : HighAvailabilityRuntimeState W) (older : List (HaEpoch W)) (e : HaEpoch W)
    (newer : List (HaEpoch W)) : Prop where
  epochs : s.epochs = older ++ e :: newer
  older : older ≠ []

theorem CutAt.consecutive (h : s.Valid) (hcut : s.CutAt older e newer) :
    (∀ x ∈ older, x.nonce < e.nonce) ∧ ∀ x ∈ newer, e.nonce < x.nonce := by
  have hchain := h.consecutive
  rw [hcut.epochs] at hchain
  have hsorted : (older ++ e :: newer).Pairwise fun x y => x.nonce < y.nonce :=
    List.isChain_iff_pairwise.mp (hchain.imp fun x y hxy => by omega)
  obtain ⟨-, hlater, hbefore⟩ := List.pairwise_append.mp hsorted
  exact ⟨fun x hx => hbefore x hx e List.mem_cons_self, (List.pairwise_cons.mp hlater).1⟩

section Cut

omit [ProtocolCrypto W]

theorem CutAt.drop (hcut : s.CutAt older e newer) : s.epochs.drop older.length = e :: newer := by
  rw [hcut.epochs, List.drop_left]

theorem CutAt.getLast? (hcut : s.CutAt older e newer) :
    (e :: newer).getLast? = s.epochs.getLast? := by
  rw [hcut.epochs, List.getLast?_append, List.getLast?_cons]
  rfl

end Cut

omit [ProtocolCrypto W] in
theorem cutAt_of_findIdx {i through : ℕ}
    (hi : s.epochs.findIdx? (fun x => decide (x.nonce = through)) = some i) (h0 : i ≠ 0)
    (he : s.epochs[i]? = some e) :
    ∃ older newer, older.length = i ∧ e.nonce = through ∧ s.CutAt older e newer := by
  obtain ⟨hlt, hfound, -⟩ := List.findIdx?_eq_some_iff_getElem.mp hi
  obtain ⟨_, hget⟩ := List.getElem?_eq_some_iff.mp he
  have hlen : (s.epochs.take i).length = i := List.length_take_of_le hlt.le
  refine ⟨s.epochs.take i, s.epochs.drop (i + 1), hlen, by simpa [hget] using hfound, ?_, ?_⟩
  · rw [← hget, List.cons_getElem_drop_succ, List.take_append_drop]
  · rintro hnil
    rw [hnil] at hlen
    exact h0 hlen.symm

theorem CutAt.find (h : s.Valid) (hcut : s.CutAt older e newer) {nonce : ℕ} (hle : e.nonce ≤ nonce) :
    (e :: newer).find? (fun x => decide (x.nonce = nonce)) =
      s.epochs.find? fun x => decide (x.nonce = nonce) := by
  have hnone : older.find? (fun x => decide (x.nonce = nonce)) = none := by
    rw [List.find?_eq_none]
    intro x hx
    have hlt := (hcut.consecutive h).1 x hx
    simp only [decide_eq_true_eq]
    omega
  rw [hcut.epochs, List.find?_append, hnone]
  rfl

end HighAvailabilityRuntimeState

open HighAvailabilityRuntime HighAvailabilityRuntimeState

variable [AmendmentCodec W] {ls : List (Label W)} {rt rt' : HighAvailabilityRuntime W}

open DigestWord Operation in
/-- Two rounds, in the second of which a member amends the epoch of the first one. -/
def DigestWord.amendedHistory :
    List (HighAvailabilityRuntime DigestWord → List (Operation DigestWord)) :=
  roundWith 1 [] ++ [fun rt => [.buildDispatch (amendsHead rt 1) 0, .acknowledge true],
    echo 1 (.acknowledge true), fun _ => [.confirm true true], echo 1 (.confirm true true)]

/-!
## Which amendments are accepted
-/

omit [AmendmentCodec W] in
theorem compactHistoryThrough_eq_ok {through : ℕ} {io : Bool} {c : HaHistoryCheckpoint W}
    (hc : rt.compactHistoryThrough through io = (.ok c, rt')) :
    ∃ older e newer, e.nonce = through ∧ rt.state.CutAt older e newer ∧
      (∀ tip, rt.state.epochs.getLast? = some tip →
        rt.state.parameters.mutableEpochDepth ≤ tip.nonce - e.nonce) ∧
      rt'.state = compactedState rt.state older.length e.nonce c := by
  unfold compactHistoryThrough at hc
  dsimp only at hc
  split at hc
  · rename_i c' rt'' hatt
    obtain ⟨rfl, rfl⟩ := Prod.mk.inj hc |>.imp Except.ok.inj id
    simp only [lifecycle, HighAvailabilityRuntime.head, HighAvailabilityRuntimeState.head, bind_eq_ok,
      require_eq_ok, reject_eq_ok, pure_eq_ok, not_not, Prod.mk.injEq] at hatt
    obtain ⟨_, ⟨tip, htip, rfl⟩, _, hsealed, i, hindex, _, hpos, _, -, e, he, c'', -, _, -, _, -, _, -,
      rt'', hper, rfl, rfl⟩ := hatt
    obtain ⟨older, newer, rfl, hnonce, hcut⟩ := cutAt_of_findIdx hindex hpos he
    refine ⟨older, e, newer, hnonce, hcut, fun tip' htip' => ?_, ?_⟩
    · obtain rfl : tip = tip' := Option.some.inj (htip.symm.trans htip')
      rw [hnonce]
      exact epochLifecycle_eq_sealed.mp hsealed
    · rw [persist_state hper, hnonce]
      rfl
  · cases congrArg Prod.fst hc

namespace HighAvailabilityRuntimeState

variable {s : HighAvailabilityRuntimeState W} {nonce : ℕ}

/-- The amendments that a compaction forgets conflict with none of the given ones. -/
def ForgetsNone (s : HighAvailabilityRuntimeState W) (through : ℕ)
    (amendments : List (AmendmentRecord W)) : Prop :=
  ∀ a ∈ amendments, ∀ forgotten ∈ s.amendments, forgotten.targetEpochNonce ≤ through →
    forgotten.commandIdentity = a.commandIdentity → forgotten.recordHash = a.recordHash

instance (s : HighAvailabilityRuntimeState W) (through : ℕ) (amendments : List (AmendmentRecord W)) :
    Decidable (s.ForgetsNone through amendments) :=
  inferInstanceAs (Decidable (∀ a ∈ amendments, _))

variable {older newer : List (HaEpoch W)} {e : HaEpoch W} {c : HaHistoryCheckpoint W}

/-- The state without the amendments that a compaction forgets. -/
def forgetting (s : HighAvailabilityRuntimeState W) (through : ℕ) : HighAvailabilityRuntimeState W :=
  { s with
    amendments := s.amendments.filter fun amendment => decide (through < amendment.targetEpochNonce) }

omit [AmendmentCodec W] in
theorem validateProposedAmendment_forgetting (through nonce : ℕ) (a : AmendmentRecord W) :
    s.validateProposedAmendment a nonce = .ok () ↔
      (s.forgetting through).validateProposedAmendment a nonce = .ok () ∧
        s.ForgetsNone through [a] := by
  rw [validateProposedAmendment_eq_ok, validateProposedAmendment_eq_ok]
  constructor
  · rintro ⟨hnonce, horigin, htgt, hmut, hsame⟩
    refine ⟨⟨hnonce, horigin, htgt, hmut, fun x hx => hsame x (List.mem_of_mem_filter hx)⟩, ?_⟩
    intro a' ha' x hx _
    rw [List.mem_singleton.mp ha']
    exact hsame x hx
  · rintro ⟨⟨hnonce, horigin, htgt, hmut, hsame⟩, hforgets⟩
    refine ⟨hnonce, horigin, htgt, hmut, fun x hx => ?_⟩
    by_cases hx' : through < x.targetEpochNonce
    · exact hsame x (List.mem_filter.mpr ⟨hx, decide_eq_true hx'⟩)
    · exact hforgets a (List.mem_singleton_self a) x hx (not_lt.mp hx')

omit [AmendmentCodec W] in
/-- The epochs before the cut are sealed, so no amendment of theirs is accepted anyway. -/
theorem CutAt.validateProposedAmendment_iff (h : s.Valid) (hcut : s.CutAt older e newer)
    (hsealed : ∀ tip, s.epochs.getLast? = some tip →
      s.parameters.mutableEpochDepth ≤ tip.nonce - e.nonce) (nonce : ℕ) (a : AmendmentRecord W) :
    (s.forgetting e.nonce).validateProposedAmendment a nonce = .ok () ↔
      (compactedState s older.length e.nonce c).validateProposedAmendment a nonce = .ok () := by
  have hepochs : (compactedState s older.length e.nonce c).epochs = e :: newer := hcut.drop
  have hall : (s.forgetting e.nonce).epochs = s.epochs := rfl
  rw [validateProposedAmendment_eq_ok, validateProposedAmendment_eq_ok, hepochs, hall, hcut.getLast?]
  have hfind (head : HaEpoch W) (hhead : s.epochs.getLast? = some head)
      (hmut : head.nonce - a.targetEpochNonce < s.parameters.mutableEpochDepth) :=
    hcut.find h (show e.nonce ≤ a.targetEpochNonce by have := hsealed head hhead; omega)
  constructor
  · rintro ⟨hnonce, horigin, htgt, ⟨head, hhead, hmut⟩, hsame⟩
    rw [hfind head hhead hmut]
    exact ⟨hnonce, horigin, htgt, ⟨head, hhead, hmut⟩, hsame⟩
  · rintro ⟨hnonce, horigin, htgt, ⟨head, hhead, hmut⟩, hsame⟩
    rw [hfind head hhead hmut] at htgt
    exact ⟨hnonce, horigin, htgt, ⟨head, hhead, hmut⟩, hsame⟩

theorem validateAmendmentTransactions_forgetting (through nonce : ℕ)
    (transactions : List (Transaction W)) :
    s.validateAmendmentTransactions transactions nonce = .ok () ↔
      (s.forgetting through).validateAmendmentTransactions transactions nonce = .ok () ∧
        s.ForgetsNone through (carriedAmendments transactions) := by
  rw [validateAmendmentTransactions_eq_ok, validateAmendmentTransactions_eq_ok]
  have hone (t : Transaction W) : s.Acceptable nonce t ↔
      (s.forgetting through).Acceptable nonce t ∧
        s.ForgetsNone through (carriedAmendments [t]) := by
    cases hd : decodeAmendmentTransaction t with
    | error err => simp [Acceptable, hd]
    | ok decoded =>
      rw [carriedAmendments_cons hd]
      cases decoded with
      | none => simp [Acceptable, hd, ForgetsNone, carriedAmendments]
      | some a =>
        have hcompare := s.validateProposedAmendment_forgetting through nonce a
        simpa [Acceptable, hd, carriedAmendments] using hcompare
  have hcar (a : AmendmentRecord W) :
      a ∈ carriedAmendments transactions ↔ ∃ t ∈ transactions, a ∈ carriedAmendments [t] := by
    simp [carriedAmendments]
  constructor
  · rintro ⟨hacc, hsame⟩
    refine ⟨⟨fun t ht => ((hone t).mp (hacc t ht)).1, hsame⟩, ?_⟩
    intro a ha
    obtain ⟨t, ht, ha⟩ := (hcar a).mp ha
    exact ((hone t).mp (hacc t ht)).2 a ha
  · rintro ⟨⟨hacc, hsame⟩, hforgets⟩
    refine ⟨fun t ht => (hone t).mpr ⟨hacc t ht, ?_⟩, hsame⟩
    intro a ha
    exact hforgets a ((hcar a).mpr ⟨t, ht, ha⟩)

theorem CutAt.validateAmendmentTransactions_iff (h : s.Valid) (hcut : s.CutAt older e newer)
    (hsealed : ∀ tip, s.epochs.getLast? = some tip →
      s.parameters.mutableEpochDepth ≤ tip.nonce - e.nonce) (nonce : ℕ)
    (transactions : List (Transaction W)) :
    (s.forgetting e.nonce).validateAmendmentTransactions transactions nonce = .ok () ↔
      (compactedState s older.length e.nonce c).validateAmendmentTransactions transactions nonce =
        .ok () := by
  rw [validateAmendmentTransactions_eq_ok, validateAmendmentTransactions_eq_ok]
  simp only [Acceptable, hcut.validateProposedAmendment_iff (c := c) h hsealed]

end HighAvailabilityRuntimeState

/-- A compaction changes nothing about the acceptance of a dispatch exactly if the dispatch is refused
even without the forgotten amendments or has no amendment that conflicts with one of them. -/
theorem HaReached.compaction_keeps_acceptance_iff (h : HaReached ls rt) {through : ℕ} {io : Bool}
    {c : HaHistoryCheckpoint W} (hc : rt.compactHistoryThrough through io = (.ok c, rt'))
    (transactions : List (Transaction W)) :
    (rt.state.validateAmendmentTransactions transactions rt.state.round.roundId.nonce = .ok () ↔
        rt'.state.validateAmendmentTransactions transactions rt'.state.round.roundId.nonce = .ok ()) ↔
      ((rt.state.forgetting through).validateAmendmentTransactions transactions
          rt.state.round.roundId.nonce = .ok () →
        rt.state.ForgetsNone through (carriedAmendments transactions)) := by
  obtain ⟨older, e, newer, rfl, hcut, hsealed, hstate⟩ := compactHistoryThrough_eq_ok hc
  have hround : rt'.state.round = rt.state.round := by rw [hstate]; rfl
  have hcompare := hcut.validateAmendmentTransactions_iff (c := c) h.good.valid hsealed
    rt.state.round.roundId.nonce transactions
  have hforgets := rt.state.validateAmendmentTransactions_forgetting e.nonce
    rt.state.round.roundId.nonce transactions
  rw [hround, hstate, ← hcompare]
  tauto

open DigestWord in
/-- A command identity is used for an amendment of the first epoch and again, with other bytes, for
one of the second epoch. The second amendment is refused until the first one has been forgotten. -/
theorem forgotten_amendment_accepted :
    ∃ ls, ∃ rt : HighAvailabilityRuntime DigestWord, HaReached ls rt ∧
      (rt.compactHistoryThrough 1 true).1.isOk = true ∧
      rt.state.validateAmendmentTransactions (amendsHead rt 2) rt.state.round.roundId.nonce =
        .error (invalidConfiguration "conflicting HA amendment bytes for one command identity") ∧
      (rt.compactHistoryThrough 1 true).2.state.validateAmendmentTransactions (amendsHead rt 2)
        rt.state.round.roundId.nonce = .ok () := by
  apply exists_reached_of_check (key 0) (key 1) (numberedMembers key 2) (.new 1 6) amendedHistory
  decide +kernel

open DigestWord in
theorem unrelated_amendment_accepted :
    ∃ ls, ∃ rt rt' : HighAvailabilityRuntime DigestWord, HaReached ls rt ∧
      (∃ c, rt.compactHistoryThrough 1 true = (.ok c, rt')) ∧ ∃ head ∈ rt.state.epochs.getLast?,
        (rt.state.validateAmendmentTransactions [amending head 3 6 2]
            rt.state.round.roundId.nonce = .ok () ↔
          rt'.state.validateAmendmentTransactions [amending head 3 6 2]
            rt'.state.round.roundId.nonce = .ok ()) := by
  have hcheck : ∃ ls, ∃ rt : HighAvailabilityRuntime DigestWord, HaReached ls rt ∧
      (rt.compactHistoryThrough 1 true).1.isOk = true ∧ ∃ head ∈ rt.state.epochs.getLast?,
        rt.state.ForgetsNone 1 (carriedAmendments [amending head 3 6 2]) := by
    apply exists_reached_of_check (key 0) (key 1) (numberedMembers key 2) (.new 1 6) amendedHistory
    decide +kernel
  obtain ⟨ls, rt, h, hok, head, hhead, hforgets⟩ := hcheck
  obtain ⟨c, hc⟩ := CheckedSteps.exists_of_isOk hok
  have hcompact : rt.compactHistoryThrough 1 true = (.ok c, (rt.compactHistoryThrough 1 true).2) :=
    Prod.ext hc rfl
  exact ⟨ls, rt, _, h, ⟨c, hcompact⟩, head, hhead,
    (h.compaction_keeps_acceptance_iff hcompact _).mpr fun _ => hforgets⟩

end Blossom
