import Blossom.HaReach

/-!
# Amendments in the blocks of a round

A dispatch is accepted if the amendments in its transactions can be applied to the committed history
and give no command identity two meanings.
-/

namespace Blossom

open CheckedSteps BitMask

variable {W : Type} [ProtocolCrypto W]

/-!
## The order of the included slots
-/

namespace HaCandidate

variable {c : HaCandidate W}

theorem insertSlot_perm (blockHashes : PerSlot W) (slot : Fin 7) (placed : List (Fin 7)) :
    (insertSlot blockHashes slot placed).Perm (slot :: placed) := by
  induction placed with
  | nil => exact .refl _
  | cons previous rest ih =>
    rw [insertSlot]
    split
    · exact .refl _
    · exact (ih.cons previous).trans (.swap slot previous rest)

theorem sortedSlots_perm :
    c.sortedSlots.Perm
      ((List.finRange 7).filter fun slot : Fin 7 => decide (hasBit c.includedMask slot)) := by
  have hplaced (slots placed : List (Fin 7)) :
      (slots.foldl (fun placed (slot : Fin 7) => if hasBit c.includedMask slot then
        insertSlot c.blockHashes slot placed else placed) placed).Perm
      ((slots.filter fun slot : Fin 7 => decide (hasBit c.includedMask slot)) ++ placed) := by
    induction slots generalizing placed with
    | nil => exact .refl _
    | cons slot slots ih =>
      rw [List.foldl_cons, List.filter_cons]
      by_cases hbit : hasBit c.includedMask slot
      · rw [if_pos hbit, if_pos (decide_eq_true hbit)]
        exact (ih _).trans (((insertSlot_perm _ _ _).append_left _).trans List.perm_middle)
      · rw [if_neg hbit, if_neg (by simpa using hbit)]
        exact ih placed
  have hsorted := (List.reverse_perm _).trans (hplaced (List.finRange 7) [])
  rwa [List.append_nil] at hsorted

theorem asSlice_orderedSlots : c.orderedSlots.asSlice = c.sortedSlots.map Fin.val := by
  have hlen : c.sortedSlots.length ≤ 7 :=
    sortedSlots_perm.length_eq.trans_le ((List.length_filter_le _ _).trans_eq List.length_finRange)
  rw [orderedSlots, HaOrderedSlots.ofList, HaOrderedSlots.asSlice]
  apply List.ext_getElem
  · simpa using hlen
  · intro i hi hi'
    simp at hi hi'
    simp [hi']

theorem mem_asSlice_orderedSlots {slot : ℕ} : slot ∈ c.orderedSlots.asSlice ↔
    ∃ i : Fin 7, i.val = slot ∧ i.val ∈ bits c.includedMask := by
  rw [asSlice_orderedSlots, List.mem_map]
  refine exists_congr fun i => ?_
  rw [sortedSlots_perm.mem_iff, List.mem_filter, and_comm]
  simp

end HaCandidate

/-!
## The amendments of a list of transactions
-/

variable [AmendmentCodec W]

def carriedAmendments (transactions : List (Transaction W)) : List (AmendmentRecord W) :=
  transactions.filterMap fun t => (decodeAmendmentTransaction t).toOption.join

def Unambiguous (amendments : List (AmendmentRecord W)) : Prop :=
  ∀ a ∈ amendments, ∀ b ∈ amendments,
    a.commandIdentity = b.commandIdentity → a.recordHash = b.recordHash

instance (amendments : List (AmendmentRecord W)) : Decidable (Unambiguous amendments) :=
  inferInstanceAs (Decidable (∀ a ∈ amendments, _))

section Consistent

variable {a existing : AmendmentRecord W} {l l' : List (AmendmentRecord W)}

omit [AmendmentCodec W]

theorem Unambiguous.mono (h : Unambiguous l') (hsub : l ⊆ l') : Unambiguous l :=
  fun a ha b hb => h a (hsub ha) b (hsub hb)

/-- An amendment with the identity of a present one adds nothing if it has the same bytes. -/
theorem consistent_insert_iff (hmem : existing ∈ l)
    (hid : existing.commandIdentity = a.commandIdentity) :
    Unambiguous (l ++ a :: l') ↔ existing.recordHash = a.recordHash ∧ Unambiguous (l ++ l') := by
  constructor
  · intro h
    exact ⟨h existing (by simp [hmem]) a (by simp) hid, h.mono (by simp)⟩
  · rintro ⟨hhash, h⟩ x hx y hy hxy
    have hstand (z : AmendmentRecord W) (hz : z ∈ l ++ a :: l') : ∃ z' ∈ l ++ l',
        z'.commandIdentity = z.commandIdentity ∧ z'.recordHash = z.recordHash := by
      rcases List.mem_append.mp hz with hz | hz
      · exact ⟨z, by simp [hz], rfl, rfl⟩
      · rcases List.mem_cons.mp hz with rfl | hz
        · exact ⟨existing, by simp [hmem], hid, hhash⟩
        · exact ⟨z, by simp [hz], rfl, rfl⟩
    obtain ⟨x', hx', hxid, hxhash⟩ := hstand x hx
    obtain ⟨y', hy', hyid, hyhash⟩ := hstand y hy
    rw [← hxhash, ← hyhash]
    exact h x' hx' y' hy' (hxid.trans (hxy.trans hyid.symm))

theorem Unambiguous.concat (h : Unambiguous l)
    (hnew : ∀ b ∈ l, b.commandIdentity ≠ a.commandIdentity) : Unambiguous (l ++ [a]) := by
  intro x hx y hy hxy
  simp only [List.mem_append, List.mem_singleton] at hx hy
  rcases hx with hx | rfl
  · rcases hy with hy | rfl
    · exact h x hx y hy hxy
    · exact absurd hxy (hnew x hx)
  · rcases hy with hy | rfl
    · exact absurd hxy.symm (hnew y hy)
    · rfl

end Consistent

namespace HighAvailabilityRuntimeState

variable {s : HighAvailabilityRuntimeState W} {nonce : ℕ} {transactions : List (Transaction W)}

/-- A transaction that decodes, with an amendment that can be applied to the history if it carries
one. -/
def Acceptable (s : HighAvailabilityRuntimeState W) (nonce : ℕ) (t : Transaction W) : Prop :=
  ∃ decoded, decodeAmendmentTransaction t = .ok decoded ∧
    ∀ a ∈ decoded, s.validateProposedAmendment a nonce = .ok ()

omit [ProtocolCrypto W] in
theorem carriedAmendments_cons {t : Transaction W} {decoded : Option (AmendmentRecord W)}
    (hd : decodeAmendmentTransaction t = .ok decoded) :
    carriedAmendments (t :: transactions) = decoded.toList ++ carriedAmendments transactions := by
  cases decoded <;> simp [carriedAmendments, hd, Except.toOption]

theorem collects_iff {collected : List (AmendmentRecord W)} (hc : Unambiguous collected) :
    (∃ result, transactions.foldlM (s.collectAmendment nonce) collected = .ok result) ↔
      (∀ t ∈ transactions, s.Acceptable nonce t) ∧
        Unambiguous (collected ++ carriedAmendments transactions) := by
  induction transactions generalizing collected with
  | nil => simp [carriedAmendments, hc]
  | cons t rest ih =>
    rw [List.foldlM_cons, List.forall_mem_cons]
    cases hd : decodeAmendmentTransaction t with
    | error e =>
      simp [collectAmendment, Acceptable, hd]
    | ok decoded =>
      rw [carriedAmendments_cons hd]
      cases decoded with
      | none =>
        have hskip : s.collectAmendment nonce collected t = .ok collected := by
          rw [collectAmendment, hd]
          rfl
        simp only [hskip, bind_eq_ok, Except.ok.injEq, exists_eq_left', ih hc]
        simp [Acceptable, hd]
      | some a =>
        have hone : s.Acceptable nonce t ↔ s.validateProposedAmendment a nonce = .ok () := by
          simp [Acceptable, hd]
        simp only [collectAmendment, hd, hone, bind_eq_ok, Except.ok.injEq, exists_eq_left',
          ↓guard_bind_eq_ok, Option.toList_some, List.singleton_append]
        cases hfind : collected.find? fun b => decide (b.commandIdentity = a.commandIdentity) with
        | some existing =>
          have hmem := List.mem_of_find?_eq_some hfind
          have hid : existing.commandIdentity = a.commandIdentity := by
            simpa using List.find?_some hfind
          rw [consistent_insert_iff hmem hid]
          simp only [↓guard_bind_eq_ok, reject_eq_ok, pure_eq_ok, not_not]
          have hnext := ih hc
          grind
        | none =>
          have hnew : ∀ b ∈ collected, b.commandIdentity ≠ a.commandIdentity := by
            simpa using hfind
          have hnext := ih (hc.concat hnew)
          rw [List.append_assoc, List.singleton_append] at hnext
          simp only [pure_eq_ok]
          grind

theorem scan_iff (s : HighAvailabilityRuntimeState W) (nonce : ℕ)
    (transactions : List (Transaction W)) :
    (∃ result, transactions.foldlM (s.collectAmendment nonce) [] = .ok result) ↔
      (∀ t ∈ transactions, s.Acceptable nonce t) ∧
        Unambiguous (carriedAmendments transactions) :=
  collects_iff (by simp [Unambiguous])

theorem validateAmendmentTransactions_eq_ok :
    s.validateAmendmentTransactions transactions nonce = .ok () ↔
      (∀ t ∈ transactions, s.Acceptable nonce t) ∧ Unambiguous (carriedAmendments transactions) := by
  rw [validateAmendmentTransactions, bind_eq_ok, ← scan_iff]
  simp

/-!
## The commit of a finalized round
-/

def finalizedBlocks (s : HighAvailabilityRuntimeState W) (f : HaFinalizedRound W) :
    List (Block W) :=
  f.orderedSlots.asSlice.filterMap (slotGet s.round.blocks)

def finalizedTransactions (s : HighAvailabilityRuntimeState W) (f : HaFinalizedRound W) :
    List (Transaction W) :=
  (s.finalizedBlocks f).flatMap fun block => block.body.txs

variable {f : HaFinalizedRound W}

theorem committedAmendments_eq
    (hblocks : ∀ slot ∈ f.orderedSlots.asSlice, ∃ i : Fin 7, i.val = slot ∧
      (s.round.blocks i).isSome) :
    s.committedAmendments f =
      (s.finalizedTransactions f).foldlM (s.collectAmendment f.roundId.nonce) [] := by
  rw [committedAmendments, finalizedTransactions, finalizedBlocks]
  generalize f.orderedSlots.asSlice = slots at hblocks
  generalize ([] : List (AmendmentRecord W)) = collected
  induction slots generalizing collected with
  | nil => rfl
  | cons slot slots ih =>
    obtain ⟨⟨i, rfl, hsome⟩, hrest⟩ := List.forall_mem_cons.mp hblocks
    obtain ⟨block, hblock⟩ := Option.isSome_iff_exists.mp hsome
    have hget : slotGet s.round.blocks i.val = some block := by simp [slotGet, hblock]
    have hindex : slotIndex i.val = .ok i := slotIndex_eq_ok.mpr rfl
    have hfirst : (do
        let i ← slotIndex i.val
        let block ← require (s.round.blocks i)
          (wireProtocol "finalized HA amendment scan is missing a candidate block")
        block.body.txs.foldlM (s.collectAmendment f.roundId.nonce) collected) =
        block.body.txs.foldlM (s.collectAmendment f.roundId.nonce) collected := by
      rw [hindex]
      change (require (s.round.blocks i) _ >>= _) = _
      rw [hblock]
      rfl
    rw [List.foldlM_cons, List.filterMap_cons_some hget, List.flatMap_cons, List.foldlM_append,
      hfirst]
    exact bind_congr fun next => ih hrest next

/-- A finalized round is committed exactly if the amendments in its blocks can be applied and give
no command identity two meanings. -/
theorem commitState_iff (h : s.Good) (hf : s.round.finalized = some f) :
    (∃ result, s.commitState f = .ok result) ↔
      (∀ t ∈ s.finalizedTransactions f, s.Acceptable s.round.roundId.nonce t) ∧
        Unambiguous (carriedAmendments (s.finalizedTransactions f)) := by
  have hwf := h.round.finalized f hf
  have hblocks : ∀ slot ∈ f.orderedSlots.asSlice, ∃ i : Fin 7, i.val = slot ∧
      (s.round.blocks i).isSome := by
    intro slot hslot
    rw [hwf.ordered, HaCandidate.mem_asSlice_orderedSlots, hwf.included] at hslot
    obtain ⟨i, hi, hmem⟩ := hslot
    exact ⟨i, hi, (h.round.received i).mp hmem⟩
  rw [← hwf.round_eq, ← scan_iff, ← committedAmendments_eq hblocks]
  constructor
  · rintro ⟨result, hok⟩
    obtain ⟨amendments, round, ham, -⟩ := HighAvailabilityRuntime.commitState_eq_ok hok
    exact ⟨amendments, ham⟩
  · rintro ⟨amendments, ham⟩
    have hround : HaRoundState.new (s.nextRoundId (.fromFinalized f s.round.blocks s.parameters))
        s.members = .ok (.emptyRound _) :=
      HaRoundState.new_eq_ok.mpr ⟨h.valid.members, by simp [HaRoundId.validateFor, nextRoundId], rfl⟩
    rw [commitState, ham]
    change ∃ result, (HaRoundState.new _ _ >>= _) = .ok result
    rw [hround]
    exact ⟨_, rfl⟩

end HighAvailabilityRuntimeState

/-- The commit of a finalized round succeeds exactly if its dispatches are still acceptable one by one
and no command identity has two meanings in its blocks. -/
theorem HaReached.commit_succeeds_iff {ls : List (Label W)} {rt : HighAvailabilityRuntime W}
    (h : HaReached ls rt) {f : HaFinalizedRound W} (hf : rt.state.round.finalized = some f) :
    (∃ epoch, (rt.commitFinalizedRound true).1 = .ok (some epoch)) ↔
      (∀ block ∈ rt.state.finalizedBlocks f,
        rt.state.validateAmendmentTransactions block.body.txs rt.state.round.roundId.nonce = .ok ()) ∧
      Unambiguous (carriedAmendments (rt.state.finalizedTransactions f)) := by
  have hcommit : (∃ epoch, (rt.commitFinalizedRound true).1 = .ok (some epoch)) ↔
      ∃ result, rt.state.commitState f = .ok result := by
    rw [HighAvailabilityRuntime.commitFinalizedRound, hf]
    dsimp only
    cases hstate : rt.state.commitState f with
    | error e => simp
    | ok result =>
      obtain ⟨epoch, next⟩ := result
      obtain ⟨rt', hper, -⟩ := h.persist_ok
        (HighAvailabilityRuntimeState.commit_valid h.good.valid h.good.round hf hstate)
      simp [hper]
  rw [hcommit, HighAvailabilityRuntimeState.commitState_iff h.good hf]
  refine and_congr_left fun hsame => ⟨fun hall block hblock => ?_, fun hall t ht => ?_⟩
  · have hsub : block.body.txs ⊆ rt.state.finalizedTransactions f :=
      fun t ht => List.mem_flatMap.mpr ⟨block, hblock, ht⟩
    exact HighAvailabilityRuntimeState.validateAmendmentTransactions_eq_ok.mpr
      ⟨fun t ht => hall t (hsub ht), hsame.mono (List.filterMap_subset _ hsub)⟩
  · obtain ⟨block, hblock, ht⟩ := List.mem_flatMap.mp ht
    exact (HighAvailabilityRuntimeState.validateAmendmentTransactions_eq_ok.mp
      (hall block hblock)).1 t ht

/-!
## Two members amend one epoch
-/

open Operation

structure DigestWord where
  code : ℕ
  deriving DecidableEq

namespace DigestWord

instance : LinearOrder DigestWord :=
  LinearOrder.lift' DigestWord.code (fun a b h => by cases a; cases b; cases h; rfl)

def fieldNumbers : Field DigestWord → List ℕ
  | .tag d => [0, d.ctorIdx]
  | .num n => [1, n]
  | .bytes b => 2 :: b.length :: b.map UInt8.toNat
  | .word w => [3, w.code]

def digest (fields : List (Field DigestWord)) : DigestWord :=
  ⟨(fields.flatMap fieldNumbers).foldl (fun acc n => (257 * acc + n + 1) % 1000000007) 1⟩

instance : ProtocolCrypto DigestWord where
  default := ⟨0⟩
  hash := digest
  verify s msg k := s.first = k ∧ s.second = digest msg

def key (n : ℕ) : DigestWord := ⟨1000000007 + n⟩

/-- A number in decimal digits, with a comma after it. -/
def encodeNumber (n : ℕ) : List UInt8 :=
  (Nat.toDigits 10 n).map (fun digit => digit.toNat.toUInt8) ++ [44]

/-- The numbers of a text, the first of which continues a given one. -/
def decodeNumbers : ℕ → List UInt8 → List ℕ
  | _, [] => []
  | n, byte :: rest =>
    if byte = 44 then n :: decodeNumbers 0 rest else decodeNumbers (10 * n + (byte.toNat - 48)) rest

/-- Amendments as sequences of numbers. -/
instance : AmendmentCodec DigestWord where
  encode a := ([a.targetEpochHash.code, a.targetEpochNonce, a.containingEpochNonce, a.originSlot,
    a.commandIdentity.clientId, a.commandIdentity.clientEpoch, a.commandIdentity.sequence] ++
    (match a.supersedes with
      | none => [0]
      | some c => [1, c.clientId, c.clientEpoch, c.sequence]) ++
    match a.payload with
      | .lateBlock blockHash bytes => 0 :: blockHash.code :: bytes.map UInt8.toNat
      | .compensation bytes => 1 :: bytes.map UInt8.toNat).flatMap encodeNumber
  decode bytes :=
    let payload : List ℕ → Option (AmendmentPayload DigestWord)
      | 0 :: blockHash :: bytes => some (.lateBlock ⟨blockHash⟩ (bytes.map Nat.toUInt8))
      | 1 :: bytes => some (.compensation (bytes.map Nat.toUInt8))
      | _ => none
    match decodeNumbers 0 bytes with
    | hash :: target :: containing :: slot :: client :: epoch :: sequence :: 0 :: rest =>
      (payload rest).map (⟨⟨hash⟩, target, containing, slot, ⟨client, epoch, sequence⟩, none, ·⟩)
    | hash :: target :: containing :: slot :: client :: epoch :: sequence :: 1 :: client' ::
        epoch' :: sequence' :: rest =>
      (payload rest).map (⟨⟨hash⟩, target, containing, slot, ⟨client, epoch, sequence⟩,
        some ⟨client', epoch', sequence'⟩, ·⟩)
    | _ => none

/-- A transaction with an amendment of an epoch that the current round would carry. -/
def amending (target : HaEpoch DigestWord) (containing client : ℕ) (payload : UInt8) :
    Transaction DigestWord :=
  encodeAmendmentTransaction ⟨target.hash, target.nonce, containing, 0, ⟨client, 0, 0⟩, none,
    .compensation [payload]⟩

def amendsHead (rt : HighAvailabilityRuntime DigestWord) (payload : UInt8) :
    List (Transaction DigestWord) :=
  rt.state.epochs.getLast?.toList.map fun head =>
    amending head rt.state.round.roundId.nonce 5 payload

/-- What the second member of the group offers in the first round. -/
def peerDispatch (payload : UInt8) : List (Operation DigestWord) :=
  match HighAvailabilityRuntime.create none (key 0) (key 2) (numberedMembers key 2) (.new 6 6) true with
  | .error _ => []
  | .ok peer =>
    match (peer.buildDispatch (amendsHead peer payload) 0).1 with
    | .error _ => []
    | .ok dispatch => [.receiveMessage (.dispatch dispatch) true]

/-- A round in which both members amend the first epoch and confirm; its commit is not written. -/
def amendedRound (payload : UInt8) :
    List (HighAvailabilityRuntime DigestWord → List (Operation DigestWord)) :=
  [fun rt => [.buildDispatch (amendsHead rt 1) 0], fun _ => peerDispatch payload,
    fun _ => [.acknowledge true], echo 1 (.acknowledge true), echo 1 (.confirm true true),
    fun _ => [.confirm true false]]

end DigestWord

open DigestWord in
/-- Both members of a group amend the first epoch under one command identity, with different
payloads. Each dispatch is accepted, both members confirm the candidate, and it cannot be committed. -/
theorem conflicting_amendments_stop_commit :
    ∃ ls, ∃ rt : HighAvailabilityRuntime DigestWord, HaReached ls rt ∧
      ∃ f ∈ rt.state.round.finalized,
        (∀ block ∈ rt.state.finalizedBlocks f, rt.state.validateAmendmentTransactions
          block.body.txs rt.state.round.roundId.nonce = .ok ()) ∧
        (rt.commitFinalizedRound true).1 = .error (invalidConfiguration
          "conflicting HA amendments for one command identity") := by
  apply exists_reached_of_check (key 0) (key 1) (numberedMembers key 2) (.new 6 6) (amendedRound 2)
  decide +kernel

open DigestWord in
theorem equal_amendments_commit :
    ∃ ls, ∃ rt : HighAvailabilityRuntime DigestWord, HaReached ls rt ∧
      ∃ f ∈ rt.state.round.finalized,
        carriedAmendments (rt.state.finalizedTransactions f) ≠ [] ∧
        ∃ epoch, (rt.commitFinalizedRound true).1 = .ok (some epoch) := by
  have hcheck : ∃ ls, ∃ rt : HighAvailabilityRuntime DigestWord, HaReached ls rt ∧
      ∃ f ∈ rt.state.round.finalized,
        (∀ block ∈ rt.state.finalizedBlocks f, rt.state.validateAmendmentTransactions
          block.body.txs rt.state.round.roundId.nonce = .ok ()) ∧
        carriedAmendments (rt.state.finalizedTransactions f) ≠ [] ∧
        Unambiguous (carriedAmendments (rt.state.finalizedTransactions f)) := by
    apply exists_reached_of_check (key 0) (key 1) (numberedMembers key 2) (.new 6 6) (amendedRound 1)
    decide +kernel
  obtain ⟨ls, rt, hreached, f, hf, haccepted, hcarried, hsame⟩ := hcheck
  exact ⟨ls, rt, hreached, f, hf, hcarried, (hreached.commit_succeeds_iff hf).mpr ⟨haccepted, hsame⟩⟩

end Blossom
