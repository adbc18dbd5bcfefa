import Blossom.Epoch

/-!
# The quorum overlay

The verifiers of an epoch are placed on a grid whose side is the branching factor. In
each round a node meets the nodes on one line of the grid through its own position.
-/

namespace Blossom

open OrderedMap

variable {W : Type}

/-- The seed of the shuffle: the first eight bytes of a word. -/
class ShuffleSeed (W : Type) where
  seed : W → UInt64

/-- The loop of `find_round_number_with_size`: the largest power of the branching factor
that is at most the network size, and its exponent. -/
def growNetworkSize (networkSize q : ℕ) : ℕ → ℕ → ℕ → ℕ × ℕ
  | 0, base, exponent => (base, exponent)
  | fuel + 1, base, exponent =>
    if networkSize < base * q then (base, exponent)
    else growNetworkSize networkSize q fuel (base * q) (exponent + 1)

/-- The network size the grid covers without a remainder, and the number of rounds. -/
def findRoundNumberWithSize (networkSize : ℕ) (quorumSize : QuorumSize) : ℕ × ℕ :=
  let q := quorumSize.get
  if networkSize = 0 then (0, 0)
  else if networkSize ≤ q then (networkSize, 1)
  else
    let (base, exponent) := growNetworkSize networkSize q networkSize q 1
    let optimal := base * (networkSize / base)
    (optimal, exponent + if base < optimal then 1 else 0)

def shuffleStep (state : UInt64) : UInt64 :=
  let state := state ^^^ (state <<< 13)
  let state := state ^^^ (state >>> 7)
  state ^^^ (state <<< 17)

/-- The downward loop of `deterministic_shuffle`, from index `i`. -/
def shuffleFrom (state : UInt64) (indices : List ℕ) : ℕ → List ℕ
  | 0 => indices
  | i + 1 =>
    let state := shuffleStep state
    let j := state.toNat % (i + 2)
    let swapped := (indices.set (i + 1) (indices.getD j 0)).set j (indices.getD (i + 1) 0)
    shuffleFrom state swapped i

def deterministicShuffle [ShuffleSeed W] (indices : List ℕ) (seed : W) : List ℕ :=
  let state := ShuffleSeed.seed seed
  shuffleFrom (if state = 0 then 0x9e3779b97f4a7c15 else state) indices (indices.length - 1)

/-- The members of one line, from its first member on; the line ends at the first position
that is empty. -/
def pushQuorumMembers (keys : List W) (orderedIndices : List ℕ)
    (firstQuorumMember stride quorumSize : ℕ) : List W :=
  ((List.range quorumSize).map fun member =>
    (orderedIndices[firstQuorumMember + member * stride]?).bind (keys[·]?)).takeWhile
      Option.isSome |>.filterMap id

/-- The line of one round through the position of a node. A power that exceeds the
covered network stands for the whole of it. -/
def quorumOfRound (keys : List W) (orderedIndices : List ℕ) (selfIndex optimal : ℕ)
    (quorumSize : QuorumSize) (round : ℕ) : List W :=
  let q := quorumSize.get
  let overfull := optimal < q ^ (round + 1)
  let maxNetworkSize := if overfull then optimal else q ^ (round + 1)
  let sizeMultiple := if overfull then max (optimal / q ^ round) 1 else 1
  let offset := q ^ (if overfull then round - 1 else round)
  let stride := sizeMultiple * offset
  let first := selfIndex - selfIndex % maxNetworkSize + selfIndex % stride
  pushQuorumMembers keys orderedIndices first stride q ++
    if optimal ≤ orderedIndices.length then
      pushQuorumMembers keys orderedIndices (optimal + first) stride q
    else []

variable [LinearOrder W]

def algorithmWithSize (keys : List W) (orderedIndices : List ℕ) (selfIndex optimal rounds : ℕ)
    (quorumSize : QuorumSize) : List (BTreeSet W) :=
  if keys = [] ∨ optimal = 0 then []
  else
    let selfIndex := if optimal ≤ selfIndex then selfIndex % optimal else selfIndex
    (List.range rounds).map fun round =>
      .ofList (quorumOfRound keys orderedIndices selfIndex optimal quorumSize round) compare

def selectQuorumsFromIndexTreeWithSize [ShuffleSeed W] (nodeMap : Verifiers W) (selfKey seed : W)
    (shuffle : Bool) (quorumSize : QuorumSize) : List (BTreeSet W) :=
  let keys := nodeMap.keys
  match keys.idxOf? selfKey with
  | none => []
  | some selfIndex =>
    let (optimal, rounds) := findRoundNumberWithSize keys.length quorumSize
    if optimal = 0 ∨ rounds = 0 then []
    else
      let indices := List.range keys.length
      let orderedIndices := if shuffle then deterministicShuffle indices seed else indices
      let selfIndex :=
        if shuffle then (orderedIndices.idxOf? selfIndex).getD selfIndex else selfIndex
      algorithmWithSize keys orderedIndices selfIndex optimal rounds quorumSize

/-- The nodes a node meets in any round, without itself. -/
def selectPrefillRecipientsWithSize [ShuffleSeed W] (nodeMap : Verifiers W) (selfKey seed : W)
    (shuffle : Bool) (quorumSize : QuorumSize) : BTreeSet W :=
  .ofList (((selectQuorumsFromIndexTreeWithSize nodeMap selfKey seed shuffle quorumSize).flatMap
    (·.toList)).filter fun member => decide (member ≠ selfKey)) compare

/-!
A network of at least one and less than two branching factors has a single round, in
which every verifier meets all others.
-/

section SingleQuorum

variable {quorumSize : QuorumSize} {networkSize : ℕ}

theorem findRoundNumberWithSize_single (hlow : quorumSize.get ≤ networkSize)
    (hhigh : networkSize < 2 * quorumSize.get) :
    findRoundNumberWithSize networkSize quorumSize = (quorumSize.get, 1) := by
  have hq := quorumSize.valid.1
  have hsquare : networkSize < quorumSize.get * quorumSize.get := by nlinarith
  have hgrow : growNetworkSize networkSize quorumSize.get networkSize quorumSize.get 1 =
      (quorumSize.get, 1) := by
    cases networkSize with
    | zero => rfl
    | succ n => simp [growNetworkSize, hsquare]
  have hdiv : networkSize / quorumSize.get = 1 :=
    Nat.div_eq_of_lt_le (by omega) (by omega)
  simp only [findRoundNumberWithSize, hgrow, hdiv]
  split_ifs <;> simp <;> omega

section

omit [LinearOrder W]

theorem shuffleFrom_perm (state : UInt64) (indices : List ℕ) (i : ℕ) (h : i < indices.length) :
    (shuffleFrom state indices i).Perm indices := by
  induction i generalizing state indices with
  | zero => exact .refl _
  | succ i ih =>
    rw [shuffleFrom]
    set j := (shuffleStep state).toNat % (i + 2) with hj
    have hlt : j < indices.length := by
      have := Nat.mod_lt (shuffleStep state).toNat (show 0 < i + 2 by omega)
      omega
    have hswap := List.set_set_perm h hlt
    refine (ih _ _ (by simpa using by omega)).trans ?_
    simpa [List.getD_eq_getElem?_getD, hlt, h] using hswap

theorem deterministicShuffle_perm [ShuffleSeed W] (indices : List ℕ) (seed : W) :
    (deterministicShuffle indices seed).Perm indices := by
  cases indices with
  | nil => exact .refl _
  | cons i indices => exact shuffleFrom_perm _ _ _ (by simp)

theorem mem_pushQuorumMembers {keys : List W} {orderedIndices : List ℕ} {first stride q : ℕ}
    {key : W} (hvalid : ∀ i ∈ orderedIndices, i < keys.length) :
    key ∈ pushQuorumMembers keys orderedIndices first stride q ↔
      ∃ member < q, ∃ i, orderedIndices[first + member * stride]? = some i ∧
        keys[i]? = some key := by
  set entry := fun member => (orderedIndices[first + member * stride]?).bind (keys[·]?) with hent
  have hsome {member : ℕ} (h : first + member * stride < orderedIndices.length) :
      (entry member).isSome = true := by
    have hlt := hvalid _ (List.getElem_mem h)
    simp [hent, h, hlt]
  have hmem : key ∈ pushQuorumMembers keys orderedIndices first stride q ↔
      some key ∈ ((List.range q).map entry).takeWhile Option.isSome := by
    simp [pushQuorumMembers, hent]
  rw [hmem]
  constructor
  · intro h
    obtain ⟨member, hm, he⟩ := List.mem_map.mp ((List.takeWhile_prefix _).subset h)
    obtain ⟨i, hi, hk⟩ := Option.bind_eq_some_iff.mp he
    exact ⟨member, List.mem_range.mp hm, i, hi, hk⟩
  · rintro ⟨member, hm, i, hi, hk⟩
    obtain ⟨hlt, -⟩ := List.getElem?_eq_some_iff.mp hi
    -- the positions up to this one are all taken, so the line reaches it
    have hsplit : (List.range q).map entry =
        (List.range (member + 1)).map entry ++
          (List.range (q - (member + 1))).map fun k => entry (member + 1 + k) := by
      have hq : q = member + 1 + (q - (member + 1)) := by omega
      conv_lhs => rw [hq, List.range_add]
      simp
    rw [hsplit, List.takeWhile_append_of_pos]
    · refine List.mem_append_left _ (List.mem_map.mpr ⟨member, by simp, ?_⟩)
      simp [hent, hi, hk]
    · intro x hx
      obtain ⟨k, hk, rfl⟩ := List.mem_map.mp hx
      have hle : k * stride ≤ member * stride :=
        Nat.mul_le_mul_right stride (Nat.lt_succ_iff.mp (List.mem_range.mp hk))
      exact hsome (by omega)

end

theorem algorithmWithSize_single {keys : List W} {orderedIndices : List ℕ}
    (hperm : orderedIndices.Perm (List.range keys.length)) (selfIndex : ℕ)
    (hlow : quorumSize.get ≤ keys.length) (hhigh : keys.length < 2 * quorumSize.get) :
    ∃ quorum, algorithmWithSize keys orderedIndices selfIndex quorumSize.get 1 quorumSize =
      [quorum] ∧ ∀ key, key ∈ quorum ↔ key ∈ keys := by
  have hq := quorumSize.valid.1
  have hvalid : ∀ i ∈ orderedIndices, i < keys.length := fun i hi =>
    List.mem_range.mp (hperm.mem_iff.mp hi)
  have hlen : orderedIndices.length = keys.length := by simpa using hperm.length_eq
  have hne : keys ≠ [] := by
    rintro rfl
    simp only [List.length_nil] at hlow
    omega
  rw [algorithmWithSize, if_neg (by simp [hne]; omega)]
  refine ⟨_, rfl, fun key => ?_⟩
  set position := if quorumSize.get ≤ selfIndex then selfIndex % quorumSize.get else selfIndex
    with hpos
  have hlt : position < quorumSize.get := by
    rw [hpos]
    split
    · exact Nat.mod_lt _ (by omega)
    · omega
  have hfirst : position - position % quorumSize.get = 0 := by
    rw [Nat.mod_eq_of_lt hlt, Nat.sub_self]
  rw [Std.ExtTreeSet.mem_ofList, List.contains_iff_mem, quorumOfRound]
  simp only [zero_add, pow_one, lt_irrefl, if_false, pow_zero, mul_one, Nat.mod_one, add_zero,
    hfirst, hlen, if_pos hlow, List.mem_append, mem_pushQuorumMembers hvalid]
  constructor
  · rintro (⟨member, -, i, -, hk⟩ | ⟨member, -, i, -, hk⟩)
    all_goals exact List.mem_of_getElem? hk
  · intro hkey
    obtain ⟨i, hi, rfl⟩ := List.mem_iff_getElem.mp hkey
    have hin : i ∈ orderedIndices := hperm.mem_iff.mpr (List.mem_range.mpr hi)
    obtain ⟨slot, hslot, hat⟩ := List.mem_iff_getElem.mp hin
    by_cases hcase : slot < quorumSize.get
    · exact .inl ⟨slot, hcase, i, by simp [hat, hslot], by simp [hi]⟩
    · refine .inr ⟨slot - quorumSize.get, by omega, i, ?_, by simp [hi]⟩
      rw [show quorumSize.get + (slot - quorumSize.get) = slot by omega]
      simp [hat, hslot]

/-- In a network of one round, the quorum of every verifier has all verifiers. -/
theorem selectQuorums_single [ShuffleSeed W] {nodeMap : Verifiers W} {selfKey : W}
    (hself : selfKey ∈ nodeMap) (seed : W) (shuffle : Bool)
    (hlow : quorumSize.get ≤ nodeMap.size) (hhigh : nodeMap.size < 2 * quorumSize.get) :
    ∃ quorum, selectQuorumsFromIndexTreeWithSize nodeMap selfKey seed shuffle quorumSize =
      [quorum] ∧ ∀ key, key ∈ quorum ↔ key ∈ nodeMap := by
  have hq := quorumSize.valid.1
  have hlen : nodeMap.keys.length = nodeMap.size := Std.ExtTreeMap.length_keys
  obtain ⟨index, hindex⟩ : ∃ index, nodeMap.keys.idxOf? selfKey = some index := by
    rw [← Option.isSome_iff_exists, List.isSome_idxOf?]
    exact Std.ExtTreeMap.mem_keys.mpr hself
  have hperm : (if shuffle then deterministicShuffle (List.range nodeMap.keys.length) seed
      else List.range nodeMap.keys.length).Perm (List.range nodeMap.keys.length) := by
    split
    · exact deterministicShuffle_perm _ seed
    · exact .refl _
  rw [selectQuorumsFromIndexTreeWithSize, hindex]
  simp only [hlen, findRoundNumberWithSize_single hlow hhigh]
  rw [if_neg (by omega), ← hlen]
  obtain ⟨quorum, heq, hmem⟩ := algorithmWithSize_single hperm _ (hlen ▸ hlow) (hlen ▸ hhigh)
  exact ⟨quorum, heq, fun key => (hmem key).trans Std.ExtTreeMap.mem_keys⟩

end SingleQuorum

end Blossom
