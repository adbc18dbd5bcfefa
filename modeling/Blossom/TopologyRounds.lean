import Blossom.GridLines
import Blossom.NumberWord
import Blossom.Topology
import Mathlib.Data.Setoid.Partition

/-!
# The rounds of the overlay

The nodes that a node meets in a round are those on the same line of the grid, so that all members
of a quorum have the same quorum.
-/

namespace Blossom

open OrderedMap GridLines

variable {W : Type}

/-!
## The shape of a network
-/

/-- A network with at least one full quorum: `multiple` blocks of a power of the branching
factor, and a remainder that is smaller than one block. -/
structure Grid (quorumSize : QuorumSize) (networkSize : ℕ) where
  exponent : ℕ
  multiple : ℕ
  exponent_pos : 0 < exponent
  multiple_pos : 0 < multiple
  multiple_lt : multiple < quorumSize.get
  covered_le : multiple * quorumSize.get ^ exponent ≤ networkSize
  lt_next : networkSize < (multiple + 1) * quorumSize.get ^ exponent

namespace Grid

variable {quorumSize : QuorumSize} {networkSize : ℕ} (g : Grid quorumSize networkSize)

def covered : ℕ := g.multiple * quorumSize.get ^ g.exponent

def rounds : ℕ := g.exponent + if 1 < g.multiple then 1 else 0

def block (round : ℕ) : ℕ :=
  if round < g.exponent then quorumSize.get ^ (round + 1) else g.covered

def stride (round : ℕ) : ℕ :=
  if round < g.exponent then quorumSize.get ^ round
  else g.multiple * quorumSize.get ^ (g.exponent - 1)

theorem power_pos (e : ℕ) : 0 < quorumSize.get ^ e := by
  have := quorumSize.valid.1
  positivity

theorem stride_pos (round : ℕ) : 0 < g.stride round := by
  rw [stride]
  split
  · exact power_pos round
  · exact Nat.mul_pos g.multiple_pos (power_pos _)

theorem block_eq (round : ℕ) : g.block round = quorumSize.get * g.stride round := by
  rw [block, stride]
  split
  · rw [pow_succ, mul_comm]
  · have hpower : quorumSize.get ^ g.exponent =
        quorumSize.get * quorumSize.get ^ (g.exponent - 1) := by
      rw [← pow_succ', Nat.sub_add_cancel g.exponent_pos]
    rw [covered, hpower]
    ring

theorem block_dvd (round : ℕ) : g.block round ∣ g.covered := by
  rw [block]
  split
  · next h => exact (pow_dvd_pow _ h).mul_left _
  · exact dvd_rfl

theorem covered_pos : 0 < g.covered := Nat.mul_pos g.multiple_pos (power_pos _)

theorem lt_twice : networkSize < 2 * g.covered := by
  have hone : quorumSize.get ^ g.exponent ≤ g.covered :=
    Nat.le_mul_of_pos_left _ g.multiple_pos
  have hnext := g.lt_next
  rw [add_mul, one_mul] at hnext
  rw [covered] at hone ⊢
  omega

end Grid

section Shape

variable {quorumSize : QuorumSize} {networkSize : ℕ}

/-- The loop finds the power of the branching factor that the network size lies over. -/
theorem growNetworkSize_spec (networkSize fuel : ℕ) {q e : ℕ} (hq : 1 < q)
    (hle : q ^ e ≤ networkSize) (hfuel : networkSize < q ^ e + fuel) :
    ∃ e', e ≤ e' ∧ growNetworkSize networkSize q fuel (q ^ e) e = (q ^ e', e') ∧
      q ^ e' ≤ networkSize ∧ networkSize < q ^ (e' + 1) := by
  induction fuel generalizing e with
  | zero => omega
  | succ fuel ih =>
    rw [growNetworkSize]
    have hpos : 0 < q ^ e := by positivity
    have hgrow : q ^ e + 1 ≤ q ^ e * q := by nlinarith
    split
    · next hstop => exact ⟨e, le_rfl, rfl, hle, by rwa [pow_succ]⟩
    · next hgo =>
      rw [← pow_succ] at hgo hgrow ⊢
      obtain ⟨e', he, h⟩ := ih (e := e + 1) (by omega) (by omega)
      exact ⟨e', by omega, h⟩

theorem exists_grid (h : quorumSize.get ≤ networkSize) :
    ∃ g : Grid quorumSize networkSize,
      findRoundNumberWithSize networkSize quorumSize = (g.covered, g.rounds) := by
  have hq := quorumSize.valid.1
  obtain ⟨e, he, hgrow, hle, hlt⟩ := growNetworkSize_spec networkSize networkSize
    (q := quorumSize.get) (e := 1) (by omega) (by rwa [pow_one]) (by rw [pow_one]; omega)
  have hpos : 0 < quorumSize.get ^ e := Grid.power_pos e
  have hmultiple : 0 < networkSize / quorumSize.get ^ e := Nat.div_pos hle hpos
  refine ⟨⟨e, networkSize / quorumSize.get ^ e, he, hmultiple, ?_, ?_, ?_⟩, ?_⟩
  · rwa [Nat.div_lt_iff_lt_mul hpos, ← pow_succ']
  · exact Nat.div_mul_le_self _ _
  · exact Nat.lt_mul_of_div_lt (Nat.lt_succ_self _) hpos
  · rw [findRoundNumberWithSize, if_neg (by omega)]
    split
    · next hsmall =>
      -- a network of exactly one quorum does not enter the loop
      have hsize : networkSize = quorumSize.get := by omega
      have hone : e = 1 := by
        by_contra hne
        have htwo : quorumSize.get ^ 2 ≤ quorumSize.get ^ e :=
          Nat.pow_le_pow_right (by omega) (by omega)
        have hsquare : quorumSize.get < quorumSize.get ^ 2 := by nlinarith
        omega
      subst hone
      have hratio : quorumSize.get / quorumSize.get = 1 := Nat.div_self (by omega)
      simp [Grid.covered, Grid.rounds, hsize, hratio]
    · rw [pow_one] at hgrow
      have hover : quorumSize.get ^ e < quorumSize.get ^ e * (networkSize / quorumSize.get ^ e) ↔
          1 < networkSize / quorumSize.get ^ e := by
        constructor
        · intro hlt
          exact Nat.lt_of_mul_lt_mul_left (a := quorumSize.get ^ e) (by simpa using hlt)
        · exact fun hone => by nlinarith
      simp only [hgrow, hover, Grid.covered, Grid.rounds, mul_comm]

end Shape

/-!
## The line of a node
-/

section Lines

variable {keys : List W} {orderedIndices : List ℕ} {quorumSize : QuorumSize} {networkSize : ℕ}

def IsAt (keys : List W) (orderedIndices : List ℕ) (position : ℕ) (key : W) : Prop :=
  ∃ i, orderedIndices[position]? = some i ∧ keys[i]? = some key

theorem IsAt.lt {position : ℕ} {key : W} (h : IsAt keys orderedIndices position key) :
    position < orderedIndices.length := by
  obtain ⟨i, hi, -⟩ := h
  exact (List.getElem?_eq_some_iff.mp hi).1

/-- The line of a round through a covered position, and its continuation in the remainder. -/
theorem quorumOfRound_eq (g : Grid quorumSize networkSize)
    (hlen : orderedIndices.length = networkSize) {round : ℕ} (hround : round < g.rounds) (x : ℕ) :
    quorumOfRound keys orderedIndices x g.covered quorumSize round =
      pushQuorumMembers keys orderedIndices (lineStart (g.block round) (g.stride round) x)
        (g.stride round) quorumSize.get ++
      pushQuorumMembers keys orderedIndices
        (g.covered + lineStart (g.block round) (g.stride round) x) (g.stride round)
        quorumSize.get := by
  have hcov : g.covered ≤ orderedIndices.length := hlen ▸ g.covered_le
  have hpar : (if g.covered < quorumSize.get ^ (round + 1) then g.covered
      else quorumSize.get ^ (round + 1)) = g.block round ∧
      (if g.covered < quorumSize.get ^ (round + 1) then
        max (g.covered / quorumSize.get ^ round) 1 else 1) *
        quorumSize.get ^ (if g.covered < quorumSize.get ^ (round + 1) then round - 1 else round) =
      g.stride round := by
    rw [Grid.block, Grid.stride]
    by_cases hpower : round < g.exponent
    · have hle : quorumSize.get ^ (round + 1) ≤ g.covered :=
        (Nat.pow_le_pow_right (by have := quorumSize.valid.1; omega) hpower).trans
          (Nat.le_mul_of_pos_left _ g.multiple_pos)
      simp [hpower, Nat.not_lt.mpr hle]
    · -- the round after the powers: the whole network is one block
      obtain rfl : round = g.exponent := by
        rw [Grid.rounds] at hround
        split at hround <;> omega
      have hover : g.covered < quorumSize.get ^ (g.exponent + 1) := by
        rw [pow_succ', Grid.covered]
        exact Nat.mul_lt_mul_of_pos_right g.multiple_lt (Grid.power_pos _)
      have hratio : g.covered / quorumSize.get ^ g.exponent = g.multiple := by
        rw [Grid.covered, Nat.mul_div_cancel _ (Grid.power_pos _)]
      have hmax : max g.multiple 1 = g.multiple := Nat.max_eq_left g.multiple_pos
      simp [hover, hratio, hmax]
  rw [quorumOfRound]
  simp only [hpar.1, hpar.2, if_pos hcov]
  rfl

theorem mem_quorumOfRound (g : Grid quorumSize networkSize)
    (hlen : orderedIndices.length = networkSize)
    (hvalid : ∀ i ∈ orderedIndices, i < keys.length) {round : ℕ} (hround : round < g.rounds)
    {x : ℕ} (hx : x < g.covered) {key : W} :
    key ∈ quorumOfRound keys orderedIndices x g.covered quorumSize round ↔
      ∃ y, IsAt keys orderedIndices y key ∧
        SameLine (g.block round) (g.stride round) x (y % g.covered) := by
  have hwidth : 0 < quorumSize.get := by
    have := quorumSize.valid.1
    omega
  have hline (y : ℕ) : (∃ member < quorumSize.get, lineStart (g.block round) (g.stride round) x +
      member * g.stride round = y) ↔ SameLine (g.block round) (g.stride round) x y := by
    rw [g.block_eq]
    exact exists_member_iff hwidth (g.stride_pos round)
  have hlt {y : ℕ} (h : SameLine (g.block round) (g.stride round) x y) : y < g.covered :=
    lt_of_div_eq (g.block_dvd round) hx h.1.symm
  rw [quorumOfRound_eq g hlen hround, List.mem_append, mem_pushQuorumMembers hvalid,
    mem_pushQuorumMembers hvalid]
  constructor
  · rintro (⟨member, hmem, h⟩ | ⟨member, hmem, h⟩)
    · have hsame := (hline _).mp ⟨member, hmem, rfl⟩
      exact ⟨_, h, by rwa [Nat.mod_eq_of_lt (hlt hsame)]⟩
    · have hsame := (hline _).mp ⟨member, hmem, rfl⟩
      refine ⟨_, h, ?_⟩
      rwa [add_assoc, Nat.add_mod_left, Nat.mod_eq_of_lt (hlt hsame)]
  · rintro ⟨y, hy, hsame⟩
    have hnetwork := g.lt_twice
    have hbound := hy.lt
    obtain ⟨member, hmem, heq⟩ := (hline _).mpr hsame
    by_cases hcase : y < g.covered
    · refine .inl ⟨member, hmem, ?_⟩
      rw [heq, Nat.mod_eq_of_lt hcase]
      exact hy
    · refine .inr ⟨member, hmem, ?_⟩
      rw [add_assoc, heq, Nat.mod_eq_sub_mod (by omega), Nat.mod_eq_of_lt (by omega),
        Nat.add_sub_cancel' (by omega)]
      exact hy

theorem mem_quorumOfRound_small (hvalid : ∀ i ∈ orderedIndices, i < keys.length)
    (hsmall : orderedIndices.length < quorumSize.get) {x : ℕ} (hx : x < orderedIndices.length)
    {key : W} :
    key ∈ quorumOfRound keys orderedIndices x orderedIndices.length quorumSize 0 ↔
      IsAt keys orderedIndices x key := by
  have hpos : 0 < orderedIndices.length := by omega
  have hstart : quorumOfRound keys orderedIndices x orderedIndices.length quorumSize 0 =
      pushQuorumMembers keys orderedIndices x orderedIndices.length quorumSize.get ++
        pushQuorumMembers keys orderedIndices (orderedIndices.length + x) orderedIndices.length
          quorumSize.get := by
    have hone : max orderedIndices.length 1 = orderedIndices.length := by omega
    simp [quorumOfRound, hsmall, hone, Nat.mod_eq_of_lt hx]
  rw [hstart, List.mem_append, mem_pushQuorumMembers hvalid, mem_pushQuorumMembers hvalid]
  constructor
  · rintro (⟨member, -, h⟩ | ⟨member, -, h⟩)
    · have hbound := IsAt.lt h
      have hzero : member = 0 := by
        by_contra hne
        have := Nat.le_mul_of_pos_left orderedIndices.length (Nat.pos_of_ne_zero hne)
        omega
      rw [hzero, zero_mul, add_zero] at h
      exact h
    · have hbound := IsAt.lt h
      omega
  · intro h
    exact .inl ⟨0, by omega, by simpa [IsAt] using h⟩

end Lines

theorem idxOf?_of_getElem? {α : Type} [DecidableEq α] {xs : List α} {i : ℕ} {a : α}
    (hnodup : xs.Nodup) (h : xs[i]? = some a) : xs.idxOf? a = some i := by
  obtain ⟨hi, rfl⟩ := List.getElem?_eq_some_iff.mp h
  refine List.idxOf?_eq_some_iff.mpr ⟨hi, rfl, fun j hj heq => ?_⟩
  exact absurd ((List.Nodup.getElem_inj_iff hnodup).mp heq) (by omega)

section Nodes

variable [LinearOrder W] [ShuffleSeed W] {nodeMap : Verifiers W} {seed : W} {shuffle : Bool}
  {quorumSize : QuorumSize}

/-- The order in which the grid takes the nodes. -/
def nodeOrder (nodeMap : Verifiers W) (seed : W) (shuffle : Bool) : List ℕ :=
  if shuffle then deterministicShuffle (List.range nodeMap.keys.length) seed
  else List.range nodeMap.keys.length

abbrev NodeAt (nodeMap : Verifiers W) (seed : W) (shuffle : Bool) : ℕ → W → Prop :=
  IsAt nodeMap.keys (nodeOrder nodeMap seed shuffle)

theorem nodeOrder_perm : (nodeOrder nodeMap seed shuffle).Perm (List.range nodeMap.keys.length) := by
  rw [nodeOrder]
  split
  · exact deterministicShuffle_perm _ seed
  · exact .refl _

theorem length_nodeOrder : (nodeOrder nodeMap seed shuffle).length = nodeMap.size := by
  rw [nodeOrder_perm.length_eq, List.length_range, Std.ExtTreeMap.length_keys]

theorem nodeOrder_valid : ∀ i ∈ nodeOrder nodeMap seed shuffle, i < nodeMap.keys.length :=
  fun _ hi => List.mem_range.mp (nodeOrder_perm.mem_iff.mp hi)

variable {start v w : W}

theorem exists_position (seed : W) (shuffle : Bool) (hv : v ∈ nodeMap) :
    ∃ position, NodeAt nodeMap seed shuffle position v := by
  obtain ⟨i, hi, rfl⟩ := List.mem_iff_getElem.mp (Std.ExtTreeMap.mem_keys.mpr hv)
  have hin : i ∈ nodeOrder nodeMap seed shuffle := nodeOrder_perm.mem_iff.mpr (List.mem_range.mpr hi)
  obtain ⟨position, hpos, hat⟩ := List.mem_iff_getElem.mp hin
  exact ⟨position, i, by simp [hpos, hat], by simp⟩

theorem IsAt.mem {position : ℕ}
    (h : NodeAt nodeMap seed shuffle position v) : v ∈ nodeMap := by
  obtain ⟨i, -, hv⟩ := h
  exact Std.ExtTreeMap.mem_keys.mp (List.mem_of_getElem? hv)

theorem nodup_nodeOrder : (nodeOrder nodeMap seed shuffle).Nodup :=
  nodeOrder_perm.nodup_iff.mpr List.nodup_range

variable {round x : ℕ}

theorem IsAt.key_unique (hv : NodeAt nodeMap seed shuffle x v)
    (hw : NodeAt nodeMap seed shuffle x w) : v = w := by
  obtain ⟨i, hi, hvi⟩ := hv
  obtain ⟨j, hj, hwj⟩ := hw
  rw [hi, Option.some.injEq] at hj
  rw [← hj, hvi, Option.some.injEq] at hwj
  exact hwj

theorem selectQuorums_eq {position : ℕ}
    (h : NodeAt nodeMap seed shuffle position v) {covered rounds : ℕ}
    (hfind : findRoundNumberWithSize nodeMap.size quorumSize = (covered, rounds))
    (hcov : 0 < covered) (hrounds : 0 < rounds) :
    selectQuorumsFromIndexTreeWithSize nodeMap v seed shuffle quorumSize =
      (List.range rounds).map fun round => .ofList (quorumOfRound nodeMap.keys
        (nodeOrder nodeMap seed shuffle) (position % covered) covered quorumSize round) compare := by
  obtain ⟨i, hi, hv⟩ := h
  have hlen : nodeMap.keys.length = nodeMap.size := Std.ExtTreeMap.length_keys
  have hindex : nodeMap.keys.idxOf? v = some i := idxOf?_of_getElem? Std.ExtTreeMap.nodup_keys hv
  have hne : nodeMap.keys ≠ [] := by
    intro hnil
    simp [hnil] at hv
  have hself : (if shuffle then ((nodeOrder nodeMap seed shuffle).idxOf? i).getD i else i) =
      position := by
    cases shuffle with
    | false =>
      simp only [nodeOrder, Bool.false_eq_true, if_false] at hi
      obtain ⟨hlt, heq⟩ := List.getElem?_eq_some_iff.mp hi
      simpa using heq.symm
    | true => simp [idxOf?_of_getElem? nodup_nodeOrder hi]
  have hpos : (if covered ≤ position then position % covered else position) =
      position % covered := by
    split
    · rfl
    · exact (Nat.mod_eq_of_lt (by omega)).symm
  rw [selectQuorumsFromIndexTreeWithSize, hindex]
  simp only [hlen, hfind]
  rw [if_neg (by omega), ← hlen]
  change algorithmWithSize nodeMap.keys (nodeOrder nodeMap seed shuffle) (if shuffle then
    ((nodeOrder nodeMap seed shuffle).idxOf? i).getD i else i) covered rounds quorumSize = _
  rw [hself, algorithmWithSize, if_neg (by simp [hne]; omega)]
  simp only [hpos]

omit [ShuffleSeed W] [LinearOrder W] in
theorem length_quorumOfRound_le {keys : List W} {orderedIndices : List ℕ} {covered : ℕ} :
    (quorumOfRound keys orderedIndices x covered quorumSize round).length ≤
      2 * quorumSize.get := by
  have hline (first stride : ℕ) :
      (pushQuorumMembers keys orderedIndices first stride quorumSize.get).length ≤
        quorumSize.get := by
    refine (List.length_filterMap_le _ _).trans ?_
    refine (List.takeWhile_prefix _).length_le.trans ?_
    simp
  rw [quorumOfRound, List.length_append, two_mul]
  refine Nat.add_le_add (hline _ _) ?_
  split
  · exact hline _ _
  · exact Nat.zero_le _

theorem exists_quorum_of_grid (g : Grid quorumSize nodeMap.size)
    (hfind : findRoundNumberWithSize nodeMap.size quorumSize = (g.covered, g.rounds))
    (hround : round < g.rounds) (hv : NodeAt nodeMap seed shuffle x v) :
    ∃ quorum, (selectQuorumsFromIndexTreeWithSize nodeMap v seed shuffle quorumSize)[round]? =
      some quorum ∧ quorum.size ≤ 2 * quorumSize.get ∧
      ∀ w, w ∈ quorum ↔ ∃ y, NodeAt nodeMap seed shuffle y w ∧
        SameLine (g.block round) (g.stride round) (x % g.covered) (y % g.covered) := by
  refine ⟨_, by rw [selectQuorums_eq hv hfind g.covered_pos (by omega)]; simp [hround]; rfl,
    Std.ExtTreeSet.size_ofList_le.trans length_quorumOfRound_le, fun w => ?_⟩
  rw [Std.ExtTreeSet.mem_ofList, List.contains_iff_mem,
    mem_quorumOfRound g length_nodeOrder nodeOrder_valid hround (Nat.mod_lt _ g.covered_pos)]

theorem exists_quorum_of_small (hsmall : nodeMap.size < quorumSize.get)
    (hv : NodeAt nodeMap seed shuffle x v) :
    ∃ quorum, selectQuorumsFromIndexTreeWithSize nodeMap v seed shuffle quorumSize = [quorum] ∧
      quorum.size ≤ 2 * quorumSize.get ∧ ∀ w, w ∈ quorum ↔ w = v := by
  have hlen : (nodeOrder nodeMap seed shuffle).length = nodeMap.size := length_nodeOrder
  have hbound : x < nodeMap.size := hlen ▸ hv.lt
  have hfind : findRoundNumberWithSize nodeMap.size quorumSize = (nodeMap.size, 1) := by
    rw [findRoundNumberWithSize, if_neg (by omega), if_pos hsmall.le]
  refine ⟨_, selectQuorums_eq hv hfind (by omega) one_pos,
    Std.ExtTreeSet.size_ofList_le.trans length_quorumOfRound_le, fun w => ?_⟩
  rw [Std.ExtTreeSet.mem_ofList, List.contains_iff_mem, Nat.mod_eq_of_lt hbound, ← hlen,
    mem_quorumOfRound_small nodeOrder_valid (by rwa [hlen]) hv.lt]
  exact ⟨fun hw => hw.key_unique hv, fun heq => heq ▸ hv⟩

/-!
## Consistent views
-/

theorem length_selectQuorums (hv : v ∈ nodeMap) :
    (selectQuorumsFromIndexTreeWithSize nodeMap v seed shuffle quorumSize).length =
      (findRoundNumberWithSize nodeMap.size quorumSize).2 := by
  obtain ⟨x, hx⟩ := exists_position seed shuffle hv
  by_cases hsmall : nodeMap.size < quorumSize.get
  · obtain ⟨quorum, h, -⟩ := exists_quorum_of_small hsmall hx
    have hpos : nodeMap.size ≠ 0 := by
      have hbound := hx.lt
      rw [length_nodeOrder] at hbound
      omega
    rw [h, findRoundNumberWithSize, if_neg hpos, if_pos hsmall.le]
    rfl
  · obtain ⟨g, hfind⟩ := exists_grid (Nat.le_of_not_lt hsmall)
    have hrounds : 0 < g.rounds := Nat.add_pos_left g.exponent_pos _
    rw [selectQuorums_eq hx hfind g.covered_pos hrounds, hfind, List.length_map, List.length_range]

theorem selectQuorums_eq_of_mem {quorum : BTreeSet W} (hv : v ∈ nodeMap)
    (h : (selectQuorumsFromIndexTreeWithSize nodeMap v seed shuffle quorumSize)[round]? =
      some quorum) :
    v ∈ quorum ∧ quorum.size ≤ 2 * quorumSize.get ∧ ∀ w ∈ quorum, w ∈ nodeMap ∧
      (selectQuorumsFromIndexTreeWithSize nodeMap w seed shuffle quorumSize)[round]? =
        some quorum := by
  obtain ⟨x, hx⟩ := exists_position seed shuffle hv
  by_cases hsmall : nodeMap.size < quorumSize.get
  · obtain ⟨alone, hsel, hsize, hmem⟩ := exists_quorum_of_small hsmall hx
    have heq : alone = quorum := by
      rw [hsel] at h
      exact List.mem_singleton.mp (List.mem_of_getElem? h) |>.symm
    subst heq
    refine ⟨(hmem v).mpr rfl, hsize, fun w hw => ?_⟩
    rw [(hmem w).mp hw]
    exact ⟨hv, h⟩
  · obtain ⟨g, hfind⟩ := exists_grid (Nat.le_of_not_lt hsmall)
    have hround : round < g.rounds := by
      have hlt := (List.getElem?_eq_some_iff.mp h).1
      rwa [length_selectQuorums hv, hfind] at hlt
    obtain ⟨line, hsel, hsize, hmem⟩ := exists_quorum_of_grid g hfind hround hx
    rw [hsel, Option.some.injEq] at h
    subst h
    refine ⟨(hmem v).mpr ⟨x, hx, .refl _⟩, hsize, fun w hw => ?_⟩
    obtain ⟨y, hy, hsame⟩ := (hmem w).mp hw
    obtain ⟨line', hsel', -, hmem'⟩ := exists_quorum_of_grid g hfind hround hy
    refine ⟨hy.mem, hsel'.trans (congrArg some (Std.ExtTreeSet.ext_mem fun u => ?_))⟩
    rw [hmem, hmem']
    constructor
    · rintro ⟨z, hz, hline⟩
      exact ⟨z, hz, hsame.trans hline⟩
    · rintro ⟨z, hz, hline⟩
      exact ⟨z, hz, hsame.symm.trans hline⟩

def roundQuorums (nodeMap : Verifiers W) (seed : W) (shuffle : Bool) (quorumSize : QuorumSize)
    (round : ℕ) : Set (Set { key // key ∈ nodeMap }) :=
  { members | ∃ v ∈ nodeMap, ∃ quorum,
    (selectQuorumsFromIndexTreeWithSize nodeMap v seed shuffle quorumSize)[round]? = some quorum ∧
      members = { w | w.1 ∈ quorum } }

theorem quorums_consistent (nodeMap : Verifiers W) (seed : W) (shuffle : Bool)
    (quorumSize : QuorumSize) (round : ℕ)
    (hround : round < (findRoundNumberWithSize nodeMap.size quorumSize).2) :
    (∀ v ∈ nodeMap, (selectQuorumsFromIndexTreeWithSize nodeMap v seed shuffle quorumSize).length =
      (findRoundNumberWithSize nodeMap.size quorumSize).2 ∧
      ∃ quorum, (selectQuorumsFromIndexTreeWithSize nodeMap v seed shuffle quorumSize)[round]? =
        some quorum ∧ v ∈ quorum ∧ quorum.size ≤ 2 * quorumSize.get ∧
        ∀ w ∈ quorum, w ∈ nodeMap ∧
          (selectQuorumsFromIndexTreeWithSize nodeMap w seed shuffle quorumSize)[round]? =
            some quorum) ∧
    Setoid.IsPartition (roundQuorums nodeMap seed shuffle quorumSize round) := by
  have hquorum {v : W} (hv : v ∈ nodeMap) : ∃ quorum,
      (selectQuorumsFromIndexTreeWithSize nodeMap v seed shuffle quorumSize)[round]? =
        some quorum := by
    rw [← length_selectQuorums hv] at hround
    exact ⟨_, List.getElem?_eq_getElem hround⟩
  refine ⟨fun v hv => ⟨length_selectQuorums hv, ?_⟩, ?_, fun v => ?_⟩
  · obtain ⟨quorum, h⟩ := hquorum hv
    exact ⟨quorum, h, selectQuorums_eq_of_mem hv h⟩
  · rintro ⟨v, hv, quorum, h, hempty⟩
    have hself : (⟨v, hv⟩ : { key // key ∈ nodeMap }) ∈ ({ w | w.1 ∈ quorum } : Set _) :=
      (selectQuorums_eq_of_mem hv h).1
    rw [← hempty] at hself
    exact hself
  · obtain ⟨quorum, h⟩ := hquorum v.2
    refine ⟨{ w | w.1 ∈ quorum }, ⟨⟨v, v.2, quorum, h, rfl⟩, (selectQuorums_eq_of_mem v.2 h).1⟩, ?_⟩
    rintro _ ⟨⟨u, hu, other, hother, rfl⟩, hmem⟩
    -- the other quorum has the node, so it is the node's own
    have hsame := ((selectQuorums_eq_of_mem hu hother).2.2 v hmem).2
    rw [h, Option.some.injEq] at hsame
    rw [hsame]

instance : ShuffleSeed NumberWord := ⟨fun w => w.code.toUInt64⟩

def numberedNodes (count : ℕ) : Verifiers NumberWord :=
  .ofList ((List.range count).map fun i => (.key i, ⟨.key i, [], [], 0, true⟩)) compare

theorem quorums_consistent_six :
    0 < (findRoundNumberWithSize (numberedNodes 6).size ⟨3, by decide⟩).2 ∧
      Setoid.IsPartition (roundQuorums (numberedNodes 6) (.key 7) true ⟨3, by decide⟩ 0) :=
  have hround : 0 < (findRoundNumberWithSize (numberedNodes 6).size ⟨3, by decide⟩).2 := by
    decide +kernel
  ⟨hround, (quorums_consistent (numberedNodes 6) (.key 7) true ⟨3, by decide⟩ 0 hround).2⟩

/-!
## Dissemination
-/

section

variable (nodeMap : Verifiers W) (seed : W) (shuffle : Bool) (quorumSize : QuorumSize)

def shareRound (holders : BTreeSet W) (round : ℕ) : BTreeSet W :=
  .ofList (holders.toList ++ holders.toList.flatMap fun v =>
    (((selectQuorumsFromIndexTreeWithSize nodeMap v seed shuffle quorumSize)[round]?).map
      (·.toList)).getD []) compare

def holdersAfter (start : W) (rounds : ℕ) : BTreeSet W :=
  (List.range rounds).foldl (shareRound nodeMap seed shuffle quorumSize) (.ofList [start] compare)

end

theorem mem_shareRound {holders : BTreeSet W} :
    w ∈ shareRound nodeMap seed shuffle quorumSize holders round ↔ w ∈ holders ∨
      ∃ v ∈ holders, ∃ quorum,
        (selectQuorumsFromIndexTreeWithSize nodeMap v seed shuffle quorumSize)[round]? =
          some quorum ∧ w ∈ quorum := by
  simp only [shareRound, Std.ExtTreeSet.mem_ofList, List.contains_iff_mem, List.mem_append,
    List.mem_flatMap, Std.ExtTreeSet.mem_toList]
  refine or_congr_right (exists_congr fun v => and_congr_right fun _ => ?_)
  cases (selectQuorumsFromIndexTreeWithSize nodeMap v seed shuffle quorumSize)[round]? with
  | none => simp
  | some quorum => simp

theorem holdersAfter_succ {rounds : ℕ} :
    holdersAfter nodeMap seed shuffle quorumSize start (rounds + 1) =
      shareRound nodeMap seed shuffle quorumSize
        (holdersAfter nodeMap seed shuffle quorumSize start rounds) rounds := by
  rw [holdersAfter, List.range_succ, List.foldl_append]
  rfl

theorem exists_node (seed : W) (shuffle : Bool) {z : ℕ} (h : z < nodeMap.size) :
    ∃ u, NodeAt nodeMap seed shuffle z u := by
  have hlen : (nodeOrder nodeMap seed shuffle).length = nodeMap.size := length_nodeOrder
  have hz : z < (nodeOrder nodeMap seed shuffle).length := by omega
  have hindex := nodeOrder_valid _ (List.getElem_mem hz)
  exact ⟨_, _, List.getElem?_eq_getElem hz, List.getElem?_eq_getElem hindex⟩

section Grids

variable (g : Grid quorumSize nodeMap.size)
  (hfind : findRoundNumberWithSize nodeMap.size quorumSize = (g.covered, g.rounds))

include hfind

theorem mem_holdersAfter_succ {u : W} {z y : ℕ} (hround : round < g.rounds)
    (hz : NodeAt nodeMap seed shuffle z u)
    (hy : NodeAt nodeMap seed shuffle y w)
    (hu : u ∈ holdersAfter nodeMap seed shuffle quorumSize start round)
    (hline : SameLine (g.block round) (g.stride round) (z % g.covered) (y % g.covered)) :
    w ∈ holdersAfter nodeMap seed shuffle quorumSize start (round + 1) := by
  obtain ⟨quorum, hsel, -, hmem⟩ := exists_quorum_of_grid g hfind hround hz
  rw [holdersAfter_succ, mem_shareRound]
  exact .inr ⟨u, hu, quorum, hsel, (hmem w).mpr ⟨y, hy, hline⟩⟩

/-- After a round of the powers, the nodes of the block of the first holder hold the item.
The induction is on the rounds: a line of a round meets every block of the round before. -/
theorem mem_holdersAfter_of_block
    {y : ℕ} (hx : NodeAt nodeMap seed shuffle x start)
    (hpower : round < g.exponent) (hy : NodeAt nodeMap seed shuffle y w)
    (hblock : x % g.covered / quorumSize.get ^ (round + 1) =
      y % g.covered / quorumSize.get ^ (round + 1)) :
    w ∈ holdersAfter nodeMap seed shuffle quorumSize start (round + 1) := by
  have hround : round < g.rounds := Nat.lt_add_right _ hpower
  induction round generalizing w y with
  | zero =>
    refine mem_holdersAfter_succ g hfind hround hx hy ?_ ⟨?_, ?_⟩
    · simp [holdersAfter]
    · rwa [Grid.block, if_pos hpower]
    · rw [Grid.stride, if_pos hpower, pow_zero, Nat.mod_one, Nat.mod_one]
  | succ round ih =>
    have hdvd : quorumSize.get ^ (round + 1) ∣ g.covered := (pow_dvd_pow _ hpower.le).mul_left _
    rw [pow_succ'] at hblock
    obtain ⟨z, hstride, hline⟩ := exists_in_stride (Grid.power_pos (round + 1)) hblock
    have hz : z < g.covered := lt_of_div_eq hdvd (Nat.mod_lt _ g.covered_pos) hstride
    have hzmod : z % g.covered = z := Nat.mod_eq_of_lt hz
    obtain ⟨u, hu⟩ := exists_node seed shuffle (hz.trans_le g.covered_le)
    refine mem_holdersAfter_succ g hfind hround hu hy (ih (by omega) hu ?_ (by omega)) ?_
    · rw [hzmod, hstride]
    · rw [hzmod, Grid.block, Grid.stride, if_pos hpower, if_pos hpower, pow_succ']
      exact hline

theorem mem_holdersAfter_rounds
    (hstart : start ∈ nodeMap) (hw : w ∈ nodeMap) :
    w ∈ holdersAfter nodeMap seed shuffle quorumSize start g.rounds := by
  obtain ⟨x, hx⟩ := exists_position seed shuffle hstart
  obtain ⟨y, hy⟩ := exists_position seed shuffle hw
  have hlast : g.exponent - 1 + 1 = g.exponent := Nat.sub_add_cancel g.exponent_pos
  have hpowers {z : ℕ} {u : W} (hz : NodeAt nodeMap seed shuffle z u)
      (hblock : x % g.covered / quorumSize.get ^ g.exponent =
        z % g.covered / quorumSize.get ^ g.exponent) :
      u ∈ holdersAfter nodeMap seed shuffle quorumSize start g.exponent := by
    rw [← hlast] at hblock ⊢
    exact mem_holdersAfter_of_block g hfind hx (by omega) hz hblock
  have hxlt : x % g.covered < g.covered := Nat.mod_lt _ g.covered_pos
  have hylt : y % g.covered < g.covered := Nat.mod_lt _ g.covered_pos
  by_cases hone : 1 < g.multiple
  · have hrounds : g.rounds = g.exponent + 1 := by rw [Grid.rounds, if_pos hone]
    have hstride : g.stride g.exponent ≤ quorumSize.get ^ g.exponent := by
      rw [Grid.stride, if_neg (lt_irrefl _), ← hlast, pow_succ', Nat.add_sub_cancel]
      exact Nat.mul_le_mul_right _ g.multiple_lt.le
    -- the block of the first holder meets every line of the last round
    obtain ⟨z, hblock, hrest⟩ := exists_in_block (g.stride_pos g.exponent) hstride
      (x % g.covered) (y % g.covered)
    have hz : z < g.covered := lt_of_div_eq (Dvd.intro_left _ rfl) hxlt hblock
    have hzmod : z % g.covered = z := Nat.mod_eq_of_lt hz
    obtain ⟨u, hu⟩ := exists_node seed shuffle (hz.trans_le g.covered_le)
    rw [hrounds]
    refine mem_holdersAfter_succ g hfind (by omega) hu hy (hpowers hu ?_) ⟨?_, ?_⟩
    · rw [hzmod, hblock]
    · rw [hzmod, Grid.block, if_neg (lt_irrefl _), Nat.div_eq_of_lt hz, Nat.div_eq_of_lt hylt]
    · rw [hzmod, hrest]
  · have hrounds : g.rounds = g.exponent := by rw [Grid.rounds, if_neg hone, add_zero]
    have hcov : g.covered = quorumSize.get ^ g.exponent := by
      have hmultiple : g.multiple = 1 := Nat.le_antisymm (Nat.le_of_not_lt hone) g.multiple_pos
      rw [Grid.covered, hmultiple, one_mul]
    rw [hrounds]
    refine hpowers hy ?_
    rw [← hcov, Nat.div_eq_of_lt hxlt, Nat.div_eq_of_lt hylt]

end Grids

theorem mem_holdersAfter_small (hsmall : nodeMap.size < quorumSize.get)
    (hstart : start ∈ nodeMap) (rounds : ℕ) :
    w ∈ holdersAfter nodeMap seed shuffle quorumSize start rounds ↔ w = start := by
  induction rounds generalizing w with
  | zero => simpa [holdersAfter] using eq_comm
  | succ rounds ih =>
    obtain ⟨x, hx⟩ := exists_position seed shuffle hstart
    obtain ⟨alone, hsel, -, hmem⟩ := exists_quorum_of_small hsmall hx
    rw [holdersAfter_succ, mem_shareRound, ih]
    refine ⟨?_, Or.inl⟩
    rintro (heq | ⟨v, hv, quorum, hquorum, hw⟩)
    · exact heq
    · rw [ih] at hv
      rw [hv, hsel] at hquorum
      rw [List.mem_singleton.mp (List.mem_of_getElem? hquorum), hmem] at hw
      exact hw

/-- An item of any node reaches all nodes in the rounds of the topology exactly in the
networks of one node and in those of at least one full quorum. -/
theorem disseminates_iff (nodeMap : Verifiers W) (seed : W) (shuffle : Bool)
    (quorumSize : QuorumSize) (hsize : 1 ≤ nodeMap.size) :
    (∀ start ∈ nodeMap, ∀ w ∈ nodeMap, w ∈ holdersAfter nodeMap seed shuffle quorumSize start
      (findRoundNumberWithSize nodeMap.size quorumSize).2) ↔
      nodeMap.size = 1 ∨ quorumSize.get ≤ nodeMap.size := by
  have hlength : nodeMap.keys.length = nodeMap.size := Std.ExtTreeMap.length_keys
  by_cases hsmall : nodeMap.size < quorumSize.get
  · constructor
    · intro h
      by_contra hne
      -- two nodes, of which each keeps its item
      have hfirst : 0 < nodeMap.keys.length := by omega
      have hsecond : 1 < nodeMap.keys.length := by omega
      have hmem {i : ℕ} (hi : i < nodeMap.keys.length) : nodeMap.keys[i] ∈ nodeMap :=
        Std.ExtTreeMap.mem_keys.mp (List.getElem_mem hi)
      have heq := (mem_holdersAfter_small hsmall (hmem hfirst) _).mp
        (h _ (hmem hfirst) _ (hmem hsecond))
      exact absurd ((List.Nodup.getElem_inj_iff Std.ExtTreeMap.nodup_keys).mp heq) (by omega)
    · rintro (hone | hfull) start hstart w hw
      · rw [mem_holdersAfter_small hsmall hstart]
        rw [← Std.ExtTreeMap.mem_keys] at hstart hw
        rw [hone, List.length_eq_one_iff] at hlength
        obtain ⟨key, hkeys⟩ := hlength
        rw [hkeys, List.mem_singleton] at hstart hw
        rw [hstart, hw]
      · omega
  · obtain ⟨g, hfind⟩ := exists_grid (Nat.le_of_not_lt hsmall)
    refine ⟨fun _ => .inr (Nat.le_of_not_lt hsmall), fun _ start hstart w hw => ?_⟩
    rw [hfind]
    exact mem_holdersAfter_rounds g hfind hstart hw

/-- Two nodes with a branching factor of three never meet. -/
theorem two_nodes_never_meet :
    ¬∀ start ∈ numberedNodes 2, ∀ w ∈ numberedNodes 2, w ∈ holdersAfter (numberedNodes 2) (.key 7)
      true ⟨3, by decide⟩ start (findRoundNumberWithSize (numberedNodes 2).size ⟨3, by decide⟩).2 := by
  intro h
  exact absurd (h (.key 0) (by decide +kernel) (.key 1) (by decide +kernel)) (by decide +kernel)

theorem disseminates_iff_seven :
    1 ≤ (numberedNodes 7).size ∧ ∀ start ∈ numberedNodes 7, ∀ w ∈ numberedNodes 7,
      w ∈ holdersAfter (numberedNodes 7) (.key 7) true ⟨3, by decide⟩ start
        (findRoundNumberWithSize (numberedNodes 7).size ⟨3, by decide⟩).2 :=
  have hsize : 1 ≤ (numberedNodes 7).size := by decide +kernel
  ⟨hsize, (disseminates_iff (numberedNodes 7) (.key 7) true ⟨3, by decide⟩ hsize).mpr
    (.inr (by decide +kernel))⟩

end Nodes

end Blossom
