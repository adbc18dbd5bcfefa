import Mathlib.Data.Finset.Basic
import Mathlib.Order.Basic

/-!
# Orders that are certified by successive committees

The members of a committee vote for the statement at each position, and for the committee that
replaces them after a boundary. Statements and replacements are accepted when a quorum of the
committee of their generation backs them.
-/

namespace Blossom.CommitteeOrder

variable {α S T : Type*}

/-- The statements and replacements of a protocol, its quorums and its honest members. -/
structure Protocol (α S T : Type*) where
  honest : α → Prop
  quorum : Finset α → Finset α → Prop
  generation : S → ℕ
  position : S → ℕ
  source : T → ℕ
  boundary : T → ℕ
  next : T → Finset α

structure Ballots (α S T : Type*) where
  orders : α → S → Prop
  moves : α → T → Prop

/-- A honest member signs one statement for a position and one replacement, and no statement
for a position behind the boundary of its replacement. -/
structure Disciplined (P : Protocol α S T) (B : Ballots α S T) : Prop where
  order_unique : ∀ u s s', P.honest u → B.orders u s → B.orders u s' →
    P.generation s = P.generation s' → P.position s = P.position s' → s = s'
  move_unique : ∀ u t t', P.honest u → B.moves u t → B.moves u t' → P.source t = P.source t' → t = t'
  excluded : ∀ u s t, P.honest u → B.orders u s → B.moves u t → P.generation s = P.source t →
    P.position s ≤ P.boundary t

/-- Every two quorums of the committee share an honest member. -/
def Trusty (P : Protocol α S T) (V : Finset α) : Prop :=
  ∀ Q Q', P.quorum V Q → P.quorum V Q' → ∃ u ∈ Q, u ∈ Q' ∧ P.honest u

def Backed {X : Type*} (P : Protocol α S T) (votes : α → X → Prop) (V : Finset α) (x : X) : Prop :=
  ∃ Q, P.quorum V Q ∧ ∀ u ∈ Q, P.honest u → votes u x

/-- What one participant has accepted: the committees of the generations and the statements. -/
structure View (α S : Type*) where
  committee : ℕ → Finset α → Prop
  accepted : S → Prop

/-- The participant started from the first committee and accepted what later ones backed. The
positions of a generation come after the boundaries of the generations before it. -/
structure Valid (P : Protocol α S T) (B : Ballots α S T) (first : ℕ) (founders : Finset α)
    (v : View α S) : Prop where
  first_le : ∀ g V, v.committee g V → first ≤ g
  founded : ∀ V, v.committee first V → V = founders
  replaced : ∀ g V, first ≤ g → v.committee (g + 1) V →
    ∃ t U, v.committee g U ∧ P.source t = g ∧ P.next t = V ∧ Backed P B.moves U t
  ordered : ∀ s, v.accepted s → ∃ V, v.committee (P.generation s) V ∧ Backed P B.orders V s
  passed : ∀ s g, v.accepted s → first ≤ g → g < P.generation s →
    ∃ t U, v.committee g U ∧ P.source t = g ∧ Backed P B.moves U t ∧ P.boundary t < P.position s

variable {P : Protocol α S T} {B B' : Ballots α S T} {first : ℕ} {founders : Finset α}
  {v w : View α S}

theorem Backed.mono {X : Type*} {votes votes' : α → X → Prop} {V : Finset α} {x : X}
    (h : Backed P votes V x) (hle : ∀ u x, votes u x → votes' u x) : Backed P votes' V x := by
  obtain ⟨Q, hQ, hvotes⟩ := h
  exact ⟨Q, hQ, fun u hu honest => hle u x (hvotes u hu honest)⟩

theorem Backed.common {X Y : Type*} {votes : α → X → Prop} {votes' : α → Y → Prop} {V : Finset α}
    {x : X} {y : Y} (hV : Trusty P V) (h : Backed P votes V x) (h' : Backed P votes' V y) :
    ∃ u, P.honest u ∧ votes u x ∧ votes' u y := by
  obtain ⟨Q, hQ, hx⟩ := h
  obtain ⟨Q', hQ', hy⟩ := h'
  obtain ⟨u, hu, hu', honest⟩ := hV Q Q' hQ hQ'
  exact ⟨u, honest, hx u hu honest, hy u hu' honest⟩

theorem Valid.mono (h : Valid P B first founders v) (horders : ∀ u s, B.orders u s → B'.orders u s)
    (hmoves : ∀ u t, B.moves u t → B'.moves u t) : Valid P B' first founders v :=
  { h with
    replaced := fun g V hg hV => by
      obtain ⟨t, U, hU, hsrc, hnext, hbacked⟩ := h.replaced g V hg hV
      exact ⟨t, U, hU, hsrc, hnext, hbacked.mono hmoves⟩
    ordered := fun s hs => (h.ordered s hs).imp fun _ => And.imp_right (·.mono horders)
    passed := fun s g hs hg hlt => by
      obtain ⟨t, U, hU, hsrc, hbacked, hbnd⟩ := h.passed s g hs hg hlt
      exact ⟨t, U, hU, hsrc, hbacked.mono hmoves, hbnd⟩ }

section Agreement

variable (hB : Disciplined P B) (hv : Valid P B first founders v) (hw : Valid P B first founders w)
  (hv' : ∀ g V, v.committee g V → Trusty P V)

include hB hv hw hv'

/-- Two participants have the same committee in each generation that both have reached. -/
theorem committee_eq {g : ℕ} {V V' : Finset α} (h : v.committee g V) (h' : w.committee g V') : V = V' := by
  induction g, hv.first_le g V h using Nat.le_induction generalizing V V' with
  | base => rw [hv.founded V h, hw.founded V' h']
  | succ g hg ih =>
    obtain ⟨t, U, hU, hsrc, rfl, hbacked⟩ := hv.replaced g V hg h
    obtain ⟨t', U', hU', hsrc', rfl, hbacked'⟩ := hw.replaced g V' hg h'
    obtain rfl : U = U' := ih hU hU'
    obtain ⟨u, honest, ht, ht'⟩ := hbacked.common (hv' g U hU) hbacked'
    rw [hB.move_unique u t t' honest ht ht' (hsrc.trans hsrc'.symm)]

/-- A statement that a participant accepts in one generation is not behind the boundary of
another participant's next committee. -/
theorem position_le_boundary {s : S} {t : T} {U : Finset α} (hs : v.accepted s) (hU : w.committee (P.generation s) U)
    (hsrc : P.source t = P.generation s) (hbacked : Backed P B.moves U t) :
    P.position s ≤ P.boundary t := by
  obtain ⟨V, hV, horder⟩ := hv.ordered s hs
  obtain rfl : V = U := committee_eq hB hv hw hv' hV hU
  obtain ⟨u, honest, hus, hut⟩ := horder.common (hv' _ V hV) hbacked
  exact hB.excluded u s t honest hus hut hsrc.symm

/-- Two participants accept one statement at each position, in whatever generations. -/
theorem accepted_eq (hw' : ∀ g V, w.committee g V → Trusty P V) {s s' : S} (h : v.accepted s) (h' : w.accepted s')
    (hpos : P.position s = P.position s') : s = s' := by
  obtain ⟨V, hV, hbacked⟩ := hv.ordered s h
  obtain ⟨V', hV', hbacked'⟩ := hw.ordered s' h'
  rcases lt_trichotomy (P.generation s) (P.generation s') with hlt | heq | hlt
  · obtain ⟨t, U, hU, hsrc, hmoved, hbnd⟩ :=
      hw.passed s' _ h' (hv.first_le _ V hV) hlt
    have hle := position_le_boundary hB hv hw hv' h hU hsrc hmoved
    omega
  · rw [← heq] at hV'
    obtain rfl : V = V' := committee_eq hB hv hw hv' hV hV'
    obtain ⟨u, honest, hus, hus'⟩ := hbacked.common (hv' _ V hV) hbacked'
    exact hB.order_unique u s s' honest hus hus' heq hpos
  · obtain ⟨t, U, hU, hsrc, hmoved, hbnd⟩ :=
      hv.passed s _ h (hw.first_le _ V' hV') hlt
    have hle := position_le_boundary hB hw hv hw' h' hU hsrc hmoved
    omega

end Agreement

/-! ### Reads of the tail -/

/-- A vote for a tail: the generation of the voter and the last position it has accepted. -/
structure Tails (R : Type*) where
  generation : R → ℕ
  position : R → ℕ

/-- A honest member signs its tail only when it has accepted the positions that it has voted
for, and has not voted for a replacement. The boundaries of the committees before it are not
behind its tail. Only the votes of the earlier ballots count. -/
structure Reading {R : Type*} (P : Protocol α S T) (B B' : Ballots α S T) (first : ℕ)
    (founders : Finset α) (tails : Tails R) (reads : α → R → Prop) : Prop where
  order_le : ∀ u s r, P.honest u → B.orders u s → reads u r →
    P.generation s = tails.generation r → P.position s ≤ tails.position r
  unmoved : ∀ u t r, P.honest u → B.moves u t → reads u r → P.source t ≠ tails.generation r
  reached : ∀ u r, P.honest u → reads u r → ∃ x : View α S, Valid P B' first founders x ∧
    ∀ g, first ≤ g → g < tails.generation r →
      ∃ t U, x.committee g U ∧ P.source t = g ∧ Backed P B'.moves U t ∧
        P.boundary t ≤ tails.position r

theorem accepted_le_tail {R : Type*} {tails : Tails R} {reads : α → R → Prop}
    (hB : Disciplined P B') (horders : ∀ u s, B.orders u s → B'.orders u s)
    (hmoves : ∀ u t, B.moves u t → B'.moves u t) (hreads : Reading P B B' first founders tails reads)
    (hv : Valid P B first founders v) (hw : Valid P B' first founders w)
    (hv' : ∀ g V, v.committee g V → Trusty P V) (hw' : ∀ g V, w.committee g V → Trusty P V)
    {s : S} {r : R} {V : Finset α} (hs : v.accepted s) (hV : w.committee (tails.generation r) V)
    (hr : Backed P reads V r) : P.position s ≤ tails.position r := by
  have hlater : Valid P B' first founders v := hv.mono horders hmoves
  obtain ⟨U, hU, hbacked⟩ := hv.ordered s hs
  rcases lt_trichotomy (P.generation s) (tails.generation r) with hlt | heq | hlt
  · -- The readers are past the boundary of the statement's generation.
    obtain ⟨u, honest, hu, -⟩ := hr.common (hw' _ V hV) hr
    obtain ⟨x, hx, hpassed⟩ := hreads.reached u r honest hu
    obtain ⟨t, U', hU', hsrc, hmoved, hbnd⟩ := hpassed _ (hv.first_le _ U hU) hlt
    exact (position_le_boundary hB hlater hx hv' hs hU' hsrc hmoved).trans hbnd
  · rw [← heq] at hV
    obtain rfl : U = V := committee_eq hB hlater hw hv' hU hV
    obtain ⟨u, honest, hus, hur⟩ := hbacked.common (hv' _ U hU) hr
    exact hreads.order_le u s r honest hus hur heq
  · -- The statement was accepted after the committee of the readers had been replaced.
    obtain ⟨t, U', hU', hsrc, hmoved, -⟩ := hv.passed s _ hs (hw.first_le _ V hV) hlt
    obtain rfl : U' = V := committee_eq hB hlater hw hv' hU' hV
    obtain ⟨u, honest, hut, hur⟩ := hmoved.common (hv' _ U' hU') hr
    exact absurd hsrc (hreads.unmoved u t r honest hut hur)

end Blossom.CommitteeOrder
