/-
# `Laplus.Lib.Segment` — cells that are linked by pointers

A memory has cells in some places, each with a pointer and something in it.  `Segment cell p l q`:
the pointers lead from `p` over the cells `l` to `q`, which need not be a cell.  It is read from
the memory at these cells only (`congr`), and a cell can be cut off at either end (`cons_iff`,
`concat_iff`).
-/
import Mathlib.Data.List.Nodup
import Mathlib.Data.List.Perm.Subperm
import Mathlib.Logic.Function.Basic

namespace Laplus.Lib

variable {P D : Type} {cell cell' : P → Option (P × D)} {p q r : P} {x : D} {l m : List (P × D)}

/-- From one pointer to another, over these cells. -/
inductive Segment (cell : P → Option (P × D)) : P → List (P × D) → P → Prop
  | nil (p : P) : Segment cell p [] p
  | cons {p q r : P} {x : D} {l : List (P × D)} (hp : cell p = some (q, x))
      (h : Segment cell q l r) : Segment cell p ((p, x) :: l) r

/-- The places of the cells. -/
def places (l : List (P × D)) : List P := l.map Prod.fst

@[simp] theorem places_nil : places ([] : List (P × D)) = [] := rfl

@[simp] theorem places_cons (c : P × D) (l : List (P × D)) : places (c :: l) = c.1 :: places l := rfl

@[simp] theorem places_append (l m : List (P × D)) : places (l ++ m) = places l ++ places m :=
  List.map_append

namespace Segment

theorem nil_iff : Segment cell p [] q ↔ p = q := by
  constructor
  · rintro ⟨⟩
    rfl
  · rintro rfl
    exact .nil p

theorem cons_iff : Segment cell p ((r, x) :: l) q ↔
    r = p ∧ ∃ n, cell p = some (n, x) ∧ Segment cell n l q := by
  constructor
  · rintro (_ | ⟨hp, h⟩)
    exact ⟨rfl, _, hp, h⟩
  · rintro ⟨rfl, n, hp, h⟩
    exact .cons hp h

theorem append_iff : Segment cell p (l ++ m) q ↔
    ∃ n, Segment cell p l n ∧ Segment cell n m q := by
  induction l generalizing p with
  | nil => simp only [List.nil_append, nil_iff, exists_eq_left']
  | cons c l ih =>
      obtain ⟨r, x⟩ := c
      simp only [List.cons_append, cons_iff, ih]
      tauto

theorem concat_iff : Segment cell p (l ++ [(r, x)]) q ↔
    Segment cell p l r ∧ cell r = some (q, x) := by
  simp only [append_iff, cons_iff, nil_iff, exists_eq_right]
  constructor
  · rintro ⟨n, h, rfl, hr⟩
    exact ⟨h, hr⟩
  · rintro ⟨h, hr⟩
    exact ⟨r, h, rfl, hr⟩

/-- A memory that has the same in these cells. -/
theorem congr (h : Segment cell p l q) (hc : ∀ r ∈ places l, cell' r = cell r) :
    Segment cell' p l q := by
  induction h with
  | nil p => exact .nil p
  | cons hp _ ih =>
      exact .cons ((hc _ List.mem_cons_self).trans hp) (ih fun r hr => hc r (List.mem_cons_of_mem _ hr))

/-- The places are those of cells. -/
theorem cell_of_mem (h : Segment cell p l q) (hr : r ∈ places l) : (cell r).isSome := by
  induction h with
  | nil => cases hr
  | cons hp _ ih =>
      rcases List.mem_cons.mp hr with rfl | hr
      · exact Option.isSome_of_eq_some hp
      · exact ih hr

end Segment

/-- Different places of a range are no more than the range is long. -/
theorem length_le_of_nodup {l : List Nat} {lo n : Nat} (h : l.Nodup)
    (hl : ∀ p ∈ l, lo ≤ p ∧ p < lo + n) : l.length ≤ n := by
  have hsub : l ⊆ List.range' lo n := fun p hp => List.mem_range'_1.mpr (hl p hp)
  have hle := (h.subperm hsub).length_le
  rwa [List.length_range'] at hle

end Laplus.Lib
