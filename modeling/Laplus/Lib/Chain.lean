/-
# `Laplus.Lib.Chain` — linked chains over a table of links

A table gives every cell the next cell of its chain, or no cell.
`Chain next a l` says that the links from `a` on run through `l`, in this
order, and stop.  A derivation is finite and the link of a cell is a function
of the cell, so a chain repeats no cell; a table that agrees with the old one
on a chain has the same chain, and a table that links the last cell of one
chain to the first of another has the two in one.
-/
import Mathlib.Data.List.Nodup
import Mathlib.Data.List.Perm.Subperm

namespace Laplus.Lib

variable {α : Type*}

/-- The links from `a` on run through `l`. -/
inductive Chain (next : α → Option α) : α → List α → Prop
  | last {a : α} : next a = none → Chain next a [a]
  | cons {a b : α} {l : List α} : next a = some b → Chain next b l → Chain next a (a :: l)

namespace Chain

variable {next next' : α → Option α} {a b : α} {l m : List α}

theorem head (h : Chain next a l) : ∃ t, l = a :: t := by
  cases h with
  | last _ => exact ⟨[], rfl⟩
  | cons _ _ => exact ⟨_, rfl⟩

theorem mem_head (h : Chain next a l) : a ∈ l := by
  obtain ⟨t, rfl⟩ := h.head
  exact List.mem_cons_self

theorem ne_nil (h : Chain next a l) : l ≠ [] := List.ne_nil_of_mem h.mem_head

/-- A cell starts one chain at most. -/
theorem unique (h : Chain next a l) (h' : Chain next a m) : l = m := by
  induction h generalizing m with
  | last hn =>
      cases h' with
      | last _ => rfl
      | cons hs _ => cases hn.symm.trans hs
  | cons hs _ ih =>
      cases h' with
      | last hn => cases hn.symm.trans hs
      | cons hs' ht =>
          cases hs.symm.trans hs'
          rw [ih ht]

/-- A cell of a chain starts the rest of it. -/
theorem of_mem (h : Chain next a l) (hb : b ∈ l) : ∃ s t, l = s ++ t ∧ Chain next b t := by
  induction h with
  | last hn =>
      rw [List.mem_singleton] at hb
      subst hb
      exact ⟨[], _, rfl, .last hn⟩
  | cons hs ht ih =>
      rcases List.mem_cons.mp hb with rfl | hb
      · exact ⟨[], _, rfl, .cons hs ht⟩
      · obtain ⟨s, t, rfl, hc⟩ := ih hb
        exact ⟨_ :: s, t, rfl, hc⟩

/-- A chain has no cycle. -/
theorem nodup (h : Chain next a l) : l.Nodup := by
  induction h with
  | last _ => exact List.nodup_singleton _
  | cons hs ht ih =>
      refine List.nodup_cons.mpr ⟨fun hmem => ?_, ih⟩
      obtain ⟨s, t, rfl, hc⟩ := ht.of_mem hmem
      -- the same cell would start a chain longer than itself
      have hlen := congrArg List.length (unique (Chain.cons hs ht) hc)
      simp at hlen
      omega

/-- The last cell has no link. -/
theorem next_getLast (h : Chain next a l) : next (l.getLast h.ne_nil) = none := by
  induction h with
  | last hn => exact hn
  | cons hs ht ih => rwa [List.getLast_cons ht.ne_nil]

/-- Neighbours in the chain are linked. -/
theorem next_getElem (h : Chain next a l) {j : Nat} {c : α} (hb : l[j]? = some b)
    (hc : l[j + 1]? = some c) : next b = some c := by
  induction h generalizing j with
  | last _ => simp at hc
  | @cons a d t hs ht ih =>
      cases j with
      | zero =>
          obtain ⟨t, rfl⟩ := ht.head
          simp only [List.getElem?_cons_zero, List.getElem?_cons_succ, Option.some.injEq] at hb hc
          rwa [← hb, ← hc]
      | succ j => exact ih hb hc

/-- A table that agrees on the cells of a chain has the chain. -/
theorem congr (h : Chain next a l) (hn : ∀ x ∈ l, next' x = next x) : Chain next' a l := by
  induction h with
  | last hs => exact .last ((hn _ List.mem_cons_self).trans hs)
  | cons hs _ ih =>
      exact .cons ((hn _ List.mem_cons_self).trans hs)
        (ih fun x hx => hn x (List.mem_cons_of_mem _ hx))

/-- Relinking the last cell: the chain goes on where the new table sends it. -/
theorem splice (h : Chain next a l) (hn : ∀ x ∈ l.dropLast, next' x = next x)
    (hm : Chain next' (l.getLast h.ne_nil) (l.getLast h.ne_nil :: m)) :
    Chain next' a (l ++ m) := by
  induction h with
  | last _ => exact hm
  | cons hs ht ih =>
      rw [List.dropLast_cons_of_ne_nil ht.ne_nil] at hn
      simp only [List.getLast_cons ht.ne_nil] at hm
      refine .cons ((hn _ List.mem_cons_self).trans hs) (ih (fun x hx => ?_) hm)
      exact hn x (List.mem_cons_of_mem _ hx)

/-- A chain whose cells are below a bound is no longer than the bound. -/
theorem length_le {next : Nat → Option Nat} {a : Nat} {l : List Nat} (h : Chain next a l) {n : Nat}
    (hn : ∀ x ∈ l, x < n) : l.length ≤ n := by
  have hsub : l ⊆ List.range n := fun x hx => List.mem_range.mpr (hn x hx)
  simpa using (h.nodup.subperm hsub).length_le

end Chain

/-- The last cell of a list that goes on behind another. -/
theorem getLast_append_eq {l : List α} (hl : l ≠ []) (m : List α) :
    (l ++ m).getLast (List.append_ne_nil_of_left_ne_nil hl m) =
      (l.getLast hl :: m).getLast (List.cons_ne_nil _ m) := by
  cases m with
  | nil => simp
  | cons b m =>
      rw [List.getLast_append_of_ne_nil _ (List.cons_ne_nil b m)]
      exact (List.getLast_cons (List.cons_ne_nil b m)).symm

end Laplus.Lib
