/-
# `Laplus.Lib.PriorityQueue` — queues whose top comes last in an order

The interface of `std::priority_queue`: of the elements that none is greater than, `top` is one,
and nothing says which.  A program that is right for every `PriorityQueue` does not depend on the
order of elements that compare equal.
-/
import Mathlib.Data.List.Sort
import Mathlib.Data.Multiset.AddSub

namespace Laplus.Lib

variable {α κ : Type} {lt : α → α → Prop}

/-- A priority queue of elements that are compared by `lt`. -/
structure PriorityQueue (α : Type) (lt : α → α → Prop) where
  Queue : Type
  empty : Queue
  push : Queue → α → Queue
  top : Queue → Option α
  pop : Queue → Queue
  contents : Queue → Multiset α
  contents_empty : contents empty = 0
  contents_push : ∀ q a, contents (push q a) = a ::ₘ contents q
  top_none : ∀ {q}, top q = none → contents q = 0
  contents_pop : ∀ {q a}, top q = some a → contents q = a ::ₘ contents (pop q)
  top_greatest : ∀ {q a}, top q = some a → ∀ b ∈ contents q, ¬lt a b

namespace PriorityQueue

variable (P : PriorityQueue α lt) {q : P.Queue} {a b : α}

/-- A queue that is not empty has a top. -/
theorem top_of_mem (h : b ∈ P.contents q) : ∃ a, P.top q = some a := by
  cases htop : P.top q with
  | none =>
      rw [P.top_none htop] at h
      exact absurd h (Multiset.notMem_zero b)
  | some a => exact ⟨a, rfl⟩

theorem top_mem (h : P.top q = some a) : a ∈ P.contents q := by
  rw [P.contents_pop h]
  exact Multiset.mem_cons_self a _

theorem mem_of_mem_pop (h : P.top q = some a) (hb : b ∈ P.contents (P.pop q)) :
    b ∈ P.contents q := by
  rw [P.contents_pop h]
  exact Multiset.mem_cons_of_mem hb

/-- A sorted list, the least key first. -/
def sortedList [LinearOrder κ] (key : α → κ) : PriorityQueue α fun a b => key b < key a where
  Queue := { l : List α // l.Pairwise fun a b => key a ≤ key b }
  empty := ⟨[], .nil⟩
  push q a := ⟨q.1.orderedInsert (fun a b => key a ≤ key b) a,
    haveI : Std.Total fun a b : α => key a ≤ key b := ⟨fun a b => le_total (key a) (key b)⟩
    haveI : IsTrans α fun a b => key a ≤ key b := ⟨fun _ _ _ => le_trans⟩
    q.2.orderedInsert a⟩
  top q := q.1.head?
  pop q := ⟨q.1.tail, q.2.tail⟩
  contents q := q.1
  contents_empty := rfl
  contents_push q a := Multiset.coe_eq_coe.mpr (List.perm_orderedInsert _ a q.1)
  top_none {q} h := by
    rw [List.head?_eq_none_iff.mp h]
    rfl
  contents_pop {q a} h := by
    obtain ⟨l, hl⟩ := q
    cases l with
    | nil => cases h
    | cons b l =>
        cases h
        rfl
  top_greatest {q a} h b hb := by
    obtain ⟨l, hl⟩ := q
    cases l with
    | nil => cases h
    | cons c l =>
        cases h
        rcases List.mem_cons.mp hb with rfl | hb
        · exact lt_irrefl _
        · exact not_lt_of_ge (List.rel_of_pairwise_cons hl hb)

end PriorityQueue

end Laplus.Lib
