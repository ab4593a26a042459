/-
# `Laplus.Lib.Placed` — queues of owned things

A family of queues, and things that each name at most one owner.  The family
is in order when a queue holds only what its owner owns, and nothing twice:
then a thing stands in at most one place of all queues together, and taking
it off its queue leaves it in none.
-/
import Mathlib.Data.List.Nodup
import Mathlib.Logic.Function.Basic

namespace Laplus.Lib

variable {ι α : Type*} {q q' : ι → List α} {owner owner' : α → Option ι} {i j : ι} {a : α}
  {rest : List α}

/-- What stands in queue `i` is owned by `i`, and stands there once. -/
structure Placed (q : ι → List α) (owner : α → Option ι) : Prop where
  owned : ∀ i a, a ∈ q i → owner a = some i
  once : ∀ i, (q i).Nodup

/-- Nothing stands in two queues. -/
theorem Placed.alone (h : Placed q owner) (hi : a ∈ q i) (hj : a ∈ q j) : i = j :=
  Option.some.inj ((h.owned i a hi).symm.trans (h.owned j a hj))

/-- With nothing in the queues they are in order. -/
theorem placed_nil (owner : α → Option ι) : Placed (fun _ => []) owner where
  owned _ _ h := absurd h List.not_mem_nil
  once _ := List.nodup_nil

/-- Things may leave the queues, and what is in none may change owner. -/
theorem Placed.shrink (h : Placed q owner) (hq : ∀ i, (q' i).Sublist (q i))
    (ho : ∀ i a, a ∈ q' i → owner' a = owner a) : Placed q' owner' where
  owned i a ha := (ho i a ha).trans (h.owned i a ((hq i).subset ha))
  once i := (h.once i).sublist (hq i)

section Update
variable [DecidableEq ι]

/-- A thing joins the queue of its owner. -/
theorem Placed.push (h : Placed q owner) (ho : owner a = some i) (ha : a ∉ q i) :
    Placed (Function.update q i (q i ++ [a])) owner where
  owned j b hb := by
    by_cases hj : j = i
    · subst hj
      rw [Function.update_self, List.mem_append, List.mem_singleton] at hb
      rcases hb with hb | rfl
      · exact h.owned j b hb
      · exact ho
    · rw [Function.update_of_ne hj] at hb
      exact h.owned j b hb
  once j := by
    by_cases hj : j = i
    · subst hj
      rw [Function.update_self]
      exact List.nodup_append.mpr ⟨h.once j, List.nodup_singleton a, fun x hx y hy => by
        rintro rfl
        rw [List.mem_singleton.mp hy] at hx
        exact ha hx⟩
    · rw [Function.update_of_ne hj]
      exact h.once j

/-- The first of a queue is taken off. -/
theorem Placed.pop (h : Placed q owner) (hq : q i = a :: rest) :
    Placed (Function.update q i rest) owner := by
  refine h.shrink (fun j => ?_) fun _ _ _ => rfl
  by_cases hj : j = i
  · subst hj
    rw [Function.update_self, hq]
    exact List.sublist_cons_self a rest
  · rw [Function.update_of_ne hj]

/-- It is in no queue any more. -/
theorem Placed.popped (h : Placed q owner) (hq : q i = a :: rest) (j : ι) :
    a ∉ Function.update q i rest j := by
  intro ha
  by_cases hj : j = i
  · subst hj
    rw [Function.update_self] at ha
    have hnd := h.once j
    rw [hq, List.nodup_cons] at hnd
    exact hnd.1 ha
  · rw [Function.update_of_ne hj] at ha
    exact hj (h.alone ha (by rw [hq]; exact List.mem_cons_self))

end Update

end Laplus.Lib
