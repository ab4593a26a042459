/-
# `Laplus.Lib.Lanes` — queues that hold each thing once

A family of queues, and for each thing the queue it belongs to, if any.  Unlike
in `Laplus.Lib.Placed` a thing that belongs to a queue stands in it: the family is
a permutation of the assignment, whatever moves between the queues.
-/
import Mathlib.Data.List.Nodup
import Mathlib.Logic.Function.Basic

namespace Laplus.Lib

variable {ι α : Type*} {q : ι → List α} {lane : α → Option ι}
  {i j : ι} {a : α} {rest : List α}

/-- Each thing stands once in the queue it belongs to, and nowhere else. -/
structure Lanes (q : ι → List α) (lane : α → Option ι) : Prop where
  mem_iff : ∀ a i, a ∈ q i ↔ lane a = some i
  once : ∀ i, (q i).Nodup

namespace Lanes

variable [DecidableEq ι]

/-- A queue is put in another order. -/
theorem perm (h : Lanes q lane) {l : List α} (hl : l.Perm (q i)) :
    Lanes (Function.update q i l) lane where
  mem_iff b j := by
    by_cases hj : j = i
    · subst hj
      rw [Function.update_self, hl.mem_iff, h.mem_iff]
    · rw [Function.update_of_ne hj, h.mem_iff]
  once j := by
    by_cases hj : j = i
    · subst hj
      rw [Function.update_self, hl.nodup_iff]
      exact h.once j
    · rw [Function.update_of_ne hj]
      exact h.once j

variable [DecidableEq α]

/-- It stands there once, and zero times elsewhere. -/
theorem count (h : Lanes q lane) (a : α) (i : ι) :
    (q i).count a = if lane a = some i then 1 else 0 := by
  by_cases ha : lane a = some i
  · rw [if_pos ha, List.count_eq_one_of_mem (h.once i) ((h.mem_iff a i).mpr ha)]
  · rw [if_neg ha, List.count_eq_zero_of_not_mem (mt (h.mem_iff a i).mp ha)]

/-- Something that is in no queue joins one, at any place. -/
theorem join (h : Lanes q lane) (ha : lane a = none) {l : List α} (hl : l.Perm (a :: q i)) :
    Lanes (Function.update q i l) (Function.update lane a (some i)) where
  mem_iff b j := by
    have hnot : b = a → b ∉ q j := fun hb => by
      rw [h.mem_iff, hb, ha]
      simp
    by_cases hj : j = i
    · subst hj
      rw [Function.update_self, hl.mem_iff, List.mem_cons]
      by_cases hb : b = a
      · subst hb
        simp
      · rw [Function.update_of_ne hb, h.mem_iff]
        simp [hb]
    · rw [Function.update_of_ne hj]
      by_cases hb : b = a
      · subst hb
        simp [hnot rfl, Ne.symm hj]
      · rw [Function.update_of_ne hb, h.mem_iff]
  once j := by
    by_cases hj : j = i
    · subst hj
      rw [Function.update_self, hl.nodup_iff, List.nodup_cons, h.mem_iff, ha]
      exact ⟨by simp, h.once j⟩
    · rw [Function.update_of_ne hj]
      exact h.once j

/-- Something leaves its queue. -/
theorem leave (h : Lanes q lane) {l : List α} (hl : (a :: l).Perm (q i)) :
    Lanes (Function.update q i l) (Function.update lane a none) where
  mem_iff b j := by
    have hnodup : (a :: l).Nodup := hl.nodup_iff.mpr (h.once i)
    have hlane : lane a = some i := (h.mem_iff a i).mp (hl.mem_iff.mp List.mem_cons_self)
    by_cases hb : b = a
    · subst hb
      rw [Function.update_self]
      by_cases hj : j = i
      · subst hj
        rw [Function.update_self]
        simpa using (List.nodup_cons.mp hnodup).1
      · rw [Function.update_of_ne hj, h.mem_iff, hlane]
        simp [Ne.symm hj]
    · rw [Function.update_of_ne hb, ← h.mem_iff]
      by_cases hj : j = i
      · subst hj
        rw [Function.update_self, ← hl.mem_iff, List.mem_cons]
        simp [hb]
      · rw [Function.update_of_ne hj]
  once j := by
    by_cases hj : j = i
    · subst hj
      rw [Function.update_self]
      exact (List.nodup_cons.mp (hl.nodup_iff.mpr (h.once j))).2
    · rw [Function.update_of_ne hj]
      exact h.once j

omit [DecidableEq ι] in
/-- What is taken out of a queue without repetitions was there once. -/
theorem perm_filter (h : Lanes q lane) (ha : lane a = some i) :
    (a :: (q i).filter (· != a)).Perm (q i) := by
  have hmem := (h.mem_iff a i).mpr ha
  rw [← (h.once i).erase_eq_filter]
  exact (List.perm_cons_erase hmem).symm

end Lanes

end Laplus.Lib
