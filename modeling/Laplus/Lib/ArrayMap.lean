/-
# `Laplus.Lib.ArrayMap` — a map in so many slots

A slot is free, or holds a key and a value.  `get` finds the first slot with the key, `put`
takes the first free slot, whatever is in the others, and does nothing when there is none,
`delete` frees the first slot with the key.  A key may so be in several slots: what is found
is clear where all of them hold one value, or where nothing was deleted (`Packed`).
-/
import Mathlib.Data.List.Basic

namespace Laplus.Lib

variable {K V : Type}

/-- A map in slots. -/
abbrev ArrayMap (K V : Type) := List (Option (K × V))

namespace ArrayMap

/-- The value in the first slot with the key. -/
def get [DecidableEq K] (k : K) : ArrayMap K V → Option V
  | [] => none
  | none :: t => get k t
  | some (k', v) :: t => if k' = k then some v else get k t

/-- The first free slot is taken, if there is one. -/
def put (k : K) (v : V) : ArrayMap K V → ArrayMap K V
  | [] => []
  | none :: t => some (k, v) :: t
  | some e :: t => some e :: put k v t

/-- The first slot with the key is freed, if there is one. -/
def delete [DecidableEq K] (k : K) : ArrayMap K V → ArrayMap K V
  | [] => []
  | none :: t => none :: delete k t
  | some (k', v) :: t => if k' = k then none :: t else some (k', v) :: delete k t

variable {t : ArrayMap K V} {k k' : K} {v v' : V} {e : Option (K × V)}

/-! ## Slots -/

/-- What is in the slots after `put`. -/
theorem mem_put (h : e ∈ put k v t) : e ∈ t ∨ e = some (k, v) := by
  induction t with
  | nil => exact .inl h
  | cons e' t ih =>
      cases e' with
      | none =>
          rcases List.mem_cons.mp h with rfl | h
          · exact .inr rfl
          · exact .inl (List.mem_cons_of_mem _ h)
      | some e' =>
          rcases List.mem_cons.mp h with rfl | h
          · exact .inl List.mem_cons_self
          · exact (ih h).imp_left (List.mem_cons_of_mem _)

theorem mem_put_self (h : none ∈ t) (k : K) (v : V) : some (k, v) ∈ put k v t := by
  induction t with
  | nil => cases h
  | cons e t ih =>
      cases e with
      | none => exact List.mem_cons_self
      | some e =>
          exact List.mem_cons_of_mem _ (ih ((List.mem_cons.mp h).resolve_left fun he => by cases he))

theorem mem_put_of_mem (h : some (k', v') ∈ t) (k : K) (v : V) : some (k', v') ∈ put k v t := by
  induction t with
  | nil => cases h
  | cons e t ih =>
      cases e with
      | none =>
          exact List.mem_cons_of_mem _ ((List.mem_cons.mp h).resolve_left fun he => by cases he)
      | some e =>
          rcases List.mem_cons.mp h with heq | h
          · exact heq ▸ List.mem_cons_self
          · exact List.mem_cons_of_mem _ (ih h)

/-- The free slots are behind the others. -/
inductive Packed : ArrayMap K V → Prop
  | free {t : ArrayMap K V} (h : ∀ e ∈ t, e = none) : Packed t
  | cons (e : K × V) {t : ArrayMap K V} (h : Packed t) : Packed (some e :: t)

theorem Packed.put (h : Packed t) (k : K) (v : V) : Packed (put k v t) := by
  induction h with
  | @free t h =>
      cases t with
      | nil => exact .free h
      | cons e t =>
          obtain rfl : e = none := h e List.mem_cons_self
          exact .cons (k, v) (.free fun e he => h e (List.mem_cons_of_mem _ he))
  | cons e _ ih => exact .cons e ih

variable [DecidableEq K]

theorem mem_of_get (h : get k t = some v) : some (k, v) ∈ t := by
  induction t with
  | nil => cases h
  | cons e t ih =>
      cases e with
      | none => exact List.mem_cons_of_mem _ (ih h)
      | some e =>
          obtain ⟨k', v'⟩ := e
          rw [get] at h
          split at h
          next hk =>
              cases h
              subst hk
              exact List.mem_cons_self
          next => exact List.mem_cons_of_mem _ (ih h)

theorem get_of_mem (h : some (k, v) ∈ t) : ∃ v', get k t = some v' := by
  induction t with
  | nil => cases h
  | cons e t ih =>
      cases e with
      | none => exact ih ((List.mem_cons.mp h).resolve_left fun he => by cases he)
      | some e =>
          obtain ⟨k', v'⟩ := e
          rw [get]
          split
          next => exact ⟨v', rfl⟩
          next hk =>
              refine ih ((List.mem_cons.mp h).resolve_left fun he => ?_)
              cases he
              exact hk rfl

theorem mem_delete (h : some (k', v) ∈ delete k t) : some (k', v) ∈ t := by
  induction t with
  | nil => exact h
  | cons e t ih =>
      cases e with
      | none =>
          exact List.mem_cons_of_mem _ (ih ((List.mem_cons.mp h).resolve_left fun he => by cases he))
      | some e =>
          obtain ⟨l, w⟩ := e
          rw [delete] at h
          split at h
          next =>
              exact List.mem_cons_of_mem _ ((List.mem_cons.mp h).resolve_left fun he => by cases he)
          next =>
              rcases List.mem_cons.mp h with heq | h
              · exact heq ▸ List.mem_cons_self
              · exact List.mem_cons_of_mem _ (ih h)

/-! ## Other keys -/

theorem get_put_of_ne (h : k' ≠ k) (v : V) (t : ArrayMap K V) : get k' (put k v t) = get k' t := by
  induction t with
  | nil => rfl
  | cons e t ih =>
      cases e with
      | none => exact if_neg h.symm
      | some e => rw [put, get, get, ih]

theorem get_delete_of_ne (h : k' ≠ k) (t : ArrayMap K V) : get k' (delete k t) = get k' t := by
  induction t with
  | nil => rfl
  | cons e t ih =>
      cases e with
      | none => exact ih
      | some e =>
          obtain ⟨l, w⟩ := e
          rw [delete]
          split
          next hl =>
              subst hl
              exact (if_neg h.symm).symm
          next => rw [get, get, ih]

/-! ## One value for a key -/

/-- **The key is found** after `put`, if there is a free slot or one with the key, and every slot
with the key holds the value. -/
theorem get_put (hfree : none ∈ t ∨ ∃ v', get k t = some v') (hv : ∀ v', some (k, v') ∈ t → v' = v) :
    get k (put k v t) = some v := by
  have hmem : ∃ v', some (k, v') ∈ put k v t := by
    rcases hfree with hfree | ⟨v', hv'⟩
    · exact ⟨v, mem_put_self hfree k v⟩
    · exact ⟨v', mem_put_of_mem (mem_of_get hv') k v⟩
  obtain ⟨v', hv'⟩ := hmem
  obtain ⟨v'', hget⟩ := get_of_mem hv'
  rcases mem_put (mem_of_get hget) with hold | heq
  · rw [hget, hv v'' hold]
  · cases heq
    exact hget

/-! ## Nothing deleted -/

theorem get_free (h : ∀ e ∈ t, e = none) (k : K) : get k t = none := by
  cases hget : get k t with
  | none => rfl
  | some v => cases h _ (mem_of_get hget)

/-- What is found once is found. -/
theorem Packed.get_put (h : Packed t) (hget : get k' t = some v') (k : K) (v : V) :
    get k' (ArrayMap.put k v t) = some v' := by
  induction h with
  | free h =>
      rw [get_free h] at hget
      cases hget
  | cons e h ih =>
      obtain ⟨l, w⟩ := e
      rw [ArrayMap.put, get]
      rw [get] at hget
      split at hget
      next hl => rwa [if_pos hl]
      next hl => rw [if_neg hl, ih hget]

/-- A key that is new. -/
theorem get_put_new (hfree : none ∈ t) (hget : get k t = none) (v : V) :
    get k (put k v t) = some v :=
  get_put (.inl hfree) fun v' hv' => by
    obtain ⟨v'', h⟩ := get_of_mem hv'
    rw [hget] at h
    cases h

end ArrayMap

end Laplus.Lib
