/-
# `Laplus.Lib.Slots` — a ring whose slots say whether they are full

A producer fills the slots of a ring in turn and marks each as full; a
consumer follows and clears the mark when it is done with a slot.  `Slots` is
what holds of them: the items that are not cleared stand where they were
written, in full slots, and every slot that comes after them is clear.
-/
import Laplus.Lib.Laps

namespace Laplus.Lib

variable {α : Type} {n k freed : Nat} {item item' : Nat → α} {full full' : Nat → Bool}
  {log : List α} {x : α}

/-- The items `log` have been written to the `n` slots, and `freed` slots were cleared again. -/
structure Slots (n : Nat) (item : Nat → α) (full : Nat → Bool) (log : List α) (freed : Nat) :
    Prop where
  freed_le : freed ≤ log.length
  room : log.length ≤ freed + n
  item : ∀ k, freed ≤ k → k < log.length → log[k]? = some (item (k % n))
  filled : ∀ k, freed ≤ k → k < log.length → full (k % n) = true
  clear : ∀ k, log.length ≤ k → k < freed + n → full (k % n) = false

namespace Slots

/-- A ring whose slots are clear. -/
theorem empty (item : Nat → α) (hfull : ∀ i, full i = false) : Slots n item full [] 0 where
  freed_le := Nat.le_refl 0
  room := Nat.zero_le _
  item k _ hk := absurd hk (Nat.not_lt_zero k)
  filled k _ hk := absurd hk (Nat.not_lt_zero k)
  clear k _ _ := hfull (k % n)

/-- **The mark** says whether the item has been written. -/
theorem full_iff (h : Slots n item full log freed) (hk : freed ≤ k) (hlt : k < freed + n) :
    full (k % n) = true ↔ k < log.length := by
  constructor
  · intro hfull
    by_contra hle
    rw [h.clear k (Nat.le_of_not_lt hle) hlt] at hfull
    cases hfull
  · exact h.filled k hk

/-- **The producer** fills the next slot. -/
theorem write (h : Slots n item full log freed) (hfree : log.length < freed + n)
    (hself : item' (log.length % n) = x) (hfull : full' (log.length % n) = true)
    (hitem : ∀ i, i ≠ log.length % n → item' i = item i)
    (hother : ∀ i, i ≠ log.length % n → full' i = full i) :
    Slots n item' full' (log ++ [x]) freed := by
  have hlen : (log ++ [x]).length = log.length + 1 := by simp
  constructor
  case freed_le =>
    rw [hlen]
    exact Nat.le_succ_of_le h.freed_le
  case room =>
    rw [hlen]
    exact hfree
  case item =>
    intro k hk hlt
    rw [hlen] at hlt
    by_cases hkl : k = log.length
    · subst hkl
      rw [List.getElem?_concat_length, hself]
    · have hlt : k < log.length := by omega
      rw [List.getElem?_append_left hlt, hitem _ (slot_ne hlt (by omega)), h.item k hk hlt]
  case filled =>
    intro k hk hlt
    rw [hlen] at hlt
    by_cases hkl : k = log.length
    · subst hkl
      exact hfull
    · have hlt : k < log.length := by omega
      rw [hother _ (slot_ne hlt (by omega)), h.filled k hk hlt]
  case clear =>
    intro k hk hlt
    rw [hlen] at hk
    have hfreed := h.freed_le
    rw [hother _ (slot_ne (by omega) (by omega)).symm, h.clear k (by omega) hlt]

/-- **The consumer** clears the first full slot. -/
theorem free (h : Slots n item full log freed) (hlt : freed < log.length)
    (hitem : ∀ i, i ≠ freed % n → item' i = item i) (hself : full' (freed % n) = false)
    (hother : ∀ i, i ≠ freed % n → full' i = full i) :
    Slots n item' full' log (freed + 1) := by
  have hroom := h.room
  constructor
  case freed_le => exact hlt
  case room => omega
  case item =>
    intro k hk hk'
    rw [hitem _ (slot_ne hk (by omega)).symm, h.item k (by omega) hk']
  case filled =>
    intro k hk hk'
    rw [hother _ (slot_ne hk (by omega)).symm, h.filled k (by omega) hk']
  case clear =>
    intro k hk hk'
    by_cases hkl : k = freed + n
    · subst hkl
      rw [Nat.add_mod_right]
      exact hself
    · rw [hother _ (slot_ne (by omega) (by omega)).symm, h.clear k hk (by omega)]

end Slots

end Laplus.Lib
