/-
# `Laplus.Lib.Laps` — a ring whose slots are marked with the lap

A producer writes items to the slots of a ring in turn, and marks each slot
with a bit that flips on every lap; a consumer follows, and takes what has the
mark of its own lap.  `Laps` is what holds of the slots at any time: the items that are
not taken stand where they were written, and the mark of every slot still to be
written is the wrong one.  The consumer then needs no count (`Laps.front_iff`).
-/
import Mathlib.Data.List.Basic
import Mathlib.Data.Nat.ModEq
import Mathlib.Logic.Function.Basic

namespace Laplus.Lib

variable {α : Type} {n k taken : Nat} {item item' : Nat → α} {mark mark' : Nat → Bool}
  {log : List α} {x : α}

/-- The mark of the item number `k`: set on the first lap of the `n` slots, clear on the next. -/
def lapMark (n k : Nat) : Bool := k / n % 2 = 0

theorem lapMark_zero (n : Nat) : lapMark n 0 = true := by simp [lapMark]

theorem lapMark_lap (hn : 0 < n) (k : Nat) : lapMark n (k + n) = !lapMark n k := by
  rw [lapMark, lapMark, Nat.add_div_right k hn]
  rcases Nat.mod_two_eq_zero_or_one (k / n) with h | h <;> simp [h, Nat.add_mod]

/-- The last slot of a lap. -/
theorem lap_end (hk : k % n + 1 = n) :
    (k + 1) % n = 0 ∧ lapMark n (k + 1) = !lapMark n k := by
  have hn : 0 < n := by omega
  have hdiv := Nat.div_add_mod k n
  have hsucc : k + 1 = n * (k / n + 1) := by
    rw [Nat.mul_add, Nat.mul_one]
    omega
  refine ⟨by rw [hsucc, Nat.mul_mod_right], ?_⟩
  rw [lapMark, lapMark, hsucc, Nat.mul_div_cancel_left _ hn]
  rcases Nat.mod_two_eq_zero_or_one (k / n) with h | h <;> simp [h, Nat.add_mod]

/-- Any other slot. -/
theorem lap_succ (hn : 0 < n) (hk : k % n + 1 ≠ n) :
    (k + 1) % n = k % n + 1 ∧ lapMark n (k + 1) = lapMark n k := by
  have hlt := Nat.mod_lt k hn
  have hdiv := Nat.div_add_mod k n
  have hsucc : k + 1 = n * (k / n) + (k % n + 1) := by omega
  have hlt' : k % n + 1 < n := by omega
  refine ⟨?_, ?_⟩
  · rw [hsucc, Nat.mul_add_mod, Nat.mod_eq_of_lt hlt']
  · rw [lapMark, lapMark, hsucc, Nat.mul_add_div hn, Nat.div_eq_of_lt hlt', Nat.add_zero]

/-- The numbers of one lap have one mark. -/
theorem lapMark_same {c : Nat} (hc : c % n = 0) (hle : c ≤ k) (hlt : k < c + n) :
    lapMark n k = lapMark n c := by
  have hn : 0 < n := by omega
  have hdiv := Nat.div_add_mod c n
  have hrest : k - c < n := by omega
  have hk : n * (c / n) + (k - c) = k := by omega
  have hlap : k / n = c / n := by
    conv_lhs => rw [← hk]
    rw [Nat.mul_add_div hn, Nat.div_eq_of_lt hrest, Nat.add_zero]
  rw [lapMark, lapMark, hlap]

/-- Numbers less than a lap apart have different slots. -/
theorem slot_ne {a b : Nat} (hlt : a < b) (hb : b < a + n) : a % n ≠ b % n := fun h => by
  have hdvd := (Nat.modEq_iff_dvd' hlt.le).mp h
  exact absurd (Nat.le_of_dvd (by omega) hdvd) (by omega)

/-- A prefix and the item after it. -/
theorem concat_isPrefix {taken log : List α} (h : taken <+: log) (hx : log[taken.length]? = some x) :
    taken ++ [x] <+: log := by
  obtain ⟨rest, rfl⟩ := h
  rw [List.getElem?_append_right (Nat.le_refl _), Nat.sub_self] at hx
  cases rest with
  | nil => cases hx
  | cons y rest =>
      obtain rfl := Option.some.inj hx
      exact ⟨rest, by rw [List.append_assoc, List.singleton_append]⟩

/-- The items `log` have been written to the `n` slots, and `taken` of them were taken. -/
structure Laps (n : Nat) (item : Nat → α) (mark : Nat → Bool) (log : List α) (taken : Nat) :
    Prop where
  taken_le : taken ≤ log.length
  room : log.length ≤ taken + n
  item : ∀ k, taken ≤ k → k < log.length → log[k]? = some (item (k % n))
  mark : ∀ k, log.length ≤ k → k < log.length + n → mark (k % n) = !lapMark n k

namespace Laps

/-- A ring whose marks are clear is empty. -/
theorem empty (item : Nat → α) (hmark : ∀ i, i < n → mark i = false) : Laps n item mark [] 0 where
  taken_le := Nat.le_refl 0
  room := Nat.zero_le _
  item k _ hk := absurd hk (Nat.not_lt_zero k)
  mark k _ hk := by
    have hk : k < n := by simpa using hk
    rw [Nat.mod_eq_of_lt hk, hmark k hk, lapMark, Nat.div_eq_of_lt hk]
    rfl

/-- The items that are not taken are marked. -/
theorem marked (h : Laps n item mark log taken) (hn : 0 < n) (hk : taken ≤ k)
    (hlt : k < log.length) : mark (k % n) = lapMark n k := by
  have hroom := h.room
  have hmark := h.mark (k + n) (by omega) (by omega)
  rw [Nat.add_mod_right, lapMark_lap hn, Bool.not_not] at hmark
  exact hmark

/-- **The front.**  Its mark says whether there is an item to take. -/
theorem front_iff (h : Laps n item mark log taken) (hn : 0 < n) :
    mark (taken % n) = lapMark n taken ↔ taken < log.length := by
  constructor
  · intro hm
    by_contra hlt
    have hle := h.taken_le
    have hmark := h.mark taken (by omega) (by omega)
    rw [hm] at hmark
    exact (Bool.eq_not_self _).mp hmark
  · exact h.marked hn (Nat.le_refl _)

theorem take (h : Laps n item mark log taken) (hlt : taken < log.length) :
    Laps n item mark log (taken + 1) where
  taken_le := hlt
  room := h.room.trans (by omega)
  item k hk := h.item k (by omega)
  mark := h.mark

/-- What is in the slots that hold no item does not matter. -/
theorem congr (h : Laps n item mark log taken) (hmark : ∀ i, i < n → mark' i = mark i)
    (hitem : ∀ k, taken ≤ k → k < log.length → item' (k % n) = item (k % n)) :
    Laps n item' mark' log taken where
  taken_le := h.taken_le
  room := h.room
  item k hk hlt := by rw [hitem k hk hlt, h.item k hk hlt]
  mark k hk hlt := by rw [hmark _ (Nat.mod_lt k (by omega)), h.mark k hk hlt]

/-- **The producer writes an item and its mark.** -/
theorem write (h : Laps n item mark log taken) (hn : 0 < n) (hfree : log.length < taken + n)
    (hself : item' (log.length % n) = x)
    (hitem : ∀ i, i < n → i ≠ log.length % n → item' i = item i)
    (hmark : mark' (log.length % n) = lapMark n log.length)
    (hmarks : ∀ i, i < n → i ≠ log.length % n → mark' i = mark i) :
    Laps n item' mark' (log ++ [x]) taken := by
  have hlen : (log ++ [x]).length = log.length + 1 := by simp
  constructor
  case taken_le =>
    rw [hlen]
    exact Nat.le_succ_of_le h.taken_le
  case room =>
    rw [hlen]
    exact hfree
  case item =>
    intro k hk hlt
    rw [hlen] at hlt
    by_cases hkl : k = log.length
    · subst hkl
      rw [List.getElem?_concat_length, hself]
    · have hlt : k < log.length := by omega
      rw [List.getElem?_append_left hlt, hitem _ (Nat.mod_lt k hn) (slot_ne hlt (by omega)), h.item k hk hlt]
  case mark =>
    intro k hk hlt
    rw [hlen] at hk hlt
    by_cases hkl : k = log.length + n
    · subst hkl
      rw [Nat.add_mod_right, hmark, lapMark_lap hn, Bool.not_not]
    · rw [hmarks _ (Nat.mod_lt k hn) (slot_ne (by omega) (by omega)).symm, h.mark k (by omega) (by omega)]

end Laps

end Laplus.Lib
