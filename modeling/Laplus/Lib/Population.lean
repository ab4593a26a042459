/-
# `Laplus.Lib.Population` — how many bits are set

`population p a b` counts the numbers from `a` to before `b` that `p` holds of.  It adds up over
ranges side by side, and a block that is set where nothing was adds the frames that it has in
the range, whatever the ends of the range are.
-/
import Mathlib.Algebra.GroupWithZero.Nat
import Mathlib.Data.Nat.Count

namespace Laplus.Lib

variable {p q : Nat → Bool} {a b c : Nat}

/-- How many of the numbers from `a` to before `b` have the property. -/
def population (p : Nat → Bool) (a b : Nat) : Nat := Nat.count (fun k => p (a + k)) (b - a)

theorem population_self (p : Nat → Bool) (a : Nat) : population p a a = 0 := by
  rw [population, Nat.sub_self, Nat.count_zero]

theorem population_le (p : Nat → Bool) (a b : Nat) : population p a b ≤ b - a :=
  Nat.count_le _

theorem population_add (p : Nat → Bool) (hab : a ≤ b) (hbc : b ≤ c) :
    population p a c = population p a b + population p b c := by
  have hsum : c - a = (b - a) + (c - b) := by omega
  have hat : ∀ k, a + (b - a + k) = b + k := fun k => by omega
  rw [population, hsum, Nat.count_add]
  simp only [hat]
  rfl

theorem population_succ (p : Nat → Bool) (h : a ≤ b) :
    population p a (b + 1) = population p a b + if p b then 1 else 0 := by
  rw [population, Nat.succ_sub h, Nat.count_succ, Nat.add_sub_cancel' h]
  rfl

theorem population_eq_zero :
    population p a b = 0 ↔ ∀ g, a ≤ g → g < b → p g = false := by
  rw [population, Nat.count_iff_forall_not]
  constructor
  · intro h g hle hlt
    have hg := h (g - a) (by omega)
    rw [Nat.add_sub_cancel' hle] at hg
    simpa using hg
  · intro h k hk
    rw [h (a + k) (Nat.le_add_right a k) (by omega)]
    exact Bool.false_ne_true

/-- **A block** comes where nothing was set. -/
theorem population_block {start n : Nat} (hclear : ∀ g, start ≤ g → g < start + n → p g = false)
    (hq : ∀ g, q g = true ↔ p g = true ∨ start ≤ g ∧ g < start + n) :
    population q a b = population p a b + (min b (start + n) - max a start) := by
  induction b with
  | zero =>
      have hempty : 0 - a = 0 := Nat.zero_sub a
      rw [population, population, hempty, Nat.count_zero, Nat.count_zero]
      omega
  | succ b ih =>
      by_cases hab : a ≤ b
      · rw [population_succ p hab, population_succ q hab, ih]
        by_cases hin : start ≤ b ∧ b < start + n
        · rw [if_pos ((hq b).mpr (.inr hin)), hclear b hin.1 hin.2, if_neg Bool.false_ne_true]
          omega
        · have hsame : q b = p b := by
            rw [Bool.eq_iff_iff, hq b, or_iff_left hin]
          rw [hsame]
          omega
      · have hempty : b + 1 - a = 0 := by omega
        rw [population, population, hempty, Nat.count_zero, Nat.count_zero]
        omega

/-- **Lines** of `w` bits, side by side. -/
theorem population_lines (p : Nat → Bool) (w first n : Nat) :
    ((List.range' first n).map fun i => population p (w * i) (w * (i + 1))).sum =
      population p (w * first) (w * (first + n)) := by
  induction n with
  | zero => rw [Nat.add_zero, population_self, List.range'_zero, List.map_nil, List.sum_nil]
  | succ n ih =>
      rw [List.range'_concat, List.map_append, List.sum_append, ih, Nat.one_mul, List.map_singleton,
        List.sum_singleton]
      exact (population_add p (Nat.mul_le_mul_left w (Nat.le_add_right first n))
        (Nat.mul_le_mul_left w (Nat.le_succ _))).symm

end Laplus.Lib
