/-
# `Laplus.Lib.OnesComplement` — sums with an end-around carry

Adding words of `w` bits and feeding the carry back into the low end is
arithmetic modulo `m = 2 ^ w - 1`, except that a sum is represented by `0`
only when it is zero and by `m` when it is a positive multiple of `m`.
`fold m n` is that representative.  A word that makes the whole sum come out
as `m` is the checksum of the rest: `fold_complement`.  No other word does,
but for `0` and `m`, which weigh the same: `fold_unique`.
-/
import Mathlib.Data.Nat.ModEq

namespace Laplus.Lib

variable {m : Nat}

/-- The representative of `n` after all end-around carries. -/
def fold (m n : Nat) : Nat := if n = 0 then 0 else (n - 1) % m + 1

@[simp] theorem fold_zero : fold m 0 = 0 := rfl

theorem fold_pos_eq {n : Nat} (h : 0 < n) : fold m n = (n - 1) % m + 1 :=
  if_neg (Nat.ne_of_gt h)

theorem fold_le (hm : 0 < m) (n : Nat) : fold m n ≤ m := by
  unfold fold
  split
  · exact Nat.zero_le m
  · exact Nat.mod_lt _ hm

theorem fold_of_le {n : Nat} (h : n ≤ m) : fold m n = n := by
  rcases Nat.eq_zero_or_pos n with rfl | hp
  · rfl
  · rw [fold_pos_eq hp, Nat.mod_eq_of_lt (by omega)]
    omega

/-- Folding keeps the residue. -/
theorem fold_modEq (n : Nat) : fold m n ≡ n [MOD m] := by
  rcases Nat.eq_zero_or_pos n with rfl | hp
  · rfl
  · rw [fold_pos_eq hp]
    calc (n - 1) % m + 1 ≡ (n - 1) + 1 [MOD m] := (Nat.mod_modEq _ _).add_right 1
      _ = n := by omega

/-- Two positive numbers of one residue fold to the same word. -/
theorem fold_congr {a b : Nat} (ha : 0 < a) (hb : 0 < b) (h : a ≡ b [MOD m]) :
    fold m a = fold m b := by
  have hs : a - 1 + 1 ≡ b - 1 + 1 [MOD m] := by
    rwa [Nat.sub_add_cancel ha, Nat.sub_add_cancel hb]
  have hp : (a - 1) % m = (b - 1) % m := Nat.ModEq.add_right_cancel' 1 hs
  rw [fold_pos_eq ha, fold_pos_eq hb, hp]

/-- One end-around carry of a word with `m + 1` values. -/
theorem fold_carry (n : Nat) : fold m (n % (m + 1) + n / (m + 1)) = fold m n := by
  have hn : n % (m + 1) + (m + 1) * (n / (m + 1)) = n := Nat.mod_add_div n (m + 1)
  rcases Nat.eq_zero_or_pos n with rfl | hp
  · simp
  · rw [Nat.succ_mul] at hn
    refine fold_congr (Nat.pos_of_ne_zero fun h0 => ?_) hp ?_
    · obtain ⟨h1, h2⟩ := Nat.add_eq_zero_iff.mp h0
      rw [h1, h2] at hn
      omega
    · calc n % (m + 1) + n / (m + 1)
          ≡ m * (n / (m + 1)) + (n % (m + 1) + n / (m + 1)) [MOD m] :=
            (Nat.add_modEq_right_iff.mpr (dvd_mul_right m _)).symm
        _ = n := by omega

theorem fold_eq_zero {n : Nat} : fold m n = 0 ↔ n = 0 := by
  rcases Nat.eq_zero_or_pos n with rfl | hp
  · exact iff_of_true rfl rfl
  · rw [fold_pos_eq hp]
    exact iff_of_false (Nat.succ_ne_zero _) hp.ne'

/-- A sum may be folded on the way. -/
theorem fold_add (a b : Nat) : fold m (fold m a + b) = fold m (a + b) := by
  rcases Nat.eq_zero_or_pos a with rfl | hp
  · rfl
  · have hpos : 0 < fold m a := Nat.pos_of_ne_zero fun h => hp.ne' (fold_eq_zero.mp h)
    exact fold_congr (Nat.add_pos_left hpos b) (Nat.add_pos_left hp b) ((fold_modEq a).add_right b)

/-- The complement of a sum, added to it, gives the word of all ones. -/
theorem fold_complement (hm : 0 < m) (n : Nat) : fold m (n + (m - fold m n)) = m := by
  have hle := fold_le hm n
  have hmod : n + (m - fold m n) ≡ m [MOD m] :=
    calc n + (m - fold m n) ≡ fold m n + (m - fold m n) [MOD m] := (fold_modEq n).symm.add_right _
      _ = m := by omega
  rcases Nat.eq_zero_or_pos n with rfl | hp
  · simpa using fold_of_le (Nat.le_refl m)
  · rw [fold_congr (Nat.add_pos_left hp _) hm hmod, fold_of_le (Nat.le_refl m)]

/-- All ones are the sums that are positive multiples of `m`. -/
theorem fold_eq_top (hm : 0 < m) {n : Nat} : fold m n = m ↔ 0 < n ∧ n ≡ 0 [MOD m] := by
  rcases Nat.eq_zero_or_pos n with rfl | hp
  · simp [hm.ne]
  · rw [and_iff_right hp]
    constructor
    · intro h
      calc n ≡ fold m n [MOD m] := (fold_modEq n).symm
        _ = m := h
        _ ≡ 0 [MOD m] := by simp [Nat.ModEq]
    · intro h
      have hmod : n ≡ m [MOD m] := h.trans (by simp [Nat.ModEq])
      rw [fold_congr hp hm hmod, fold_of_le (Nat.le_refl m)]

/-- Two words that complete one sum to all ones are the same, or zero and all ones. -/
theorem fold_unique (hm : 0 < m) {n a b : Nat} (ha : a ≤ m) (hb : b ≤ m)
    (hna : fold m (n + a) = m) (hnb : fold m (n + b) = m) :
    a = b ∨ a = 0 ∧ b = m ∨ a = m ∧ b = 0 := by
  have hmod : a ≡ b [MOD m] :=
    Nat.ModEq.add_left_cancel' n
      (((fold_eq_top hm).mp hna).2.trans ((fold_eq_top hm).mp hnb).2.symm)
  rcases Nat.lt_or_eq_of_le ha with hlt | rfl
  · rcases Nat.lt_or_eq_of_le hb with hlt' | rfl
    · exact .inl (hmod.eq_of_lt_of_lt hlt hlt')
    · have hzero : a ≡ 0 [MOD b] := hmod.trans (by simp [Nat.ModEq])
      exact .inr (.inl ⟨hzero.eq_of_lt_of_lt hlt hm, rfl⟩)
  · rcases Nat.lt_or_eq_of_le hb with hlt' | rfl
    · have hzero : b ≡ 0 [MOD a] := hmod.symm.trans (by simp [Nat.ModEq])
      exact .inr (.inr ⟨rfl, hzero.eq_of_lt_of_lt hlt' hm⟩)
    · exact .inl rfl

end Laplus.Lib
