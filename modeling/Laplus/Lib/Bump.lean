/-
# `Laplus.Lib.Bump` — a pointer that only goes up

Blocks are cut off a range of addresses, each at the first place from the pointer on
that fits: a multiple of its alignment, with no multiple of its boundary inside.  What
is handed out lies below the pointer, so a pointer that goes up never comes back to it.
-/
import Mathlib.Data.Nat.Basic
import Mathlib.Data.List.Pairwise
import Mathlib.Order.Basic

namespace Laplus.Lib

variable {n a b q m size : Nat}

/-! ## Rounding up -/

/-- The first multiple that is not below. -/
def ceil (n a : Nat) : Nat := (n + a - 1) / a * a

theorem dvd_ceil (n a : Nat) : a ∣ ceil n a := Nat.dvd_mul_left a _

theorem le_ceil (ha : 0 < a) (n : Nat) : n ≤ ceil n a := by
  have hdiv := Nat.div_add_mod (n + a - 1) a
  have hmod := Nat.mod_lt (n + a - 1) ha
  rw [Nat.mul_comm] at hdiv
  rw [ceil]
  omega

theorem ceil_le (h : n ≤ q) (hd : a ∣ q) : ceil n a ≤ q := by
  obtain ⟨k, rfl⟩ := hd
  rcases Nat.eq_zero_or_pos a with rfl | ha
  · rw [ceil, Nat.mul_zero]
    exact Nat.zero_le _
  · have hk : (n + a - 1) / a < k + 1 := by
      rw [Nat.div_lt_iff_lt_mul ha, Nat.succ_mul, Nat.mul_comm]
      omega
    rw [ceil, Nat.mul_comm a]
    exact Nat.mul_le_mul_right a (Nat.le_of_lt_succ hk)

/-! ## Places -/

/-- A block may lie at a place: it is aligned, and has no multiple of the boundary inside unless it
begins at one. -/
structure Fits (size a b q : Nat) : Prop where
  aligned : 0 < a → a ∣ q
  within : 0 < b → b ∣ q ∨ ∀ m, b ∣ m → q < m → q + size ≤ m

/-- A block not larger than its boundary has none inside. -/
theorem Fits.not_cross (h : Fits size a b q) (hb : 0 < b) (hsize : size ≤ b) (hm : b ∣ m)
    (hqm : q < m) : q + size ≤ m := by
  rcases h.within hb with hq | hno
  · have hle := Nat.le_of_dvd (Nat.sub_pos_of_lt hqm) (Nat.dvd_sub hm hq)
    omega
  · exact hno m hm hqm

/-- The place after the first rounding. -/
def align (n a : Nat) : Nat := if 0 < a then ceil n a else n

/-- The place of a block, from the pointer on. -/
def allot (n size a b : Nat) : Nat :=
  if 0 < b ∧ ceil (align n a) b < align n a + size then ceil (align n a) b else align n a

theorem le_align (n a : Nat) : n ≤ align n a := by
  rw [align]
  split
  next ha => exact le_ceil ha n
  next => exact Nat.le_refl n

theorem align_le_allot (n size a b : Nat) : align n a ≤ allot n size a b := by
  rw [allot]
  split
  next hb => exact le_ceil hb.1 _
  next => exact Nat.le_refl _

theorem le_allot (n size a b : Nat) : n ≤ allot n size a b :=
  (le_align n a).trans (align_le_allot n size a b)

/-- **It fits.**  The second rounding does not undo the first. -/
theorem fits_allot (hab : 0 < b → 0 < a → a ∣ b) (n size : Nat) :
    Fits size a b (allot n size a b) := by
  have halign : 0 < a → a ∣ align n a := fun ha => by
    rw [align, if_pos ha]
    exact dvd_ceil n a
  rw [allot]
  split
  next hb => exact ⟨fun ha => Nat.dvd_trans (hab hb.1 ha) (dvd_ceil _ b), fun _ => .inl (dvd_ceil _ b)⟩
  next hb =>
      refine ⟨halign, fun hpos => .inr fun m hm hlt => ?_⟩
      have hle : align n a + size ≤ ceil (align n a) b := Nat.le_of_not_lt fun h => hb ⟨hpos, h⟩
      exact hle.trans (ceil_le hlt.le hm)

/-- **It is the first.** -/
theorem allot_le (hq : Fits size a b q) (hn : n ≤ q) : allot n size a b ≤ q := by
  have halign : align n a ≤ q := by
    rw [align]
    split
    next ha => exact ceil_le hn (hq.aligned ha)
    next => exact hn
  rw [allot]
  split
  next hb =>
      rcases hq.within hb.1 with hd | hno
      · exact ceil_le halign hd
      · -- a place before the multiple would have it inside
        refine Nat.le_of_not_lt fun hlt => ?_
        have hend := hno _ (dvd_ceil _ b) hlt
        omega
  next => exact halign

/-! ## What is handed out -/

/-- Blocks, by begin and size, in the range up to the pointer, none over another. -/
structure Handed (lo ptr : Nat) (blocks : List (Nat × Nat)) : Prop where
  lower : lo ≤ ptr
  inside : ∀ x ∈ blocks, lo ≤ x.1 ∧ x.1 + x.2 ≤ ptr
  apart : blocks.Pairwise fun x y => x.1 + x.2 ≤ y.1

variable {lo ptr ptr' : Nat} {blocks : List (Nat × Nat)}

theorem handed_nil (lo : Nat) : Handed lo lo [] where
  lower := Nat.le_refl lo
  inside _ hx := absurd hx List.not_mem_nil
  apart := List.Pairwise.nil

/-- The pointer goes up, with nothing handed out. -/
theorem Handed.advance (h : Handed lo ptr blocks) (hle : ptr ≤ ptr') : Handed lo ptr' blocks where
  lower := h.lower.trans hle
  inside x hx := ⟨(h.inside x hx).1, (h.inside x hx).2.trans hle⟩
  apart := h.apart

/-- A block from the pointer on is handed out. -/
theorem Handed.push (h : Handed lo ptr blocks) (hq : ptr ≤ q) (size : Nat) :
    Handed lo (q + size) (blocks ++ [(q, size)]) where
  lower := (h.lower.trans hq).trans (Nat.le_add_right q size)
  inside x hx := by
    rcases List.mem_append.mp hx with hx | hx
    · exact (h.advance (hq.trans (Nat.le_add_right q size))).inside x hx
    · rw [List.mem_singleton.mp hx]
      exact ⟨h.lower.trans hq, Nat.le_refl _⟩
  apart := List.pairwise_append.mpr ⟨h.apart, List.pairwise_singleton _ _, fun x hx y hy => by
    rw [List.mem_singleton.mp hy]
    exact (h.inside x hx).2.trans hq⟩

end Laplus.Lib
