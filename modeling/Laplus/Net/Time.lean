/-
# `Laplus.Net.Time` — `struct timeval` and its operations

`timercmp` and `timersub` come from `sys/time.h`, `timeval_add_usec` from
`benri.h`.  The clock itself (`gettimeofday`) is an input of every step.
-/
import Mathlib.Data.Int.Init

namespace Laplus.Net

/-- `struct timeval`. -/
structure Timeval where
  tvSec : Int
  tvUsec : Int
deriving DecidableEq

namespace Timeval

/-- All zero bytes, as `memset` and `calloc` leave it. -/
def zero : Timeval := ⟨0, 0⟩

/-- `timercmp(x, y, >)`: the seconds decide unless they are equal. -/
def gt (x y : Timeval) : Bool :=
  if x.tvSec = y.tvSec then decide (x.tvUsec > y.tvUsec) else decide (x.tvSec > y.tvSec)

/-- `timersub`: the difference, with a borrow when the microseconds go below zero. -/
def sub (x y : Timeval) : Timeval :=
  if x.tvUsec - y.tvUsec < 0 then
    ⟨x.tvSec - y.tvSec - 1, x.tvUsec - y.tvUsec + 1000000⟩
  else ⟨x.tvSec - y.tvSec, x.tvUsec - y.tvUsec⟩

/-- `timeval_add_usec`: one carry at most. -/
def addUsec (x : Timeval) (y : Nat) : Timeval :=
  let sec := x.tvSec + (y / 1000000 : Nat)
  let usec := x.tvUsec + (y % 1000000 : Nat)
  if usec ≥ 1000000 then ⟨sec + 1, usec - 1000000⟩ else ⟨sec, usec⟩

/-! ## Microseconds -/

/-- The time in microseconds. -/
def usec (x : Timeval) : Int := x.tvSec * 1000000 + x.tvUsec

/-- `gettimeofday` gives such times. -/
def Normal (x : Timeval) : Prop := 0 ≤ x.tvUsec ∧ x.tvUsec < 1000000

instance (x : Timeval) : Decidable x.Normal := inferInstanceAs (Decidable (_ ∧ _))

variable {x y : Timeval}

theorem gt_iff (hx : x.Normal) (hy : y.Normal) : x.gt y = true ↔ y.usec < x.usec := by
  obtain ⟨hx₁, hx₂⟩ := hx
  obtain ⟨hy₁, hy₂⟩ := hy
  unfold gt usec
  split <;> rw [decide_eq_true_eq] <;> omega

/-- The difference has `n` whole seconds. -/
theorem le_sub_tvSec_iff (hx : x.Normal) (hy : y.Normal) (n : Int) :
    n ≤ (x.sub y).tvSec ↔ y.usec + n * 1000000 ≤ x.usec := by
  obtain ⟨hx₁, hx₂⟩ := hx
  obtain ⟨hy₁, hy₂⟩ := hy
  unfold sub usec
  split <;> dsimp only <;> omega

/-- **One carry is enough.** -/
theorem addUsec_normal (hx : x.Normal) (n : Nat) : (x.addUsec n).Normal := by
  obtain ⟨hx₁, hx₂⟩ := hx
  have hmod : n % 1000000 < 1000000 := Nat.mod_lt n (by decide)
  unfold addUsec Normal
  dsimp only
  split <;> dsimp only <;> omega

theorem addUsec_usec (x : Timeval) (n : Nat) : (x.addUsec n).usec = x.usec + n := by
  unfold addUsec usec
  dsimp only
  split <;> dsimp only <;> omega

end Timeval

end Laplus.Net
