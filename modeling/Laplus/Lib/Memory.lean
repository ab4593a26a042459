/-
# `Laplus.Lib.Memory` — a queue kept at the front of a memory

A memory is a function from offsets to cells.  A queue of `n` elements that
starts at offset 0 is `slice m n`; appending is a copy to offset `n`, and
removing `k` elements is a read of the front followed by a move of the rest
down to offset 0.  The three lemmas say that these are list operations.
-/
import Mathlib.Data.List.Basic
import Mathlib.Data.List.Range

namespace Laplus.Lib

variable {α : Type*}

/-- `memcpy(m + off, data, |data|)`. -/
def copyAt (m : Nat → α) (off : Nat) (data : List α) : Nat → α :=
  fun k => if off ≤ k then data[k - off]?.getD (m k) else m k

/-- `memmove(m, m + k, n)`. -/
def moveDown (m : Nat → α) (k n : Nat) : Nat → α :=
  fun j => if j < n then m (j + k) else m j

/-- The first `n` cells. -/
def slice (m : Nat → α) (n : Nat) : List α := (List.range n).map m

@[simp] theorem slice_length (m : Nat → α) (n : Nat) : (slice m n).length = n := by
  simp [slice]

@[simp] theorem slice_zero (m : Nat → α) : slice m 0 = [] := rfl

theorem slice_getElem? (m : Nat → α) (n k : Nat) :
    (slice m n)[k]? = if k < n then some (m k) else none := by
  split
  · rename_i h
    simp [slice, List.getElem?_range h]
  · rename_i h
    exact List.getElem?_eq_none (by simpa using h)

/-- Copying to the end appends. -/
theorem slice_copyAt (m : Nat → α) (n : Nat) (data : List α) :
    slice (copyAt m n data) (n + data.length) = slice m n ++ data := by
  refine List.ext_getElem? fun k => ?_
  rw [slice_getElem?, List.getElem?_append, slice_getElem?, slice_length]
  by_cases hk : k < n
  · have : ¬ n ≤ k := Nat.not_le.mpr hk
    simp [hk, copyAt, this, Nat.lt_add_right data.length hk]
  · have hle : n ≤ k := Nat.le_of_not_lt hk
    by_cases hd : k - n < data.length
    · have : k < n + data.length := by omega
      simp [hk, copyAt, hle, this, List.getElem?_eq_getElem hd]
    · have : ¬ k < n + data.length := by omega
      simp only [this, if_false, hk]
      exact (List.getElem?_eq_none (Nat.le_of_not_lt hd)).symm

/-- Reading the front takes. -/
theorem slice_take (m : Nat → α) {k n : Nat} (h : k ≤ n) : slice m k = (slice m n).take k := by
  refine List.ext_getElem? fun j => ?_
  rw [List.getElem?_take, slice_getElem?, slice_getElem?]
  by_cases hj : j < k
  · simp [hj, Nat.lt_of_lt_of_le hj h]
  · simp [hj]

/-- Moving down drops. -/
theorem slice_moveDown (m : Nat → α) {k n : Nat} :
    slice (moveDown m k (n - k)) (n - k) = (slice m n).drop k := by
  refine List.ext_getElem? fun j => ?_
  rw [List.getElem?_drop, slice_getElem?, slice_getElem?]
  by_cases hj : j < n - k
  · have : k + j < n := by omega
    simp [hj, this, moveDown, Nat.add_comm]
  · have : ¬ k + j < n := by omega
    simp [hj, this]

end Laplus.Lib
