/-
# `Laplus.Lib.Doorbell` — a queue served once for every ring

A producer appends an item and rings; other producers ring the same bell for
queues of their own.  The server answers one ring at a time and takes at most
one item from the queue.  Rings and items are not paired, but there are
always enough rings left: `Run.enough`.  What was served, followed by what
is queued, is what was pushed: `Run.fifo`.
-/
import Mathlib.Data.List.Basic

namespace Laplus.Lib

variable {α : Type*}

/-- A queue, the rings not answered yet, and the items served so far. -/
structure Doorbell (α : Type*) where
  queue : List α
  rings : Nat
  served : List α

namespace Doorbell

def empty : Doorbell α := ⟨[], 0, []⟩

/-- An item is appended and the bell is rung. -/
def push (d : Doorbell α) (a : α) : Doorbell α := ⟨d.queue ++ [a], d.rings + 1, d.served⟩

/-- The bell is rung for another queue. -/
def ring (d : Doorbell α) : Doorbell α := ⟨d.queue, d.rings + 1, d.served⟩

/-- One ring is answered. -/
def serve (d : Doorbell α) : Doorbell α :=
  ⟨d.queue.tail, d.rings - 1, d.served ++ d.queue.head?.toList⟩

/-- `Run pushed d`: the state `d` after the items `pushed`, in this order,
with rings and answers in between. -/
inductive Run : List α → Doorbell α → Prop
  | start : Run [] empty
  | push {pushed : List α} {d : Doorbell α} (a : α) : Run pushed d → Run (pushed ++ [a]) (d.push a)
  | ring {pushed : List α} {d : Doorbell α} : Run pushed d → Run pushed d.ring
  | serve {pushed : List α} {d : Doorbell α} : Run pushed d → Run pushed d.serve

/-- No item is left without a ring. -/
theorem Run.enough {pushed : List α} {d : Doorbell α} (h : Run pushed d) :
    d.queue.length ≤ d.rings := by
  induction h with
  | start => exact Nat.le_refl 0
  | push a _ ih =>
      simp only [Doorbell.push, List.length_append, List.length_singleton]
      omega
  | ring _ ih => exact Nat.le_succ_of_le ih
  | serve _ ih =>
      simp only [Doorbell.serve, List.length_tail]
      omega

/-- Nothing is lost, doubled or overtaken. -/
theorem Run.fifo {pushed : List α} {d : Doorbell α} (h : Run pushed d) :
    d.served ++ d.queue = pushed := by
  induction h with
  | start => rfl
  | push a _ ih => rw [← ih, Doorbell.push, List.append_assoc]
  | ring _ ih => exact ih
  | @serve _ d _ ih =>
      rw [← ih]
      cases hq : d.queue with
      | nil => simp [Doorbell.serve, hq]
      | cons a rest => simp [Doorbell.serve, hq]

/-- When every ring is answered, everything has been served. -/
theorem Run.quiet {pushed : List α} {d : Doorbell α} (h : Run pushed d) (h0 : d.rings = 0) :
    d.queue = [] ∧ d.served = pushed := by
  have hq : d.queue = [] := List.length_eq_zero_iff.mp (Nat.le_zero.mp (h0 ▸ h.enough))
  have hf := h.fifo
  rw [hq, List.append_nil] at hf
  exact ⟨hq, hf⟩

end Doorbell

end Laplus.Lib
