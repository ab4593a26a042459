/-
# `Laplus.Lib.Fifo` — what rides on a line that keeps its order

The messages on a line arrive in the order in which they were put on it, and
none is lost.  Two things are read off them.  Each message bears a mark, and
the marks do not fall from the one seen last at the far end to the one that
holds here: `Ascending`.  And each message bears a piece of a stream, either
the piece that follows all before it or one that has been put on the line
before: `Conveys`.
-/
import Mathlib.Order.Defs.PartialOrder

namespace Laplus.Lib

/-! ## Marks -/

section Marks
variable {α : Type*} [Preorder α] {a b c x : α} {l m : List α}

/-- From `a` over the marks `l` to `b` nothing falls. -/
def Ascending : α → List α → α → Prop
  | a, [], b => a ≤ b
  | a, x :: l, b => a ≤ x ∧ Ascending x l b

theorem Ascending.le (h : Ascending a l b) : a ≤ b := by
  induction l generalizing a with
  | nil => exact h
  | cons x l ih => exact le_trans h.1 (ih h.2)

/-- The mark behind may have been lower. -/
theorem Ascending.lower (h : Ascending a l b) (hc : c ≤ a) : Ascending c l b := by
  cases l with
  | nil => exact le_trans hc h
  | cons x l => exact ⟨le_trans hc h.1, h.2⟩

/-- The mark in front may rise. -/
theorem Ascending.raise (h : Ascending a l b) (hc : b ≤ c) : Ascending a l c := by
  induction l generalizing a with
  | nil => exact le_trans h hc
  | cons x l ih => exact ⟨h.1, ih h.2⟩

/-- The first message is taken off and its mark ignored. -/
theorem Ascending.tail (h : Ascending a (x :: l) b) : Ascending a l b := h.2.lower h.1

/-- Messages with the present mark are put on the line. -/
theorem Ascending.append (h : Ascending a l b) (hm : ∀ y ∈ m, y = b) : Ascending a (l ++ m) b := by
  induction l generalizing a with
  | cons x l ih => exact ⟨h.1, ih h.2⟩
  | nil =>
      induction m generalizing a with
      | nil => exact h
      | cons y m ih =>
          obtain rfl : y = b := hm y List.mem_cons_self
          exact ⟨h, ih (fun z hz => hm z (List.mem_cons_of_mem _ hz)) (le_refl y)⟩

end Marks

/-! ## A stream in pieces -/

section Pieces
variable {α : Type*} {r a : Nat} {t rest : List α} {l m : List (Nat × List α)}

/-- The pieces, each with its place, convey the stream `rest` from place `r` on. -/
inductive Conveys : Nat → List α → List (Nat × List α) → Prop
  | nil (r : Nat) : Conveys r [] []
  /-- The piece that follows. -/
  | next {r : Nat} {t rest : List α} {l : List (Nat × List α)}
      (h : Conveys (r + t.length) rest l) : Conveys r (t ++ rest) ((r, t) :: l)
  /-- A piece that has been carried before. -/
  | again {r a : Nat} {t rest : List α} {l : List (Nat × List α)} (ht : t ≠ [])
      (ha : a + t.length ≤ r) (h : Conveys r rest l) : Conveys r rest ((a, t) :: l)

/-- The next piece is put on the line. -/
theorem Conveys.concat (h : Conveys r rest l) (t : List α) :
    Conveys r (rest ++ t) (l ++ [(r + rest.length, t)]) := by
  induction h with
  | nil r =>
      have hone : Conveys r (t ++ []) [(r, t)] := .next (.nil (r + t.length))
      rwa [List.append_nil] at hone
  | @next r s rest l h ih =>
      rw [List.append_assoc, List.length_append, ← Nat.add_assoc]
      exact ih.next
  | again ht ha h ih => exact ih.again ht ha

/-- A piece is put on the line once more. -/
theorem Conveys.repeat (h : Conveys r rest l) (ht : t ≠ []) (ha : a + t.length ≤ r + rest.length) :
    Conveys r rest (l ++ [(a, t)]) := by
  induction h with
  | nil r => exact .again ht ha (.nil r)
  | @next r s rest l h ih =>
      rw [List.length_append, ← Nat.add_assoc] at ha
      exact (ih ha).next
  | again ht' ha' h ih => exact (ih ha).again ht' ha'

/-- Any number of pieces are put on the line once more. -/
theorem Conveys.repeats (h : Conveys r rest l)
    (hm : ∀ x ∈ m, x.2 ≠ [] ∧ x.1 + x.2.length ≤ r + rest.length) : Conveys r rest (l ++ m) := by
  induction m generalizing l with
  | nil => rwa [List.append_nil]
  | cons x m ih =>
      obtain ⟨hne, hle⟩ := hm x List.mem_cons_self
      have hone := ih (h.repeat hne hle) fun y hy => hm y (List.mem_cons_of_mem _ hy)
      rwa [List.append_assoc, List.singleton_append] at hone

/-- The text of the pieces that have not been carried before. -/
def upcoming : Nat → List (Nat × List α) → List α
  | _, [] => []
  | r, (a, t) :: l => if a = r then t ++ upcoming (r + t.length) l else upcoming r l

theorem Conveys.upcoming_eq (h : Conveys r rest l) : upcoming r l = rest := by
  induction h with
  | nil r => rfl
  | next h ih => rw [upcoming, if_pos rfl, ih]
  | again ht ha h ih =>
      have hpos := List.length_pos_iff.mpr ht
      rw [upcoming, if_neg (by omega), ih]

end Pieces

end Laplus.Lib
