/-
# `Laplus.Lib.Words` — the words and the lines of a text

The words are the maximal runs of elements that are not blank: what is between two
blanks, where there is something.  A line goes up to the element that stops it, which
is part of it; the last one may have none.
-/
import Mathlib.Data.List.Basic
import Mathlib.Data.List.SplitBy
import Mathlib.Data.List.TakeWhile

namespace Laplus.Lib

variable {α : Type*} {blank : α → Bool} {b : α} {bs s w : List α}

/-- The words of a text. -/
def words (blank : α → Bool) (s : List α) : List (List α) :=
  (s.splitOnP blank).filter fun w => !w.isEmpty

@[simp] theorem words_nil : words blank [] = [] := rfl

theorem words_blank (hb : blank b = true) (s : List α) : words blank (b :: s) = words blank s := by
  rw [words, List.splitOnP_cons_eq_if_modifyHead, if_pos hb]
  rfl

/-- Blanks before the first word. -/
theorem words_blanks (h : ∀ b ∈ bs, blank b = true) (s : List α) :
    words blank (bs ++ s) = words blank s := by
  induction bs with
  | nil => rfl
  | cons b bs ih =>
      obtain ⟨hb, hbs⟩ := List.forall_mem_cons.mp h
      rw [List.cons_append, words_blank hb, ih hbs]

theorem words_dropWhile (s : List α) : words blank (s.dropWhile blank) = words blank s := by
  have h := words_blanks (fun b (hb : b ∈ s.takeWhile blank) => List.mem_takeWhile_imp hb)
    (s.dropWhile blank)
  rwa [List.takeWhile_append_dropWhile, eq_comm] at h

/-- A text of one word. -/
theorem words_last (hw : w ≠ []) (h : ∀ c ∈ w, blank c = false) : words blank w = [w] := by
  rw [words, List.splitOnP_eq_singleton h, List.filter_cons_of_pos (by simpa using hw)]
  rfl

/-- The first word, and what is behind it. -/
theorem words_cons (hw : w ≠ []) (h : ∀ c ∈ w, blank c = false) (hb : blank b = true)
    (s : List α) : words blank (w ++ b :: s) = w :: words blank s := by
  rw [words, List.splitOnP_append_cons_of_forall_mem h b hb,
    List.filter_cons_of_pos (by simpa using hw)]
  rfl

/-! ## Lines -/

variable {stop : α → Bool}

/-- The lines of a text. -/
def lines (stop : α → Bool) (s : List α) : List (List α) := s.splitBy fun c _ => !stop c

@[simp] theorem lines_nil : lines stop [] = [] := rfl

theorem isChain_line (h : ∀ c ∈ w, stop c = false) (b : α) :
    (w ++ [b]).IsChain fun c _ => (!stop c) = true := by
  refine List.isChain_append.mpr ⟨List.Pairwise.isChain ?_, List.isChain_singleton b, ?_⟩
  · exact List.pairwise_of_forall_mem_list fun c hc _ _ => by rw [h c hc]; rfl
  · intro c hc _ _
    rw [h c (List.mem_of_mem_getLast? hc)]
    rfl

/-- The first line, and what is behind it. -/
theorem lines_cons (h : ∀ c ∈ w, stop c = false) (hb : stop b = true) (s : List α) :
    lines stop (w ++ b :: s) = (w ++ [b]) :: lines stop s := by
  rw [List.append_cons, lines, List.splitBy_append, List.splitBy_of_isChain _ (isChain_line h b)]
  · rfl
  · simp
  · intro c hc _ _
    rw [List.getLast?_concat, Option.mem_some_iff] at hc
    rw [← hc, hb]
    rfl

/-- A last line that nothing stops. -/
theorem lines_last (hw : w ≠ []) (h : ∀ c ∈ w, stop c = false) : lines stop w = [w] := by
  refine List.splitBy_of_isChain hw (List.Pairwise.isChain ?_)
  exact List.pairwise_of_forall_mem_list fun c hc _ _ => by rw [h c hc]; rfl

/-- What a text begins with. -/
theorem exists_line (stop : α → Bool) (s : List α) : (∀ c ∈ s, stop c = false) ∨
    ∃ w b rest, s = w ++ b :: rest ∧ (∀ c ∈ w, stop c = false) ∧ stop b = true := by
  induction s with
  | nil => exact .inl fun c hc => absurd hc List.not_mem_nil
  | cons c s ih =>
      cases hc : stop c with
      | true => exact .inr ⟨[], c, s, rfl, fun _ h => absurd h List.not_mem_nil, hc⟩
      | false =>
          rcases ih with hs | ⟨w, b, rest, rfl, hw, hb⟩
          · exact .inl (List.forall_mem_cons.mpr ⟨hc, hs⟩)
          · exact .inr ⟨c :: w, b, rest, rfl, List.forall_mem_cons.mpr ⟨hc, hw⟩, hb⟩

end Laplus.Lib
