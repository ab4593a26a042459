/-
# `Laplus.Lib.Painter` — painting a stack of sprites

A sprite says what it shows at each place, if anything; a stack of sprites is
painted from the bottom up, and what is seen is the topmost one that shows.
Painting again a clipped part of the stack leaves the picture right wherever
the part covers the clip, and elsewhere if only the topmost sprite is out.
-/
import Mathlib.Logic.Function.Basic
import Mathlib.Data.List.Induction

namespace Laplus.Lib

variable {P C : Type*}

/-- What is shown at each place. -/
abbrev Sprite (P C : Type*) := P → Option C

namespace Painter

/-! ## What is seen, and what painting leaves -/

/-- What the stack shows, its last sprite on top. -/
def top (l : List (Sprite P C)) : Sprite P C :=
  fun p => l.foldl (fun c s => (s p).or c) none

/-- One sprite over a picture. -/
def lay (s : Sprite P C) (b : P → C) : P → C :=
  fun p => (s p).getD (b p)

/-- The stack over a picture, from the bottom up. -/
def paint (l : List (Sprite P C)) (b : P → C) : P → C :=
  l.foldl (fun b s => lay s b) b

/-- The sprite inside an area. -/
def clip (A : P → Prop) [DecidablePred A] (s : Sprite P C) : Sprite P C :=
  fun p => if A p then s p else none

variable {k l : List (Sprite P C)} {s m : Sprite P C} {b : P → C} {p : P}

@[simp] theorem top_nil : top ([] : List (Sprite P C)) p = none := rfl

@[simp] theorem top_concat : top (l ++ [s]) p = (s p).or (top l p) := by
  rw [top, List.foldl_append, List.foldl_cons, List.foldl_nil, ← top]

@[simp] theorem top_singleton : top [s] p = s p := by
  rw [← List.nil_append [s], top_concat, top_nil, Option.or_none]

theorem top_append : top (k ++ l) p = (top l p).or (top k p) := by
  induction l using List.reverseRecOn with
  | nil => simp
  | append_singleton l s ih => rw [← List.append_assoc, top_concat, top_concat, ih, Option.or_assoc]

theorem top_cons : top (s :: l) p = (top l p).or (s p) := by
  rw [← List.singleton_append, top_append, top_singleton]

variable {α : Type*} {as : List α} {f g : α → Sprite P C}

/-- What shows nothing at the place may be left out. -/
theorem top_map_filter {q : α → Bool} (h : ∀ a ∈ as, q a = false → f a p = none) :
    top ((as.filter q).map f) p = top (as.map f) p := by
  induction as with
  | nil => rfl
  | cons a as ih =>
    have ih := ih fun b hb => h b (List.mem_cons_of_mem a hb)
    cases hq : q a with
    | true =>
      rw [List.filter_cons_of_pos hq, List.map_cons, List.map_cons, top_cons, top_cons, ih]
    | false =>
      rw [List.filter_cons_of_neg (by simp [hq]), List.map_cons, top_cons, ih,
        h a List.mem_cons_self hq, Option.or_none]

theorem top_isSome_of_mem (hs : s ∈ l) (hp : (s p).isSome) : (top l p).isSome := by
  obtain ⟨j, k, rfl⟩ := List.append_of_mem hs
  rw [top_append, top_cons, Option.isSome_or, Option.isSome_or, hp, Bool.or_true, Bool.true_or]

theorem paint_concat : paint (l ++ [s]) b = lay s (paint l b) := by
  rw [paint, List.foldl_append, List.foldl_cons, List.foldl_nil, ← paint]

theorem paint_apply : paint l b p = (top l p).getD (b p) := by
  induction l using List.reverseRecOn with
  | nil => rfl
  | append_singleton l s ih =>
    rw [paint_concat, lay, ih, top_concat]
    cases s p <;> rfl

theorem top_map_clip (A : P → Prop) [DecidablePred A] :
    top (l.map (clip A)) p = if A p then top l p else none := by
  induction l using List.reverseRecOn with
  | nil => simp
  | append_singleton l s ih =>
    rw [List.map_append, List.map_singleton, top_concat, top_concat, ih, clip]
    split <;> rfl

/-! ## Painting a part again -/

/-- The picture is right at the place, up to what the topmost sprite hides. -/
def Primed (l : List (Sprite P C)) (m : Sprite P C) (t b : P → C) (p : P) : Prop :=
  (m p).getD (b p) = (top (l ++ [m]) p).getD (t p)

/-- The picture shows the stack at the place, over `t` where the stack shows nothing. -/
def Shows (l : List (Sprite P C)) (t b : P → C) (p : P) : Prop :=
  b p = (top l p).getD (t p)

variable {A : P → Prop} [DecidablePred A] {j : List (Sprite P C)} {t : P → C}

theorem Shows.primed (h : Shows (l ++ [m]) t b p) : Primed l m t b p := by
  rw [Primed, h, top_concat]
  cases m p <;> rfl

/-- Where the topmost sprite hides nothing, the picture is primed for another one. -/
theorem Shows.swap {n : Sprite P C} (h : Shows (l ++ [m]) t b p) (hm : m p = none) :
    Primed l n t b p := by
  rw [Shows, top_concat, hm, Option.none_or] at h
  rw [Primed, top_concat, h]
  cases n p <;> rfl

/-- **Painting again.**  Under the topmost sprite the stack from some height on is painted inside
an area: the picture shows the stack where that part of it covers the area, and, outside of the
area, where the picture was primed. -/
theorem shows_repaint (hin : A p → (top k p).isSome) (hout : ¬ A p → Primed (j ++ k) m t b p) :
    Shows (j ++ k ++ [m]) t (paint (k.map (clip A) ++ [m]) b) p := by
  rw [Shows, paint_concat, lay, paint_apply, top_map_clip, top_concat]
  by_cases hA : A p
  · obtain ⟨c, hc⟩ := Option.isSome_iff_exists.mp (hin hA)
    rw [if_pos hA, top_append, hc]
    cases m p <;> rfl
  · have h := hout hA
    rw [Primed, top_concat] at h
    rw [if_neg hA, Option.getD_none, h]

/-- The whole stack painted inside an area, over the picture itself. -/
theorem shows_repaint_all (hout : ¬ A p → Primed k m b b p) :
    Shows (k ++ [m]) b (paint (k.map (clip A) ++ [m]) b) p := by
  rw [Shows, paint_concat, lay, paint_apply, top_map_clip, top_concat]
  by_cases hA : A p
  · rw [if_pos hA]
    cases m p <;> rfl
  · have h := hout hA
    rw [Primed, top_concat] at h
    rw [if_neg hA, Option.getD_none, h]

/-! ## Writing place by place -/

/-- Writes, one after the other. -/
def stamp [DecidableEq P] (ws : List (P × C)) (b : P → C) : P → C :=
  ws.foldl (fun b w => Function.update b w.1 w.2) b

/-- Where the value written depends on the place alone, the writes leave it at every place they
name, and nothing elsewhere changes. -/
theorem stamp_apply [DecidableEq P] {f : P → C} :
    ∀ {ws : List (P × C)} {b : P → C}, (∀ w ∈ ws, w.2 = f w.1) →
      stamp ws b p = if p ∈ ws.map Prod.fst then f p else b p
  | [], b, _ => rfl
  | w :: ws, b, h => by
    have ih := stamp_apply (b := Function.update b w.1 w.2) fun x hx =>
      h x (List.mem_cons_of_mem w hx)
    rw [stamp, List.foldl_cons, ← stamp, ih, List.map_cons]
    by_cases hp : p = w.1
    · rw [if_pos (List.mem_cons.mpr (.inl hp)), hp, Function.update_self, h w List.mem_cons_self,
        ite_self]
    · rw [Function.update_of_ne hp]
      simp only [List.mem_cons, hp, false_or]

end Painter

end Laplus.Lib
