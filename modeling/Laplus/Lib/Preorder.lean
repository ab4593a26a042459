/-
# `Laplus.Lib.Preorder` — a list of what is reached, in a table of a fixed size

A walk adds a node to a table and goes on with what is next to the node, one after the
other, and stops when the table is full.  It keeps no record of where it has been: on a
cycle it ends only because the table does.  Where what is reached is a forest, it is
listed once, and all of it.
-/
import Mathlib.Data.List.Nodup
import Mathlib.Logic.Relation

namespace Laplus.Lib

variable {ι α β : Type*}

/-- What a walk comes to: the table, when all is listed or when there is no room for more; or it
has run out of fuel. -/
abbrev Outcome (ι : Type*) := Option (Except (List ι) (List ι))

/-- One after the other, as long as there is room. -/
def each (visit : α → List ι → Outcome ι) : List α → List ι → Outcome ι
  | [], t => some (.ok t)
  | x :: xs, t =>
      match visit x t with
      | some (.ok t) => each visit xs t
      | r => r

/-- A node, and what is reached from it. -/
def visit (next : ι → List ι) (cap : Nat) : Nat → ι → List ι → Outcome ι
  | 0, _, _ => none
  | fuel + 1, x, t =>
      if t.length = cap then some (.error t)
      else each (visit next cap fuel) (next x) (t ++ [x])

variable {next : ι → List ι} {cap fuel fuel' : Nat} {x y z : ι} {xs t : List ι}
  {r : Except (List ι) (List ι)}

/-! ## Loops -/

section
variable {v v' : α → List ι → Outcome ι}

theorem each_congr {l : List α} (h : ∀ a ∈ l, ∀ t, v a t = v' a t) (t : List ι) :
    each v l t = each v' l t := by
  induction l generalizing t with
  | nil => rfl
  | cons a l ih =>
      obtain ⟨ha, hl⟩ := List.forall_mem_cons.mp h
      rw [each, each, ha t]
      rcases v' a t with _ | _ | t'
      · rfl
      · rfl
      · exact ih hl t'

theorem each_append (l l' : List α) (t : List ι) :
    each v (l ++ l') t =
      match each v l t with
      | some (.ok t) => each v l' t
      | r => r := by
  induction l generalizing t with
  | nil => rfl
  | cons a l ih =>
      rw [List.cons_append, each, each]
      rcases v a t with _ | _ | t'
      · rfl
      · rfl
      · exact ih t'

theorem each_map (f : β → α) (l : List β) (t : List ι) :
    each v (l.map f) t = each (fun b => v (f b)) l t := by
  induction l generalizing t with
  | nil => rfl
  | cons b l ih =>
      rw [List.map_cons, each, each]
      rcases v (f b) t with _ | _ | t'
      · rfl
      · rfl
      · exact ih t'

/-- A loop in a loop. -/
theorem each_flatMap (f : β → List α) (l : List β) (t : List ι) :
    each v (l.flatMap f) t = each (fun b => each v (f b)) l t := by
  induction l generalizing t with
  | nil => rfl
  | cons b l ih =>
      rw [List.flatMap_cons, each_append, each]
      rcases each v (f b) t with _ | _ | t'
      · rfl
      · rfl
      · exact ih t'

/-- A loop that passes over some. -/
theorem each_filter (p : α → Bool) (l : List α) (t : List ι) :
    each v (l.filter p) t = each (fun a t => if p a then v a t else some (.ok t)) l t := by
  induction l generalizing t with
  | nil => rfl
  | cons a l ih =>
      cases hp : p a with
      | true =>
          rw [List.filter_cons_of_pos hp, each, each, if_pos hp]
          rcases v a t with _ | _ | t'
          · rfl
          · rfl
          · exact ih t'
      | false =>
          rw [List.filter_cons_of_neg (Bool.eq_false_iff.mp hp), each,
            if_neg (Bool.eq_false_iff.mp hp)]
          exact ih t

end

/-! ## It ends -/

/-- The table only grows, and has room for what is in it. -/
def Within (cap n : Nat) (r : Except (List ι) (List ι)) : Prop :=
  ∃ t, (r = .ok t ∨ r = .error t) ∧ n ≤ t.length ∧ t.length ≤ cap

theorem Within.mono {n m : Nat} (h : Within cap m r) (hnm : n ≤ m) : Within cap n r := by
  obtain ⟨t, hr, hm, hcap⟩ := h
  exact ⟨t, hr, Nat.le_trans hnm hm, hcap⟩

section
variable {v v' : ι → List ι → Outcome ι}

theorem each_within {n : Nat} (h : ∀ x ∈ xs, ∀ t, n ≤ t.length → t.length ≤ cap →
    ∃ r, v x t = some r ∧ Within cap t.length r) (hn : n ≤ t.length) (ht : t.length ≤ cap) :
    ∃ r, each v xs t = some r ∧ Within cap t.length r := by
  induction xs generalizing t with
  | nil => exact ⟨_, rfl, t, .inl rfl, Nat.le_refl _, ht⟩
  | cons x xs ih =>
      obtain ⟨hx, hxs⟩ := List.forall_mem_cons.mp h
      obtain ⟨r, hr, t', hor, hle, hcap⟩ := hx t hn ht
      rw [each, hr]
      rcases hor with rfl | rfl
      · obtain ⟨r, hr, hwithin⟩ := ih hxs (Nat.le_trans hn hle) hcap
        exact ⟨r, hr, hwithin.mono hle⟩
      · exact ⟨_, rfl, t', .inr rfl, hle, hcap⟩

theorem each_mono (h : ∀ x t r, v x t = some r → v' x t = some r) (hr : each v xs t = some r) :
    each v' xs t = some r := by
  induction xs generalizing t with
  | nil => exact hr
  | cons x xs ih =>
      rw [each] at hr ⊢
      rcases hx : v x t with _ | _ | t'
      · rw [hx] at hr
        cases hr
      · rw [hx] at hr
        rw [h x t _ hx]
        exact hr
      · rw [hx] at hr
        rw [h x t _ hx]
        exact ih hr

end

/-- **It ends**, whatever is next to what: the room that is left is the measure. -/
theorem visit_within (x : ι) (ht : t.length ≤ cap) (hfuel : cap < t.length + fuel) :
    ∃ r, visit next cap fuel x t = some r ∧ Within cap t.length r := by
  induction fuel generalizing x t with
  | zero => exact absurd hfuel (Nat.not_lt.mpr ht)
  | succ fuel ih =>
      rw [visit]
      split
      next => exact ⟨_, rfl, t, .inr rfl, Nat.le_refl _, ht⟩
      next hroom =>
          have hlen : (t ++ [x]).length = t.length + 1 := List.length_append
          obtain ⟨r, hr, hwithin⟩ := each_within
            (fun y (_ : y ∈ next x) t' (hn : (t ++ [x]).length ≤ t'.length) ht' =>
              ih y ht' (by omega)) (Nat.le_refl _) (by omega)
          exact ⟨r, hr, hwithin.mono (by omega)⟩

/-- More fuel does not change the outcome. -/
theorem visit_mono (hle : fuel ≤ fuel') (hr : visit next cap fuel x t = some r) :
    visit next cap fuel' x t = some r := by
  induction fuel generalizing fuel' x t r with
  | zero => cases hr
  | succ fuel ih =>
      obtain ⟨fuel', rfl⟩ : ∃ k, fuel' = k + 1 := ⟨fuel' - 1, by omega⟩
      rw [visit] at hr ⊢
      split
      next hfull => rwa [if_pos hfull] at hr
      next hroom =>
          rw [if_neg hroom] at hr
          exact each_mono (fun y t r h => ih (Nat.le_of_succ_le_succ hle) h) hr

/-! ## Forests -/

/-- From one node another is reached. -/
abbrev Desc (next : ι → List ι) : ι → ι → Prop := Relation.ReflTransGen fun x y => y ∈ next x

/-- A node is reached from one of the roots. -/
def Reach (next : ι → List ι) (roots : List ι) (y : ι) : Prop := ∃ x ∈ roots, Desc next x y

/-- What is reached is a forest: a root is next to nothing, and another node to one node, once. -/
structure Forest (next : ι → List ι) (roots : List ι) : Prop where
  nodup_roots : roots.Nodup
  nodup_next : ∀ x, Reach next roots x → (next x).Nodup
  root : ∀ x, Reach next roots x → ∀ y ∈ next x, y ∉ roots
  parent : ∀ x x', Reach next roots x → Reach next roots x' → ∀ y ∈ next x, y ∈ next x' → x = x'

variable {roots : List ι}

theorem Reach.desc (h : Reach next roots x) (hd : Desc next x y) : Reach next roots y := by
  obtain ⟨root, hroot, hx⟩ := h
  exact ⟨root, hroot, hx.trans hd⟩

/-- There is no way back. -/
theorem Forest.acyclic (h : Forest next roots) (hx : Reach next roots x) (hy : y ∈ next x) :
    ¬ Desc next y x := by
  obtain ⟨root, hroot, hdesc⟩ := hx
  have hreach : Reach next roots root := ⟨root, hroot, .refl⟩
  induction hdesc generalizing y with
  | refl =>
      intro hback
      rcases hback.cases_tail with rfl | ⟨p, hp, hlast⟩
      · exact h.root _ hreach _ hy hroot
      · exact h.root p ((hreach.desc (.single hy)).desc hp) _ hlast hroot
  | @tail b c hb hc ih =>
      -- the node before `c` on the way back is `b`
      intro hback
      have hb' : Reach next roots b := hreach.desc hb
      have hc' : Reach next roots c := hb'.desc (.single hc)
      rcases hback.cases_tail with rfl | ⟨p, hp, hlast⟩
      · have heq := h.parent _ _ hc' hb' _ hy hc
        subst heq
        exact ih hc .refl
      · have heq := h.parent _ _ ((hc'.desc (.single hy)).desc hp) hb' _ hlast hc
        subst heq
        exact ih hc (.head hy hp)

/-- Nodes side by side: above none of them is another. -/
structure Level (next : ι → List ι) (roots xs : List ι) : Prop where
  nodup : xs.Nodup
  reach : ∀ x ∈ xs, Reach next roots x
  up : ∀ x ∈ xs, ∀ p, Reach next roots p → x ∈ next p → ∀ x' ∈ xs, ¬ Desc next x' p

theorem Forest.level_roots (h : Forest next roots) : Level next roots roots where
  nodup := h.nodup_roots
  reach x hx := ⟨x, hx, .refl⟩
  up x hx p hp hnext _ _ := absurd hx (h.root p hp x hnext)

theorem Forest.level_next (h : Forest next roots) (hx : Reach next roots x) :
    Level next roots (next x) where
  nodup := h.nodup_next x hx
  reach _ hy := hx.desc (.single hy)
  up y hy p hp hnext y' hy' := by
    rw [h.parent p x hp hx y hnext hy]
    exact h.acyclic hx hy'

theorem Level.tail (h : Level next roots (x :: xs)) : Level next roots xs where
  nodup := (List.nodup_cons.mp h.nodup).2
  reach y hy := h.reach y (List.mem_cons_of_mem x hy)
  up y hy p hp hnext y' hy' :=
    h.up y (List.mem_cons_of_mem x hy) p hp hnext y' (List.mem_cons_of_mem x hy')

/-- Nothing is below two of them. -/
theorem Level.disjoint {x' : ι} (h : Level next roots xs) (hf : Forest next roots) (hx : x ∈ xs)
    (hx' : x' ∈ xs) (hne : x ≠ x') (hy : Desc next x y) : ¬ Desc next x' y := by
  induction hy with
  | refl =>
      intro hback
      rcases hback.cases_tail with rfl | ⟨p, hp, hlast⟩
      · exact hne rfl
      · exact h.up x hx p ((h.reach x' hx').desc hp) hlast x' hx' hp
  | @tail b c hb hc ih =>
      intro hback
      have hb' := (h.reach x hx).desc hb
      rcases hback.cases_tail with rfl | ⟨p, hp, hlast⟩
      · exact h.up c hx' b hb' hc x hx hb
      · rw [hf.parent p b ((h.reach x' hx').desc hp) hb' c hlast hc] at hp
        exact ih hp

/-! ## What is listed -/

/-- What is to be listed is behind the table, once; or some of it, as far as there is room. -/
inductive Lists (cap : Nat) (t : List ι) (D : ι → Prop) : Except (List ι) (List ι) → Prop
  | ok (s : List ι) (nodup : s.Nodup) (mem : ∀ y, y ∈ s ↔ D y) : Lists cap t D (.ok (t ++ s))
  | full (s : List ι) (nodup : s.Nodup) (mem : ∀ y ∈ s, D y) (more : ∃ y, D y ∧ y ∉ s)
      (len : (t ++ s).length = cap) : Lists cap t D (.error (t ++ s))

theorem each_lists {v : ι → List ι → Outcome ι} (hf : Forest next roots) (hxs : Level next roots xs)
    (h : ∀ x ∈ xs, ∀ t r, v x t = some r → Lists cap t (Desc next x) r)
    (hr : each v xs t = some r) : Lists cap t (fun y => ∃ x ∈ xs, Desc next x y) r := by
  induction xs generalizing t with
  | nil =>
      cases hr
      have hnil : Lists cap t (fun y => ∃ x ∈ [], Desc next x y) _ := .ok [] List.nodup_nil fun y =>
        iff_of_false List.not_mem_nil fun ⟨_, hx, _⟩ => List.not_mem_nil hx
      rwa [List.append_nil] at hnil
  | cons x xs ih =>
      obtain ⟨hx, hxs'⟩ := List.forall_mem_cons.mp h
      have hnot : ∀ y, Desc next x y → ¬ ∃ x' ∈ xs, Desc next x' y := by
        rintro y hy ⟨x', hx', hy'⟩
        have hne : x ≠ x' := fun he => (List.nodup_cons.mp hxs.nodup).1 (he ▸ hx')
        exact hxs.disjoint hf List.mem_cons_self (List.mem_cons_of_mem x hx') hne hy hy'
      rw [each] at hr
      cases hv : v x t with
      | none =>
          rw [hv] at hr
          cases hr
      | some r₁ =>
          rw [hv] at hr
          cases hx t r₁ hv with
          | ok s hs hmem =>
              cases ih hxs.tail hxs' hr with
              | ok s' hs' hmem' =>
                  rw [List.append_assoc]
                  refine .ok _ (List.Nodup.append hs hs' fun y hy hy' => ?_) fun y => ?_
                  · exact hnot y ((hmem y).mp hy) ((hmem' y).mp hy')
                  · rw [List.mem_append, hmem, hmem', List.exists_mem_cons_iff]
              | full s' hs' hmem' hmore hlen =>
                  obtain ⟨y, hy, hys⟩ := hmore
                  rw [List.append_assoc] at hlen ⊢
                  refine .full _ (List.Nodup.append hs hs' fun y hy hy' => ?_) (fun y hy => ?_)
                    ⟨y, ?_, fun hm => ?_⟩ hlen
                  · exact hnot y ((hmem y).mp hy) (hmem' y hy')
                  · rw [List.exists_mem_cons_iff]
                    exact (List.mem_append.mp hy).imp (hmem y).mp (hmem' y)
                  · rw [List.exists_mem_cons_iff]
                    exact .inr hy
                  · exact (List.mem_append.mp hm).elim (fun h => hnot y ((hmem y).mp h) hy) hys
          | full s hs hmem hmore hlen =>
              cases hr
              obtain ⟨y, hy, hys⟩ := hmore
              exact .full s hs (fun y hy => ⟨x, List.mem_cons_self, hmem y hy⟩)
                ⟨y, ⟨x, List.mem_cons_self, hy⟩, hys⟩ hlen

theorem visit_lists (hf : Forest next roots) (hx : Reach next roots x)
    (hr : visit next cap fuel x t = some r) : Lists cap t (Desc next x) r := by
  induction fuel generalizing x t r with
  | zero => cases hr
  | succ fuel ih =>
      have hcases : ∀ y, Desc next x y ↔ y = x ∨ ∃ x' ∈ next x, Desc next x' y := fun y => by
        rw [Desc, Relation.ReflTransGen.cases_head_iff, eq_comm]
      have hnot : ∀ y, (∃ x' ∈ next x, Desc next x' y) → y ≠ x := by
        rintro y ⟨x', hx', hy⟩ rfl
        exact hf.acyclic hx hx' hy
      rw [visit] at hr
      split at hr
      next hfull =>
          cases hr
          have hnil : Lists cap t (Desc next x) _ := .full [] List.nodup_nil
            (fun y hy => absurd hy List.not_mem_nil) ⟨x, .refl, List.not_mem_nil⟩
            (by rwa [List.append_nil])
          rwa [List.append_nil] at hnil
      next =>
          have hlevel := hf.level_next hx
          cases each_lists hf hlevel (fun y hy t r h => ih (hlevel.reach y hy) h) hr with
          | ok s hs hmem =>
              rw [List.append_assoc, List.singleton_append]
              refine .ok _ (List.nodup_cons.mpr ⟨fun hm => hnot x ((hmem x).mp hm) rfl, hs⟩)
                fun y => ?_
              rw [List.mem_cons, hmem, hcases]
          | full s hs hmem hmore hlen =>
              obtain ⟨y, hy, hys⟩ := hmore
              rw [List.append_assoc, List.singleton_append] at hlen ⊢
              refine .full _ (List.nodup_cons.mpr ⟨fun hm => hnot x (hmem x hm) rfl, hs⟩)
                (fun y hy => (hcases y).mpr ((List.mem_cons.mp hy).imp_right (hmem y)))
                ⟨y, (hcases y).mpr (.inr hy), fun hm => ?_⟩ hlen
              exact (List.mem_cons.mp hm).elim (hnot y hy) hys

/-- **All of a forest is listed, once**, if there is room for it. -/
theorem each_forest (hf : Forest next roots)
    (hroom : ∀ l : List ι, l.Nodup → (∀ x ∈ l, Reach next roots x) → l.length ≤ cap)
    (hr : each (visit next cap fuel) roots [] = some r) :
    ∃ s, r = .ok s ∧ s.Nodup ∧ ∀ y, y ∈ s ↔ Reach next roots y := by
  cases each_lists hf hf.level_roots (fun x hx t r h => visit_lists hf ⟨x, hx, .refl⟩ h) hr with
  | ok s hs hmem => exact ⟨s, rfl, hs, hmem⟩
  | full s hs hmem hmore hlen =>
      obtain ⟨y, hy, hys⟩ := hmore
      have hle := hroom (y :: s) (List.nodup_cons.mpr ⟨hys, hs⟩)
        (List.forall_mem_cons.mpr ⟨hy, hmem⟩)
      rw [List.nil_append] at hlen
      rw [List.length_cons, hlen] at hle
      exact absurd hle (Nat.not_succ_le_self cap)

end Laplus.Lib
