/-
# `Laplus.Lib.Radix` — radix trees that live in a memory

A table is a frame of a memory, and an entry may name the table below it.
Such a memory holds a tree at a root as long as no table is reached twice;
`look` reads the tree as a partial map from places to entries, where a place is
the path of its table and an index there.

`look_set` is the library's main rule: an entry that is written at a place
below which nothing stands changes the map at that place only.
-/
import Mathlib.Data.List.Infix
import Mathlib.Data.Option.Basic
import Mathlib.Logic.Function.Basic

namespace Laplus.Lib

/-- What a tree looks like: how an entry names the table below it, which entries of the
root belong to the tree, and how many tables there are on the way to a leaf. -/
structure Radix (φ ι ε : Type) where
  next : ε → Option φ
  top : ι → Bool
  depth : Nat

namespace Radix

variable {φ ι ε : Type} (R : Radix φ ι ε)

/-- The frame a path leads to. -/
def walk (m : φ → ι → ε) : φ → List ι → Option φ
  | f, [] => some f
  | f, i :: p => (R.next (m f i)).bind fun g => walk m g p

/-- The entry at a place of the tree. -/
def look (m : φ → ι → ε) (root : φ) (p : List ι) (i : ι) : Option ε :=
  if p.length < R.depth ∧ R.top (p.headD i) then
    (R.walk m root p).bind fun f => (R.next (m f i)).map fun _ => m f i
  else none

/-- The path leads to the table `f` of the tree. -/
structure Table (m : φ → ι → ε) (root : φ) (p : List ι) (f : φ) : Prop where
  depth : p.length < R.depth
  top : ∀ i ∈ p.head?, R.top i
  walk : R.walk m root p = some f

variable {R} {m m' : φ → ι → ε} {root f g : φ} {p q : List ι} {i j : ι} {e : ε}

theorem Table.unique (h : R.Table m root p f) (h' : R.Table m root p g) : f = g :=
  Option.some.inj (h.walk.symm.trans h'.walk)

theorem walk_append (m : φ → ι → ε) (root : φ) (p q : List ι) :
    R.walk m root (p ++ q) = (R.walk m root p).bind fun f => R.walk m f q := by
  induction p generalizing root with
  | nil => rfl
  | cons j p ih =>
      rw [List.cons_append, walk, walk, Option.bind_assoc]
      congr 1
      funext g
      exact ih g

theorem walk_snoc (m : φ → ι → ε) (root : φ) (p : List ι) (i : ι) :
    R.walk m root (p ++ [i]) = (R.walk m root p).bind fun f => R.next (m f i) := by
  rw [walk_append]
  congr 1
  funext f
  cases h : R.next (m f i) <;> simp [walk, h]

/-- An entry of the tree is an entry of one of its tables. -/
theorem look_eq_some : R.look m root p i = some e ↔
    ∃ f, R.Table m root p f ∧ R.top (p.headD i) ∧ (R.next e).isSome ∧ m f i = e := by
  constructor
  · intro h
    rw [look] at h
    split at h
    next hp =>
      obtain ⟨f, hf, he⟩ := Option.bind_eq_some_iff.mp h
      obtain ⟨g, hg, rfl⟩ := Option.map_eq_some_iff.mp he
      refine ⟨f, ⟨hp.1, fun j hj => ?_, hf⟩, hp.2, by rw [hg]; rfl, rfl⟩
      cases p with
      | nil => cases hj
      | cons k p =>
          cases hj
          exact hp.2
    next => cases h
  · rintro ⟨f, hf, ht, hn, rfl⟩
    obtain ⟨g, hg⟩ := Option.isSome_iff_exists.mp hn
    rw [look, if_pos ⟨hf.depth, ht⟩, hf.walk, Option.bind_some, hg, Option.map_some]

/-- The tables below the root are those that entries name. -/
theorem table_snoc (hi : R.top (p.headD i)) : R.Table m root (p ++ [i]) g ↔
    p.length + 1 < R.depth ∧ ∃ e, R.look m root p i = some e ∧ R.next e = some g := by
  have hhead : (p ++ [i]).head? = some (p.headD i) := by cases p <;> rfl
  constructor
  · intro h
    have hw := h.walk
    rw [walk_snoc] at hw
    obtain ⟨f, hf, hg⟩ := Option.bind_eq_some_iff.mp hw
    have hd := h.depth
    rw [List.length_append, List.length_singleton] at hd
    refine ⟨hd, m f i, look_eq_some.mpr ⟨f, ⟨by omega, fun j hj => ?_, hf⟩, hi, ?_, rfl⟩, hg⟩
    · cases p with
      | nil => cases hj
      | cons k p =>
          cases hj
          exact hi
    · rw [hg]
      rfl
  · rintro ⟨hd, e, he, hg⟩
    obtain ⟨f, hf, -, -, rfl⟩ := look_eq_some.mp he
    refine ⟨by rwa [List.length_append, List.length_singleton], fun j hj => ?_, ?_⟩
    · rw [hhead] at hj
      cases hj
      exact hi
    · rw [walk_snoc, hf.walk, Option.bind_some, hg]

/-- What is above a table is a table. -/
theorem Table.init (h : R.Table m root (p ++ [i]) g) : R.top (p.headD i) ∧ ∃ f, R.Table m root p f := by
  have hhead : (p ++ [i]).head? = some (p.headD i) := by cases p <;> rfl
  have hi := h.top _ hhead
  obtain ⟨-, e, he, -⟩ := (table_snoc hi).mp h
  obtain ⟨f, hf, -⟩ := look_eq_some.mp he
  exact ⟨hi, f, hf⟩

/-- A path to a table runs through tables. -/
theorem Table.prefix (h : R.Table m root q g) (hp : p <+: q) : ∃ f, R.Table m root p f := by
  obtain ⟨r, rfl⟩ := hp
  have hw := h.walk
  rw [walk_append] at hw
  obtain ⟨f, hf, -⟩ := Option.bind_eq_some_iff.mp hw
  have hd := h.depth
  rw [List.length_append] at hd
  refine ⟨f, by omega, fun j hj => h.top j ?_, hf⟩
  cases p with
  | nil => cases hj
  | cons k p => exact hj

/-- Below a place without an entry there is nothing. -/
theorem look_below (hi : R.top (p.headD i)) (hn : R.look m root p i = none) (hq : p ++ [i] <+: q)
    (j : ι) : R.look m root q j = none := by
  by_contra h
  obtain ⟨e, he⟩ := Option.ne_none_iff_exists'.mp h
  obtain ⟨g, hg, -⟩ := look_eq_some.mp he
  obtain ⟨f, hf⟩ := hg.prefix hq
  obtain ⟨-, e', he', -⟩ := (table_snoc hi).mp hf
  rw [hn] at he'
  cases he'

/-! ## Writing to the memory -/

/-- A memory that agrees on the tables holds the same tree. -/
theorem look_congr (h : ∀ p f, R.Table m root p f → m' f = m f) :
    R.look m' root = R.look m root := by
  have hwalk : ∀ p : List ι, p.length < R.depth → (∀ i ∈ p.head?, R.top i) →
      R.walk m' root p = R.walk m root p := by
    intro p
    induction p using List.reverseRecOn with
    | nil => exact fun _ _ => rfl
    | append_singleton p i ih =>
        intro hd ht
        rw [List.length_append, List.length_singleton] at hd
        have ht' : ∀ j ∈ p.head?, R.top j := fun j hj => ht j (by
          cases p with
          | nil => cases hj
          | cons k p => exact hj)
        have hp := ih (by omega) ht'
        rw [walk_snoc, walk_snoc, hp]
        cases hw : R.walk m root p with
        | none => rfl
        | some f => rw [Option.bind_some, Option.bind_some, h p f ⟨by omega, ht', hw⟩]
  funext p i
  rw [look, look]
  split
  next hp =>
    have ht : ∀ j ∈ p.head?, R.top j := fun j hj => by
      cases p with
      | nil => cases hj
      | cons k p =>
          cases hj
          exact hp.2
    rw [hwalk p hp.1 ht]
    cases hw : R.walk m root p with
    | none => rfl
    | some f => rw [Option.bind_some, Option.bind_some, h p f ⟨hp.1, ht, hw⟩]
  next => rfl

/-- Entries that name the same tables lead the paths where they led. -/
theorem walk_congr (h : ∀ g j, R.next (m' g j) = R.next (m g j)) (f : φ) (p : List ι) :
    R.walk m' f p = R.walk m f p := by
  induction p generalizing f with
  | nil => rfl
  | cons j p ih =>
      rw [walk, walk, h]
      congr 1
      funext g
      exact ih g

variable [DecidableEq φ] [DecidableEq ι]

/-- The memory with an entry written. -/
def set (m : φ → ι → ε) (f : φ) (i : ι) (e : ε) : φ → ι → ε :=
  Function.update m f (Function.update (m f) i e)

theorem set_self (m : φ → ι → ε) (f : φ) (i : ι) (e : ε) : set m f i e f i = e := by
  rw [set, Function.update_self, Function.update_self]

theorem set_of_ne (m : φ → ι → ε) {f g : φ} {i j : ι} (e : ε) (h : ¬(g = f ∧ j = i)) :
    set m f i e g j = m g j := by
  by_cases hg : g = f
  · subst hg
    rw [set, Function.update_self, Function.update_of_ne fun hj => h ⟨rfl, hj⟩]
  · rw [set, Function.update_of_ne hg]

theorem set_frame (m : φ → ι → ε) {f g : φ} (i : ι) (e : ε) (h : g ≠ f) : set m f i e g = m g :=
  Function.update_of_ne h _ _

theorem set_set (m : φ → ι → ε) (f : φ) (i : ι) (e e' : ε) :
    set (set m f i e) f i e' = set m f i e' := by
  rw [set, set, Function.update_idem, Function.update_self, Function.update_idem, ← set]

theorem set_eq_self (m : φ → ι → ε) (f : φ) (i : ι) : set m f i (m f i) = m := by
  rw [set, Function.update_eq_self, Function.update_eq_self]

/-- Off the place that is written, paths lead where they led. -/
theorem walk_set (hf : R.Table m root p f) (honly : ∀ q, R.Table m root q f → q = p) {q : List ι}
    (hd : q.length < R.depth) (ht : ∀ j ∈ q.head?, R.top j) (hq : ¬p ++ [i] <+: q) :
    R.walk (set m f i e) root q = R.walk m root q := by
  induction q using List.reverseRecOn with
  | nil => rfl
  | append_singleton q j ih =>
      rw [List.length_append, List.length_singleton] at hd
      have ht' : ∀ k ∈ q.head?, R.top k := fun k hk => ht k (by
        cases q with
        | nil => cases hk
        | cons l q => exact hk)
      have hq' : ¬p ++ [i] <+: q := fun h => hq (h.trans (List.prefix_append q [j]))
      have hw := ih (by omega) ht' hq'
      rw [walk_snoc, walk_snoc, hw]
      cases hg : R.walk m root q with
      | none => rfl
      | some g =>
          rw [Option.bind_some, Option.bind_some, set_of_ne]
          rintro ⟨rfl, rfl⟩
          obtain rfl := honly q ⟨by omega, ht', hg⟩
          exact hq (List.prefix_refl _)

/-- **Writing an entry.**  Where nothing stands below the place before and after, the map
changes at the place only. -/
theorem look_set (hf : R.Table m root p f) (honly : ∀ q, R.Table m root q f → q = p)
    (hi : R.top (p.headD i))
    (hbefore : ∀ q j, p ++ [i] <+: q → R.look m root q j = none)
    (hafter : ∀ g, p.length + 1 < R.depth → R.next e = some g → g ≠ f ∧ ∀ j, R.next (m g j) = none)
    (q : List ι) (j : ι) :
    R.look (set m f i e) root q j =
      if q = p ∧ j = i then (R.next e).map fun _ => e else R.look m root q j := by
  have hnot : ¬p ++ [i] <+: p := fun h => by
    have hlen := h.length_le
    rw [List.length_append, List.length_singleton] at hlen
    omega
  have hself : R.walk (set m f i e) root p = some f := by
    rw [walk_set hf honly hf.depth hf.top hnot, hf.walk]
  by_cases hd : q.length < R.depth ∧ R.top (q.headD j)
  swap
  · have hq : ¬(q = p ∧ j = i) := by
      rintro ⟨rfl, rfl⟩
      exact hd ⟨hf.depth, hi⟩
    rw [if_neg hq, look, if_neg hd, look, if_neg hd]
  have ht : ∀ k ∈ q.head?, R.top k := fun k hk => by
    cases q with
    | nil => cases hk
    | cons l q =>
        cases hk
        exact hd.2
  by_cases hp : p ++ [i] <+: q
  · -- below the place
    have hq : ¬(q = p ∧ j = i) := fun h => hnot (h.1 ▸ hp)
    rw [if_neg hq, hbefore q j hp]
    obtain ⟨r, rfl⟩ := hp
    rw [look, if_pos hd, List.append_assoc, walk_append, hself, Option.bind_some,
      List.singleton_append, walk, set_self]
    cases hg : R.next e with
    | none => rfl
    | some g =>
        have hlen := hd.1
        simp only [List.length_append, List.length_singleton] at hlen
        obtain ⟨hgf, hnone⟩ := hafter g (by omega) hg
        rw [Option.bind_some]
        cases r with
        | nil => rw [walk, Option.bind_some, set_frame m i e hgf, hnone, Option.map_none]
        | cons k r => rw [walk, set_frame m i e hgf, hnone, Option.bind_none, Option.bind_none]
  · rw [look, if_pos hd, walk_set hf honly hd.1 ht hp]
    by_cases hq : q = p ∧ j = i
    · obtain ⟨rfl, rfl⟩ := hq
      rw [if_pos ⟨rfl, rfl⟩, hf.walk, Option.bind_some, set_self]
    · rw [if_neg hq, look, if_pos hd]
      cases hw : R.walk m root q with
      | none => rfl
      | some g =>
          have hne : ¬(g = f ∧ j = i) := fun h => hq ⟨honly q ⟨hd.1, ht, h.1 ▸ hw⟩, h.2⟩
          rw [Option.bind_some, Option.bind_some, set_of_ne _ _ hne]

/-- An entry that names the table that was named there. -/
theorem next_set (hnext : R.next e = R.next (m f i)) (g : φ) (j : ι) :
    R.next (set m f i e g j) = R.next (m g j) := by
  by_cases hgj : g = f ∧ j = i
  · rw [hgj.1, hgj.2, set_self, hnext]
  · rw [set_of_ne _ _ hgj]

/-- **Rewriting an entry** that names the table it named changes the map at its place only. -/
theorem look_set_same (hf : R.Table m root p f) (honly : ∀ q, R.Table m root q f → q = p)
    (hi : R.top (p.headD i)) (hnext : R.next e = R.next (m f i)) (q : List ι) (j : ι) :
    R.look (set m f i e) root q j =
      if q = p ∧ j = i then (R.next e).map fun _ => e else R.look m root q j := by
  by_cases hd : q.length < R.depth ∧ R.top (q.headD j)
  swap
  · have hq : ¬(q = p ∧ j = i) := by
      rintro ⟨rfl, rfl⟩
      exact hd ⟨hf.depth, hi⟩
    rw [if_neg hq, look, if_neg hd, look, if_neg hd]
  rw [look, if_pos hd, walk_congr (next_set hnext), look, if_pos hd]
  by_cases hq : q = p ∧ j = i
  · obtain ⟨rfl, rfl⟩ := hq
    rw [if_pos ⟨rfl, rfl⟩, hf.walk, Option.bind_some, set_self]
  · rw [if_neg hq]
    cases hw : R.walk m root q with
    | none => rfl
    | some g =>
        have ht : ∀ k ∈ q.head?, R.top k := by
          intro k hk
          cases q with
          | nil => cases hk
          | cons l q =>
              cases hk
              exact hd.2
        have hne : ¬(g = f ∧ j = i) := fun h => hq ⟨honly q ⟨hd.1, ht, h.1 ▸ hw⟩, h.2⟩
        rw [Option.bind_some, Option.bind_some, set_of_ne _ _ hne]

end Radix

end Laplus.Lib
