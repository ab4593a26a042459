/-
# `Laplus.Paging.Space` — who owns the frames of an address space

An address space is a partial map from places to entries.  It owns the frames
that its writable entries name, its tables among them, and shares the frames of
its read-only leaves.  `Owns` states this for a map, and its lemmas say what an
entry that comes, changes or goes does to it.

`Space` is the same for the tables in memory below a root; `Space.link` and its like are
the steps that the functions of the kernel are made of.
-/
import Laplus.Paging.Map
import Mathlib.Data.Set.Insert

namespace Laplus.Paging

open Lib

/-! ## Maps -/

/-- The entries of an address space, by the path of their table and their index. -/
abbrev PageMap := List (Fin 512) → Fin 512 → Option PageMapEntry

/-- A map with another entry, or none, at a place. -/
def PageMap.update (M : PageMap) (p : List (Fin 512)) (i : Fin 512) (x : Option PageMapEntry) :
    PageMap :=
  fun q j => if q = p ∧ j = i then x else M q j

namespace PageMap

variable {M : PageMap} {p q : List (Fin 512)} {i j : Fin 512} {x : Option PageMapEntry}
  {e : PageMapEntry}

theorem update_self : M.update p i x p i = x := if_pos ⟨rfl, rfl⟩

theorem update_of_ne (h : ¬(q = p ∧ j = i)) : M.update p i x q j = M q j := if_neg h

theorem update_keep (hM : M p i = none) (h : M q j = some e) : M.update p i x q j = some e := by
  rw [update_of_ne, h]
  rintro ⟨rfl, rfl⟩
  rw [hM] at h
  cases h

theorem update_new (hM : M q j = none) (h : M.update p i x q j = some e) :
    (q = p ∧ j = i) ∧ x = some e := by
  rw [update] at h
  split at h
  next hqp => exact ⟨hqp, h⟩
  next =>
    rw [hM] at h
    cases h

end PageMap

/-- The space with the root `T` owns the frames `O`, and shares the frames `I`. -/
structure Owns (M : PageMap) (T : Nat) (O I : Set Nat) : Prop where
  root : T ∈ O
  user : ∀ {p i e}, M p i = some e → e.user = true
  table : ∀ {p i e}, M p i = some e → p.length < 3 → e.writable = true
  own : ∀ {p i e}, M p i = some e → e.writable = true → e.addr ∈ O ∧ e.addr ≠ T
  share : ∀ {p i e}, M p i = some e → e.writable = false → e.addr ∈ I
  once : ∀ {p i e q j e'}, M p i = some e → M q j = some e' → e.writable = true →
    e'.writable = true → e.addr = e'.addr → p = q ∧ i = j
  all : ∀ f ∈ O, f = T ∨ ∃ p i e, M p i = some e ∧ e.writable = true ∧ e.addr = f
  apart : ∀ f ∈ O, f ∉ I

namespace Owns

variable {M : PageMap} {T g : Nat} {O I I' : Set Nat} {p : List (Fin 512)} {i : Fin 512}
  {e x : PageMapEntry}

/-- A place gets a frame that is new. -/
theorem insert (h : Owns M T O I) (hM : ∀ e, M p i = some e → e.writable = false)
    (hx : x.user = true ∧ x.writable = true) (hO : x.addr ∉ O) (hI : x.addr ∉ I) :
    Owns (M.update p i (some x)) T (insert x.addr O) I := by
  have hold : ∀ {q j e}, M q j = some e → e.writable = true → ¬(q = p ∧ j = i) :=
    fun hq hw ⟨hp, hi⟩ => by
      subst hp hi
      rw [hM _ hq] at hw
      cases hw
  have hne : ∀ {q j e}, M q j = some e → e.writable = true → e.addr ≠ x.addr := fun hq hw he =>
    hO (he ▸ (h.own hq hw).1)
  constructor
  case root => exact .inr h.root
  case user =>
    intro q j e hq
    rw [PageMap.update] at hq
    split at hq
    next => cases hq; exact hx.1
    next => exact h.user hq
  case table =>
    intro q j e hq hlt
    rw [PageMap.update] at hq
    split at hq
    next => cases hq; exact hx.2
    next => exact h.table hq hlt
  case own =>
    intro q j e hq hw
    rw [PageMap.update] at hq
    split at hq
    next =>
      cases hq
      exact ⟨.inl rfl, fun hT => hO (hT ▸ h.root)⟩
    next =>
      obtain ⟨hmem, hT⟩ := h.own hq hw
      exact ⟨.inr hmem, hT⟩
  case share =>
    intro q j e hq hw
    rw [PageMap.update] at hq
    split at hq
    next =>
      cases hq
      rw [hx.2] at hw
      cases hw
    next => exact h.share hq hw
  case once =>
    intro q j e r k e' hq hr hw hw' haddr
    rw [PageMap.update] at hq hr
    split at hq
    next hqp =>
      cases hq
      split at hr
      next hrp => exact ⟨hqp.1.trans hrp.1.symm, hqp.2.trans hrp.2.symm⟩
      next => exact absurd haddr.symm (hne hr hw')
    next =>
      split at hr
      next =>
        cases hr
        exact absurd haddr (hne hq hw)
      next => exact h.once hq hr hw hw' haddr
  case all =>
    rintro f (rfl | hf)
    · exact .inr ⟨p, i, x, by rw [PageMap.update, if_pos ⟨rfl, rfl⟩], hx.2, rfl⟩
    · rcases h.all f hf with hT | ⟨q, j, e, hq, hw, haddr⟩
      · exact .inl hT
      · exact .inr ⟨q, j, e, by rw [PageMap.update, if_neg (hold hq hw), hq], hw, haddr⟩
  case apart =>
    rintro f (rfl | hf)
    · exact hI
    · exact h.apart f hf

/-- A leaf gets a frame that is shared. -/
theorem share_leaf (h : Owns M T O I) (hM : M p i = none) (hp : 3 ≤ p.length)
    (hx : x.user = true ∧ x.writable = false) (hI : x.addr ∈ I') (hsub : I ⊆ I')
    (hapart : ∀ f ∈ O, f ∉ I') : Owns (M.update p i (some x)) T O I' := by
  have hnew : ∀ {q j e}, M.update p i (some x) q j = some e → e.writable = true →
      M q j = some e := fun {q j e} hq hw => by
    rw [PageMap.update] at hq
    split at hq
    next =>
      cases hq
      rw [hx.2] at hw
      cases hw
    next => exact hq
  constructor
  case root => exact h.root
  case user =>
    intro q j e hq
    rw [PageMap.update] at hq
    split at hq
    next => cases hq; exact hx.1
    next => exact h.user hq
  case table =>
    intro q j e hq hlt
    rw [PageMap.update] at hq
    split at hq
    next hqp =>
      rw [hqp.1] at hlt
      omega
    next => exact h.table hq hlt
  case own => exact fun hq hw => h.own (hnew hq hw) hw
  case share =>
    intro q j e hq hw
    rw [PageMap.update] at hq
    split at hq
    next => cases hq; exact hI
    next => exact hsub (h.share hq hw)
  case once => exact fun hq hr hw hw' => h.once (hnew hq hw) (hnew hr hw') hw hw'
  case all =>
    intro f hf
    refine (h.all f hf).imp id ?_
    rintro ⟨q, j, e, hq, hw, haddr⟩
    exact ⟨q, j, e, PageMap.update_keep hM hq, hw, haddr⟩
  case apart => exact hapart

/-- An entry goes, and with it the frame that it owns. -/
theorem remove (h : Owns M T O I) (hM : M p i = some e) :
    Owns (M.update p i none) T (if e.writable then O \ {e.addr} else O) I := by
  have hold : ∀ {q j x}, M.update p i none q j = some x → ¬(q = p ∧ j = i) ∧ M q j = some x :=
    fun {q j x} hq => by
      rw [PageMap.update] at hq
      split at hq
      next => cases hq
      next hne => exact ⟨hne, hq⟩
  have hsub : ∀ f ∈ (if e.writable then O \ {e.addr} else O), f ∈ O := by
    split
    · exact fun f hf => hf.1
    · exact fun f hf => hf
  constructor
  case root =>
    split
    next hw => exact ⟨h.root, fun hT => (h.own hM hw).2 hT.symm⟩
    next => exact h.root
  case user => exact fun hq => h.user (hold hq).2
  case table => exact fun hq => h.table (hold hq).2
  case own =>
    intro q j x hq hw
    obtain ⟨hne, hq⟩ := hold hq
    refine ⟨?_, (h.own hq hw).2⟩
    split
    next hwe => exact ⟨(h.own hq hw).1, fun ha => hne (h.once hq hM hw hwe ha)⟩
    next => exact (h.own hq hw).1
  case share => exact fun hq => h.share (hold hq).2
  case once => exact fun hq hr => h.once (hold hq).2 (hold hr).2
  case all =>
    intro f hf
    refine (h.all f (hsub f hf)).imp id ?_
    rintro ⟨q, j, x, hq, hw, rfl⟩
    refine ⟨q, j, x, ?_, hw, rfl⟩
    rw [PageMap.update, if_neg, hq]
    rintro ⟨rfl, rfl⟩
    obtain rfl := Option.some.inj (hM.symm.trans hq)
    rw [if_pos hw] at hf
    exact hf.2 rfl
  case apart => exact fun f hf => h.apart f (hsub f hf)

end Owns

/-! ## Tables in memory -/

/-- The upper half of an address space: four levels, from entry 256 of the root on. -/
def radix : Radix Nat (Fin 512) PageMapEntry where
  next e := if e.present then some e.addr else none
  top i := 256 ≤ i.val
  depth := 4

theorem radix_next_some {e : PageMapEntry} {g : Nat} :
    radix.next e = some g ↔ e.present = true ∧ e.addr = g := by
  cases h : e.present <;> simp [radix, h]

theorem radix_next_none {e : PageMapEntry} : radix.next e = none ↔ e.present = false := by
  cases h : e.present <;> simp [radix, h]

namespace Machine

/-- The address space in memory below a root. -/
def space (s : Machine) (T : Nat) : PageMap := radix.look s.mem T

/-- The path leads to a table of the space. -/
abbrev TableAt (s : Machine) (T : Nat) (p : List (Fin 512)) (f : Nat) : Prop :=
  radix.Table s.mem T p f

end Machine

variable {s s' : Machine} {T f g : Nat} {O I O' I' : Set Nat} {p : List (Fin 512)} {i : Fin 512}
  {e : PageMapEntry}

/-- An entry of a table of the space, if it is present. -/
theorem space_of_table (hf : s.TableAt T p f) (hi : radix.top (p.headD i) = true) :
    s.space T p i = if (s.mem f i).present then some (s.mem f i) else none := by
  rw [Machine.space, Radix.look, if_pos ⟨hf.depth, hi⟩, hf.walk, Option.bind_some]
  split
  next h => rw [radix_next_some.mpr ⟨h, rfl⟩, Option.map_some]
  next h => rw [radix_next_none.mpr (by simpa using h), Option.map_none]

theorem table_of_space (h : s.space T p i = some e) : ∃ f, s.TableAt T p f ∧
    radix.top (p.headD i) = true ∧ e.present = true ∧ s.mem f i = e := by
  obtain ⟨f, hf, hi, hn, he⟩ := Radix.look_eq_some.mp h
  obtain ⟨g, hg⟩ := Option.isSome_iff_exists.mp hn
  exact ⟨f, hf, hi, (radix_next_some.mp hg).1, he⟩

theorem tableAt_root (s : Machine) (T : Nat) : s.TableAt T [] T := ⟨by decide, by simp, rfl⟩

/-- The address space below `T` owns the frames `O` and shares the frames `I`; its tables
hold no large pages. -/
structure Space (s : Machine) (T : Nat) (O I : Set Nat) : Prop where
  owns : Owns (s.space T) T O I
  allocated : ∀ f, f ∈ O ∨ f ∈ I → s.Allocated f
  small : ∀ {p f}, s.TableAt T p f → ∀ i, radix.top (p.headD i) = true →
    (s.mem f i).hugePage = false

namespace Space

theorem mem_table (h : Space s T O I) (hf : s.TableAt T p f) : f ∈ O := by
  cases p using List.reverseRecOn with
  | nil =>
      obtain rfl : T = f := Option.some.inj hf.walk
      exact h.owns.root
  | append_singleton p i =>
      have hi := (hf.init).1
      obtain ⟨hlt, e, he, hn⟩ := (Radix.table_snoc hi).mp hf
      obtain ⟨-, rfl⟩ := radix_next_some.mp hn
      exact (h.owns.own he (h.owns.table he (Nat.lt_of_succ_lt_succ hlt))).1

/-- A table is reached by one path only. -/
theorem table_unique (h : Space s T O I) {q : List (Fin 512)} (hf : s.TableAt T p f)
    (hq : s.TableAt T q f) : q = p := by
  have hroot : ∀ {r : List (Fin 512)}, s.TableAt T r T → r = [] := fun {r} hr => by
    cases r using List.reverseRecOn with
    | nil => rfl
    | append_singleton r i =>
        obtain ⟨hlt, e, he, hn⟩ := (Radix.table_snoc hr.init.1).mp hr
        obtain ⟨-, ha⟩ := radix_next_some.mp hn
        exact absurd ha (h.owns.own he (h.owns.table he (Nat.lt_of_succ_lt_succ hlt))).2
  cases p using List.reverseRecOn with
  | nil =>
      obtain rfl : T = f := Option.some.inj hf.walk
      exact hroot hq
  | append_singleton p i =>
      cases q using List.reverseRecOn with
      | nil =>
          obtain rfl : T = f := Option.some.inj hq.walk
          exact (hroot hf).symm
      | append_singleton q j =>
          obtain ⟨hlt, e, he, hn⟩ := (Radix.table_snoc hf.init.1).mp hf
          obtain ⟨hlt', e', he', hn'⟩ := (Radix.table_snoc hq.init.1).mp hq
          have hw := h.owns.table he (Nat.lt_of_succ_lt_succ hlt)
          have hw' := h.owns.table he' (Nat.lt_of_succ_lt_succ hlt')
          have ha := (radix_next_some.mp hn).2.trans (radix_next_some.mp hn').2.symm
          obtain ⟨rfl, rfl⟩ := h.owns.once he he' hw hw' ha
          rfl

/-- The entries of the root that belong to the space are those of the upper half. -/
theorem root_entry (h : Space s T O I) (hf : s.TableAt T p f) (hi : radix.top (p.headD i) = true)
    (hfT : f = T) : 256 ≤ i.val := by
  subst hfT
  obtain rfl := h.table_unique hf (tableAt_root s f)
  exact of_decide_eq_true hi

/-- The tables are those that the entries name. -/
theorem table_of_eq (hspace : s'.space T = s.space T) : s'.TableAt T p f ↔ s.TableAt T p f := by
  cases p using List.reverseRecOn with
  | nil => exact ⟨fun hf => ⟨hf.depth, hf.top, hf.walk⟩, fun hf => ⟨hf.depth, hf.top, hf.walk⟩⟩
  | append_singleton p i =>
      by_cases hi : radix.top (p.headD i) = true
      · rw [Machine.TableAt, Machine.TableAt, Radix.table_snoc hi, Radix.table_snoc hi]
        rw [Machine.space, Machine.space] at hspace
        rw [hspace]
      · exact ⟨fun hf => absurd hf.init.1 hi, fun hf => absurd hf.init.1 hi⟩

/-- Machines that agree on the tables of the space have the space. -/
theorem congr_tables (h : Space s T O I) (hmem : ∀ p f, s.TableAt T p f → s'.mem f = s.mem f)
    (ha : ∀ f, f ∈ O ∨ f ∈ I → s'.Allocated f) : Space s' T O I := by
  have hspace : s'.space T = s.space T := Radix.look_congr hmem
  refine ⟨?_, ha, fun {p f} hf i hi => ?_⟩
  · rw [hspace]
    exact h.owns
  · have hf' := (table_of_eq hspace).mp hf
    rw [hmem p f hf']
    exact h.small hf' i hi

theorem space_congr (h : Space s T O I) (hmem : ∀ f ∈ O, s'.mem f = s.mem f) :
    s'.space T = s.space T :=
  Radix.look_congr fun _ _ hf => hmem _ (h.mem_table hf)

theorem table_congr (h : Space s T O I) (hmem : ∀ f ∈ O, s'.mem f = s.mem f) :
    s'.TableAt T p f ↔ s.TableAt T p f :=
  table_of_eq (h.space_congr hmem)

theorem congr (h : Space s T O I) (hmem : ∀ f ∈ O, s'.mem f = s.mem f)
    (ha : ∀ f, f ∈ O ∨ f ∈ I → s'.Allocated f) : Space s' T O I :=
  h.congr_tables (fun _ _ hf => hmem _ (h.mem_table hf)) ha

/-- The frame of a leaf is not a table. -/
theorem leaf_not_table (h : Space s T O I) (he : s.space T p i = some e) (hp : p.length = 3)
    {q : List (Fin 512)} : ¬s.TableAt T q e.addr := fun hq => by
  cases hw : e.writable with
  | false => exact h.owns.apart _ (h.mem_table hq) (h.owns.share he hw)
  | true =>
      cases q using List.reverseRecOn with
      | nil => exact (h.owns.own he hw).2 (Option.some.inj hq.walk).symm
      | append_singleton q j =>
          obtain ⟨hlt, e', he', hn⟩ := (Radix.table_snoc hq.init.1).mp hq
          have hlt : q.length < 3 := Nat.lt_of_succ_lt_succ hlt
          obtain ⟨rfl, -⟩ := h.owns.once he' he (h.owns.table he' hlt) hw (radix_next_some.mp hn).2
          omega

/-- What is in the page of a leaf does not matter to the tables. -/
theorem fill_leaf (h : Space s T O I) (he : s.space T p i = some e) (hp : p.length = 3)
    (words : Fin 512 → PageMapEntry) :
    Space (s.fill e.addr words) T O I ∧ (s.fill e.addr words).space T = s.space T := by
  have hmem : ∀ q f, s.TableAt T q f → (s.fill e.addr words).mem f = s.mem f := fun q f hf => by
    rw [Machine.fill_mem, Function.update_of_ne]
    rintro rfl
    exact h.leaf_not_table he hp hf
  exact ⟨h.congr_tables hmem h.allocated, Radix.look_congr hmem⟩

/-- An entry is written below which nothing stands, before and after. -/
theorem store (h : Space s T O I) {m : Machine} (hmem : ∀ f ∈ O, m.mem f = s.mem f)
    (hf : s.TableAt T p f) (hi : radix.top (p.headD i) = true)
    (hbefore : ∀ q j, p ++ [i] <+: q → s.space T q j = none) {x : PageMapEntry}
    (hx : x.hugePage = false)
    (hafter : p.length < 3 → x.present = true → x.addr ≠ f ∧ m.mem x.addr = fun _ => .zero) :
    (m.store f i x).space T = (s.space T).update p i (if x.present then some x else none) ∧
      ∀ {q f'}, (m.store f i x).TableAt T q f' → ∀ j, radix.top (q.headD j) = true →
        ((m.store f i x).mem f' j).hugePage = false := by
  have hf₁ := (h.table_congr hmem).mpr hf
  have honly : ∀ q, m.TableAt T q f → q = p := fun q hq =>
    h.table_unique hf ((h.table_congr hmem).mp hq)
  have hspace : (m.store f i x).space T =
      (s.space T).update p i (if x.present then some x else none) := by
    funext q j
    have hset := Radix.look_set (e := x) hf₁ honly hi (fun q j hq => ?_) (fun g hlt hg => ?_) q j
    · have hnext : (radix.next x).map (fun _ => x) = if x.present then some x else none := by
        cases hp : x.present <;> simp [radix, hp]
      rw [hnext] at hset
      rw [PageMap.update, ← h.space_congr hmem]
      exact hset
    · have hnone := hbefore q j hq
      rwa [← h.space_congr hmem] at hnone
    · obtain ⟨hp, rfl⟩ := radix_next_some.mp hg
      obtain ⟨hne, hzero⟩ := hafter (Nat.lt_of_succ_lt_succ hlt) hp
      exact ⟨hne, fun j => by rw [hzero]; rfl⟩
  refine ⟨hspace, fun {q f'} hq j hj => ?_⟩
  -- the table was there before, or it is the new one
  have hold : s.TableAt T q f' ∨ p.length < 3 ∧ x.present = true ∧ f' = x.addr := by
    cases q using List.reverseRecOn with
    | nil =>
        obtain rfl : T = f' := Option.some.inj hq.walk
        exact .inl ⟨hq.depth, hq.top, rfl⟩
    | append_singleton q k =>
        have hk := hq.init.1
        obtain ⟨hlt, y, hy, hn⟩ := (Radix.table_snoc hk).mp hq
        have hy' := congrFun (congrFun hspace q) k
        rw [Machine.space, hy, PageMap.update] at hy'
        split at hy'
        next hqp =>
          split at hy'
          next hp =>
            cases hy'
            obtain ⟨rfl, rfl⟩ := hqp
            exact .inr ⟨Nat.lt_of_succ_lt_succ hlt, hp, (radix_next_some.mp hn).2.symm⟩
          next => cases hy'
        next => exact .inl ((Radix.table_snoc hk).mpr ⟨hlt, y, hy'.symm, hn⟩)
  by_cases hfj : f' = f ∧ j = i
  · rw [Machine.store_mem, hfj.1, hfj.2, Radix.set_self, hx]
  · rw [Machine.store_mem, Radix.set_of_ne _ _ hfj]
    rcases hold with hq' | ⟨hlt, hp, rfl⟩
    · rw [hmem f' (h.mem_table hq')]
      exact h.small hq' j hj
    · rw [(hafter hlt hp).2]
      rfl

/-- Nothing stands below a leaf. -/
theorem below_leaf (hp : 3 ≤ p.length) {q : List (Fin 512)} (hq : p ++ [i] <+: q) (j : Fin 512) :
    s.space T q j = none := by
  have hlen := hq.length_le
  rw [List.length_append, List.length_singleton] at hlen
  exact if_neg fun h : q.length < 4 ∧ _ => by omega

/-- Nothing stands below a place without an entry. -/
theorem below_none (hi : radix.top (p.headD i) = true) (hM : s.space T p i = none)
    {q : List (Fin 512)} (hq : p ++ [i] <+: q) (j : Fin 512) : s.space T q j = none :=
  Radix.look_below hi hM hq j

/-- Nor at the place itself. -/
theorem at_none (hi : radix.top (p.headD i) = true) (hM : s.space T p i = none)
    {q : List (Fin 512)} {j : Fin 512} (hq : p ++ [i] <+: q ++ [j]) : s.space T q j = none := by
  obtain h | h := List.prefix_concat_iff.mp hq
  · obtain ⟨rfl, hij⟩ := List.append_inj' h rfl
    cases hij
    exact hM
  · exact below_none hi hM h j

end Space

/-! ## New frames -/

/-- The machine with a frame that was free. -/
structure Fresh (s s' : Machine) (g : Nat) : Prop where
  free : ¬s.Allocated g
  lt : g < kFrameCount
  allocated : ∀ f, s'.Allocated f ↔ f = g ∨ s.Allocated f
  mem : ∀ f, f ≠ g → s'.mem f = s.mem f
  cr3 : s'.cr3 = s.cr3

theorem fresh_of_newPageMap (h : s.newPageMap = (s', .ok g)) :
    Fresh s s' g ∧ s'.mem g = fun _ => .zero := by
  obtain ⟨hfree, hlt, rfl⟩ := Machine.newPageMap_ok h
  refine ⟨⟨hfree, hlt, fun f => ?_, fun f hf => Function.update_of_ne hf _ _, rfl⟩,
    Function.update_self _ _ _⟩
  by_cases hf : f = g
  · subst hf
    simp [Machine.Allocated, BitmapMemoryManager.setBit]
  · simp [Machine.Allocated, BitmapMemoryManager.setBit, hf]

/-- What is written to the frame does not matter. -/
theorem Fresh.fill (h : Fresh s s' g) (w : Fin 512 → PageMapEntry) : Fresh s (s'.fill g w) g :=
  ⟨h.free, h.lt, h.allocated, fun f hf => by
    rw [Machine.fill_mem, Function.update_of_ne hf, h.mem f hf], h.cr3⟩

theorem Fresh.setPointer (h : Fresh s s' g) (e : PageMapEntry) : (e.setPointer g).addr = g := by
  have hlt := h.lt
  rw [kFrameCount] at hlt
  exact Nat.mod_eq_of_lt (by omega)

/-- A place gets the new frame. -/
theorem Space.link (h : Space s T O I) (hn : Fresh s s' g) (hf : s.TableAt T p f)
    (hi : radix.top (p.headD i) = true)
    (hM : s.space T p i = none ∨ p.length = 3 ∧ ∀ e, s.space T p i = some e → e.writable = false)
    (hzero : p.length < 3 → s'.mem g = fun _ => .zero) {x : PageMapEntry} (hx : x.present = true)
    (hu : x.user = true ∧ x.writable = true) (hs : x.hugePage = false) (ha : x.addr = g) :
    Space (s'.store f i x) T (insert g O) I ∧
      (s'.store f i x).space T = (s.space T).update p i (some x) := by
  have hg : ∀ {f}, f ∈ O ∨ f ∈ I → f ≠ g := fun hf he => hn.free (he ▸ h.allocated _ hf)
  have hmem : ∀ f ∈ O, s'.mem f = s.mem f := fun f hf => hn.mem f (hg (.inl hf))
  have hbefore : ∀ q j, p ++ [i] <+: q → s.space T q j = none := fun q j hq => by
    rcases hM with hM | hM
    · exact Space.below_none hi hM hq j
    · exact Space.below_leaf (by omega) hq j
  have hafter : p.length < 3 → x.present = true → x.addr ≠ f ∧ s'.mem x.addr = fun _ => .zero := by
    intro hlt _
    rw [ha]
    exact ⟨fun he => hg (.inl (h.mem_table hf)) he.symm, hzero hlt⟩
  obtain ⟨hspace, hsmall⟩ := h.store hmem hf hi hbefore hs hafter
  rw [if_pos hx] at hspace
  refine ⟨⟨?_, fun f' hf' => ?_, hsmall⟩, hspace⟩
  · rw [hspace, ← ha]
    refine h.owns.insert (fun e he => ?_) hu ?_ ?_
    · rcases hM with hM | hM
      · rw [hM] at he
        cases he
      · exact hM.2 e he
    · rw [ha]
      exact fun hO => hg (.inl hO) rfl
    · rw [ha]
      exact fun hI => hg (.inr hI) rfl
  · refine (hn.allocated f').mpr ?_
    rcases hf' with (rfl | hf') | hf'
    · exact .inl rfl
    · exact .inr (h.allocated f' (.inl hf'))
    · exact .inr (h.allocated f' (.inr hf'))

/-- A leaf gets a shared frame. -/
theorem Space.link_share (h : Space s T O I) {s₁ : Machine} (hmem : ∀ f ∈ O, s₁.mem f = s.mem f)
    (hsub : I ⊆ I') (hapart : ∀ f ∈ O, f ∉ I') (halloc : ∀ f, f ∈ O ∨ f ∈ I' → s₁.Allocated f)
    (hf : s.TableAt T p f) (hp : p.length = 3) (hi : radix.top (p.headD i) = true)
    (hM : s.space T p i = none) {x : PageMapEntry} (hx : x.present = true)
    (hu : x.user = true ∧ x.writable = false) (hs : x.hugePage = false) (ha : x.addr ∈ I') :
    Space (s₁.store f i x) T O I' ∧
      (s₁.store f i x).space T = (s.space T).update p i (some x) := by
  have hbefore : ∀ q j, p ++ [i] <+: q → s.space T q j = none := fun q j hq =>
    Space.below_none hi hM hq j
  obtain ⟨hspace, hsmall⟩ := h.store hmem hf hi hbefore hs fun hlt _ => by omega
  rw [if_pos hx] at hspace
  refine ⟨⟨?_, halloc, hsmall⟩, hspace⟩
  rw [hspace]
  exact h.owns.share_leaf hM (by omega) hu ha hsub hapart

end Laplus.Paging
