/-
# `Laplus.Paging.Clean` — what `CleanPageMaps` frees

`CleanPageMap` removes the entries of a table, those of the tables below it
first, and frees the frame of an entry that is writable.  In a `Space` these are the
frames that the space owns, and each has one such entry.
-/
import Laplus.Paging.Copy

namespace Laplus.Paging

open Lib

variable {s s' s₁ : Machine} {T f : Nat} {O O' I : Set Nat} {p : List (Fin 512)} {i : Fin 512}
  {j : Nat} {e : PageMapEntry} {D D' E : List (Fin 512) → Prop} {l l' : List Nat}

/-- The places in `D` are empty, and the frames `l` that their entries owned are free. -/
structure Cleaned (s s' : Machine) (T : Nat) (O I : Set Nat) (D : List (Fin 512) → Prop)
    (l : List Nat) : Prop where
  space : Space s' T (O \ {f | f ∈ l}) I
  inside : ∀ q i, D (q ++ [i]) → s'.space T q i = none
  outside : ∀ q i, ¬D (q ++ [i]) → s'.space T q i = s.space T q i
  nodup : l.Nodup
  own : ∀ f ∈ l, f ∈ O
  allocated : ∀ f, s'.Allocated f ↔ s.Allocated f ∧ f ∉ l
  mem : ∀ f, f ∉ O → s'.mem f = s.mem f
  cr3 : s'.cr3 = s.cr3

namespace Cleaned

theorem nothing (h : Space s T O I) (hD : ∀ q i, D (q ++ [i]) → s.space T q i = none) :
    Cleaned s s T O I D [] where
  space := by simpa using h
  inside := hD
  outside _ _ _ := rfl
  nodup := List.nodup_nil
  own f hf := by cases hf
  allocated f := by simp
  mem _ _ := rfl
  cr3 := rfl

theorem append (h : Cleaned s s₁ T O I D l) (h' : Cleaned s₁ s' T O' I D' l')
    (hO : O' = O \ {f | f ∈ l}) (hD : ∀ x, E x ↔ D x ∨ D' x) :
    Cleaned s s' T O I E (l ++ l') where
  space := by
    subst hO
    have hset : O \ {f | f ∈ l ++ l'} = (O \ {f | f ∈ l}) \ {f | f ∈ l'} := by
      ext f
      simp only [Set.mem_sdiff, Set.mem_ofPred_eq, List.mem_append]
      tauto
    rw [hset]
    exact h'.space
  inside q i hx := by
    by_cases hx' : D' (q ++ [i])
    · exact h'.inside q i hx'
    · rw [h'.outside q i hx']
      exact h.inside q i (((hD _).mp hx).resolve_right hx')
  outside q i hx := by
    rw [hD, not_or] at hx
    rw [h'.outside q i hx.2, h.outside q i hx.1]
  nodup := List.nodup_append'.mpr ⟨h.nodup, h'.nodup, fun f hf hf' => (hO ▸ h'.own f hf').2 hf⟩
  own f hf := (List.mem_append.mp hf).elim (h.own f) fun hf => (hO ▸ h'.own f hf).1
  allocated f := by
    rw [h'.allocated, h.allocated, List.mem_append, not_or, and_assoc]
  mem f hf := by rw [h'.mem f fun hm => hf (hO ▸ hm).1, h.mem f hf]
  cr3 := h'.cr3.trans h.cr3

/-- A table stays if the place above it does. -/
theorem table (h : Cleaned s s' T O I D l) (hf : s.TableAt T p f) (hD : ¬D p) :
    s'.TableAt T p f := by
  cases p using List.reverseRecOn with
  | nil =>
      obtain rfl : T = f := Option.some.inj hf.walk
      exact tableAt_root s' T
  | append_singleton p i =>
      have hi := hf.init.1
      obtain ⟨hlt, e, he, hn⟩ := (Radix.table_snoc hi).mp hf
      exact (Radix.table_snoc hi).mpr ⟨hlt, e, (h.outside p i hD).trans he, hn⟩

end Cleaned

/-- An entry below which nothing stands goes, and its frame is freed if the entry is
writable. -/
theorem Space.unlink (h : Space s T O I) (hf : s.TableAt T p f)
    (hi : radix.top (p.headD i) = true) (he : s.space T p i = some e)
    (hbelow : ∀ q j, p ++ [i] <+: q → s.space T q j = none) :
    Cleaned s ((if e.writable then s.free e.addr else s).store f i .zero) T O I (p ++ [i] <+: ·)
      (if e.writable then [e.addr] else []) := by
  have hmem : (if e.writable then s.free e.addr else s).mem = s.mem := by split <;> rfl
  have halloc : ∀ f, (if e.writable then s.free e.addr else s).Allocated f ↔
      s.Allocated f ∧ f ∉ (if e.writable then [e.addr] else []) := fun f => by
    split
    · rw [Machine.free_allocated, List.mem_singleton]
    · simp
  obtain ⟨hspace, hsmall⟩ := h.store (m := if e.writable then s.free e.addr else s)
    (fun f _ => congrFun hmem f) hf hi hbelow (x := .zero) rfl fun _ hp => by cases hp
  rw [show PageMapEntry.zero.present = false from rfl, if_neg Bool.false_ne_true] at hspace
  have hset : O \ {f | f ∈ if e.writable then [e.addr] else []} =
      if e.writable then O \ {e.addr} else O := by
    split <;> simp
  constructor
  case space =>
    refine ⟨?_, fun f' hf' => ?_, hsmall⟩
    · rw [hspace, hset]
      exact h.owns.remove he
    · refine (halloc f').mpr ?_
      rcases hf' with hf' | hf'
      · exact ⟨h.allocated f' (.inl hf'.1), hf'.2⟩
      · refine ⟨h.allocated f' (.inr hf'), fun hl => ?_⟩
        split at hl
        next hw =>
          obtain rfl := List.mem_singleton.mp hl
          exact h.owns.apart _ (h.owns.own he hw).1 hf'
        next => cases hl
  case inside =>
    intro q k hx
    rw [hspace]
    rcases List.prefix_concat_iff.mp hx with hx | hx
    · obtain ⟨rfl, hik⟩ := List.append_inj' hx rfl
      cases hik
      exact PageMap.update_self
    · rw [PageMap.update_of_ne, hbelow q k hx]
      rintro ⟨rfl, -⟩
      exact absurd hx.length_le (by simp)
  case outside =>
    intro q k hx
    rw [hspace, PageMap.update_of_ne]
    rintro ⟨rfl, rfl⟩
    exact hx (List.prefix_refl _)
  case nodup => split <;> simp
  case own =>
    intro f' hf'
    split at hf'
    next hw =>
      obtain rfl := List.mem_singleton.mp hf'
      exact (h.owns.own he hw).1
    next => cases hf'
  case allocated => exact halloc
  case mem =>
    intro f' hf'
    have hne : f' ≠ f := fun heq => hf' (by rw [heq]; exact h.mem_table hf)
    rw [Machine.store_mem, Radix.set_frame _ _ _ hne, hmem]
  case cr3 => split <;> rfl

/-! ## The loop of `CleanPageMap` -/

/-- What a call of `CleanPageMap` for a table below the root gives. -/
def CleanSpec (level : Nat) : Prop :=
  ∀ {s : Machine} {T f : Nat} {O I : Set Nat} {p : List (Fin 512)}, Space s T O I →
    s.TableAt T p f → p.length + level = 4 → p ≠ [] →
    Cleaned s (s.cleanPageMap level f (List.replicate level 0)).1 T O I (Below p 0)
      (s.cleanPageMap level f (List.replicate level 0)).2

/-- What is below an entry is cleaned before the entry. -/
theorem cleanBelow {level : Nat} (ih : CleanSpec level) (h : Space s T O I)
    (hlen : p.length + (level + 1) = 4) (he : s.space T p i = some e) :
    ∃ s₁ l, (if level + 1 > 1 then s.cleanPageMap level e.addr (List.replicate level 0)
        else (s, [])) = (s₁, l) ∧ Cleaned s s₁ T O I (Below (p ++ [i]) 0) l ∧
      ∀ q j, p ++ [i] <+: q → s₁.space T q j = none := by
  obtain ⟨-, -, hi, hpres, -⟩ := table_of_space he
  by_cases hl : level = 0
  · subst hl
    rw [if_neg (by decide)]
    have hleaf : ∀ q j, p ++ [i] <+: q → s.space T q j = none :=
      fun q j hq => Space.below_leaf (by omega) hq j
    refine ⟨s, [], rfl, .nothing h fun q j hx => ?_, hleaf⟩
    obtain ⟨k, -, hk⟩ := hx
    have hlen' := hk.length_le
    simp only [List.length_append, List.length_singleton] at hlen'
    exact if_neg fun h' : q.length < 4 ∧ _ => by omega
  · rw [if_pos (by omega)]
    have htable : s.TableAt T (p ++ [i]) e.addr := (Radix.table_snoc hi).mpr
      ⟨by simp only [radix]; omega, e, he, radix_next_some.mpr ⟨hpres, rfl⟩⟩
    have hclean := ih h htable (by rw [List.length_append, List.length_singleton]; omega) (by simp)
    refine ⟨_, _, rfl, hclean, fun q j hq => hclean.inside q j ?_⟩
    refine below_zero (hq.trans (List.prefix_append q [j])) ?_
    have hlen' := hq.length_le
    have hlast : (q ++ [j]).length = q.length + 1 := by simp
    omega

/-- The loop of `CleanPageMap` from an entry of a table on. -/
theorem cleanLoop_cleaned {level : Nat} (ih : CleanSpec level) {d : Nat} :
    ∀ {j : Nat}, d + j = 512 → ∀ {s : Machine} {O : Set Nat},
    Space s T O I → s.TableAt T p f → p.length + (level + 1) = 4 → (p = [] → 256 ≤ j) →
    Cleaned s
      (Machine.cleanLoop (level + 1) (fun s t => s.cleanPageMap level t (List.replicate level 0)) f s
        (entriesFrom j)).1 T O I (Below p j)
      (Machine.cleanLoop (level + 1) (fun s t => s.cleanPageMap level t (List.replicate level 0)) f s
        (entriesFrom j)).2 := by
  induction d with
  | zero =>
      intro j hj s O h _ _ _
      obtain rfl : j = 512 := by omega
      rw [entriesFrom_end, Machine.cleanLoop]
      exact .nothing h fun q i hx => absurd hx not_below_end
  | succ d ihd =>
      intro j hj s O h hf hlen htop
      have hj512 : j < 512 := by omega
      have hi : radix.top (p.headD ⟨j, hj512⟩) = true := by
        cases p with
        | nil => simpa [radix] using htop rfl
        | cons k p => exact hf.top k rfl
      have hspace := space_of_table hf hi
      have hp : ¬p ++ [⟨j, hj512⟩] <+: p := fun hx => absurd hx.length_le (by simp)
      rw [entriesFrom_lt hj512, Machine.cleanLoop]
      cases hpres : (s.mem f ⟨j, hj512⟩).present with
      | false =>
          rw [hpres, if_neg Bool.false_ne_true] at hspace
          rw [Bool.not_false, if_pos rfl]
          have hnone : Cleaned s s T O I (p ++ [⟨j, hj512⟩] <+: ·) [] :=
            .nothing h fun q k hx => Space.at_none hi hspace hx
          have hrest := ihd (j := j + 1) (by omega) h hf hlen fun hp => by have := htop hp; omega
          have happ := hnone.append hrest (by simp) fun x => below_iff hj512
          rwa [List.nil_append] at happ
      | true =>
          rw [hpres, if_pos rfl] at hspace
          rw [Bool.not_true, if_neg Bool.false_ne_true]
          obtain ⟨s₁, l, hcall, hbelow, hnone⟩ := cleanBelow ih h hlen hspace
          have he := (hbelow.outside p ⟨j, hj512⟩ not_below_self).trans hspace
          have hf₁ := hbelow.table hf fun hx => hp (below_extends hx)
          have hentry := hbelow.space.unlink hf₁ hi he hnone
          have hstep := hbelow.append hentry rfl (E := (p ++ [⟨j, hj512⟩] <+: ·)) fun x => by
            refine ⟨.inr, fun hx => hx.elim below_extends id⟩
          have hrest := ihd (j := j + 1) (by omega) hstep.space (hstep.table hf hp) hlen
            fun hp => by have := htop hp; omega
          have happ := hstep.append hrest rfl fun x => below_iff hj512
          simp only [hcall]
          cases hw : (s.mem f ⟨j, hj512⟩).writable with
          | true =>
              simp only [hw, if_true] at happ ⊢
              exact happ
          | false =>
              simp only [hw, if_false, Bool.false_eq_true] at happ ⊢
              exact happ

/-- A table below the root is cleaned. -/
theorem cleanPageMap_spec (level : Nat) : CleanSpec level := by
  induction level with
  | zero =>
      intro s T f O I p _ hf hlen
      have hdepth : p.length < 4 := hf.depth
      omega
  | succ level ih =>
      intro s T f O I p h hf hlen hp
      exact cleanLoop_cleaned ih (d := 512) (j := 0) rfl h hf hlen fun h => absurd h hp

/-- The start of the upper half. -/
def kUpperBegin : Nat := 0xffff800000000000

theorem cleanPageMaps_eq : s.cleanPageMaps kUpperBegin =
    Machine.cleanLoop 4 (fun s t => s.cleanPageMap 3 t (List.replicate 3 0)) s.cr3 s
      (entriesFrom 256) := by
  have hpath : path kUpperBegin = 256 :: List.replicate 3 0 := by decide
  rw [Machine.cleanPageMaps, hpath, Machine.cleanPageMap]
  rfl

/-- **`CleanPageMaps`.**  The upper half is empty, and the frames that it owned are free, but for
the root. -/
theorem cleanPageMaps_cleaned (h : Space s s.cr3 O I) :
    Cleaned s (s.cleanPageMaps kUpperBegin).1 s.cr3 O I (Below [] 256)
      (s.cleanPageMaps kUpperBegin).2 ∧
      ∀ f, f ∈ (s.cleanPageMaps kUpperBegin).2 ↔ f ∈ O ∧ f ≠ s.cr3 := by
  have hclean : Cleaned s (s.cleanPageMaps kUpperBegin).1 s.cr3 O I (Below [] 256)
      (s.cleanPageMaps kUpperBegin).2 :=
    cleanPageMaps_eq ▸ cleanLoop_cleaned (cleanPageMap_spec 3) (d := 256) (j := 256) rfl h
      (tableAt_root s s.cr3) rfl fun _ => le_rfl
  refine ⟨hclean, fun f => ⟨fun hf => ⟨hclean.own f hf, ?_⟩, fun ⟨hf, hne⟩ => ?_⟩⟩
  · rintro rfl
    exact hclean.space.owns.root.2 hf
  · by_contra hl
    rcases hclean.space.owns.all f ⟨hf, hl⟩ with rfl | ⟨q, i, e, he, -⟩
    · exact hne rfl
    · obtain ⟨f', hf', hi, -⟩ := table_of_space he
      refine absurd he ?_
      rw [hclean.inside q i ?_]
      · exact (Option.some_ne_none e).symm
      · cases q with
        | nil => exact ⟨i, by simpa [radix] using hi, List.prefix_refl _⟩
        | cons k q => exact ⟨k, by simpa [radix] using hi, _, rfl⟩

end Laplus.Paging
