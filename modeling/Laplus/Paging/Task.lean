/-
# `Laplus.Paging.Task` — what happens to the address space of a task

`SetupPML4` makes an address space without pages in the upper half.  After that
the tables change through `SetupPageMaps` and `HandlePageFault`, and the pages
through the program and the kernel; `Works` says what all of these keep.
-/
import Laplus.Paging.Setup

namespace Laplus.Paging

open Lib

variable {s s' s'' : Machine} {T f g addr : Nat} {O O' O'' I : Set Nat} {p r : List (Fin 512)}
  {i : Fin 512} {e : PageMapEntry}

/-! ## The walk of the processor -/

/-- The place of the leaf of an address. -/
def place (addr : Nat) : List (Fin 512) × Fin 512 :=
  ([part addr 4, part addr 3, part addr 2], part addr 1)

theorem path_eq (addr : Nat) : path addr = (place addr).1 ++ [(place addr).2] := rfl

/-- The leaf of an address. -/
def Machine.leaf (s : Machine) (T addr : Nat) : Option PageMapEntry :=
  s.space T (place addr).1 (place addr).2

/-- The page that a leaf maps. -/
def PageMapEntry.mapping (e : PageMapEntry) : Mapping := ⟨e.addr, true, e.writable⟩

/-- The processor walks the tables of the space. -/
theorem translate_table (h : Space s T O I) (hf : s.TableAt T p f) (hlen : p.length + r.length = 3)
    (hi : radix.top ((p ++ r).headD i) = true) :
    translate s.mem f (r ++ [i]) = (s.space T (p ++ r) i).map PageMapEntry.mapping := by
  induction r generalizing p f with
  | nil =>
      rw [List.append_nil] at hi ⊢
      have hspace := space_of_table hf hi
      rw [List.nil_append, translate]
      cases hp : (s.mem f i).present with
      | false =>
          rw [hp, if_neg Bool.false_ne_true] at hspace
          rw [hspace]
          rfl
      | true =>
          rw [hp, if_pos rfl] at hspace
          have hu := h.owns.user hspace
          rw [hspace]
          simp [translate, PageMapEntry.mapping, hu]
  | cons k r ih =>
      have hk : radix.top (p.headD k) = true := by cases p <;> exact hi
      have hspace := space_of_table hf hk
      rw [List.cons_append, translate]
      cases hp : (s.mem f k).present with
      | false =>
          rw [hp, if_neg Bool.false_ne_true] at hspace
          rw [Space.below_none hk hspace ⟨r, by simp⟩]
          rfl
      | true =>
          rw [hp, if_pos rfl] at hspace
          have hlt : p.length < 3 := by
            rw [List.length_cons] at hlen
            omega
          have hu := h.owns.user hspace
          have hw := h.owns.table hspace hlt
          have hs := h.small hf k hk
          have htable := (Radix.table_snoc hk).mpr
            ⟨Nat.succ_lt_succ hlt, _, hspace, radix_next_some.mpr ⟨hp, rfl⟩⟩
          have happ : p ++ [k] ++ r = p ++ k :: r := by simp
          have ih := ih htable
            (by simp only [List.length_append, List.length_cons, List.length_nil] at *; omega)
            (happ ▸ hi)
          rw [happ] at ih
          simp only [ih, hs, hu, hw, Bool.not_true, Bool.false_eq_true, if_false, false_and,
            Bool.true_and, Option.map_map]
          rfl

/-- **The processor and the space.** -/
theorem translate_upper (h : Space s T O I) (haddr : Upper addr) :
    translate s.mem T (path addr) = (s.leaf T addr).map PageMapEntry.mapping :=
  translate_table (p := []) (r := (place addr).1) (i := (place addr).2) h (tableAt_root s T) rfl
    (decide_eq_true haddr.part)

/-- `SetPageContent` reaches the table of the leaf. -/
theorem setPageContent_table (hf : s.TableAt T p f) (hg : s.TableAt T (p ++ r) g)
    (content : Nat) : s.setPageContent f (r ++ [i]) content =
      s.store g i { (s.mem g i).setPointer content with writable := true } := by
  induction r generalizing p f with
  | nil =>
      rw [List.append_nil] at hg
      obtain rfl := hf.unique hg
      rfl
  | cons k r ih =>
      have happ : p ++ [k] ++ r = p ++ k :: r := by simp
      obtain ⟨f', hf'⟩ := hg.prefix (p := p ++ [k]) ⟨r, happ⟩
      obtain ⟨-, e, he, hn⟩ := (Radix.table_snoc hf'.init.1).mp hf'
      obtain ⟨f₀, hf₀, -, -, rfl⟩ := table_of_space he
      obtain rfl := hf₀.unique hf
      obtain ⟨-, rfl⟩ := radix_next_some.mp hn
      rw [List.cons_append]
      have hstep : s.setPageContent f₀ (k :: (r ++ [i])) content =
          s.setPageContent (s.mem f₀ k).addr (r ++ [i]) content := by
        cases r <;> rfl
      rw [hstep]
      exact ih hf' (happ ▸ hg)

/-! ## What a task's own steps keep -/

/-- The space of a task after some steps of its own: it may own more frames, and no frame of others
was written. -/
structure Works (s s' : Machine) (T : Nat) (O O' I : Set Nat) : Prop where
  space : Space s' T O' I
  own : O ⊆ O'
  allocated : ∀ f, s'.Allocated f ↔ s.Allocated f ∨ f ∈ O'
  old : ∀ f ∈ O', s.Allocated f → f ∈ O
  mem : ∀ f, s.Allocated f → f ∉ O → s'.mem f = s.mem f
  cr3 : s'.cr3 = s.cr3
  low : ∀ k : Fin 512, k.val < 256 → s'.mem T k = s.mem T k
  shared : ∀ p i e, p.length = 3 → s'.space T p i = some e → e.writable = false →
    s.space T p i = some e

namespace Works

theorem refl (h : Space s T O I) : Works s s T O O I where
  space := h
  own := subset_rfl
  allocated f := ⟨.inl, fun hf => hf.elim id fun hf => h.allocated f (.inl hf)⟩
  old _ hf _ := hf
  mem _ _ _ := rfl
  cr3 := rfl
  low _ _ := rfl
  shared _ _ _ _ he _ := he

theorem trans (h : Works s s' T O O' I) (h' : Works s' s'' T O' O'' I) :
    Works s s'' T O O'' I where
  space := h'.space
  own := h.own.trans h'.own
  allocated f := by
    rw [h'.allocated, h.allocated]
    constructor
    · rintro ((hs | hf) | hf)
      · exact .inl hs
      · exact .inr (h'.own hf)
      · exact .inr hf
    · rintro (hs | hf)
      · exact .inl (.inl hs)
      · exact .inr hf
  old f hf hs := h.old f (h'.old f hf ((h.allocated f).mpr (.inl hs))) hs
  mem f hs hO := by
    have hs' := (h.allocated f).mpr (.inl hs)
    rw [h'.mem f hs' fun hm => hO (h.old f hm hs), h.mem f hs hO]
  cr3 := h'.cr3.trans h.cr3
  low k hk := (h'.low k hk).trans (h.low k hk)
  shared p i e hp he hw := h.shared p i e hp (h'.shared p i e hp he hw) hw

/-- `SetupPageMaps` with writable pages. -/
theorem of_grows {I' : Set Nat} (h₀ : Space s T O I) (h : Grows true s s' T O I O' I') :
    Works s s' T O O' I := by
  obtain rfl := h.shared rfl
  constructor
  case space => exact h.space
  case own => exact h.own
  case allocated =>
    intro f
    rw [h.allocated]
    constructor
    · rintro (hs | hO | hI)
      · exact .inl hs
      · exact .inr hO
      · exact .inl (h₀.allocated f (.inr hI))
    · exact fun hf => hf.imp_right .inl
  case old => exact fun f hf hs => (h.old f hs).1 hf
  case mem => exact h.mem
  case cr3 => exact h.cr3
  case low => exact h.low
  case shared =>
    intro p i e hp he hw
    cases hs : s.space T p i with
    | none =>
        rw [h.leaf p i e hp hs he] at hw
        cases hw
    | some x =>
        rw [h.keep p i x hs] at he
        exact he

/-- What is written to a page that the task owns. -/
theorem of_fill (h : Space s T O I) (he : s.space T p i = some e) (hp : p.length = 3)
    (hw : e.writable = true) (words : Fin 512 → PageMapEntry) :
    Works s (s.fill e.addr words) T O O I := by
  obtain ⟨hspace, heq⟩ := h.fill_leaf he hp words
  obtain ⟨hO, hT⟩ := h.owns.own he hw
  constructor
  case space => exact hspace
  case own => exact subset_rfl
  case allocated => exact (Works.refl h).allocated
  case old => exact fun f hf _ => hf
  case mem =>
    intro f _ hf
    rw [Machine.fill_mem, Function.update_of_ne]
    rintro rfl
    exact hf hO
  case cr3 => rfl
  case low =>
    intro k _
    rw [Machine.fill_mem, Function.update_of_ne hT.symm]
  case shared =>
    intro q j e' _ he' _
    rwa [heq] at he'

end Works

/-! ## Copy on write -/

/-- A leaf that was read-only gets a new frame. -/
theorem Works.of_link {x : PageMapEntry} (h : Space s T O I) (hn : Fresh s s' g)
    (hf : s.TableAt T p f) (hi : radix.top (p.headD i) = true) (hp : p.length = 3)
    (he : s.space T p i = some e) (hw : e.writable = false) (hx : x.present = true)
    (hu : x.user = true ∧ x.writable = true) (hs : x.hugePage = false) (ha : x.addr = g) :
    Works s (s'.store f i x) T O (insert g O) I ∧ (s'.store f i x).space T p i = some x := by
  obtain ⟨hspace, hupd⟩ := h.link hn hf hi
    (.inr ⟨hp, fun e' he' => by rw [he] at he'; cases he'; exact hw⟩) (fun hlt => by omega) hx hu hs ha
  refine ⟨?_, by rw [hupd, PageMap.update_self]⟩
  constructor
  case space => exact hspace
  case own => exact Set.subset_insert g O
  case allocated =>
    intro f'
    have hf' : (s'.store f i x).Allocated f' ↔ f' = g ∨ s.Allocated f' := hn.allocated f'
    rw [hf', Set.mem_insert_iff]
    constructor
    · rintro (hg | hs)
      · exact .inr (.inl hg)
      · exact .inl hs
    · rintro (hs | hg | hO)
      · exact .inr hs
      · exact .inl hg
      · exact .inr (h.allocated f' (.inl hO))
  case old => exact fun f' hf' hs => hf'.resolve_left fun hg => hn.free (hg ▸ hs)
  case mem =>
    intro f' hs hO
    have hg : f' ≠ g := fun hg => hn.free (hg ▸ hs)
    have hff : f' ≠ f := fun hff => hO (by rw [hff]; exact h.mem_table hf)
    rw [Machine.store_mem, Radix.set_frame _ _ _ hff, hn.mem f' hg]
  case cr3 => exact hn.cr3
  case low =>
    intro k hk
    have hTg : T ≠ g := fun hg => hn.free (hg ▸ h.allocated T (.inl h.owns.root))
    rw [Machine.store_mem, Radix.set_of_ne, hn.mem T hTg]
    rintro ⟨rfl, rfl⟩
    exact absurd (h.root_entry hf hi rfl) (by omega)
  case shared =>
    intro q j e' _ he' hw'
    rw [hupd, PageMap.update] at he'
    split at he'
    next =>
      cases he'
      rw [hu.2] at hw'
      cases hw'
    next => exact he'

/-- **`CopyOnePage`**, of a page that is not writable: the task has a page of its own, with the
same words. -/
theorem copyOnePage_works {res : Except Error Unit} (h : Space s s.cr3 O I) (haddr : Upper addr)
    (he : s.leaf s.cr3 addr = some e) (hw : e.writable = false)
    (hr : s.copyOnePage addr = some (s', res)) :
    ∃ O', Works s s' s.cr3 O O' I ∧ (res = .ok () → ∃ e', s'.leaf s.cr3 addr = some e' ∧
      e'.writable = true ∧ s'.mem e'.addr = s.mem e.addr) := by
  rw [Machine.copyOnePage] at hr
  cases hnew : s.newPageMap with
  | mk s₁ r =>
      rw [hnew] at hr
      cases r with
      | error e =>
          cases hr
          obtain rfl := Machine.newPageMap_error hnew
          exact ⟨O, .refl h, fun he => by cases he⟩
      | ok g =>
          obtain ⟨hn, -⟩ := fresh_of_newPageMap hnew
          have hg : ∀ {f}, f ∈ O ∨ f ∈ I → f ≠ g := fun hf hg => hn.free (hg ▸ h.allocated _ hf)
          have hmem : ∀ f ∈ O, s₁.mem f = s.mem f := fun f hf => hn.mem f (hg (.inl hf))
          have h₁ := h.congr hmem fun f hf => (hn.allocated f).mpr (.inr (h.allocated f hf))
          have hleaf : s₁.leaf s.cr3 addr = some e := by
            rw [Machine.leaf, h.space_congr hmem]
            exact he
          obtain ⟨f, hf, hi, hpres, hfe⟩ := table_of_space he
          have heg : e.addr ≠ g := hg (.inr (h.owns.share he hw))
          have hu : e.user = true := h.owns.user he
          have hs : e.hugePage = false := by rw [← hfe]; exact h.small hf _ hi
          have hn₂ := hn.fill (s₁.mem e.addr)
          have hmem₂ : ∀ f ∈ O, (s₁.fill g (s₁.mem e.addr)).mem f = s.mem f := fun f hf =>
            hn₂.mem f (hg (.inl hf))
          have htrans : translate s₁.mem s₁.cr3 (path addr) = some e.mapping := by
            rw [hn.cr3, translate_upper h₁ haddr, hleaf]
            rfl
          -- the word that `SetPageContent` writes is that of the leaf
          have hset : (s₁.fill g (s₁.mem e.addr)).setPageContent s₁.cr3 (path addr) g =
              (s₁.fill g (s₁.mem e.addr)).store f (place addr).2
                { e.setPointer g with writable := true } := by
            have hroot := tableAt_root (s₁.fill g (s₁.mem e.addr)) s.cr3
            rw [hn.cr3, path_eq, setPageContent_table (p := []) (r := (place addr).1) hroot
                ((h.table_congr hmem₂).mpr hf), hmem₂ f (h.mem_table hf), hfe]
          have hres : s' = (s₁.fill g (s₁.mem e.addr)).setPageContent s₁.cr3 (path addr) g ∧
              res = .ok () := by
            simp only [htrans] at hr
            cases hr
            exact ⟨rfl, rfl⟩
          obtain ⟨hworks, hself⟩ := Works.of_link h hn₂ hf hi rfl he hw
            (x := { e.setPointer g with writable := true }) hpres ⟨hu, rfl⟩ hs
            (hn.setPointer e)
          rw [hres.1, hset]
          refine ⟨insert g O, hworks, fun _ => ⟨_, hself, rfl, ?_⟩⟩
          have hfg : g ≠ f := (hg (.inl (h.mem_table hf))).symm
          rw [Machine.store_mem, hn.setPointer e, Radix.set_frame _ _ _ hfg, Machine.fill_mem,
            Function.update_self, hn.mem _ heg]

/-! ## Pages that are not there -/

/-- A page has one place. -/
theorem place_of_number {q : List (Fin 512)} (hq : q.length = 3)
    (hn : number (q ++ [i]) = number (path addr)) : q = (place addr).1 ∧ i = (place addr).2 := by
  have hpath : q ++ [i] = (place addr).1 ++ [(place addr).2] :=
    number_inj (by rw [List.length_append, hq]; rfl) hn
  obtain ⟨hq, hi⟩ := List.append_inj' hpath rfl
  exact ⟨hq, by simpa using hi⟩

/-- **`SetupPageMaps`**, for pages of which none is read-only. -/
theorem setupPageMaps_works {num : Nat} {res : Except Error Unit} (h : Space s s.cr3 O I)
    (haddr : Upper addr) (hleaf : LeavesAre true s s.cr3 (number (path addr)) num)
    (hr : s.setupPageMaps addr num true = (s', res)) : ∃ O', Works s s' s.cr3 O O' I := by
  obtain ⟨O', I', hgrows, -⟩ := setupPageMaps_grows h haddr hleaf hr
  exact ⟨O', .of_grows h hgrows⟩

/-- One page that was not there, for demand paging and file mappings. -/
theorem setupPageMaps_absent {res : Except Error Unit} (h : Space s s.cr3 O I) (haddr : Upper addr)
    (hnone : s.leaf s.cr3 addr = none) (hr : s.setupPageMaps addr 1 true = (s', res)) :
    ∃ O', Works s s' s.cr3 O O' I ∧
      (res = .ok () → ∃ e, s'.leaf s.cr3 addr = some e ∧ e.writable = true) := by
  have hleaf : LeavesAre true s s.cr3 (number (path addr)) 1 := fun q i e hq h1 h2 he => by
    obtain ⟨rfl, rfl⟩ := place_of_number hq (by omega : number (q ++ [i]) = number (path addr))
    rw [Machine.leaf] at hnone
    rw [hnone] at he
    cases he
  obtain ⟨O', I', hgrows, -, hmap⟩ := setupPageMaps_grows h haddr hleaf hr
  refine ⟨O', .of_grows h hgrows, fun hok => ?_⟩
  have hsome := hmap hok (place addr).1 (place addr).2 rfl List.nil_prefix (Nat.le_refl _)
    (Nat.lt_succ_self _)
  obtain ⟨e, he⟩ := Option.ne_none_iff_exists'.mp hsome
  exact ⟨e, he, hgrows.leaf _ _ e rfl hnone he⟩

theorem part_page (addr level : Nat) : part (addr / 4096 * 4096) level = part addr level := by
  apply Fin.ext
  have hpow : 2 ^ (12 + 9 * (level - 1)) = 4096 * 2 ^ (9 * (level - 1)) := Nat.pow_add 2 12 _
  simp only [part, hpow]
  rw [← Nat.div_div_eq_div_mul, ← Nat.div_div_eq_div_mul, Nat.mul_div_cancel _ (by decide)]

theorem leaf_page : s.leaf T (addr / 4096 * 4096) = s.leaf T addr := by
  simp only [Machine.leaf, place, part_page]

theorem Upper.page (h : Upper addr) : Upper (addr / 4096 * 4096) := by
  obtain ⟨h1, h2⟩ := h
  exact ⟨by omega, by omega⟩

/-- **`PreparePageCache`**: the page is mapped, and has what the file has. -/
theorem preparePageCache_works {res : Except Error Unit} {task : Task} {m : FileMapping}
    (h : Space s s.cr3 O I) (haddr : Upper addr) (hnone : s.leaf s.cr3 addr = none)
    (hr : s.preparePageCache task m addr = some (s', res)) :
    ∃ O', Works s s' s.cr3 O O' I ∧
      (res = .ok () → ∃ e, s'.leaf s.cr3 addr = some e ∧ e.writable = true) := by
  rw [Machine.preparePageCache] at hr
  cases hcall : s.setupPageMaps (addr / 4096 * 4096) 1 true with
  | mk s₁ r =>
      rw [hcall] at hr
      obtain ⟨O₁, h₁, hmap⟩ := setupPageMaps_absent h haddr.page (leaf_page.trans hnone) hcall
      cases r with
      | error e =>
          cases hr
          exact ⟨O₁, h₁, fun he => by cases he⟩
      | ok u =>
          obtain ⟨e, he, hw⟩ := hmap rfl
          have htrans : translate s₁.mem s₁.cr3 (path (addr / 4096 * 4096)) = some e.mapping := by
            rw [h₁.cr3, translate_upper h₁.space haddr.page, he]
            rfl
          simp only [htrans] at hr
          cases hr
          have h₂ := Works.of_fill h₁.space he rfl hw
            (task.load m.fd ((addr / 4096 * 4096 + 2 ^ 64 - m.vaddrBegin) % 2 ^ 64) (s₁.mem e.addr))
          have hleaf : ∀ words, (s₁.fill e.addr words).leaf s.cr3 (addr / 4096 * 4096) = some e :=
            fun words => by
              rw [Machine.leaf, (h₁.space.fill_leaf he rfl words).2]
              exact he
          exact ⟨O₁, h₁.trans h₂, fun _ => ⟨e, leaf_page.symm.trans (hleaf _), hw⟩⟩

/-! ## `HandlePageFault` -/

/-- What the code of a fault says of the leaf. -/
theorem fault_upper {a : Access} {code : ErrorCode} (h : Space s s.cr3 O I) (haddr : Upper addr)
    (hf : s.fault addr a = some code) :
    code = ⟨false, a.write, a.user⟩ ∧ s.leaf s.cr3 addr = none ∨
      code = ⟨true, true, true⟩ ∧ a = ⟨true, true⟩ ∧
        ∃ e, s.leaf s.cr3 addr = some e ∧ e.writable = false := by
  rw [Machine.fault, translate_upper h haddr] at hf
  cases hl : s.leaf s.cr3 addr with
  | none =>
      rw [hl] at hf
      cases hf
      exact .inl ⟨rfl, rfl⟩
  | some e =>
      rw [hl] at hf
      obtain ⟨user, write⟩ := a
      cases user <;> cases write <;> cases hw : e.writable <;>
        simp [PageMapEntry.mapping, hw] at hf
      exact .inr ⟨hf.symm, rfl, e, rfl, hw⟩

/-- A page that the task may write does not fault. -/
theorem no_fault {a : Access} (h : Space s s.cr3 O I) (haddr : Upper addr)
    (he : s.leaf s.cr3 addr = some e) (hw : e.writable = true) : s.fault addr a = none := by
  rw [Machine.fault, translate_upper h haddr, he]
  simp [PageMapEntry.mapping, hw]

/-- **`HandlePageFault`**, for a fault of the upper half.  If it succeeds, the task may write the
page. -/
theorem handlePageFault_works {res : Except Error Unit} {task : Task} {a : Access}
    {code : ErrorCode} (h : Space s s.cr3 O I) (haddr : Upper addr)
    (hf : s.fault addr a = some code) (hr : s.handlePageFault task code addr = some (s', res)) :
    ∃ O', Works s s' s.cr3 O O' I ∧
      (res = .ok () → ∃ e, s'.leaf s.cr3 addr = some e ∧ e.writable = true) := by
  rw [Machine.handlePageFault] at hr
  rcases fault_upper h haddr hf with ⟨rfl, hnone⟩ | ⟨rfl, -, e, he, hw⟩
  · simp only [Bool.false_and, Bool.false_eq_true, if_false] at hr
    split at hr
    · exact setupPageMaps_absent h haddr hnone (Option.some.inj hr)
    · split at hr
      · exact preparePageCache_works h haddr hnone hr
      · cases hr
        exact ⟨O, .refl h, fun he => by cases he⟩
  · simp only [Bool.and_self, if_true] at hr
    obtain ⟨O', hworks, hok⟩ := copyOnePage_works h haddr he hw hr
    exact ⟨O', hworks, fun hres => by
      obtain ⟨e', he', hw', -⟩ := hok hres
      exact ⟨e', he', hw'⟩⟩

/-! ## `SetupPML4` -/

/-- A root whose upper half is zero. -/
theorem space_of_zero (hzero : ∀ i : Fin 512, 256 ≤ i.val → s.mem T i = .zero) (hT : T ∉ I)
    (ha : ∀ f, f = T ∨ f ∈ I → s.Allocated f) :
    Space s T {T} I ∧ ∀ p i, s.space T p i = none := by
  have hroot : ∀ i, s.space T [] i = none := fun i => by
    by_cases hi : radix.top i = true
    · rw [space_of_table (tableAt_root s T) hi, hzero i (of_decide_eq_true hi)]
      rfl
    · exact if_neg fun h => hi h.2
  have hnone : ∀ p i, s.space T p i = none := fun p i => by
    cases p with
    | nil => exact hroot i
    | cons k p =>
        by_cases hk : radix.top k = true
        · exact Space.below_none (p := []) hk (hroot k) ⟨p, rfl⟩ i
        · exact if_neg fun h => hk h.2
  have hno : ∀ {p i e}, s.space T p i ≠ some e := fun {p i e} he => by
    rw [hnone] at he
    cases he
  refine ⟨⟨?_, fun f hf => ha f hf, fun {p f} hf i hi => ?_⟩, hnone⟩
  · constructor
    case root => rfl
    case user => exact fun he => absurd he hno
    case table => exact fun he => absurd he hno
    case own => exact fun he => absurd he hno
    case share => exact fun he => absurd he hno
    case once => exact fun he => absurd he hno
    case all => exact fun f hf => .inl hf
    case apart => exact fun f hf => hf ▸ hT
  · cases p using List.reverseRecOn with
    | nil =>
        obtain rfl : T = f := Option.some.inj hf.walk
        rw [hzero i (of_decide_eq_true hi)]
        rfl
    | append_singleton p k =>
        obtain ⟨-, e, he, -⟩ := (Radix.table_snoc hf.init.1).mp hf
        exact absurd he hno

/-- **`SetupPML4`**: the upper half has no pages. -/
theorem setupPML4_space (hI : ∀ f ∈ I, s.Allocated f) (hr : s.setupPML4 = (s', .ok T)) :
    Space s' T {T} I ∧ (∀ p i, s'.space T p i = none) ∧ ¬s.Allocated T ∧
      (∀ f, s'.Allocated f ↔ f = T ∨ s.Allocated f) ∧ (∀ f, f ≠ T → s'.mem f = s.mem f) ∧
      s'.cr3 = T ∧ (s.Allocated s.cr3 → ∀ k : Fin 512, k.val < 256 → s'.mem T k = s.mem s.cr3 k) := by
  rw [Machine.setupPML4] at hr
  cases hnew : s.newPageMap with
  | mk s₁ r =>
      rw [hnew] at hr
      cases r with
      | error e => cases hr
      | ok g =>
          cases hr
          obtain ⟨hn, hzero⟩ := fresh_of_newPageMap hnew
          have hn₂ := hn.fill fun i => if i < 256 then s₁.mem s₁.cr3 i else s₁.mem T i
          have hempty : ∀ i : Fin 512, 256 ≤ i.val → (s₁.fill T fun i =>
              if i < 256 then s₁.mem s₁.cr3 i else s₁.mem T i).mem T i = .zero := fun i hi => by
            have hlt : ¬i < 256 := not_lt.mpr hi
            rw [Machine.fill_mem, Function.update_self, if_neg hlt, hzero]
          obtain ⟨hspace, hnone⟩ := space_of_zero (I := I) hempty (fun hT => hn.free (hI T hT))
            fun f hf => (hn₂.allocated f).mpr (hf.imp_right (hI f))
          refine ⟨⟨hspace.owns, hspace.allocated, hspace.small⟩, hnone, hn.free, hn₂.allocated, hn₂.mem,
            rfl, fun hcr3 k hk => ?_⟩
          have hlt : k < 256 := hk
          have hne : s.cr3 ≠ T := fun he => hn.free (he ▸ hcr3)
          have hlow : (s₁.fill T fun i =>
              if i < 256 then s₁.mem s₁.cr3 i else s₁.mem T i).mem T k = s.mem s.cr3 k := by
            rw [Machine.fill_mem, Function.update_self, if_pos hlt, hn.cr3, hn.mem _ hne]
          exact hlow

end Laplus.Paging
