/-
# `Laplus.Paging.Fault` — faults on pages of the kernel

The lower half of every address space is the identity map of the kernel, with
large pages that are not for programs.  `HandlePageFault` looks at three bits of
the error code and not at the address: a program that writes there gets
`CopyOnePage`, and `SetPageContent` takes the large page for a table.
-/
import Laplus.Paging.Task

namespace Laplus.Paging

open Lib

/-! ## Free frames -/

namespace BitmapMemoryManager

/-- How many frames of the range are free. -/
def freeFrames (m : BitmapMemoryManager) : Nat :=
  ((List.range' m.rangeBegin (m.rangeEnd - m.rangeBegin)).filter (!m.allocMap ·)).length

variable {m m' : BitmapMemoryManager} {f : Nat}

theorem allocate_none : m.allocate = none ↔ m.freeFrames = 0 := by
  rw [allocate, Option.map_eq_none_iff, List.find?_eq_none, freeFrames, List.length_eq_zero_iff,
    List.filter_eq_nil_iff]

/-- `Allocate(1)` takes one of them. -/
theorem allocate_freeFrames (h : m.allocate = some (m', f)) :
    m.freeFrames = m'.freeFrames + 1 := by
  obtain ⟨g, hg, h⟩ := Option.map_eq_some_iff.mp h
  cases h
  have hmem := List.mem_of_find?_eq_some hg
  have hfree := List.find?_some hg
  have hnd := (List.nodup_range' (s := m.rangeBegin) (n := m.rangeEnd - m.rangeBegin)).filter
    (!m.allocMap ·)
  have hin : f ∈ (List.range' m.rangeBegin (m.rangeEnd - m.rangeBegin)).filter (!m.allocMap ·) :=
    List.mem_filter.mpr ⟨hmem, hfree⟩
  have herase : (List.range' m.rangeBegin (m.rangeEnd - m.rangeBegin)).filter
      (!(m.setBit f true).allocMap ·) =
      ((List.range' m.rangeBegin (m.rangeEnd - m.rangeBegin)).filter (!m.allocMap ·)).erase f := by
    rw [hnd.erase_eq_filter, List.filter_filter]
    refine List.filter_congr fun x _ => ?_
    by_cases hx : x = f
    · subst hx
      simp [setBit]
    · simp [setBit, hx]
  have hlen := List.length_erase_of_mem hin
  have hpos := List.length_pos_of_mem hin
  rw [← herase] at hlen
  rw [freeFrames, freeFrames]
  change _ = ((List.range' m.rangeBegin (m.rangeEnd - m.rangeBegin)).filter
    (!(m.setBit f true).allocMap ·)).length + 1
  omega

end BitmapMemoryManager

/-! ## The identity map -/

/-- `SetupIdentityPageTable`, as it is seen from the current table: the lower half leads to 64
directories of large pages, each mapped to itself, and nothing of it is for programs. -/
structure Identity (s : Machine) (pdp : Nat) (pd : Fin 64 → Nat) : Prop where
  first : ∃ rest, s.mem s.cr3 0 = ⟨true, true, false, false, pdp, rest⟩
  others : ∀ k : Fin 512, 0 < k.val → k.val < 256 → s.mem s.cr3 k = .zero
  directories : ∀ (k : Fin 512) (hk : k.val < 64),
    ∃ rest, s.mem pdp k = ⟨true, true, false, false, pd ⟨k, hk⟩, rest⟩
  beyond : ∀ k : Fin 512, 64 ≤ k.val → s.mem pdp k = .zero
  pages : ∀ k (i : Fin 512),
    ∃ rest, s.mem (pd k) i = ⟨true, true, false, true, (k.val * 512 + i.val) * 512, rest⟩
  ne : s.cr3 ≠ pdp
  root : s.Allocated s.cr3
  table : s.Allocated pdp

/-- The bytes that the identity map covers, 64 GiB. -/
def identityEnd : Nat := 2 ^ 36

/-! ## A page that is not there -/

section
variable {s s' : Machine} {f : Nat} {i : Fin 512} {p : List (Fin 512)} {w : Bool}

/-- `SetupPageMap` at an entry that is zero. -/
theorem setupEntry_missing (hf : s.Allocated f) (hzero : s.mem f i = .zero) (b : Bool) :
    (s.manager.freeFrames = 0 ∧ ∃ e, s.setupEntry f i b = (s, .error e)) ∨
      ∃ s₁ g, Fresh s s₁ g ∧ (s₁.mem g = fun _ => .zero) ∧
        s.manager.freeFrames = s₁.manager.freeFrames + 1 ∧
        s.setupEntry f i b = (s₁.store f i ⟨true, b, true, false, g, 0⟩, .ok g) := by
  have hpresent : (s.mem f i).present = false := by rw [hzero]; rfl
  rw [Machine.setupEntry, Machine.setNewPageMapIfNotPresent, hpresent, if_neg Bool.false_ne_true]
  cases halloc : s.manager.allocate with
  | none =>
      refine .inl ⟨BitmapMemoryManager.allocate_none.mp halloc, .kNoEnoughMemory, ?_⟩
      rw [Machine.newPageMap, halloc]
  | some r =>
      obtain ⟨m, g⟩ := r
      have hnew : s.newPageMap = (({ s with manager := m } : Machine).fill g fun _ => .zero, .ok g) := by
        rw [Machine.newPageMap, halloc]
      obtain ⟨hn, hg⟩ := fresh_of_newPageMap hnew
      have hfg : f ≠ g := fun he => hn.free (he ▸ hf)
      refine .inr ⟨_, g, hn, hg, BitmapMemoryManager.allocate_freeFrames halloc, ?_⟩
      have hsmall : g % 2 ^ 40 = g := Nat.mod_eq_of_lt (hn.lt.trans (by decide))
      rw [hnew]
      dsimp only
      rw [Machine.store_store, Machine.store_mem, Radix.set_self, hn.mem f hfg, hzero]
      simp only [PageMapEntry.setPointer, PageMapEntry.zero, hsmall]

/-- `SetupPageMaps` for one page, from the first entry on that is zero: it takes a frame for each
entry. -/
structure Missing (s s' : Machine) (f : Nat) (i : Fin 512) (p : List (Fin 512))
    (r : Except Error Unit) : Prop where
  ok : r = .ok () ↔ p.length < s.manager.freeFrames
  mapped : r = .ok () → (translate s'.mem f (i :: p)).isSome
  frames : ∀ g, s.Allocated g → g ≠ f → s'.mem g = s.mem g
  entries : ∀ j, j ≠ i → s'.mem f j = s.mem f j
  cr3 : s'.cr3 = s.cr3

theorem setupPath_missing {r : Except Error Unit} (hf : s.Allocated f) (hzero : s.mem f i = .zero)
    (hr : s.setupPath w f (i :: p) = (s', r)) : Missing s s' f i p r := by
  induction p generalizing s f i with
  | nil =>
      rw [Machine.setupPath] at hr
      rcases setupEntry_missing hf hzero (!([] : List (Fin 512)).isEmpty || w) with
        ⟨hfree, e, he⟩ | ⟨s₁, g, hn, hg, hfree, he⟩
      · rw [he] at hr
        cases hr
        exact ⟨iff_of_false (fun h => by cases h) (by rw [hfree]; exact Nat.not_lt_zero _),
          fun h => (by cases h), fun _ _ _ => rfl, fun _ _ => rfl, rfl⟩
      · rw [he] at hr
        cases hr
        refine ⟨iff_of_true rfl (by rw [hfree]; exact Nat.succ_pos _), fun _ => ?_, fun g' hg' hne => ?_,
          fun j hj => ?_, hn.cr3⟩
        · rw [Machine.store_mem, translate, Radix.set_self]
          rfl
        · have hgg : g' ≠ g := fun h => hn.free (h ▸ hg')
          rw [Machine.store_mem, Radix.set_frame _ _ _ hne, hn.mem g' hgg]
        · have hfg : f ≠ g := fun h => hn.free (h ▸ hf)
          rw [Machine.store_mem, Radix.set_of_ne _ _ fun h => hj h.2, hn.mem f hfg]
  | cons k p ih =>
      rw [Machine.setupPath] at hr
      rcases setupEntry_missing hf hzero (!(k :: p).isEmpty || w) with
        ⟨hfree, e, he⟩ | ⟨s₁, g, hn, hg, hfree, he⟩
      · rw [he] at hr
        cases hr
        exact ⟨iff_of_false (fun h => by cases h) (by rw [hfree]; exact Nat.not_lt_zero _),
          fun h => (by cases h), fun _ _ _ => rfl, fun _ _ => rfl, rfl⟩
      · rw [he] at hr
        dsimp only at hr
        have hfg : f ≠ g := fun h => hn.free (h ▸ hf)
        have hall : ∀ g', (s₁.store f i ⟨true, !(k :: p).isEmpty || w, true, false, g, 0⟩).Allocated g' ↔
            g' = g ∨ s.Allocated g' := hn.allocated
        have hzero' : (s₁.store f i ⟨true, !(k :: p).isEmpty || w, true, false, g, 0⟩).mem g k = .zero := by
          rw [Machine.store_mem, Radix.set_frame _ _ _ hfg.symm, hg]
        have hrest := ih ((hall g).mpr (.inl rfl)) hzero' hr
        have hmem := hrest.frames f ((hall f).mpr (.inr hf)) hfg
        have hentry : s'.mem f i = ⟨true, !(k :: p).isEmpty || w, true, false, g, 0⟩ := by
          rw [hmem, Machine.store_mem, Radix.set_self]
        constructor
        case ok =>
          rw [hrest.ok, hfree, List.length_cons, Nat.add_lt_add_iff_right]
          rfl
        case mapped =>
          intro hok
          have hsome := hrest.mapped hok
          rw [translate, hentry]
          simp only [Bool.not_true, Bool.false_eq_true, if_false, false_and, Option.isSome_map, hsome]
        case frames =>
          intro g' hg' hne
          have hgg : g' ≠ g := fun h => hn.free (h ▸ hg')
          rw [hrest.frames g' ((hall g').mpr (.inr hg')) hgg, Machine.store_mem,
            Radix.set_frame _ _ _ hne, hn.mem g' hgg]
        case entries =>
          intro j hj
          rw [hmem, Machine.store_mem, Radix.set_of_ne _ _ fun h => hj h.2, hn.mem f hfg]
        case cr3 => rw [hrest.cr3, Machine.store_cr3, hn.cr3]

end

/-! ## The lower half -/

section
variable {s s' : Machine} {pdp addr : Nat} {pd : Fin 64 → Nat}

theorem part_four (h : addr < 2 ^ 47) : (part addr 4).val = addr / 2 ^ 39 ∧ (part addr 4).val < 256 := by
  have hval : (part addr 4).val = addr / 2 ^ 39 % 512 := rfl
  omega

theorem part_three (h : addr < 2 ^ 39) : part addr 4 = 0 ∧ (part addr 3).val = addr / 2 ^ 30 := by
  have h4 : (part addr 4).val = addr / 2 ^ 39 % 512 := rfl
  have h3 : (part addr 3).val = addr / 2 ^ 30 % 512 := rfl
  refine ⟨Fin.ext ?_, ?_⟩
  · rw [h4, Fin.val_zero]
    omega
  · omega

/-- The pages of the identity map are not for programs. -/
theorem Identity.translate_low (h : Identity s pdp pd) (haddr : addr < identityEnd) :
    ∃ t, translate s.mem s.cr3 (path addr) = some t ∧ t.user = false := by
  rw [identityEnd] at haddr
  obtain ⟨h4, h3⟩ := part_three (haddr.trans (by decide))
  obtain ⟨r₁, h₁⟩ := h.first
  obtain ⟨r₂, h₂⟩ := h.directories (part addr 3) (by omega)
  obtain ⟨r₃, h₃⟩ := h.pages ⟨(part addr 3).val, by omega⟩ (part addr 2)
  rw [path, h4]
  simp only [translate, h₁, h₂, h₃, List.length_cons, List.length_nil, Bool.not_true,
    Bool.false_eq_true, if_false, false_and, Nat.zero_add, true_or, and_true, if_true, Option.map_some,
    Bool.false_and]
  exact ⟨_, rfl, rfl⟩

/-- Behind it nothing is mapped. -/
theorem Identity.translate_beyond (h : Identity s pdp pd) (hge : identityEnd ≤ addr)
    (hlt : addr < 2 ^ 47) : translate s.mem s.cr3 (path addr) = none := by
  rw [identityEnd] at hge
  by_cases h39 : addr < 2 ^ 39
  · obtain ⟨h4, h3⟩ := part_three h39
    obtain ⟨r₁, h₁⟩ := h.first
    have h₂ := h.beyond (part addr 3) (by omega)
    rw [path, h4]
    simp only [translate, h₁, h₂, PageMapEntry.zero, Bool.not_true, Bool.false_eq_true, if_false,
      false_and, Bool.not_false, if_true, Option.map_none]
  · obtain ⟨h4, hlt4⟩ := part_four hlt
    have h₁ := h.others (part addr 4) (by omega) hlt4
    rw [path, translate, h₁]
    rfl

/-- How many tables are missing for an address behind it, the page counted. -/
def missing (addr : Nat) : Nat := if addr < 2 ^ 39 then 3 else 4

theorem missing_page : missing (addr / 4096 * 4096) = missing addr :=
  if_congr (by omega) rfl rfl

/-- `SetupPageMaps` would map it. -/
theorem Identity.setup_beyond {r : Except Error Unit} (h : Identity s pdp pd)
    (hge : identityEnd ≤ addr) (hlt : addr < 2 ^ 47)
    (hr : s.setupPageMaps addr 1 true = (s', r)) :
    (r = .ok () ↔ missing addr ≤ s.manager.freeFrames) ∧
      (r = .ok () → (translate s'.mem s'.cr3 (path addr)).isSome) := by
  rw [identityEnd] at hge
  rw [setupPageMaps_one, path] at hr
  rw [missing]
  by_cases h39 : addr < 2 ^ 39
  · obtain ⟨h4, h3⟩ := part_three h39
    obtain ⟨r₁, h₁⟩ := h.first
    have h₂ := h.beyond (part addr 3) (by omega)
    have hentry : ∀ b, s.setupEntry s.cr3 0 b =
        (s.store s.cr3 0 ⟨true, b, true, false, pdp, r₁⟩, .ok pdp) := by
      intro b
      rw [Machine.setupEntry, Machine.setNewPageMapIfNotPresent, h₁, if_pos rfl]
      dsimp only
      rw [h₁]
    rw [h4, Machine.setupPath, hentry] at hr
    have hzero : (s.store s.cr3 0 ⟨true, true, true, false, pdp, r₁⟩).mem pdp (part addr 3) = .zero := by
      rw [Machine.store_mem, Radix.set_frame _ _ _ h.ne.symm, h₂]
    have htable : (s.store s.cr3 0 ⟨true, true, true, false, pdp, r₁⟩).Allocated pdp := h.table
    have hm := setupPath_missing htable hzero hr
    have hroot : s'.mem s.cr3 0 = ⟨true, true, true, false, pdp, r₁⟩ := by
      rw [hm.frames s.cr3 h.root h.ne, Machine.store_mem, Radix.set_self]
    rw [if_pos h39]
    refine ⟨hm.ok, fun hok => ?_⟩
    have hsome := hm.mapped hok
    rw [path, h4, hm.cr3, Machine.store_cr3, translate, hroot]
    simp only [Bool.not_true, Bool.false_eq_true, if_false, false_and, Option.isSome_map, hsome]
  · obtain ⟨h4, hlt4⟩ := part_four hlt
    have h₁ := h.others (part addr 4) (by omega) hlt4
    have hm := setupPath_missing h.root h₁ hr
    rw [if_neg h39]
    refine ⟨hm.ok, fun hok => ?_⟩
    rw [hm.cr3]
    exact hm.mapped hok

end

/-! ## Faults -/

/-- A fault on a page of the kernel is refused and leaves memory as it was, new frames apart; a
fault that is taken was of an address of the upper half, which the program may use now, and is not
repeated. -/
structure Contained (s : Machine) (task : Task) (addr : Nat) (a : Access) (code : ErrorCode) :
    Prop where
  refused : ∀ t, a.user = true → translate s.mem s.cr3 (path addr) = some t → t.user = false →
    ∃ s' e, s.handlePageFault task code addr = some (s', .error e) ∧ s'.cr3 = s.cr3 ∧
      ∀ f, ¬(s'.Allocated f ∧ ¬s.Allocated f) → s'.mem f = s.mem f
  taken : ∀ s', s.handlePageFault task code addr = some (s', .ok ()) → Upper addr ∧
    (∃ t, translate s'.mem s'.cr3 (path addr) = some t ∧ t.user = true) ∧ s'.fault addr a = none

/-- The demand region or a file mapping of the task has the address. -/
def Task.Claims (task : Task) (addr : Nat) : Prop :=
  task.dpagingBegin ≤ addr ∧ addr < task.dpagingEnd ∨
    (Machine.findFileMapping task.fileMaps addr).isSome

/-- The program writes to the identity map while a frame is free, or the regions of the task
reach behind the identity map, and there are frames enough for the tables. -/
def Escapes (s : Machine) (task : Task) (addr : Nat) (a : Access) : Prop :=
  a.user = true ∧ a.write = true ∧ addr < identityEnd ∧ 0 < s.manager.freeFrames ∨
    identityEnd ≤ addr ∧ addr < 2 ^ 47 ∧ task.Claims addr ∧ missing addr ≤ s.manager.freeFrames

section
variable {s : Machine} {task : Task} {pdp addr : Nat} {pd : Fin 64 → Nat} {O I : Set Nat}
  {a : Access} {code : ErrorCode}

/-- In the upper half. -/
theorem contained_upper (h : Space s s.cr3 O I) (haddr : Upper addr)
    (hf : s.fault addr a = some code) : Contained s task addr a code := by
  constructor
  case refused =>
    intro t _ ht huser
    rw [translate_upper h haddr] at ht
    obtain ⟨e, -, rfl⟩ := Option.map_eq_some_iff.mp ht
    cases huser
  case taken =>
    intro s' hr
    obtain ⟨O', hworks, hok⟩ := handlePageFault_works h haddr hf hr
    obtain ⟨e, he, hw⟩ := hok rfl
    have hspace : Space s' s'.cr3 O' I := hworks.cr3 ▸ hworks.space
    have hleaf : s'.leaf s'.cr3 addr = some e := hworks.cr3 ▸ he
    refine ⟨haddr, ⟨e.mapping, ?_, rfl⟩, no_fault hspace haddr hleaf hw⟩
    rw [translate_upper hspace haddr, hleaf]
    rfl

theorem not_upper (h : addr < 2 ^ 47) : ¬Upper addr := fun hu => by
  have := hu.1
  omega

/-- In the identity map. -/
theorem contained_low (h : Identity s pdp pd) (haddr : addr < identityEnd)
    (hf : s.fault addr a = some code) :
    Contained s task addr a code ↔ ¬(a.user = true ∧ a.write = true ∧ 0 < s.manager.freeFrames) := by
  obtain ⟨t, ht, huser⟩ := h.translate_low haddr
  -- a refusal that changes nothing
  have hno : ∀ e, s.handlePageFault task code addr = some (s, .error e) →
      Contained s task addr a code := fun e he =>
    ⟨fun _ _ _ _ => ⟨s, e, he, rfl, fun _ _ => rfl⟩, fun s' hs' => by rw [he] at hs'; cases hs'⟩
  obtain ⟨user, write⟩ := a
  rw [Machine.fault, ht] at hf
  dsimp only at hf
  rw [huser] at hf
  cases user with
  | false => cases hf
  | true =>
      cases hf
      cases write with
      | false => exact iff_of_true (hno .kAlreadyAllocated rfl) fun hw => by cases hw.2.1
      | true =>
          have hcopy : s.handlePageFault task ⟨true, true, true⟩ addr = s.copyOnePage addr := rfl
          cases halloc : s.manager.allocate with
          | none =>
              have hfree := BitmapMemoryManager.allocate_none.mp halloc
              refine iff_of_true (hno .kNoEnoughMemory ?_) fun hw => by omega
              rw [hcopy, Machine.copyOnePage, Machine.newPageMap, halloc]
          | some r =>
              obtain ⟨m, g⟩ := r
              have hfree := BitmapMemoryManager.allocate_freeFrames halloc
              refine iff_of_false (fun hc => ?_) fun hn => hn ⟨rfl, rfl, by omega⟩
              obtain ⟨s', e, he, -⟩ := hc.refused t rfl ht huser
              rw [hcopy, Machine.copyOnePage, Machine.newPageMap, halloc] at he
              obtain ⟨page, -, he⟩ := Option.bind_eq_some_iff.mp he
              cases he

/-- Behind the identity map. -/
theorem contained_beyond (h : Identity s pdp pd) (hge : identityEnd ≤ addr) (hlt : addr < 2 ^ 47)
    (hf : s.fault addr a = some code) :
    Contained s task addr a code ↔
      ¬(task.Claims addr ∧ missing addr ≤ s.manager.freeFrames) := by
  have htrans := h.translate_beyond hge hlt
  have hupper := not_upper hlt
  rw [Machine.fault, htrans] at hf
  cases hf
  -- nothing is refused that is not there, and nothing may be taken
  have hiff : Contained s task addr a ⟨false, a.write, a.user⟩ ↔
      ∀ s', s.handlePageFault task ⟨false, a.write, a.user⟩ addr ≠ some (s', .ok ()) := by
    constructor
    · exact fun hc s' hs' => hupper (hc.taken s' hs').1
    · intro hnot
      refine ⟨fun t _ ht => ?_, fun s' hs' => absurd hs' (hnot s')⟩
      rw [htrans] at ht
      cases ht
  rw [hiff, Task.Claims, Machine.handlePageFault]
  simp only [Bool.false_and, Bool.false_eq_true, if_false]
  by_cases hd : task.dpagingBegin ≤ addr ∧ addr < task.dpagingEnd
  · rw [if_pos hd, and_iff_right (.inl hd)]
    obtain ⟨⟨s₁, r⟩, hr⟩ : ∃ x, s.setupPageMaps addr 1 true = x := ⟨_, rfl⟩
    obtain ⟨hok, -⟩ := h.setup_beyond hge hlt hr
    rw [hr, ← hok]
    constructor
    · rintro hnot rfl
      exact hnot s₁ rfl
    · rintro hnot s' hs'
      cases hs'
      exact hnot rfl
  · rw [if_neg hd, or_iff_right hd]
    cases hm : Machine.findFileMapping task.fileMaps addr with
    | none => exact iff_of_true (fun s' hs' => by cases hs') fun hn => by cases hn.1
    | some m =>
        rw [Option.isSome_some, and_iff_right rfl, ← missing_page]
        rw [identityEnd] at hge
        have hge' : identityEnd ≤ addr / 4096 * 4096 := by rw [identityEnd]; omega
        obtain ⟨⟨s₁, r⟩, hr⟩ : ∃ x, s.setupPageMaps (addr / 4096 * 4096) 1 true = x := ⟨_, rfl⟩
        obtain ⟨hok, hmapped⟩ := h.setup_beyond hge' (by omega) hr
        dsimp only
        rw [Machine.preparePageCache, hr, ← hok]
        cases r with
        | error e => exact iff_of_true (fun s' hs' => by cases hs') fun hn => by cases hn
        | ok u =>
            obtain ⟨cache, hcache⟩ := Option.isSome_iff_exists.mp (hmapped rfl)
            refine iff_of_false (fun hnot => ?_) fun hn => hn rfl
            dsimp only at hnot
            rw [hcache] at hnot
            exact hnot _ rfl

/-- **Page faults** stay away from the kernel exactly when they do not escape. -/
theorem fault_contained_iff (hspace : Space s s.cr3 O I) (h : Identity s pdp pd)
    (haddr : addr < 2 ^ 47 ∨ Upper addr) (hf : s.fault addr a = some code) :
    Contained s task addr a code ↔ ¬Escapes s task addr a := by
  rw [Escapes]
  rcases haddr with hlt | hupper
  · by_cases hlow : addr < identityEnd
    · have hge : ¬identityEnd ≤ addr := not_le.mpr hlow
      rw [contained_low h hlow hf, or_iff_left fun hb => hge hb.1, and_iff_right hlow]
    · have hge : identityEnd ≤ addr := not_lt.mp hlow
      rw [contained_beyond h hge hlt hf, or_iff_right fun hb => hlow hb.2.2.1, and_iff_right hge,
        and_iff_right hlt]
  · refine iff_of_true (contained_upper hspace hupper hf) (not_or.mpr ⟨fun hb => ?_, fun hb => ?_⟩)
    · have hlow := hb.2.2.1.trans (by decide : identityEnd < 2 ^ 47)
      exact not_upper hlow hupper
    · exact not_upper hb.2.1 hupper

end

/-! ## A machine with the identity map -/

/-- The tables of the kernel are in the frames 1 to 66, the frames 100 to 199 are for
allocation. -/
def bootMachine : Machine where
  mem f i :=
    if f = 1 then if i = 0 then ⟨true, true, false, false, 2, 0⟩ else .zero
    else if f = 2 then if i.val < 64 then ⟨true, true, false, false, i.val + 3, 0⟩ else .zero
    else if f < 3 then .zero
    else if f < 67 then ⟨true, true, false, true, ((f - 3) * 512 + i.val) * 512, 0⟩
    else .zero
  manager := ⟨fun f => decide (f < 100), 100, 200, by decide⟩
  cr3 := 1

theorem bootMachine_identity : Identity bootMachine 2 (fun k => k.val + 3) where
  first := ⟨0, rfl⟩
  others k hk _ := if_neg fun h => by rw [h] at hk; exact Nat.lt_irrefl 0 hk
  directories k hk := ⟨0, if_pos hk⟩
  beyond k hk := if_neg (not_lt.mpr hk)
  pages k i := by
    refine ⟨0, ?_⟩
    have h1 : ¬k.val + 3 = 1 := by omega
    have h2 : ¬k.val + 3 = 2 := by omega
    have h3 : ¬k.val + 3 < 3 := by omega
    have h4 : k.val + 3 < 67 := by omega
    simp only [bootMachine, if_neg h1, if_neg h2, if_neg h3, if_pos h4, Nat.add_sub_cancel]
  ne := by decide
  root := rfl
  table := rfl

theorem bootMachine_space : Space bootMachine 1 {1} ∅ := by
  refine (space_of_zero (fun i hi => ?_) (Set.notMem_empty 1) fun f hf => ?_).1
  · have h0 : i ≠ 0 := fun h => by rw [h] at hi; exact absurd hi (by decide)
    exact if_neg h0
  · obtain rfl : f = 1 := hf.resolve_right (Set.notMem_empty f)
    exact rfl

/-- A task without demand region and mappings. -/
def plainTask : Task := ⟨0, 0, [], fun _ _ words => words⟩

/-- A program reads at the address 4096. -/
theorem bootMachine_contained :
    Contained bootMachine plainTask 0x1000 ⟨true, false⟩ ⟨true, false, true⟩ := by
  refine (fault_contained_iff bootMachine_space bootMachine_identity (.inl (by decide))
    (by decide +kernel)).mpr ?_
  rintro (h | h)
  · cases h.2.1
  · exact absurd h.1 (by decide)

/-- A program writes at 2 MiB: the fault is taken, and the first word of that page is
another one now. -/
theorem bootMachine_escapes :
    bootMachine.fault 0x200000 ⟨true, true⟩ = some ⟨true, true, true⟩ ∧
      ¬Contained bootMachine plainTask 0x200000 ⟨true, true⟩ ⟨true, true, true⟩ ∧
      (bootMachine.handlePageFault plainTask ⟨true, true, true⟩ 0x200000).map
        (fun r => (r.2.isOk, decide (r.1.mem 512 0 = bootMachine.mem 512 0))) = some (true, false) := by
  have hrun : (bootMachine.handlePageFault plainTask ⟨true, true, true⟩ 0x200000).map
      (fun r => (r.2.isOk, decide (r.1.mem 512 0 = bootMachine.mem 512 0))) = some (true, false) := by
    decide +kernel
  refine ⟨by decide +kernel, fun hc => ?_, hrun⟩
  obtain ⟨t, ht, huser⟩ := bootMachine_identity.translate_low (by decide : 0x200000 < identityEnd)
  obtain ⟨s', e, he, -⟩ := hc.refused t rfl ht huser
  rw [he] at hrun
  cases hrun

end Laplus.Paging
