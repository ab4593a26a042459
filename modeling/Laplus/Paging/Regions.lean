/-
# `Laplus.Paging.Regions` — demand paging and file mappings (`syscall.cpp`)

The addresses from the end of the image up to the stack are handed out at both ends:
`DemandPages` moves `DPagingEnd` up and `MapFile` moves `FileMapEnd` down, without a look
at the other.  `HandlePageFault` asks the demand region first, then the mappings in
order.

`regions_apart_iff` says when the regions stay apart: as long as each call finds the room
that it takes.
-/
import Laplus.Paging.Task
import Laplus.Lib.Run

namespace Laplus.Paging

open Lib

/-! ## The system calls -/

/-- What `MapFile` and `HandlePageFault` ask of a descriptor. -/
structure FileDescriptor where
  size : Nat
  load : Nat → (Fin 512 → PageMapEntry) → Fin 512 → PageMapEntry

/-- The fields of the task that runs the application, and `elf_next_page`. -/
structure App where
  elfNextPage : Nat
  dpagingBegin : Nat
  dpagingEnd : Nat
  fileMapEnd : Nat
  fileMaps : List FileMapping
  files : List (Option FileDescriptor)

/-- `stack_frame_addr`. -/
def stackFrameAddr : Nat := 0xfffffffffffff000 - 16 * 4096

theorem stackFrameAddr_eq : stackFrameAddr = 0xfffffffffffef000 := by
  simp only [stackFrameAddr, Nat.reduceMul, Nat.reduceSub]

namespace App

/-- The regions that `ExecuteFile` sets for an image with this end. -/
def start (vaddrEnd : Nat) (files : List (Option FileDescriptor)) : App :=
  let elfNextPage := (vaddrEnd + 4095) % 2 ^ 64 / 4096 * 4096
  { elfNextPage
    dpagingBegin := elfNextPage
    dpagingEnd := elfNextPage
    fileMapEnd := stackFrameAddr
    fileMaps := []
    files }

/-- `task.Files()[fd]`, if there is one. -/
def file (s : App) (fd : Nat) : Option FileDescriptor := s.files[fd]?.join

/-- `DemandPages`, and the address that it returns. -/
def demandPages (s : App) (numPages : Nat) : App × Nat :=
  ({ s with dpagingEnd := (s.dpagingEnd + 4096 * numPages) % 2 ^ 64 }, s.dpagingEnd)

/-- The mapping goes below the others. -/
def addMapping (s : App) (fd vaddrBegin : Nat) : App :=
  { s with
    fileMapEnd := vaddrBegin
    fileMaps := s.fileMaps ++ [⟨fd, vaddrBegin, s.fileMapEnd⟩] }

/-- `MapFile`; it returns an address and the size of the file, or `EBADF`. -/
def mapFile (s : App) (fd : Int) : App × Option (Nat × Nat) :=
  match if fd < 0 then none else s.file fd.toNat with
  | none => (s, none)
  | some d =>
      let vaddrBegin := (s.fileMapEnd + 2 ^ 64 - d.size) % 2 ^ 64 / 4096 * 4096
      (s.addMapping fd.toNat vaddrBegin, some (vaddrBegin, d.size))

/-- `OpenFile` fills a slot, or the descriptor in a slot is read or written. -/
def setFile (s : App) (fd : Nat) (d : FileDescriptor) : App :=
  { s with files := if fd < s.files.length then s.files.set fd (some d) else s.files ++ [some d] }

/-- What `HandlePageFault` sees of the task. -/
def task (s : App) : Task :=
  ⟨s.dpagingBegin, s.dpagingEnd, s.fileMaps, fun fd offset page =>
    match s.file fd with
    | some d => d.load offset page
    | none => page⟩

end App

/-- Addresses that a call has handed out: for zero pages, or for the bytes of a file. -/
structure Handed where
  start : Nat
  size : Nat
  fd : Option Nat

/-- The application, and what was handed out to it. -/
structure AppSystem where
  app : App
  handed : List Handed

/-- A system call of the application. -/
inductive AppCall where
  | demandPages (numPages : Nat)
  | mapFile (fd : Int)
  | setFile (fd : Nat) (d : FileDescriptor)

namespace AppSystem

/-- `ExecuteFile` starts the application. -/
def start (vaddrEnd : Nat) (files : List (Option FileDescriptor)) : AppSystem :=
  ⟨.start vaddrEnd files, []⟩

def step (s : AppSystem) : AppCall → AppSystem
  | .demandPages numPages =>
      let r := s.app.demandPages numPages
      ⟨r.1, ⟨r.2, 4096 * numPages, none⟩ :: s.handed⟩
  | .mapFile fd =>
      match s.app.mapFile fd with
      | (app, none) => ⟨app, s.handed⟩
      | (app, some (addr, size)) => ⟨app, ⟨addr, size, some fd.toNat⟩ :: s.handed⟩
  | .setFile fd d => { s with app := s.app.setFile fd d }

end AppSystem

/-! ## Regions that are apart -/

/-- The address is in the region. -/
def FileMapping.Has (m : FileMapping) (addr : Nat) : Prop :=
  m.vaddrBegin ≤ addr ∧ addr < m.vaddrEnd

instance (m : FileMapping) (addr : Nat) : Decidable (m.Has addr) :=
  inferInstanceAs (Decidable (m.vaddrBegin ≤ addr ∧ addr < m.vaddrEnd))

/-- The demand region has the address. -/
def App.Demands (s : App) (addr : Nat) : Prop := s.dpagingBegin ≤ addr ∧ addr < s.dpagingEnd

/-- **A fault at the address gets a zero page.** -/
structure GetsZero (task : Task) (addr : Nat) : Prop where
  handled : ∀ (s : Machine) (code : ErrorCode), code.present = false →
    s.handlePageFault task code addr = some (s.setupPageMaps addr 1 true)
  content : ∀ {s s' : Machine} {O I : Set Nat} {code : ErrorCode}, Space s s.cr3 O I →
    Upper addr → s.leaf s.cr3 addr = none → code.present = false →
    s.handlePageFault task code addr = some (s', .ok ()) →
    ∃ e, s'.leaf s.cr3 addr = some e ∧ e.writable = true ∧ s'.mem e.addr = fun _ => .zero

/-- **A fault at the address gets the bytes of the file**, which begin at `vaddrBegin`. -/
structure GetsFile (task : Task) (d : FileDescriptor) (fd vaddrBegin addr : Nat) : Prop where
  handled : ∀ (s : Machine) (code : ErrorCode), code.present = false → ∃ m : FileMapping,
    m.fd = fd ∧ m.vaddrBegin = vaddrBegin ∧ vaddrBegin ≤ addr ∧
      s.handlePageFault task code addr = s.preparePageCache task m addr
  content : ∀ {s s' : Machine} {O I : Set Nat} {code : ErrorCode}, Space s s.cr3 O I →
    Upper addr → s.leaf s.cr3 addr = none → code.present = false →
    s.handlePageFault task code addr = some (s', .ok ()) →
    ∃ e, s'.leaf s.cr3 addr = some e ∧ e.writable = true ∧
      s'.mem e.addr = d.load (addr / 4096 * 4096 - vaddrBegin) fun _ => .zero

/-- A fault at the address gets what the call has promised. -/
def App.Keeps (s : App) (h : Handed) (addr : Nat) : Prop :=
  match h.fd with
  | none => GetsZero s.task addr
  | some fd => ∃ d, s.file fd = some d ∧ GetsFile s.task d fd h.start addr

/-- The regions are in order and apart, and what was handed out does not wrap around and lies in
its region. -/
structure Ordered (s : AppSystem) : Prop where
  first : s.app.elfNextPage = s.app.dpagingBegin
  demand : s.app.dpagingBegin ≤ s.app.dpagingEnd
  room : s.app.dpagingEnd ≤ s.app.fileMapEnd
  last : s.app.fileMapEnd ≤ stackFrameAddr
  maps : ∀ m ∈ s.app.fileMaps, m.vaddrBegin ≤ m.vaddrEnd ∧ m.vaddrEnd ≤ stackFrameAddr
  apart : s.app.fileMaps.Pairwise fun m m' => ∀ addr, ¬(m.Has addr ∧ m'.Has addr)
  demands : ∀ m ∈ s.app.fileMaps, ∀ addr, ¬(s.app.Demands addr ∧ m.Has addr)
  within : ∀ h ∈ s.handed, match h.fd with
    | none => s.app.dpagingBegin ≤ h.start ∧ h.start + h.size ≤ s.app.dpagingEnd
    | some fd => ∃ m ∈ s.app.fileMaps, m.fd = fd ∧ m.vaddrBegin = h.start ∧
        h.start + h.size ≤ m.vaddrEnd

/-- **The regions never collide**, and faults in what was handed out get what was promised. -/
structure Apart (s : AppSystem) : Prop extends Ordered s where
  keeps : ∀ h ∈ s.handed, ∀ addr, h.start ≤ addr → addr < h.start + h.size →
    s.app.Keeps h addr

/-- The call finds the room that it takes. -/
def AppSystem.Fits (s : AppSystem) : AppCall → Prop
  | .demandPages numPages => s.app.dpagingEnd + 4096 * numPages ≤ s.app.fileMapEnd
  | .mapFile fd => ∀ d, 0 ≤ fd → s.app.file fd.toNat = some d →
      s.app.dpagingEnd + d.size ≤ s.app.fileMapEnd
  | .setFile _ _ => True

/-! ## Faults -/

theorem findFileMapping_eq_some {maps : List FileMapping} {m : FileMapping} {addr : Nat}
    (hm : m ∈ maps) (hhas : m.Has addr)
    (hapart : maps.Pairwise fun m m' => ∀ addr, ¬(m.Has addr ∧ m'.Has addr)) :
    Machine.findFileMapping maps addr = some m := by
  induction maps with
  | nil => cases hm
  | cons m' maps ih =>
      obtain ⟨hfirst, hapart⟩ := List.pairwise_cons.mp hapart
      rw [Machine.findFileMapping, List.find?_cons]
      rcases List.mem_cons.mp hm with rfl | hm
      · have hself : decide (m.vaddrBegin ≤ addr ∧ addr < m.vaddrEnd) = true :=
          decide_eq_true hhas
        rw [hself]
      · have hnot : ¬m'.Has addr := fun hhas' => hfirst m hm addr ⟨hhas', hhas⟩
        have hother : decide (m'.vaddrBegin ≤ addr ∧ addr < m'.vaddrEnd) = false :=
          decide_eq_false hnot
        rw [hother]
        exact ih hm hapart

section

variable {s s' : Machine} {O I : Set Nat} {addr : Nat}

/-- **A new page is zero.** -/
theorem setupPageMaps_zero (h : Space s s.cr3 O I) (haddr : Upper addr)
    (hnone : s.leaf s.cr3 addr = none) (hr : s.setupPageMaps addr 1 true = (s', .ok ())) :
    ∃ e, s'.leaf s.cr3 addr = some e ∧ e.writable = true ∧ s'.mem e.addr = fun _ => .zero := by
  obtain ⟨_, _, hok⟩ := setupPageMaps_absent h haddr hnone hr
  obtain ⟨e, he, hw⟩ := hok rfl
  rw [setupPageMaps_one, path_eq] at hr
  obtain ⟨e', he', hzero⟩ := setupPath_zero (p := []) (r := (place addr).1)
    (i := (place addr).2) h (tableAt_root s s.cr3) rfl
    (decide_eq_true haddr.part) hnone hr
  have hsame : some e = some e' := he.symm.trans he'
  exact ⟨e, he, hw, Option.some.inj hsame ▸ hzero⟩

/-- **A new page has the bytes of the file.** -/
theorem preparePageCache_content {task : Task} {m : FileMapping} (h : Space s s.cr3 O I)
    (haddr : Upper addr) (hnone : s.leaf s.cr3 addr = none)
    (hr : s.preparePageCache task m addr = some (s', .ok ())) :
    ∃ e, s'.leaf s.cr3 addr = some e ∧ e.writable = true ∧
      s'.mem e.addr = task.load m.fd
        ((addr / 4096 * 4096 + 2 ^ 64 - m.vaddrBegin) % 2 ^ 64) fun _ => .zero := by
  have hnone' : s.leaf s.cr3 (addr / 4096 * 4096) = none := leaf_page.trans hnone
  rw [Machine.preparePageCache] at hr
  cases hcall : s.setupPageMaps (addr / 4096 * 4096) 1 true with
  | mk s₁ r =>
      rw [hcall] at hr
      cases r with
      | error e => cases hr
      | ok u =>
          obtain ⟨_, hworks, _⟩ := setupPageMaps_absent h haddr.page hnone' hcall
          obtain ⟨e, he, hw, hzero⟩ := setupPageMaps_zero h haddr.page hnone' hcall
          have htrans : translate s₁.mem s₁.cr3 (path (addr / 4096 * 4096)) = some e.mapping := by
            rw [hworks.cr3, translate_upper hworks.space haddr.page, he]
            rfl
          simp only [htrans] at hr
          cases hr
          have hframe : e.mapping.frame = e.addr := rfl
          rw [hframe, hzero]
          refine ⟨e, ?_, hw, ?_⟩
          · rw [← leaf_page, Machine.leaf, (hworks.space.fill_leaf he rfl _).2]
            exact he
          · rw [Machine.fill_mem, Function.update_self]

end

/-! ## What the calls keep -/

/-- Pages are handed out whole, and the descriptors of the mappings stay. -/
structure Aligned (s : AppSystem) : Prop where
  dpagingEnd : s.app.dpagingEnd % 4096 = 0
  fileMapEnd : s.app.fileMapEnd % 4096 = 0
  maps : ∀ m ∈ s.app.fileMaps, s.app.fileMapEnd ≤ m.vaddrBegin ∧ m.vaddrBegin % 4096 = 0
  opened : ∀ m ∈ s.app.fileMaps, ∃ d, s.app.file m.fd = some d

variable {s : AppSystem}

theorem App.Demands.getsZero {addr : Nat} (hdemands : s.app.Demands addr) :
    GetsZero s.app.task addr := by
  have hhandled : ∀ (m : Machine) (code : ErrorCode), code.present = false →
      m.handlePageFault s.app.task code addr = some (m.setupPageMaps addr 1 true) := by
    intro m code hcode
    rw [Machine.handlePageFault, hcode]
    exact if_pos hdemands
  refine ⟨hhandled, fun hspace haddr hnone hcode hr => ?_⟩
  rw [hhandled _ _ hcode] at hr
  exact setupPageMaps_zero hspace haddr hnone (Option.some.inj hr)

theorem Ordered.getsFile (h : Ordered s) (hj : Aligned s) {m : FileMapping} {addr : Nat}
    {d : FileDescriptor} (hm : m ∈ s.app.fileMaps) (hhas : m.Has addr)
    (hd : s.app.file m.fd = some d) : GetsFile s.app.task d m.fd m.vaddrBegin addr := by
  have hfind := findFileMapping_eq_some hm hhas h.apart
  have hhandled : ∀ (k : Machine) (code : ErrorCode), code.present = false →
      k.handlePageFault s.app.task code addr = k.preparePageCache s.app.task m addr := by
    intro k code hcode
    have hnot : ¬(s.app.task.dpagingBegin ≤ addr ∧ addr < s.app.task.dpagingEnd) :=
      fun hdemands => h.demands m hm addr ⟨hdemands, hhas⟩
    have hmaps : s.app.task.fileMaps = s.app.fileMaps := rfl
    rw [Machine.handlePageFault, hcode, hmaps, hfind]
    exact if_neg hnot
  refine ⟨fun k code hcode => ⟨m, rfl, rfl, hhas.1, hhandled k code hcode⟩,
    fun hspace haddr hnone hcode hr => ?_⟩
  rw [hhandled _ _ hcode] at hr
  obtain ⟨e, he, hw, hcontent⟩ := preparePageCache_content hspace haddr hnone hr
  -- the mapping begins at a page
  have hbegin := (hj.maps m hm).2
  have hle := hhas.1
  have hlt := haddr.2
  have hoffset : (addr / 4096 * 4096 + 2 ^ 64 - m.vaddrBegin) % 2 ^ 64 =
      addr / 4096 * 4096 - m.vaddrBegin := by omega
  have hload : s.app.task.load m.fd = d.load := by
    funext offset page
    simp only [App.task, hd]
  rw [hoffset, hload] at hcontent
  exact ⟨e, he, hw, hcontent⟩

/-- **Regions that are in order keep what was promised.** -/
theorem Ordered.toApart (h : Ordered s) (hj : Aligned s) : Apart s := by
  refine { toOrdered := h, keeps := fun g hg addr hstart hlt => ?_ }
  have hwithin := h.within g hg
  rw [App.Keeps]
  cases hfd : g.fd with
  | none =>
      simp only [hfd] at hwithin ⊢
      exact App.Demands.getsZero ⟨hwithin.1.trans hstart, hlt.trans_le hwithin.2⟩
  | some fd =>
      simp only [hfd] at hwithin ⊢
      obtain ⟨m, hm, rfl, hbegin, hend⟩ := hwithin
      obtain ⟨d, hd⟩ := hj.opened m hm
      refine ⟨d, hd, hbegin ▸ h.getsFile hj hm ⟨hbegin.le.trans hstart, hlt.trans_le hend⟩ hd⟩

/-- **`DemandPages`** takes its room above `DPagingEnd`. -/
theorem Ordered.demandPages_iff (h : Ordered s) (hj : Aligned s) (n : Nat) :
    Ordered (s.step (.demandPages n)) ↔ s.Fits (.demandPages n) := by
  have hstack := stackFrameAddr_eq
  have hlast := h.last
  constructor
  · intro h'
    have hwithin := h'.within ⟨s.app.dpagingEnd, 4096 * n, none⟩ List.mem_cons_self
    exact hwithin.2.trans h'.room
  · intro hfits
    have hfits : s.app.dpagingEnd + 4096 * n ≤ s.app.fileMapEnd := hfits
    have hend : (s.step (.demandPages n)).app.dpagingEnd = s.app.dpagingEnd + 4096 * n :=
      Nat.mod_eq_of_lt (by omega)
    have hgrows : s.app.dpagingEnd ≤ (s.step (.demandPages n)).app.dpagingEnd := by
      rw [hend]
      exact Nat.le_add_right _ _
    constructor
    case first => exact h.first
    case demand => exact h.demand.trans hgrows
    case room =>
      rw [hend]
      exact hfits
    case last => exact h.last
    case maps => exact h.maps
    case apart => exact h.apart
    case demands =>
      rintro m hm addr ⟨⟨_, hlt⟩, hle, _⟩
      have habove := (hj.maps m hm).1
      rw [hend] at hlt
      omega
    case within =>
      intro g hg
      rcases List.mem_cons.mp hg with rfl | hg
      · exact ⟨h.demand, hend.ge⟩
      · have hold := h.within g hg
        cases hfd : g.fd with
        | none =>
            simp only [hfd] at hold ⊢
            exact ⟨hold.1, hold.2.trans hgrows⟩
        | some fd =>
            simp only [hfd] at hold ⊢
            exact hold

/-- What `MapFile` does with a descriptor. -/
theorem AppSystem.step_mapFile {fd : Int} {d : FileDescriptor} {vaddrBegin : Nat} (hfd : 0 ≤ fd)
    (hd : s.app.file fd.toNat = some d)
    (hbegin : (s.app.fileMapEnd + 2 ^ 64 - d.size) % 2 ^ 64 / 4096 * 4096 = vaddrBegin) :
    s.step (.mapFile fd) = ⟨s.app.addMapping fd.toNat vaddrBegin,
      ⟨vaddrBegin, d.size, some fd.toNat⟩ :: s.handed⟩ := by
  have hlt : ¬fd < 0 := by omega
  simp only [step, App.mapFile, if_neg hlt, hd, hbegin]

/-- `MapFile` without a descriptor is `EBADF`. -/
theorem AppSystem.step_mapFile_bad {fd : Int} (hbad : ¬(0 ≤ fd ∧ s.app.file fd.toNat ≠ none)) :
    s.step (.mapFile fd) = s := by
  have hnone : (if fd < 0 then none else s.app.file fd.toNat) = none := by
    split
    · rfl
    · by_contra hsome
      exact hbad ⟨by omega, hsome⟩
  simp only [step, App.mapFile, hnone]

/-- **`MapFile`** takes its room below `FileMapEnd`. -/
theorem Ordered.mapFile_iff (h : Ordered s) (hj : Aligned s) {fd : Int} {d : FileDescriptor}
    (hfd : 0 ≤ fd) (hd : s.app.file fd.toNat = some d) :
    Ordered (s.step (.mapFile fd)) ↔ s.app.dpagingEnd + d.size ≤ s.app.fileMapEnd := by
  have hlast := h.last
  have hroom := h.room
  have hend := hj.dpagingEnd
  have hmapEnd := hj.fileMapEnd
  have hstack := stackFrameAddr_eq
  obtain ⟨vaddrBegin, hbegin⟩ : ∃ vaddrBegin,
      (s.app.fileMapEnd + 2 ^ 64 - d.size) % 2 ^ 64 / 4096 * 4096 = vaddrBegin := ⟨_, rfl⟩
  rw [AppSystem.step_mapFile hfd hd hbegin]
  constructor
  · intro h'
    obtain ⟨m, hm, _, hstart, hin⟩ :=
      h'.within ⟨vaddrBegin, d.size, some fd.toNat⟩ List.mem_cons_self
    have hroom' : s.app.dpagingEnd ≤ vaddrBegin := h'.room
    have hnew := List.mem_append_right s.app.fileMaps
      (List.mem_singleton_self (⟨fd.toNat, vaddrBegin, s.app.fileMapEnd⟩ : FileMapping))
    have hbelow : vaddrBegin ≤ s.app.fileMapEnd := (h'.maps _ hnew).1
    have hin : vaddrBegin + d.size ≤ m.vaddrEnd := hin
    rcases List.mem_append.mp hm with hm | hm
    · -- an older mapping begins here only if the file is empty
      have habove := (hj.maps m hm).1
      have hend := (h.maps m hm).2
      have hstart : m.vaddrBegin = vaddrBegin := hstart
      omega
    · rw [List.mem_singleton.mp hm] at hin
      have hin : vaddrBegin + d.size ≤ s.app.fileMapEnd := hin
      omega
  · intro hfits
    have hle : vaddrBegin + d.size ≤ s.app.fileMapEnd := by omega
    have hge : s.app.dpagingEnd ≤ vaddrBegin := by omega
    constructor
    case first => exact h.first
    case demand => exact h.demand
    case room => exact hge
    case last => exact (Nat.le_add_right _ _).trans (hle.trans hlast)
    case maps =>
      intro m hm
      rcases List.mem_append.mp hm with hm | hm
      · exact h.maps m hm
      · rw [List.mem_singleton.mp hm]
        exact ⟨(Nat.le_add_right _ _).trans hle, hlast⟩
    case apart =>
      refine List.pairwise_append.mpr ⟨h.apart, List.pairwise_singleton _ _, fun m hm m' hm' => ?_⟩
      rw [List.mem_singleton.mp hm']
      rintro addr ⟨⟨habove, _⟩, _, hlt⟩
      exact absurd ((hj.maps m hm).1.trans habove) (Nat.not_le.mpr hlt)
    case demands =>
      intro m hm
      rcases List.mem_append.mp hm with hm | hm
      · exact h.demands m hm
      · rw [List.mem_singleton.mp hm]
        rintro addr ⟨⟨_, hlt⟩, habove, _⟩
        exact absurd (hge.trans habove) (Nat.not_le.mpr hlt)
    case within =>
      intro g hg
      rcases List.mem_cons.mp hg with rfl | hg
      · exact ⟨_, List.mem_append_right _ List.mem_cons_self, rfl, rfl, hle⟩
      · have hold := h.within g hg
        cases hfd : g.fd with
        | none =>
            simp only [hfd] at hold ⊢
            exact hold
        | some fd' =>
            simp only [hfd] at hold ⊢
            obtain ⟨m, hm, hrest⟩ := hold
            exact ⟨m, List.mem_append_left _ hm, hrest⟩

/-- The descriptors that are open stay so. -/
theorem App.file_setFile {fd fd' : Nat} {d d' : FileDescriptor} (h : s.app.file fd = some d) :
    ∃ d₁, (s.app.setFile fd' d').file fd = some d₁ := by
  have hopen : s.app.files[fd]? = some (some d) := Option.join_eq_some_iff.mp h
  have hlt : fd < s.app.files.length := (List.getElem?_eq_some_iff.mp hopen).1
  rw [App.file, App.setFile]
  simp only
  split
  · by_cases heq : fd' = fd
    · subst heq
      rw [List.getElem?_set_self hlt]
      exact ⟨d', rfl⟩
    · rw [List.getElem?_set_ne heq, hopen]
      exact ⟨d, rfl⟩
  · rw [List.getElem?_append_left hlt, hopen]
    exact ⟨d, rfl⟩

/-- **A call** keeps the order exactly when it finds its room. -/
theorem Ordered.step_iff (h : Ordered s) (hj : Aligned s) (c : AppCall) :
    Ordered (s.step c) ↔ s.Fits c := by
  cases c with
  | demandPages n => exact h.demandPages_iff hj n
  | mapFile fd =>
      by_cases hopen : 0 ≤ fd ∧ s.app.file fd.toNat ≠ none
      · obtain ⟨hfd, hsome⟩ := hopen
        obtain ⟨d, hd⟩ := Option.ne_none_iff_exists'.mp hsome
        rw [h.mapFile_iff hj hfd hd]
        constructor
        · intro hfits d' _ hd'
          rw [hd] at hd'
          exact Option.some.inj hd' ▸ hfits
        · exact fun hfits => hfits d hfd hd
      · rw [AppSystem.step_mapFile_bad hopen]
        refine iff_of_true h fun d hfd hd => absurd ⟨hfd, ?_⟩ hopen
        rw [hd]
        exact Option.some_ne_none d
  | setFile fd d =>
      exact iff_of_true ⟨h.first, h.demand, h.room, h.last, h.maps, h.apart, h.demands, h.within⟩
        trivial

theorem Aligned.step (hj : Aligned s) (h : Ordered s) {c : AppCall} (h' : Ordered (s.step c)) :
    Aligned (s.step c) := by
  have hfits := (h.step_iff hj c).mp h'
  have hend := hj.dpagingEnd
  have hmapEnd := hj.fileMapEnd
  cases c with
  | demandPages n =>
      refine ⟨?_, hj.fileMapEnd, hj.maps, hj.opened⟩
      have hnew : (s.step (.demandPages n)).app.dpagingEnd =
          (s.app.dpagingEnd + 4096 * n) % 2 ^ 64 := rfl
      rw [hnew]
      omega
  | mapFile fd =>
      by_cases hopen : 0 ≤ fd ∧ s.app.file fd.toNat ≠ none
      · obtain ⟨hfd, hsome⟩ := hopen
        obtain ⟨d, hd⟩ := Option.ne_none_iff_exists'.mp hsome
        have hfits : s.app.dpagingEnd + d.size ≤ s.app.fileMapEnd := hfits d hfd hd
        have hlast := h.last
        have hstack := stackFrameAddr_eq
        obtain ⟨vaddrBegin, hbegin⟩ : ∃ vaddrBegin,
            (s.app.fileMapEnd + 2 ^ 64 - d.size) % 2 ^ 64 / 4096 * 4096 = vaddrBegin := ⟨_, rfl⟩
        have hpage : vaddrBegin % 4096 = 0 := by omega
        have hle : vaddrBegin ≤ s.app.fileMapEnd := by omega
        rw [AppSystem.step_mapFile hfd hd hbegin]
        refine ⟨hj.dpagingEnd, hpage, fun m hm => ?_, fun m hm => ?_⟩
        · rcases List.mem_append.mp hm with hm | hm
          · exact ⟨hle.trans (hj.maps m hm).1, (hj.maps m hm).2⟩
          · rw [List.mem_singleton.mp hm]
            exact ⟨Nat.le_refl _, hpage⟩
        · rcases List.mem_append.mp hm with hm | hm
          · exact hj.opened m hm
          · rw [List.mem_singleton.mp hm]
            exact ⟨d, hd⟩
      · rw [AppSystem.step_mapFile_bad hopen]
        exact hj
  | setFile fd d =>
      refine ⟨hj.dpagingEnd, hj.fileMapEnd, hj.maps, fun m hm => ?_⟩
      obtain ⟨d', hd'⟩ := hj.opened m hm
      exact App.file_setFile hd'

/-! ## Every sequence of calls -/

theorem ordered_start {vaddrEnd : Nat} {files : List (Option FileDescriptor)} :
    Ordered (.start vaddrEnd files) ↔ (App.start vaddrEnd files).elfNextPage ≤ stackFrameAddr := by
  constructor
  · exact fun h => h.room
  · intro hle
    exact ⟨rfl, Nat.le_refl _, hle, Nat.le_refl _, fun m hm => (by cases hm), List.Pairwise.nil,
      fun m hm => (by cases hm), fun g hg => (by cases hg)⟩

theorem aligned_start (vaddrEnd : Nat) (files : List (Option FileDescriptor)) :
    Aligned (.start vaddrEnd files) where
  dpagingEnd := Nat.mul_mod_left _ _
  fileMapEnd := by
    have hstack := stackFrameAddr_eq
    have hstart : (AppSystem.start vaddrEnd files).app.fileMapEnd = stackFrameAddr := rfl
    rw [hstart]
    omega
  maps m hm := by cases hm
  opened m hm := by cases hm

/-- **The regions stay apart, and faults get what was promised, in every state of a run, exactly
when the image ends below the stack and each call of the run finds the room that it takes.** -/
theorem regions_apart_iff (vaddrEnd : Nat) (files : List (Option FileDescriptor))
    (cs : List AppCall) :
    (∀ cs', cs' <+: cs → Apart (run AppSystem.step (.start vaddrEnd files) cs')) ↔
      (App.start vaddrEnd files).elfNextPage ≤ stackFrameAddr ∧
        Guarded AppSystem.step AppSystem.Fits (.start vaddrEnd files) cs := by
  have hruns := fun hstart => admitted_prefix_iff Aligned Apart
    (fun _ _ hj h _ h' => hj.step h.toOrdered h'.toOrdered)
    (fun _ c hj h _ => ⟨fun h' => (h.step_iff hj c).mp h'.toOrdered, fun hfits =>
      have h' := (h.step_iff hj c).mpr hfits
      h'.toApart (hj.step h.toOrdered h')⟩)
    (aligned_start vaddrEnd files) hstart (guarded_true AppSystem.step _ cs)
  constructor
  · intro hall
    have hstart := hall [] List.nil_prefix
    exact ⟨ordered_start.mp hstart.toOrdered, (hruns hstart).mp hall⟩
  · rintro ⟨hle, hguarded⟩
    exact (hruns ((ordered_start.mpr hle).toApart (aligned_start vaddrEnd files))).mpr hguarded

/-- `DemandPages` for 128 TiB. -/
def tooManyPages : List AppCall := [.demandPages (2 ^ 35)]

/-- **The end of the demand region wraps around.** -/
theorem tooManyPages_wraps :
    ¬Apart (run AppSystem.step (.start 0xffff800000000800 []) tooManyPages) := by
  intro h
  have hle := h.demand
  revert hle
  decide +kernel

end Laplus.Paging
