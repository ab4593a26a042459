/-
# `Laplus.Paging.Memory` — frames, entries and the walk of the processor

Physical memory is a table of frames of 512 words; a word is read through the
fields of the union `PageMapEntry`, whether its frame is a page table or a page.
Frames are named by their number, as in `FrameID` and in the field `addr`.

`translate` is what the processor does with an address, large pages and
access bits included.
-/
import Laplus.Lib.Radix
import Mathlib.Algebra.GroupWithZero.Nat
import Mathlib.Data.Fintype.Fin
import Mathlib.Data.List.FinRange

namespace Laplus.Paging

open Lib

/-- The number of words in a frame. -/
instance entries_neZero : NeZero 512 := ⟨Nat.succ_ne_zero 511⟩

/-! ## Entries and frames -/

/-- The errors of this part of the kernel. -/
inductive Error where
  | kNoEnoughMemory
  | kAlreadyAllocated
  | kIndexOutOfRange
  | kInvalidFormat
deriving DecidableEq

/-- `PageMapEntry`; `rest` are the bits that the code only copies. -/
structure PageMapEntry where
  present : Bool
  writable : Bool
  user : Bool
  hugePage : Bool
  addr : Nat
  rest : Nat
deriving DecidableEq

/-- A word of zeros. -/
def PageMapEntry.zero : PageMapEntry := ⟨false, false, false, false, 0, 0⟩

/-- `SetPointer`: the field has 40 bits. -/
def PageMapEntry.setPointer (e : PageMapEntry) (frame : Nat) : PageMapEntry :=
  { e with addr := frame % 2 ^ 40 }

/-- `kFrameCount`: 128 GiB. -/
def kFrameCount : Nat := 2 ^ 25

/-- `BitmapMemoryManager`. -/
structure BitmapMemoryManager where
  allocMap : Nat → Bool
  rangeBegin : Nat
  rangeEnd : Nat
  rangeEnd_le : rangeEnd ≤ kFrameCount

namespace BitmapMemoryManager

/-- `SetBit`. -/
def setBit (m : BitmapMemoryManager) (frame : Nat) (allocated : Bool) : BitmapMemoryManager :=
  { m with allocMap := Function.update m.allocMap frame allocated }

/-- `Allocate(1)`: the first frame of the range that is free. -/
def allocate (m : BitmapMemoryManager) : Option (BitmapMemoryManager × Nat) :=
  ((List.range' m.rangeBegin (m.rangeEnd - m.rangeBegin)).find? (!m.allocMap ·)).map fun f =>
    (m.setBit f true, f)

/-- `Free(frame, 1)`. -/
def free (m : BitmapMemoryManager) (frame : Nat) : BitmapMemoryManager := m.setBit frame false

/-- What is allocated was free, and lies in the range. -/
theorem allocate_some {m m' : BitmapMemoryManager} {f : Nat} (h : m.allocate = some (m', f)) :
    m.allocMap f = false ∧ f < kFrameCount ∧ m' = m.setBit f true := by
  obtain ⟨g, hg, h⟩ := Option.map_eq_some_iff.mp h
  cases h
  have hmem := List.mem_range'_1.mp (List.mem_of_find?_eq_some hg)
  have hfree := List.find?_some hg
  have hle := m.rangeEnd_le
  refine ⟨by simpa using hfree, ?_, rfl⟩
  omega

end BitmapMemoryManager

/-- The words of the frames. -/
abbrev Memory := Nat → Fin 512 → PageMapEntry

/-- Memory, the memory manager, and the frame that `CR3` points to. -/
structure Machine where
  mem : Memory
  manager : BitmapMemoryManager
  cr3 : Nat

namespace Machine

/-- A frame in use. -/
def Allocated (s : Machine) (frame : Nat) : Prop := s.manager.allocMap frame = true

/-- A word is written. -/
def store (s : Machine) (frame : Nat) (i : Fin 512) (e : PageMapEntry) : Machine :=
  { s with mem := Radix.set s.mem frame i e }

/-- All words of a frame are written. -/
def fill (s : Machine) (frame : Nat) (words : Fin 512 → PageMapEntry) : Machine :=
  { s with mem := Function.update s.mem frame words }

/-- `NewPageMap`. -/
def newPageMap (s : Machine) : Machine × Except Error Nat :=
  match s.manager.allocate with
  | none => (s, .error .kNoEnoughMemory)
  | some (manager, frame) =>
      ({ s with manager }.fill frame fun _ => .zero, .ok frame)

/-- `memory_manager->Free(frame, 1)`. -/
def free (s : Machine) (frame : Nat) : Machine := { s with manager := s.manager.free frame }

section

variable (s : Machine) (f : Nat) (i : Fin 512) (e : PageMapEntry) (w : Fin 512 → PageMapEntry)

@[simp] theorem store_mem : (s.store f i e).mem = Radix.set s.mem f i e := rfl
@[simp] theorem store_manager : (s.store f i e).manager = s.manager := rfl
@[simp] theorem store_cr3 : (s.store f i e).cr3 = s.cr3 := rfl
@[simp] theorem fill_mem : (s.fill f w).mem = Function.update s.mem f w := rfl
@[simp] theorem fill_manager : (s.fill f w).manager = s.manager := rfl
@[simp] theorem fill_cr3 : (s.fill f w).cr3 = s.cr3 := rfl
@[simp] theorem free_mem : (s.free f).mem = s.mem := rfl
@[simp] theorem free_cr3 : (s.free f).cr3 = s.cr3 := rfl

theorem store_store (e' : PageMapEntry) : (s.store f i e).store f i e' = s.store f i e' := by
  simp only [store, Radix.set_set]

end

/-- The frames in use after one is freed. -/
theorem free_allocated {s : Machine} {f g : Nat} :
    (s.free f).Allocated g ↔ s.Allocated g ∧ g ≠ f := by
  by_cases hg : g = f
  · subst hg
    simp [Allocated, free, BitmapMemoryManager.free, BitmapMemoryManager.setBit]
  · simp [Allocated, free, BitmapMemoryManager.free, BitmapMemoryManager.setBit, hg]

/-- The new table is a frame that was free, and is zero. -/
theorem newPageMap_ok {s s' : Machine} {f : Nat} (h : s.newPageMap = (s', .ok f)) :
    ¬s.Allocated f ∧ f < kFrameCount ∧
      s' = { s with manager := s.manager.setBit f true }.fill f fun _ => .zero := by
  rw [newPageMap] at h
  cases ha : s.manager.allocate with
  | none =>
      rw [ha] at h
      cases h
  | some r =>
      rw [ha] at h
      obtain ⟨m, g⟩ := r
      cases h
      obtain ⟨hfree, hlt, rfl⟩ := BitmapMemoryManager.allocate_some ha
      exact ⟨by rw [Allocated, hfree]; decide, hlt, rfl⟩

theorem newPageMap_error {s s' : Machine} {e : Error} (h : s.newPageMap = (s', .error e)) :
    s' = s := by
  rw [newPageMap] at h
  split at h
  next => cases h; rfl
  next => cases h

end Machine

/-! ## Addresses -/

/-- `Part`, for the levels from 1 to 4. -/
def part (addr level : Nat) : Fin 512 :=
  ⟨addr / 2 ^ (12 + 9 * (level - 1)) % 512, Nat.mod_lt _ (by decide)⟩

/-- The parts of an address, from level 4 down. -/
def path (addr : Nat) : List (Fin 512) := [part addr 4, part addr 3, part addr 2, part addr 1]

/-- The upper half of the canonical addresses. -/
def Upper (addr : Nat) : Prop := 0xffff800000000000 ≤ addr ∧ addr < 2 ^ 64

/-- The number of the page at the end of a path. -/
def number : List (Fin 512) → Nat
  | [] => 0
  | i :: p => i * 512 ^ p.length + number p

theorem number_lt (p : List (Fin 512)) : number p < 512 ^ p.length := by
  induction p with
  | nil => decide
  | cons i p ih =>
      have hi : (i : Nat) + 1 ≤ 512 := i.isLt
      have hmul := Nat.mul_le_mul_right (512 ^ p.length) hi
      rw [number, List.length_cons, Nat.pow_succ']
      rw [Nat.succ_mul] at hmul
      omega

theorem number_inj {p q : List (Fin 512)} (hl : p.length = q.length) (h : number p = number q) :
    p = q := by
  induction p generalizing q with
  | nil => exact (List.length_eq_zero_iff.mp hl.symm).symm
  | cons i p ih =>
      cases q with
      | nil => cases hl
      | cons j q =>
          have hl : p.length = q.length := Nat.succ.inj hl
          have hp := number_lt p
          have hq := number_lt q
          rw [number, number, hl] at h
          rw [hl] at hp
          have hpos : 0 < 512 ^ q.length := Nat.pow_pos (by decide)
          have hij : (i : Nat) = j := by
            have hdiv := congrArg (· / 512 ^ q.length) h
            simpa [Nat.mul_comm _ (512 ^ q.length), Nat.mul_add_div hpos, Nat.div_eq_of_lt hp,
              Nat.div_eq_of_lt hq] using hdiv
          rw [hij] at h
          rw [Fin.ext hij, ih hl (Nat.add_left_cancel h)]

theorem number_zeros (n : Nat) : number (List.replicate n 0) = 0 := by
  induction n with
  | zero => rfl
  | succ n ih => rw [List.replicate_succ, number, ih, Fin.val_zero, Nat.zero_mul]

theorem number_append (p q : List (Fin 512)) :
    number (p ++ q) = number p * 512 ^ q.length + number q := by
  induction p with
  | nil => rw [List.nil_append, number, Nat.zero_mul, Nat.zero_add]
  | cons i p ih =>
      rw [List.cons_append, number, ih, number, List.length_append, Nat.pow_add, Nat.add_mul,
        Nat.mul_assoc, Nat.add_assoc]

theorem number_path (addr : Nat) : number (path addr) = addr / 4096 % 2 ^ 36 := by
  simp only [path, number, part, List.length_cons, List.length_nil]
  omega

/-! ## The processor -/

/-- The frame of an address, and what may be done there. -/
structure Mapping where
  frame : Nat
  user : Bool
  writable : Bool
deriving DecidableEq

/-- The walk of the processor from a table; an entry of the levels 3 and 2 may map a large
page. -/
def translate (m : Memory) : Nat → List (Fin 512) → Option Mapping
  | f, [] => some ⟨f, true, true⟩
  | f, i :: p =>
      let e := m f i
      if !e.present then none
      else if e.hugePage ∧ (p.length = 1 ∨ p.length = 2) then
        some ⟨e.addr / 512 ^ p.length * 512 ^ p.length + number p, e.user, e.writable⟩
      else (translate m e.addr p).map fun t => ⟨t.frame, e.user && t.user, e.writable && t.writable⟩

/-- An access by a program or by the kernel. -/
structure Access where
  user : Bool
  write : Bool

/-- The bits of the error code that `HandlePageFault` looks at. -/
structure ErrorCode where
  present : Bool
  rw : Bool
  user : Bool
deriving DecidableEq

/-- The fault of an access; the kernel writes wherever a page is present, as `CR0.WP` is
clear. -/
def Machine.fault (s : Machine) (addr : Nat) (a : Access) : Option ErrorCode :=
  match translate s.mem s.cr3 (path addr) with
  | none => some ⟨false, a.write, a.user⟩
  | some t =>
      if a.user && (!t.user || a.write && !t.writable) then some ⟨true, a.write, a.user⟩ else none

end Laplus.Paging
