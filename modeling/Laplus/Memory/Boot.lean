/-
# `Laplus.Memory.Boot` — the boot memory map (`memory_manager.cpp`, `memory_map.hpp`)

`InitializeMemoryManager` goes over the descriptors of the firmware once, with a
running end of the available memory: what lies between it and the next descriptor is
marked, and so is every descriptor that is not available.

`Honoured` is what holds after any descriptors in any order; `Sorted` what holds
besides when they are sorted and do not overlap.
-/
import Laplus.Memory.Bitmap

namespace Laplus.Memory

/-! ## `MemoryMap` -/

/-- `MemoryDescriptor`, the fields that the scan reads. -/
structure MemoryDescriptor where
  type : BitVec 32
  physicalStart : BitVec 64
  numberOfPages : BitVec 64
deriving DecidableEq

/-- `MemoryMap`; the firmware's descriptors have a size. -/
structure MemoryMap where
  buffer : Nat
  mapSize : Nat
  descriptorSize : Nat
  descriptorSize_pos : 0 < descriptorSize

/-- `MemoryType::kEfiBootServicesCode`. -/
def kEfiBootServicesCode : BitVec 32 := 3

/-- `MemoryType::kEfiBootServicesData`. -/
def kEfiBootServicesData : BitVec 32 := 4

/-- `MemoryType::kEfiConventionalMemory`. -/
def kEfiConventionalMemory : BitVec 32 := 7

/-- `IsAvailable`. -/
def isAvailable (memoryType : BitVec 32) : Bool :=
  memoryType == kEfiBootServicesCode || memoryType == kEfiBootServicesData ||
    memoryType == kEfiConventionalMemory

/-- `kUEFIPageSize`, and `kBytesPerFrame`. -/
def kUEFIPageSize : BitVec 64 := 4096

namespace MemoryDescriptor

/-- The frames of the pages. -/
def block (d : MemoryDescriptor) : Block := ⟨d.physicalStart.toNat / 4096, d.numberOfPages.toNat⟩

/-- It starts at a page and ends below `kMaxPhysicalMemoryBytes`. -/
structure Good (d : MemoryDescriptor) : Prop where
  aligned : d.physicalStart.toNat % 4096 = 0
  below : d.physicalStart.toNat + d.numberOfPages.toNat * 4096 ≤ 2 ^ 37

end MemoryDescriptor

/-- The descriptors at `iter`, `iter + descriptorSize` and so on, as they stand in memory. -/
def MemoryMap.descriptorsFrom (map : MemoryMap) (mem : Nat → MemoryDescriptor) (iter : Nat) :
    List MemoryDescriptor :=
  if iter < map.buffer + map.mapSize then
    mem iter :: map.descriptorsFrom mem (iter + map.descriptorSize)
  else []
termination_by map.buffer + map.mapSize - iter
decreasing_by
  have hpos := map.descriptorSize_pos
  omega

/-- The descriptors that the scan goes over. -/
def MemoryMap.descriptors (map : MemoryMap) (mem : Nat → MemoryDescriptor) :
    List MemoryDescriptor :=
  map.descriptorsFrom mem map.buffer

/-! ## `InitializeMemoryManager` -/

/-- `BitmapMemoryManager()`. -/
def BitmapMemoryManager.new : BitmapMemoryManager := ⟨fun _ => 0, 0, Paging.kFrameCount⟩

/-- The body of the loop; the second component is `available_end`. -/
def scanDescriptor (s : BitmapMemoryManager × BitVec 64) (d : MemoryDescriptor) :
    BitmapMemoryManager × BitVec 64 :=
  let availableEnd := s.2
  let m :=
    if availableEnd < d.physicalStart then
      s.1.markAllocated (availableEnd / kUEFIPageSize).toNat
        ((d.physicalStart - availableEnd) / kUEFIPageSize).toNat
    else s.1
  let physicalEnd := d.physicalStart + d.numberOfPages * kUEFIPageSize
  if isAvailable d.type then (m, physicalEnd)
  else
    (m.markAllocated (d.physicalStart / kUEFIPageSize).toNat
      (d.numberOfPages * kUEFIPageSize / kUEFIPageSize).toNat, availableEnd)

/-- `InitializeMemoryManager`, before the heap is taken. -/
def scanMemoryMap (map : MemoryMap) (mem : Nat → MemoryDescriptor) : BitmapMemoryManager :=
  let s := (map.descriptors mem).foldl scanDescriptor (.new, 0)
  s.1.setMemoryRange 1 (s.2 / kUEFIPageSize).toNat

/-- `kHeapFrames`. -/
def kHeapFrames : Nat := 64 * 512

/-- `InitializeHeap`, with the first frame of the heap. -/
def initializeHeap (m : BitmapMemoryManager) : BitmapMemoryManager × Except Paging.Error Nat :=
  m.allocate kHeapFrames

/-! ## A descriptor -/

/-- The running end is the first byte of a frame. -/
def EndsAt (availableEnd : BitVec 64) (e : Nat) : Prop := availableEnd.toNat = 4096 * e

theorem pageSize_toNat : kUEFIPageSize.toNat = 4096 := rfl

namespace MemoryDescriptor.Good

variable {d : MemoryDescriptor} {availableEnd : BitVec 64} {e : Nat}

theorem start_eq (h : d.Good) : d.physicalStart.toNat = 4096 * d.block.start := by
  have haligned := h.aligned
  have hblock : d.block.start = d.physicalStart.toNat / 4096 := rfl
  omega

theorem pages_toNat (h : d.Good) :
    (d.numberOfPages * kUEFIPageSize).toNat = 4096 * d.block.size := by
  have hbelow := h.below
  have hsize : d.block.size = d.numberOfPages.toNat := rfl
  rw [BitVec.toNat_mul, pageSize_toNat]
  omega

theorem firstFrame : (d.physicalStart / kUEFIPageSize).toNat = d.block.start := by
  rw [BitVec.toNat_udiv, pageSize_toNat, block]

theorem frames (h : d.Good) :
    (d.numberOfPages * kUEFIPageSize / kUEFIPageSize).toNat = d.block.size := by
  rw [BitVec.toNat_udiv, pageSize_toNat, h.pages_toNat]
  omega

/-- `physical_end`. -/
theorem physicalEnd (h : d.Good) :
    EndsAt (d.physicalStart + d.numberOfPages * kUEFIPageSize) (d.block.start + d.block.size) := by
  have hstart := h.start_eq
  have hbelow := h.below
  have hsize : d.block.size = d.numberOfPages.toNat := rfl
  rw [EndsAt, BitVec.toNat_add, h.pages_toNat]
  omega

/-- The frames of the gap before the descriptor. -/
theorem gap (h : d.Good) (he : EndsAt availableEnd e) :
    (availableEnd < d.physicalStart ↔ e < d.block.start) ∧
      (e < d.block.start →
        ((d.physicalStart - availableEnd) / kUEFIPageSize).toNat = d.block.start - e) := by
  have hstart := h.start_eq
  rw [EndsAt] at he
  have hlt : availableEnd < d.physicalStart ↔ e < d.block.start := by
    rw [BitVec.lt_def]
    omega
  refine ⟨hlt, fun hgap => ?_⟩
  have hle := BitVec.le_of_lt (hlt.mpr hgap)
  rw [BitVec.toNat_udiv, pageSize_toNat, BitVec.toNat_sub_of_le hle]
  omega

end MemoryDescriptor.Good

/-- **What a descriptor does**: the gap before it is marked, and itself unless it is available. -/
theorem scanDescriptor_eq {s : BitmapMemoryManager × BitVec 64} {d : MemoryDescriptor} {e : Nat}
    (hd : d.Good) (he : EndsAt s.2 e) :
    (∀ f, (scanDescriptor s d).1.getBit f = true ↔ s.1.getBit f = true ∨
      (e ≤ f ∧ f < d.block.start) ∨ isAvailable d.type = false ∧ d.block.Has f) ∧
    EndsAt (scanDescriptor s d).2
      (if isAvailable d.type then d.block.start + d.block.size else e) := by
  have hfirst : (s.2 / kUEFIPageSize).toNat = e := by
    rw [BitVec.toNat_udiv, pageSize_toNat, he]
    omega
  obtain ⟨hlt, hsize⟩ := hd.gap he
  -- the manager after the gap
  have hgap : ∀ f, (if s.2 < d.physicalStart then
      s.1.markAllocated (s.2 / kUEFIPageSize).toNat
        ((d.physicalStart - s.2) / kUEFIPageSize).toNat else s.1).getBit f = true ↔
      s.1.getBit f = true ∨ e ≤ f ∧ f < d.block.start := by
    intro f
    by_cases hbefore : e < d.block.start
    · rw [if_pos (hlt.mpr hbefore), BitmapMemoryManager.getBit_markAllocated, hfirst,
        hsize hbefore, Nat.add_sub_cancel' hbefore.le]
    · have hempty : ¬(e ≤ f ∧ f < d.block.start) := by omega
      rw [if_neg (mt hlt.mp hbefore), or_iff_left hempty]
  rw [scanDescriptor]
  cases havailable : isAvailable d.type with
  | true =>
      rw [if_pos rfl]
      refine ⟨fun f => ?_, hd.physicalEnd⟩
      rw [hgap f]
      simp
  | false =>
      rw [if_neg Bool.false_ne_true]
      refine ⟨fun f => ?_, he⟩
      rw [BitmapMemoryManager.getBit_markAllocated, hgap f, MemoryDescriptor.Good.firstFrame, hd.frames, or_assoc]
      simp [Block.Has]

/-! ## The scan -/

/-- After the descriptors `ds`, with the running end at the frame `e`. -/
structure Honoured (ds : List MemoryDescriptor) (m : BitmapMemoryManager) (e : Nat) : Prop where
  available : ∀ f, f < e → m.getBit f = false →
    ∃ d ∈ ds, isAvailable d.type = true ∧ d.block.Has f
  unavailable : ∀ d ∈ ds, isAvailable d.type = false → ∀ f, d.block.Has f → m.getBit f = true

/-- After sorted descriptors that do not overlap. -/
structure Sorted (ds : List MemoryDescriptor) (m : BitmapMemoryManager) (e : Nat) : Prop where
  marked : ∀ f, m.getBit f = true → ∃ d ∈ ds, f < d.block.start + d.block.size
  ends : ∀ d ∈ ds, isAvailable d.type = true → d.block.start + d.block.size ≤ e
  available : ∀ d ∈ ds, isAvailable d.type = true → ∀ f, d.block.Has f → m.getBit f = false

section

variable {ds : List MemoryDescriptor} {d : MemoryDescriptor} {s : BitmapMemoryManager × BitVec 64}
  {e : Nat}

/-- **A descriptor more**, in any order. -/
theorem Honoured.snoc (h : Honoured ds s.1 e) (hd : d.Good) (he : EndsAt s.2 e) :
    Honoured (ds ++ [d]) (scanDescriptor s d).1
      (if isAvailable d.type then d.block.start + d.block.size else e) := by
  obtain ⟨hbits, _⟩ := scanDescriptor_eq hd he
  constructor
  case available =>
    intro f hf hclear
    have hnot := mt (hbits f).mpr (by rw [hclear]; exact Bool.false_ne_true)
    have hold : s.1.getBit f = false := by simpa using fun hset => hnot (.inl hset)
    by_cases hbefore : f < e
    · obtain ⟨d', hd', hhas⟩ := h.available f hbefore hold
      exact ⟨d', List.mem_append_left _ hd', hhas⟩
    · -- behind the old end, and not in the gap
      have hstart : ¬f < d.block.start := fun hlt => hnot (.inr (.inl ⟨by omega, hlt⟩))
      cases havailable : isAvailable d.type with
      | true =>
          rw [havailable, if_pos rfl] at hf
          exact ⟨d, List.mem_append_right _ (List.mem_singleton_self d), havailable, by omega, hf⟩
      | false =>
          rw [havailable, if_neg Bool.false_ne_true] at hf
          exact absurd hf hbefore
  case unavailable =>
    intro d' hd' htype f hf
    refine (hbits f).mpr ?_
    rcases List.mem_append.mp hd' with hd' | hd'
    · exact .inl (h.unavailable d' hd' htype f hf)
    · rw [List.mem_singleton.mp hd'] at htype hf
      exact .inr (.inr ⟨htype, hf⟩)

/-- **A descriptor more**, behind the others. -/
theorem Sorted.snoc (h : Sorted ds s.1 e) (hd : d.Good) (he : EndsAt s.2 e)
    (hsorted : ∀ d' ∈ ds, d'.block.start + d'.block.size ≤ d.block.start) :
    Sorted (ds ++ [d]) (scanDescriptor s d).1
      (if isAvailable d.type then d.block.start + d.block.size else e) := by
  obtain ⟨hbits, _⟩ := scanDescriptor_eq hd he
  have hself : d ∈ ds ++ [d] := List.mem_append_right _ (List.mem_singleton_self d)
  constructor
  case marked =>
    intro f hset
    rcases (hbits f).mp hset with hold | ⟨_, hlt⟩ | ⟨_, hhas⟩
    · obtain ⟨d', hd', hlt⟩ := h.marked f hold
      exact ⟨d', List.mem_append_left _ hd', hlt⟩
    · exact ⟨d, hself, by omega⟩
    · exact ⟨d, hself, hhas.2⟩
  case ends =>
    intro d' hd' havailable
    rcases List.mem_append.mp hd' with hd' | hd'
    · have hend := h.ends d' hd' havailable
      have hbefore := hsorted d' hd'
      split <;> omega
    · rw [List.mem_singleton.mp hd'] at havailable ⊢
      rw [if_pos havailable]
  case available =>
    intro d' hd' havailable f hf
    have hnot : ¬(scanDescriptor s d).1.getBit f = true := fun hset => by
      rcases List.mem_append.mp hd' with hd' | hd'
      · have hend := h.ends d' hd' havailable
        have hbefore := hsorted d' hd'
        have hclear := h.available d' hd' havailable f hf
        rcases (hbits f).mp hset with hold | ⟨hle, _⟩ | ⟨_, hhas⟩
        · rw [hclear] at hold
          cases hold
        · have hlt := hf.2
          omega
        · have hlt := hf.2
          have hle := hhas.1
          omega
      · rw [List.mem_singleton.mp hd'] at havailable hf
        have hle := hf.1
        rcases (hbits f).mp hset with hold | ⟨_, hlt⟩ | ⟨htype, _⟩
        · obtain ⟨d'', hd'', hlt⟩ := h.marked f hold
          have hbefore := hsorted d'' hd''
          omega
        · omega
        · rw [havailable] at htype
          cases htype
    simpa using hnot

end

/-- **The scan** of any descriptors, and of sorted ones. -/
theorem scan_honoured (ds : List MemoryDescriptor) (hds : ∀ d ∈ ds, d.Good) :
    let s := ds.foldl scanDescriptor (.new, 0)
    ∃ e, EndsAt s.2 e ∧ Honoured ds s.1 e ∧
      (ds.Pairwise (fun d d' => d.block.start + d.block.size ≤ d'.block.start) →
        Sorted ds s.1 e) := by
  induction ds using List.reverseRecOn with
  | nil =>
      have hclear : ∀ f, BitmapMemoryManager.new.getBit f = false := fun f => by
        rw [BitmapMemoryManager.getBit_eq]
        exact BitVec.getLsbD_zero
      have hhonoured : Honoured [] .new 0 :=
        ⟨fun f hf => absurd hf (Nat.not_lt_zero f), fun d hd => by cases hd⟩
      have hsorted : Sorted [] .new 0 := by
        refine ⟨fun f hf => ?_, fun d hd => (by cases hd), fun d hd => (by cases hd)⟩
        rw [hclear f] at hf
        cases hf
      exact ⟨0, rfl, hhonoured, fun _ => hsorted⟩
  | append_singleton ds d ih =>
      obtain ⟨e, he, hhonoured, hsorted⟩ := ih fun d' hd' => hds d' (List.mem_append_left _ hd')
      have hd := hds d (List.mem_append_right _ (List.mem_singleton_self d))
      rw [List.foldl_append]
      refine ⟨_, (scanDescriptor_eq hd he).2, hhonoured.snoc hd he, fun hpairs => ?_⟩
      obtain ⟨hpairs, _, hlast⟩ := List.pairwise_append.mp hpairs
      exact (hsorted hpairs).snoc hd he fun d' hd' => hlast d' hd' d (List.mem_singleton_self d)

theorem getBit_setMemoryRange (m : BitmapMemoryManager) (b e f : Nat) :
    (m.setMemoryRange b e).getBit f = m.getBit f := rfl

/-- `available_end` is the end of the range. -/
theorem scanMemoryMap_rangeEnd {map : MemoryMap} {mem : Nat → MemoryDescriptor} {e : Nat}
    (he : EndsAt ((map.descriptors mem).foldl scanDescriptor (.new, 0)).2 e) :
    (scanMemoryMap map mem).rangeEnd = e := by
  have hdiv : (((map.descriptors mem).foldl scanDescriptor (.new, 0)).2 / kUEFIPageSize).toNat =
      e := by
    rw [BitVec.toNat_udiv, pageSize_toNat, he]
    omega
  exact hdiv

/-- **The boot memory map is honoured.**  A frame that is not marked lies in an available
descriptor and in no other; and if the descriptors are sorted and do not overlap, every frame of
an available one is unmarked. -/
theorem memory_map_honoured (map : MemoryMap) (mem : Nat → MemoryDescriptor)
    (h : ∀ d ∈ map.descriptors mem, d.Good) :
    let ds := map.descriptors mem
    let m := scanMemoryMap map mem
    (∀ f, 1 ≤ f → f < m.rangeEnd → m.getBit f = false →
      (∃ d ∈ ds, isAvailable d.type = true ∧ d.block.Has f) ∧
        ∀ d ∈ ds, isAvailable d.type = false → ¬d.block.Has f) ∧
    (ds.Pairwise (fun d d' => d.block.start + d.block.size ≤ d'.block.start) →
      ∀ d ∈ ds, isAvailable d.type = true → ∀ f, 1 ≤ f → f < m.rangeEnd → d.block.Has f →
        m.getBit f = false) := by
  intro ds m
  obtain ⟨e, he, hhonoured, hsorted⟩ := scan_honoured ds h
  have hend : m.rangeEnd = e := scanMemoryMap_rangeEnd he
  constructor
  · intro f _ hf hclear
    have hclear' : (ds.foldl scanDescriptor (.new, 0)).1.getBit f = false := hclear
    refine ⟨hhonoured.available f (hend ▸ hf) hclear', fun d hd htype hhas => ?_⟩
    rw [hhonoured.unavailable d hd htype f hhas] at hclear'
    cases hclear'
  · exact fun hpairs d hd htype f _ _ hhas => (hsorted hpairs).available d hd htype f hhas

/-- Conventional memory in two pieces, and ACPI tables between them. -/
def smallMem (a : Nat) : MemoryDescriptor :=
  if a = 0x100 then ⟨kEfiConventionalMemory, 0x1000, 4⟩
  else if a = 0x130 then ⟨9, 0x5000, 2⟩
  else ⟨kEfiConventionalMemory, 0x8000, 8⟩

/-- Three descriptors of 48 bytes. -/
def smallMap : MemoryMap := ⟨0x100, 144, 48, Nat.succ_pos 47⟩

theorem smallMap_good : ∀ d ∈ smallMap.descriptors smallMem, d.Good := by
  have hds : smallMap.descriptors smallMem =
      [⟨kEfiConventionalMemory, 0x1000, 4⟩, ⟨9, 0x5000, 2⟩, ⟨kEfiConventionalMemory, 0x8000, 8⟩] := by
    simp [MemoryMap.descriptors, MemoryMap.descriptorsFrom, smallMap, smallMem]
  rw [hds]
  simp only [List.forall_mem_cons, List.not_mem_nil, false_imp_iff, implies_true, and_true]
  exact ⟨⟨by decide, by decide⟩, ⟨by decide, by decide⟩, ⟨by decide, by decide⟩⟩

theorem memory_map_honoured_small :
    let ds := smallMap.descriptors smallMem
    let m := scanMemoryMap smallMap smallMem
    (∀ f, 1 ≤ f → f < m.rangeEnd → m.getBit f = false →
      (∃ d ∈ ds, isAvailable d.type = true ∧ d.block.Has f) ∧
        ∀ d ∈ ds, isAvailable d.type = false → ¬d.block.Has f) ∧
    (ds.Pairwise (fun d d' => d.block.start + d.block.size ≤ d'.block.start) →
      ∀ d ∈ ds, isAvailable d.type = true → ∀ f, 1 ≤ f → f < m.rangeEnd → d.block.Has f →
        m.getBit f = false) :=
  memory_map_honoured smallMap smallMem smallMap_good

/-! ## The heap -/

/-- The heap is taken from available memory. -/
theorem heap_available {map : MemoryMap} {mem : Nat → MemoryDescriptor}
    {m : BitmapMemoryManager} {f : Nat} (h : ∀ d ∈ map.descriptors mem, d.Good)
    (hheap : initializeHeap (scanMemoryMap map mem) = (m, .ok f)) :
    ∀ g, f ≤ g → g < f + kHeapFrames →
      ∃ d ∈ map.descriptors mem, isAvailable d.type = true ∧ d.block.Has g := by
  intro g hle hlt
  obtain ⟨e, he, hhonoured, _⟩ := scan_honoured (map.descriptors mem) h
  have hallocate := (scanMemoryMap map mem).allocate_eq (n := kHeapFrames) (by decide)
  rw [initializeHeap] at hheap
  rw [hheap] at hallocate
  obtain ⟨⟨hrun, _⟩, _⟩ := hallocate
  have hrange := hrun.le_range
  rw [scanMemoryMap_rangeEnd he] at hrange
  exact hhonoured.available g (by omega) (hrun.clear g hle hlt)

end Laplus.Memory
