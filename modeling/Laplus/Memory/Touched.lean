/-
# `Laplus.Memory.Touched` — the bits that booting touches (`memory_manager.cpp`)

`alloc_map_` has a bit for each of `kFrameCount` frames, and nobody checks a frame against it.
The functions here list the frames whose bits `InitializeMemoryManager` sets or reads, in order.
The frames of the scan are those of the gaps and of the unavailable descriptors; `Allocate` reads
one frame after the other, from the first of the range to the end of the first run it finds.
-/
import Laplus.Memory.Boot

namespace Laplus.Memory

open Paging (kFrameCount)

/-! ## `MarkAllocated` and `Allocate` -/

/-- The frames that `MarkAllocated` sets. -/
def markedFrames (start n : Nat) : List Nat := (List.range n).map (start + ·)

/-- They are within the bitmap. -/
def Within (start n : Nat) : Prop := n = 0 ∨ start + n ≤ kFrameCount

instance (start n : Nat) : Decidable (Within start n) := inferInstanceAs (Decidable (_ ∨ _))

namespace BitmapMemoryManager

/-- The frames that the inner loop of `Allocate` reads. -/
def probeFrames (m : BitmapMemoryManager) (start : Nat) : Nat → Nat → List Nat
  | _, 0 => []
  | i, left + 1 =>
      if m.rangeEnd ≤ start + i then []
      else if m.getBit (start + i) then [start + i]
      else (start + i) :: m.probeFrames start (i + 1) left

/-- The frames that `Allocate` reads. -/
def searchFrames (m : BitmapMemoryManager) (n start : Nat) : List Nat :=
  m.probeFrames start 0 n ++
    match _h : m.probe start 0 n with
    | .taken i => m.searchFrames n (start + i + 1)
    | _ => []
termination_by m.rangeEnd - start
decreasing_by
  have htaken := probe_taken _h
  omega

/-- The frames that `Allocate` reads and sets. -/
def allocateFrames (m : BitmapMemoryManager) (n : Nat) : List Nat :=
  m.searchFrames n m.rangeBegin ++
    match m.search n m.rangeBegin with
    | some f => markedFrames f n
    | none => []

end BitmapMemoryManager

/-! ## `InitializeMemoryManager` -/

/-- The frames of the gap before a descriptor. -/
def gapFrames (availableEnd : BitVec 64) (d : MemoryDescriptor) : List Nat :=
  if availableEnd < d.physicalStart then
    markedFrames (availableEnd / kUEFIPageSize).toNat
      ((d.physicalStart - availableEnd) / kUEFIPageSize).toNat
  else []

/-- The frames of a descriptor that is not available. -/
def regionFrames (d : MemoryDescriptor) : List Nat :=
  if isAvailable d.type then []
  else
    markedFrames (d.physicalStart / kUEFIPageSize).toNat
      (d.numberOfPages * kUEFIPageSize / kUEFIPageSize).toNat

/-- `available_end` behind a descriptor. -/
def nextEnd (availableEnd : BitVec 64) (d : MemoryDescriptor) : BitVec 64 :=
  if isAvailable d.type then d.physicalStart + d.numberOfPages * kUEFIPageSize else availableEnd

/-- The frames that the scan sets. -/
def scanFrames : BitVec 64 → List MemoryDescriptor → List Nat
  | _, [] => []
  | availableEnd, d :: ds =>
      gapFrames availableEnd d ++ regionFrames d ++ scanFrames (nextEnd availableEnd d) ds

/-- The frames that `InitializeMemoryManager` sets and reads. -/
def bootFrames (map : MemoryMap) (mem : Nat → MemoryDescriptor) : List Nat :=
  scanFrames 0 (map.descriptors mem) ++ (scanMemoryMap map mem).allocateFrames kHeapFrames

/-! ## What the maps hold -/

/-- The byte is available memory. -/
def Available (ds : List MemoryDescriptor) (byte : Nat) : Prop :=
  ∃ d ∈ ds, isAvailable d.type = true ∧ d.physicalStart.toNat ≤ byte ∧
    byte < d.physicalStart.toNat + d.numberOfPages.toNat * 4096

/-- The gaps and the unavailable descriptors are within the bitmap. -/
def MarksFit : BitVec 64 → List MemoryDescriptor → Prop
  | _, [] => True
  | availableEnd, d :: ds =>
      (availableEnd < d.physicalStart →
        Within (availableEnd / kUEFIPageSize).toNat
          ((d.physicalStart - availableEnd) / kUEFIPageSize).toNat) ∧
      (isAvailable d.type = false →
        Within (d.physicalStart / kUEFIPageSize).toNat
          (d.numberOfPages * kUEFIPageSize / kUEFIPageSize).toNat) ∧
      MarksFit (nextEnd availableEnd d) ds

/-- The frame behind the last available descriptor. -/
def endFrame (ds : List MemoryDescriptor) : Nat := (ds.foldl nextEnd 0 / kUEFIPageSize).toNat

/-- Room for the heap: no gap and no unavailable descriptor has a frame of it. -/
structure Room (ds : List MemoryDescriptor) (f : Nat) : Prop where
  first : 1 ≤ f
  last : f + kHeapFrames ≤ endFrame ds
  free : ∀ g, f ≤ g → g < f + kHeapFrames → g ∉ scanFrames 0 ds

/-- What keeps booting within the bitmap, and the heap within memory. -/
structure BootFits (ds : List MemoryDescriptor) : Prop where
  marks : MarksFit 0 ds
  search : endFrame ds ≤ kFrameCount ∨ ∃ f, Room ds f ∧ f + kHeapFrames ≤ kFrameCount
  room : ∀ f, IsLeast {f | Room ds f} f → ∀ byte, 4096 * f ≤ byte →
    byte < 4096 * (f + kHeapFrames) → Available ds byte

/-- Booting uses `alloc_map_` below its end, and takes the heap from available memory below
128 GiB. -/
structure BootInBounds (map : MemoryMap) (mem : Nat → MemoryDescriptor) : Prop where
  indices : ∀ f ∈ bootFrames map mem, f / kBitsPerMapLine < kFrameCount / kBitsPerMapLine
  heap : ∀ m f, initializeHeap (scanMemoryMap map mem) = (m, .ok f) → ∀ byte, 4096 * f ≤ byte →
    byte < 4096 * (f + kHeapFrames) → byte < 2 ^ 37 ∧ Available (map.descriptors mem) byte

/-! ## The frames of the scan -/

theorem mem_markedFrames {start n f : Nat} :
    f ∈ markedFrames start n ↔ start ≤ f ∧ f < start + n := by
  simp only [markedFrames, List.mem_map, List.mem_range]
  constructor
  · rintro ⟨i, hi, rfl⟩
    omega
  · rintro ⟨hle, hlt⟩
    exact ⟨f - start, by omega, by omega⟩

/-- A frame of the bitmap has its line in `alloc_map_`. -/
theorem line_lt {f : Nat} :
    f / kBitsPerMapLine < kFrameCount / kBitsPerMapLine ↔ f < kFrameCount := by
  show f / 64 < 2 ^ 25 / 64 ↔ f < 2 ^ 25
  omega

theorem within_iff {start n : Nat} :
    (∀ f ∈ markedFrames start n, f < kFrameCount) ↔ Within start n := by
  rw [Within]
  constructor
  · intro h
    by_cases hn : n = 0
    · exact .inl hn
    · have hlast := h (start + n - 1) (mem_markedFrames.mpr ⟨by omega, by omega⟩)
      exact .inr (by omega)
  · intro h f hf
    have hmem := mem_markedFrames.mp hf
    omega

theorem marksFit_iff (availableEnd : BitVec 64) (ds : List MemoryDescriptor) :
    (∀ f ∈ scanFrames availableEnd ds, f < kFrameCount) ↔ MarksFit availableEnd ds := by
  induction ds generalizing availableEnd with
  | nil => simp [scanFrames, MarksFit]
  | cons d ds ih =>
      have hgap : (∀ f ∈ gapFrames availableEnd d, f < kFrameCount) ↔
          (availableEnd < d.physicalStart →
            Within (availableEnd / kUEFIPageSize).toNat
              ((d.physicalStart - availableEnd) / kUEFIPageSize).toNat) := by
        rw [gapFrames]
        split
        · rename_i hlt
          rw [within_iff]
          exact ⟨fun h _ => h, fun h => h hlt⟩
        · rename_i hge
          exact ⟨fun _ hlt => absurd hlt hge, fun _ f hf => by cases hf⟩
      have hregion : (∀ f ∈ regionFrames d, f < kFrameCount) ↔
          (isAvailable d.type = false →
            Within (d.physicalStart / kUEFIPageSize).toNat
              (d.numberOfPages * kUEFIPageSize / kUEFIPageSize).toNat) := by
        rw [regionFrames]
        cases isAvailable d.type with
        | true => exact ⟨fun _ h => (by cases h), fun _ f hf => by cases hf⟩
        | false =>
            rw [if_neg Bool.false_ne_true, within_iff]
            exact ⟨fun h _ => h, fun h => h rfl⟩
      rw [scanFrames, MarksFit, ← hgap, ← hregion, ← ih]
      simp only [List.mem_append, or_imp, forall_and, and_assoc]

theorem scanDescriptor_snd (s : BitmapMemoryManager × BitVec 64) (d : MemoryDescriptor) :
    (scanDescriptor s d).2 = nextEnd s.2 d := by
  rw [scanDescriptor, nextEnd]
  split <;> rfl

theorem getBit_scanDescriptor (s : BitmapMemoryManager × BitVec 64) (d : MemoryDescriptor)
    (f : Nat) : (scanDescriptor s d).1.getBit f = true ↔
      s.1.getBit f = true ∨ f ∈ gapFrames s.2 d ++ regionFrames d := by
  have hgap : (if s.2 < d.physicalStart then
      s.1.markAllocated (s.2 / kUEFIPageSize).toNat
        ((d.physicalStart - s.2) / kUEFIPageSize).toNat else s.1).getBit f = true ↔
      s.1.getBit f = true ∨ f ∈ gapFrames s.2 d := by
    rw [gapFrames]
    split
    · rw [BitmapMemoryManager.getBit_markAllocated, mem_markedFrames]
    · simp
  rw [List.mem_append, ← or_assoc, ← hgap, scanDescriptor, regionFrames]
  cases isAvailable d.type with
  | true => simp
  | false =>
      rw [if_neg Bool.false_ne_true, if_neg Bool.false_ne_true,
        BitmapMemoryManager.getBit_markAllocated, mem_markedFrames]

/-- **The scan** sets these frames, and ends behind the last available descriptor. -/
theorem scan_frames (ds : List MemoryDescriptor) (s : BitmapMemoryManager × BitVec 64) :
    (ds.foldl scanDescriptor s).2 = ds.foldl nextEnd s.2 ∧
      ∀ f, (ds.foldl scanDescriptor s).1.getBit f = true ↔
        s.1.getBit f = true ∨ f ∈ scanFrames s.2 ds := by
  induction ds generalizing s with
  | nil => simp [scanFrames]
  | cons d ds ih =>
      obtain ⟨hend, hbits⟩ := ih (scanDescriptor s d)
      rw [scanDescriptor_snd] at hend hbits
      refine ⟨hend, fun f => (hbits f).trans ?_⟩
      rw [getBit_scanDescriptor, scanFrames, or_assoc, List.mem_append (s := gapFrames s.2 d ++ _)]

/-- Room for the heap is a run of clear bits. -/
theorem run_scanMemoryMap (map : MemoryMap) (mem : Nat → MemoryDescriptor) (f : Nat) :
    (scanMemoryMap map mem).Run kHeapFrames f ↔ Room (map.descriptors mem) f := by
  obtain ⟨hend, hbits⟩ := scan_frames (map.descriptors mem) (.new, 0)
  have hzero : BitmapMemoryManager.new.getBit = fun _ => false := by
    funext g
    rw [BitmapMemoryManager.getBit_eq]
    exact BitVec.getLsbD_zero
  have hclear : ∀ g, (scanMemoryMap map mem).getBit g = false ↔
      g ∉ scanFrames 0 (map.descriptors mem) := by
    intro g
    rw [scanMemoryMap, getBit_setMemoryRange, ← Bool.not_eq_true, hbits g, hzero]
    simp
  have hrange : (scanMemoryMap map mem).rangeEnd = endFrame (map.descriptors mem) := by
    rw [endFrame, ← hend]
    rfl
  constructor
  · rintro ⟨hle, hlt, hrun⟩
    exact ⟨hle, hrange ▸ hlt, fun g h₁ h₂ => (hclear g).mp (hrun g h₁ h₂)⟩
  · rintro ⟨hle, hlt, hrun⟩
    exact ⟨hle, hrange ▸ hlt, fun g h₁ h₂ => (hclear g).mpr (hrun g h₁ h₂)⟩

/-! ## The frames of the search -/

namespace BitmapMemoryManager

variable {m : BitmapMemoryManager} {n start : Nat}

/-- The inner loop reads frames of the range. -/
theorem mem_probeFrames {i left f : Nat} :
    f ∈ m.probeFrames start i left →
      start + i ≤ f ∧ f < m.rangeEnd ∧ f < start + i + left := by
  induction left generalizing i with
  | zero => intro h; cases h
  | succ left ih =>
      intro h
      rw [probeFrames] at h
      split at h
      · cases h
      split at h
      · rw [List.mem_singleton] at h
        omega
      · rcases List.mem_cons.mp h with rfl | h
        · omega
        · have hrest := ih h
          omega

theorem probeFrames_taken {i left j : Nat} (h : m.probe start i left = .taken j) :
    ∀ f, start + i ≤ f → f < start + j + 1 → f ∈ m.probeFrames start i left := by
  induction left generalizing i with
  | zero => cases h
  | succ left ih =>
      intro f hle hlt
      rw [probe] at h
      rw [probeFrames]
      split at h
      · cases h
      rename_i hrange
      rw [if_neg hrange]
      split at h
      · rename_i hset
        obtain rfl : i = j := Probe.taken.inj h
        rw [if_pos hset]
        exact List.mem_singleton.mpr (by omega)
      · rename_i hclear
        rw [if_neg hclear]
        by_cases heq : f = start + i
        · exact heq ▸ List.mem_cons_self
        · exact List.mem_cons_of_mem _ (ih h f (by omega) hlt)

theorem probeFrames_outOfRange {i left : Nat} (h : m.probe start i left = .outOfRange) :
    ∀ f, start + i ≤ f → f < m.rangeEnd → f ∈ m.probeFrames start i left := by
  induction left generalizing i with
  | zero => cases h
  | succ left ih =>
      intro f hle hlt
      rw [probe] at h
      rw [probeFrames]
      split at h
      · omega
      rename_i hrange
      rw [if_neg hrange]
      split at h
      · cases h
      rename_i hclear
      rw [if_neg hclear]
      by_cases heq : f = start + i
      · exact heq ▸ List.mem_cons_self
      · exact List.mem_cons_of_mem _ (ih h f (by omega) hlt)

theorem searchFrames_taken {i : Nat} (h : m.probe start 0 n = .taken i) :
    m.searchFrames n start = m.probeFrames start 0 n ++ m.searchFrames n (start + i + 1) := by
  rw [searchFrames]
  split
  · rename_i j hj
    rw [h] at hj
    rw [Probe.taken.inj hj]
  · rename_i hne
    exact absurd h (hne i)

theorem searchFrames_last (h : ∀ i, m.probe start 0 n ≠ .taken i) :
    m.searchFrames n start = m.probeFrames start 0 n := by
  rw [searchFrames]
  split
  · rename_i i hi
    exact absurd hi (h i)
  · exact List.append_nil _

/-- **What a search reads**: if it finds a run, nothing behind it; and if it finds none, every frame
of the range. -/
theorem mem_searchFrames (m : BitmapMemoryManager) (n start : Nat) :
    match m.search n start with
    | some f => start ≤ f ∧ ∀ g ∈ m.searchFrames n start, g < f + n
    | none => ∀ g, g ∈ m.searchFrames n start ↔ start ≤ g ∧ g < m.rangeEnd := by
  fun_induction search m n start with
  | case1 start hprobe =>
      refine ⟨Nat.le_refl _, fun g hg => ?_⟩
      rw [searchFrames_last (by simp [hprobe])] at hg
      have hread := mem_probeFrames hg
      omega
  | case2 start i hprobe ih =>
      rw [searchFrames_taken hprobe]
      have hall := probeFrames_taken hprobe
      have htaken := probe_taken hprobe
      cases hfound : m.search n (start + i + 1) with
      | some f =>
          rw [hfound] at ih
          refine ⟨by omega, fun g hg => ?_⟩
          rcases List.mem_append.mp hg with hg | hg
          · have hread := mem_probeFrames hg
            omega
          · exact ih.2 g hg
      | none =>
          rw [hfound] at ih
          intro g
          rw [List.mem_append, ih g]
          constructor
          · rintro (hg | hg)
            · have hread := mem_probeFrames hg
              omega
            · omega
          · intro hg
            by_cases hle : g < start + i + 1
            · exact .inl (hall g (by omega) hle)
            · exact .inr ⟨by omega, hg.2⟩
  | case3 start hprobe =>
      intro g
      rw [searchFrames_last (by simp [hprobe])]
      constructor
      · intro hg
        have hread := mem_probeFrames hg
        omega
      · rintro ⟨hle, hlt⟩
        exact probeFrames_outOfRange hprobe g hle hlt

/-- **`Allocate` stays within the bitmap** exactly if its range does, or it finds a run that does. -/
theorem allocateFrames_lt (hn : 1 ≤ n) (hbegin : m.rangeBegin ≤ kFrameCount) :
    (∀ f ∈ m.allocateFrames n, f < kFrameCount) ↔
      m.rangeEnd ≤ kFrameCount ∨ ∃ f, m.Run n f ∧ f + n ≤ kFrameCount := by
  have hsearch := search_eq (m := m) hn (Nat.le_refl _) fun g hg => hg.range_le
  have hread := m.mem_searchFrames n m.rangeBegin
  rw [allocateFrames]
  cases hfound : m.search n m.rangeBegin with
  | some f =>
      rw [hfound] at hsearch hread
      constructor
      · intro h
        have hlast := h (f + n - 1) (List.mem_append_right _ (mem_markedFrames.mpr (by omega)))
        exact .inr ⟨f, hsearch.1, by omega⟩
      · intro h g hg
        have hend : f + n ≤ kFrameCount := by
          rcases h with h | ⟨f', hf', hend⟩
          · exact hsearch.1.le_range.trans h
          · have hle := hsearch.2 hf'
            omega
        rcases List.mem_append.mp hg with hg | hg
        · have hlt := hread.2 g hg
          omega
        · have hlt := mem_markedFrames.mp hg
          omega
  | none =>
      rw [hfound] at hsearch hread
      rw [List.append_nil]
      constructor
      · intro h
        refine .inl (Nat.not_lt.mp fun hlt => ?_)
        have hlast := h (m.rangeEnd - 1) ((hread _).mpr ⟨by omega, by omega⟩)
        omega
      · intro h g hg
        have hlt := ((hread g).mp hg).2
        rcases h with h | ⟨f, hf, _⟩
        · omega
        · exact absurd hf (hsearch f)

end BitmapMemoryManager

/-! ## Booting -/

/-- The heap, if there is one, is the lowest room for it. -/
theorem initializeHeap_room {map : MemoryMap} {mem : Nat → MemoryDescriptor}
    {m : BitmapMemoryManager} {f : Nat}
    (h : initializeHeap (scanMemoryMap map mem) = (m, .ok f)) :
    IsLeast {f | Room (map.descriptors mem) f} f := by
  have hallocate := (scanMemoryMap map mem).allocate_eq (n := kHeapFrames) (by decide)
  rw [initializeHeap] at h
  rw [h] at hallocate
  obtain ⟨⟨hrun, hleast⟩, _⟩ := hallocate
  exact ⟨(run_scanMemoryMap map mem f).mp hrun,
    fun g hg => hleast ((run_scanMemoryMap map mem g).mpr hg)⟩

/-- Where there is room for the heap, it is taken. -/
theorem initializeHeap_of_room {map : MemoryMap} {mem : Nat → MemoryDescriptor} {f : Nat}
    (h : IsLeast {f | Room (map.descriptors mem) f} f) :
    ∃ m, initializeHeap (scanMemoryMap map mem) = (m, .ok f) := by
  have hallocate := (scanMemoryMap map mem).allocate_eq (n := kHeapFrames) (by decide)
  have hrun := (run_scanMemoryMap map mem f).mpr h.1
  rcases hresult : (scanMemoryMap map mem).allocate kHeapFrames with ⟨m, e | g⟩ <;>
    rw [hresult] at hallocate
  · exact absurd hrun (hallocate.1 f)
  · obtain ⟨⟨hg, hleast⟩, _⟩ := hallocate
    obtain rfl : g = f :=
      Nat.le_antisymm (hleast hrun) (h.2 ((run_scanMemoryMap map mem g).mp hg))
    exact ⟨m, hresult⟩

/-- **Booting is within bounds** exactly if the maps fit. -/
theorem boot_inBounds_iff (map : MemoryMap) (mem : Nat → MemoryDescriptor) :
    BootInBounds map mem ↔ BootFits (map.descriptors mem) := by
  have hbegin : (scanMemoryMap map mem).rangeBegin ≤ kFrameCount := by
    show 1 ≤ 2 ^ 25
    decide
  have hsearch := BitmapMemoryManager.allocateFrames_lt (n := kHeapFrames) (by decide) hbegin
  have hrange : (scanMemoryMap map mem).rangeEnd = endFrame (map.descriptors mem) := by
    rw [endFrame, ← (scan_frames (map.descriptors mem) (.new, 0)).1]
    rfl
  rw [hrange] at hsearch
  simp only [run_scanMemoryMap] at hsearch
  constructor
  · rintro ⟨hindices, hheap⟩
    refine ⟨(marksFit_iff _ _).mp fun f hf => ?_, hsearch.mp fun f hf => ?_, fun f hf => ?_⟩
    · exact line_lt.mp (hindices f (List.mem_append_left _ hf))
    · exact line_lt.mp (hindices f (List.mem_append_right _ hf))
    · obtain ⟨m, hm⟩ := initializeHeap_of_room hf
      exact fun byte hle hlt => (hheap m f hm byte hle hlt).2
  · rintro ⟨hmarks, hroom, havailable⟩
    refine ⟨fun f hf => line_lt.mpr ?_, fun m f hm byte hle hlt => ?_⟩
    · rcases List.mem_append.mp hf with hf | hf
      · exact (marksFit_iff _ _).mpr hmarks f hf
      · exact hsearch.mpr hroom f hf
    · have hleast := initializeHeap_room hm
      refine ⟨?_, havailable f hleast byte hle hlt⟩
      have hend : f + kHeapFrames ≤ kFrameCount := by
        rcases hroom with hend | ⟨g, hg, hend⟩
        · exact hleast.1.last.trans hend
        · have hle := hleast.2 hg
          omega
      have hcount : kFrameCount = 2 ^ 25 := rfl
      omega

/-! ## Page-aligned maps -/

/-- Whole pages, below the end of the addresses. -/
structure MemoryDescriptor.Whole (d : MemoryDescriptor) : Prop where
  aligned : d.physicalStart.toNat % 4096 = 0
  below : d.physicalStart.toNat + d.numberOfPages.toNat * 4096 < 2 ^ 64

/-- Behind an aligned end, what no gap has and no unavailable descriptor is available. -/
theorem available_of_not_mem {ds : List MemoryDescriptor} (availableEnd : BitVec 64)
    (hds : ∀ d ∈ ds, d.Whole) (haligned : availableEnd.toNat % 4096 = 0) {byte : Nat}
    (hle : availableEnd.toNat ≤ byte) (hlt : byte < (ds.foldl nextEnd availableEnd).toNat)
    (hfree : byte / 4096 ∉ scanFrames availableEnd ds) : Available ds byte := by
  induction ds generalizing availableEnd with
  | nil => exact absurd hlt (Nat.not_lt.mpr hle)
  | cons d ds ih =>
      obtain ⟨hd, hds⟩ := List.forall_mem_cons.mp hds
      obtain ⟨hstart, hbelow⟩ := hd
      rw [scanFrames, List.append_assoc, List.mem_append, List.mem_append] at hfree
      push Not at hfree
      obtain ⟨hgap, _, hrest⟩ := hfree
      -- the tail, if the byte is behind the end that the descriptor leaves
      have htail : (nextEnd availableEnd d).toNat % 4096 = 0 →
          (nextEnd availableEnd d).toNat ≤ byte → Available (d :: ds) byte := by
        intro haligned' hle'
        obtain ⟨d', hd', h'⟩ := ih _ hds haligned' hle' hlt hrest
        exact ⟨d', List.mem_cons_of_mem _ hd', h'⟩
      cases havailable : isAvailable d.type with
      | false =>
          have hend : nextEnd availableEnd d = availableEnd := by rw [nextEnd, havailable]; rfl
          rw [hend] at htail
          exact htail haligned hle
      | true =>
          have hend : (nextEnd availableEnd d).toNat =
              d.physicalStart.toNat + d.numberOfPages.toNat * 4096 := by
            rw [nextEnd, havailable, if_pos rfl, BitVec.toNat_add, BitVec.toNat_mul, pageSize_toNat]
            omega
          rw [hend] at htail
          by_cases hbehind : d.physicalStart.toNat + d.numberOfPages.toNat * 4096 ≤ byte
          · exact htail (by omega) hbehind
          · refine ⟨d, List.mem_cons_self, havailable, ?_, by omega⟩
            by_contra hbefore
            -- the byte would lie in the gap
            have hlt' : availableEnd < d.physicalStart := BitVec.lt_def.mpr (by omega)
            refine hgap ?_
            rw [gapFrames, if_pos hlt', mem_markedFrames, BitVec.toNat_udiv, BitVec.toNat_udiv,
              pageSize_toNat, BitVec.toNat_sub_of_le (BitVec.le_of_lt hlt')]
            omega

/-- **Maps of whole pages** leave only available memory for the heap. -/
theorem room_available {ds : List MemoryDescriptor} (hds : ∀ d ∈ ds, d.Whole) {f : Nat}
    (hf : Room ds f) {byte : Nat} (hle : 4096 * f ≤ byte)
    (hlt : byte < 4096 * (f + kHeapFrames)) : Available ds byte := by
  have hend : endFrame ds = (ds.foldl nextEnd 0).toNat / 4096 := by
    rw [endFrame, BitVec.toNat_udiv, pageSize_toNat]
  have hlast := hf.last
  rw [hend] at hlast
  refine available_of_not_mem 0 hds rfl (Nat.zero_le _) (by omega) ?_
  exact hf.free _ (by omega) (by omega)

/-! ## A region above the bitmap -/

/-- A gibibyte, and a reserved page at 1012 GiB. -/
def reservedMem (a : Nat) : MemoryDescriptor :=
  if a = 0x100 then ⟨kEfiConventionalMemory, 0, 0x40000⟩ else ⟨0, 0xfd00000000, 1⟩

theorem reservedMap_size : 0 < 48 := by decide

/-- Two descriptors of 48 bytes. -/
def reservedMap : MemoryMap := ⟨0x100, 96, 48, reservedMap_size⟩

theorem reservedMap_descriptors : reservedMap.descriptors reservedMem =
    [⟨kEfiConventionalMemory, 0, 0x40000⟩, ⟨0, 0xfd00000000, 1⟩] := by
  simp [MemoryMap.descriptors, MemoryMap.descriptorsFrom, reservedMap, reservedMem]

/-- The reserved page is marked, far behind the end of the bitmap. -/
theorem reservedMap_outOfBounds :
    ¬ ∀ (map : MemoryMap) (mem : Nat → MemoryDescriptor), BootInBounds map mem := by
  intro h
  have hindices := (h reservedMap reservedMem).indices
  have hmarks : MarksFit 0 (reservedMap.descriptors reservedMem) :=
    (marksFit_iff _ _).mp fun f hf => line_lt.mp (hindices f (List.mem_append_left _ hf))
  rw [reservedMap_descriptors] at hmarks
  have hregion := hmarks.2.2.2.1 (by decide)
  exact absurd hregion (by decide)

end Laplus.Memory
