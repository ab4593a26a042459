/-
# `Laplus.Memory.Stat` — how many frames are in use (`memory_manager.cpp`)

`Stat` counts the bits of whole lines: from the line of the first frame of the range to before
the line of its end.  Of the line of the end nothing is counted, of the line of the first frame
everything, whatever part of it is in the range.
-/
import Laplus.Memory.Bitmap
import Laplus.Lib.Population

namespace Laplus.Memory

open Lib
open Paging (kFrameCount)

/-- `MemoryStat`. -/
structure MemoryStat where
  allocatedFrames : Nat
  totalFrames : Nat
deriving DecidableEq

/-- `std::bitset<kBitsPerMapLine>::count`. -/
def bitCount (line : BitVec 64) : Nat := Nat.count (fun i => line.getLsbD i) kBitsPerMapLine

namespace BitmapMemoryManager

/-- `Stat`. -/
def stat (m : BitmapMemoryManager) : MemoryStat where
  allocatedFrames :=
    ((List.range' (m.rangeBegin / kBitsPerMapLine)
      (m.rangeEnd / kBitsPerMapLine - m.rangeBegin / kBitsPerMapLine)).map
        fun i => bitCount (m.allocMap i)).sum
  totalFrames := m.rangeEnd - m.rangeBegin

/-- A range of the bitmap. -/
structure ValidRange (m : BitmapMemoryManager) : Prop where
  begin_le_end : m.rangeBegin ≤ m.rangeEnd
  end_le : m.rangeEnd ≤ kFrameCount

/-- Frames of the range that are in use. -/
def Live (m : BitmapMemoryManager) (b : Block) : Prop :=
  m.rangeBegin ≤ b.start ∧ b.start + b.size ≤ m.rangeEnd ∧ ∀ f, b.Has f → m.getBit f = true

/-- `Stat` counts the frames in use of the range, and follows `Allocate` and `Free`. -/
structure StatExact (m : BitmapMemoryManager) : Prop where
  exact : m.stat.allocatedFrames = population m.getBit m.rangeBegin m.rangeEnd
  bounded : m.stat.allocatedFrames ≤ m.stat.totalFrames
  allocate : ∀ n m' f, m.allocate n = (m', .ok f) →
    m'.stat.allocatedFrames = m.stat.allocatedFrames + n
  free : ∀ b, m.Live b →
    (m.free b.start b.size).stat.allocatedFrames + b.size = m.stat.allocatedFrames

/-- The first frame of the first line. -/
def firstLine (m : BitmapMemoryManager) : Nat := kBitsPerMapLine * (m.rangeBegin / kBitsPerMapLine)

/-- The first frame of the line that `Stat` stops at. -/
def lastLine (m : BitmapMemoryManager) : Nat := kBitsPerMapLine * (m.rangeEnd / kBitsPerMapLine)

/-- Nothing is set in the parts of lines at the ends of the range, and no block that `Allocate`
gives reaches into the last one: an earlier run of frames is as long. -/
structure WholeLines (m : BitmapMemoryManager) : Prop where
  head : m.rangeBegin ≤ m.lastLine → ∀ g, m.firstLine ≤ g → g < m.rangeBegin → m.getBit g = false
  tail : ∀ g, m.rangeBegin ≤ g → m.lastLine ≤ g → g < m.rangeEnd → m.getBit g = false
  run : ∀ n ≥ 1, ∀ f, m.Run n f → m.lastLine < f + n → ∃ g < f, m.Run n g

/-! ## Lines and frames -/

variable {m : BitmapMemoryManager} {b : Block} {f n : Nat}

theorem firstLine_le (m : BitmapMemoryManager) : m.firstLine ≤ m.rangeBegin := Nat.mul_div_le _ _

theorem lastLine_le (m : BitmapMemoryManager) : m.lastLine ≤ m.rangeEnd := Nat.mul_div_le _ _

theorem bitCount_line (m : BitmapMemoryManager) (i : Nat) : bitCount (m.allocMap i) =
    population m.getBit (kBitsPerMapLine * i) (kBitsPerMapLine * (i + 1)) := by
  have hsize : kBitsPerMapLine * (i + 1) - kBitsPerMapLine * i = kBitsPerMapLine := by
    rw [Nat.mul_succ, Nat.add_sub_cancel_left]
  rw [population, hsize, bitCount, Nat.count_eq_card_filter_range, Nat.count_eq_card_filter_range]
  congr 1
  refine Finset.filter_congr fun k hk => ?_
  have hlt : k < kBitsPerMapLine := Finset.mem_range.mp hk
  rw [getBit_eq, Nat.mul_add_div (by decide), Nat.mul_add_mod, Nat.div_eq_of_lt hlt,
    Nat.mod_eq_of_lt hlt, Nat.add_zero]

/-- **`Stat`** counts from the first frame of a line to the first frame of a line. -/
theorem stat_eq (h : m.ValidRange) :
    m.stat.allocatedFrames = population m.getBit m.firstLine m.lastLine := by
  have hle : m.rangeBegin / kBitsPerMapLine ≤ m.rangeEnd / kBitsPerMapLine :=
    Nat.div_le_div_right h.begin_le_end
  have hlines := population_lines m.getBit kBitsPerMapLine (m.rangeBegin / kBitsPerMapLine)
    (m.rangeEnd / kBitsPerMapLine - m.rangeBegin / kBitsPerMapLine)
  rw [Nat.add_sub_cancel' hle] at hlines
  simp only [stat, bitCount_line]
  exact hlines

/-- Of a block that comes, the frames before the last line are counted. -/
theorem stat_markAllocated (h : m.ValidRange) (hf : m.rangeBegin ≤ f)
    (hclear : ∀ g, f ≤ g → g < f + n → m.getBit g = false) :
    (m.markAllocated f n).stat.allocatedFrames =
      m.stat.allocatedFrames + (min m.lastLine (f + n) - f) := by
  have hfirst := m.firstLine_le
  have hbits := population_block (a := m.firstLine) (b := m.lastLine) hclear
    fun g => m.getBit_markAllocated f n g
  rw [Nat.max_eq_right (hfirst.trans hf)] at hbits
  rw [stat_eq h, ← hbits, stat_eq]
  · rw [firstLine, lastLine, markAllocated, setBits_rangeBegin, setBits_rangeEnd]
    rfl
  · rw [markAllocated]
    exact ⟨by simpa using h.begin_le_end, by simpa using h.end_le⟩

/-- Of a block that goes, too. -/
theorem stat_free (h : m.ValidRange) (hb : m.Live b) :
    (m.free b.start b.size).stat.allocatedFrames + (min m.lastLine (b.start + b.size) - b.start) =
      m.stat.allocatedFrames := by
  obtain ⟨hle, -, hset⟩ := hb
  have hfirst := m.firstLine_le
  have hclear : ∀ g, b.start ≤ g → g < b.start + b.size →
      (m.free b.start b.size).getBit g = false := by
    intro g hg hlt
    rw [free, getBit_setBits, if_pos ⟨hg, hlt⟩]
  have hbits := population_block (q := m.getBit) (a := m.firstLine) (b := m.lastLine) hclear
    fun g => by
      rw [m.getBit_free b.start b.size g]
      constructor
      · intro hg
        by_cases hin : b.start ≤ g ∧ g < b.start + b.size
        · exact .inr hin
        · exact .inl ⟨hg, hin⟩
      · rintro (⟨hg, -⟩ | hin)
        · exact hg
        · exact hset g hin
  rw [Nat.max_eq_right (hfirst.trans hle)] at hbits
  rw [stat_eq h, hbits, stat_eq]
  · rw [firstLine, lastLine, free, setBits_rangeBegin, setBits_rangeEnd]
    rfl
  · rw [free]
    exact ⟨by simpa using h.begin_le_end, by simpa using h.end_le⟩

theorem allocate_zero (m : BitmapMemoryManager) : m.allocate 0 = (m, .ok m.rangeBegin) := by
  have hsearch : m.search 0 m.rangeBegin = some m.rangeBegin := by
    rw [search]
    rfl
  rw [allocate, hsearch]
  rfl

/-! ## When `Stat` is exact -/

/-- What the whole lines have is what the range has. -/
theorem WholeLines.exact (hm : m.WholeLines) (h : m.ValidRange) :
    m.stat.allocatedFrames = population m.getBit m.rangeBegin m.rangeEnd := by
  have hfirst := m.firstLine_le
  have hlast := m.lastLine_le
  rw [stat_eq h]
  by_cases hle : m.rangeBegin ≤ m.lastLine
  · rw [population_add _ hfirst hle, population_add _ hle hlast,
      population_eq_zero.mpr (hm.head hle),
      population_eq_zero.mpr fun g hg hlt => hm.tail g (hle.trans hg) hg hlt,
      Nat.zero_add, Nat.add_zero]
  · -- the range lies within a line, of which nothing is counted
    have hline : m.firstLine = m.lastLine := by
      have hbegin : m.firstLine = 64 * (m.rangeBegin / 64) := rfl
      have hend : m.lastLine = 64 * (m.rangeEnd / 64) := rfl
      have hrange := h.begin_le_end
      omega
    rw [hline, population_self,
      population_eq_zero.mpr fun g hg hlt => hm.tail g hg (by omega) hlt]

theorem WholeLines.allocate (hm : m.WholeLines) (h : m.ValidRange) {m' : BitmapMemoryManager}
    (hr : m.allocate n = (m', .ok f)) :
    m'.stat.allocatedFrames = m.stat.allocatedFrames + n := by
  by_cases hn : 1 ≤ n
  · have hallocate := m.allocate_eq hn
    rw [hr] at hallocate
    obtain ⟨⟨hrun, hleast⟩, rfl⟩ := hallocate
    have hlast : f + n ≤ m.lastLine := by
      by_contra hpast
      obtain ⟨g, hlt, hg⟩ := hm.run n hn f hrun (by omega)
      exact absurd (hleast hg) (by omega)
    rw [stat_markAllocated h hrun.range_le hrun.clear]
    omega
  · obtain rfl : n = 0 := by omega
    rw [allocate_zero] at hr
    cases hr
    rfl

theorem WholeLines.free (hm : m.WholeLines) (h : m.ValidRange) (hb : m.Live b) :
    (m.free b.start b.size).stat.allocatedFrames + b.size = m.stat.allocatedFrames := by
  have hfree := stat_free h hb
  obtain ⟨hle, hend, hset⟩ := hb
  have hlast : b.size = 0 ∨ b.start + b.size ≤ m.lastLine := by
    by_contra hpast
    have hclear := hm.tail (b.start + b.size - 1) (by omega) (by omega) (by omega)
    rw [hset _ ⟨by omega, by omega⟩] at hclear
    cases hclear
  omega

/-- A frame in use that is not counted would be freed without a trace. -/
theorem StatExact.tail (hm : m.StatExact) (h : m.ValidRange) {g : Nat} (hg : m.rangeBegin ≤ g)
    (hlast : m.lastLine ≤ g) (hlt : g < m.rangeEnd) : m.getBit g = false := by
  by_contra hset
  have hlive : m.Live ⟨g, 1⟩ := by
    refine ⟨hg, hlt, fun f hf => ?_⟩
    obtain ⟨hle, hlt⟩ := hf
    obtain rfl : f = g := Nat.le_antisymm (Nat.le_of_lt_succ hlt) hle
    simpa using hset
  have hfree := stat_free h hlive
  have hexact := hm.free ⟨g, 1⟩ hlive
  dsimp only at hfree hexact
  omega

/-- A block that reaches into the last line is not the lowest. -/
theorem StatExact.run (hm : m.StatExact) (h : m.ValidRange) (hn : 1 ≤ n) (hf : m.Run n f)
    (hlast : m.lastLine < f + n) : ∃ g < f, m.Run n g := by
  have hallocate := m.allocate_eq hn
  cases hr : m.allocate n with
  | mk m' r =>
      rw [hr] at hallocate
      cases r with
      | error e => exact absurd hf (hallocate.1 f)
      | ok g =>
          obtain ⟨⟨hrun, hleast⟩, rfl⟩ := hallocate
          refine ⟨g, lt_of_le_of_ne (hleast hf) ?_, hrun⟩
          rintro rfl
          have hgrows := hm.allocate n _ g hr
          rw [stat_markAllocated h hrun.range_le hrun.clear] at hgrows
          omega

theorem StatExact.head (hm : m.StatExact) (h : m.ValidRange) (hle : m.rangeBegin ≤ m.lastLine) :
    ∀ g, m.firstLine ≤ g → g < m.rangeBegin → m.getBit g = false := by
  have hexact := hm.exact
  rw [stat_eq h, population_add _ m.firstLine_le hle, population_add _ hle m.lastLine_le,
    population_eq_zero.mpr fun g hg hlt => hm.tail h (hle.trans hg) hg hlt, Nat.add_zero] at hexact
  exact population_eq_zero.mp (Nat.add_eq_right.mp hexact)

/-- **When `Stat` is exact**: the parts of lines at the ends of the range are clear, and stay so
under `Allocate`. -/
theorem statExact_iff (h : m.ValidRange) : m.StatExact ↔ m.WholeLines := by
  constructor
  · intro hm
    exact ⟨hm.head h, fun g => hm.tail h, fun n hn f => hm.run h hn⟩
  · intro hm
    refine ⟨hm.exact h, ?_, fun n m' f => hm.allocate h, fun b => hm.free h⟩
    rw [hm.exact h]
    exact population_le ..

end BitmapMemoryManager

/-- What a history calls live is in use. -/
theorem Kept.inUse {m : BitmapMemoryManager} {s : History} {b : Block} (h : Kept m s)
    (hb : b ∈ s.live) : s.manager.Live b := by
  obtain ⟨hle, hlt⟩ := h.inRange b hb
  exact ⟨h.rangeBegin ▸ hle, h.rangeEnd ▸ hlt, fun f hf => (h.bits f).mpr (.inr (.inr ⟨b, hb, hf⟩))⟩

/-- Frames from 1 to 127, of which none is in use. -/
def wholeLines : BitmapMemoryManager := ⟨fun _ => 0, 1, 128⟩

theorem statExact_whole : wholeLines.StatExact ↔ wholeLines.WholeLines :=
  BitmapMemoryManager.statExact_iff ⟨by decide, by decide⟩

/-- Frames from 1 to 69, of which frame 64 is in use. -/
def partLine : BitmapMemoryManager := ⟨fun i => if i = 1 then 1 else 0, 1, 70⟩

theorem statExact_part : partLine.ValidRange ∧ partLine.stat.allocatedFrames = 0 ∧
    partLine.getBit 64 = true ∧ ¬partLine.StatExact := by
  refine ⟨⟨by decide, by decide⟩, by decide, by decide, fun h => ?_⟩
  have hexact := h.exact
  exact absurd hexact (by decide)

end Laplus.Memory
