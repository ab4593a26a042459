/-
# `Laplus.Memory.Bitmap` — the frame allocator (`memory_manager.cpp`)

`BitmapMemoryManager` with its lines of 64 bits.  `Allocate` looks for a run of
clear bits, and goes on behind the first set bit that it meets: no run reaches over that
bit, so none is jumped over (`search_some`, `search_none`).

Over a history of calls the set bits are the frames that were marked and the blocks that are
live (`Kept`).  `bits` forgets the lines: it is the manager of `Laplus.Paging`.
-/
import Laplus.Paging.Memory
import Laplus.Lib.Run
import Mathlib.Order.Bounds.Defs

namespace Laplus.Memory

open Lib
open Paging (Error)

/-- `kBitsPerMapLine`. -/
def kBitsPerMapLine : Nat := 64

/-- `BitmapMemoryManager`; its array is read and written below `kFrameCount` only. -/
structure BitmapMemoryManager where
  allocMap : Nat → BitVec 64
  rangeBegin : Nat
  rangeEnd : Nat

namespace BitmapMemoryManager

/-! ## `GetBit` and `SetBit` -/

/-- `GetBit`. -/
def getBit (m : BitmapMemoryManager) (frame : Nat) : Bool :=
  m.allocMap (frame / kBitsPerMapLine) &&& 1#64 <<< (frame % kBitsPerMapLine) != 0

/-- `SetBit`. -/
def setBit (m : BitmapMemoryManager) (frame : Nat) (allocated : Bool) : BitmapMemoryManager :=
  let line := m.allocMap (frame / kBitsPerMapLine)
  let bit := 1#64 <<< (frame % kBitsPerMapLine)
  { m with
    allocMap := Function.update m.allocMap (frame / kBitsPerMapLine)
      (if allocated then line ||| bit else line &&& ~~~bit) }

theorem mask_getLsbD {i j : Nat} (hj : j < 64) :
    (1#64 <<< i).getLsbD j = decide (j = i) := by
  rw [BitVec.getLsbD_shiftLeft, BitVec.getLsbD_one]
  by_cases h : j = i
  · subst h
    simp [hj]
  · have hne : i ≤ j → j - i ≠ 0 := by omega
    by_cases hle : i ≤ j
    · simp [h, hj, hne hle, Nat.not_lt.mpr hle]
    · simp [h, Nat.lt_of_not_le hle]

theorem getBit_eq (m : BitmapMemoryManager) (f : Nat) :
    m.getBit f = (m.allocMap (f / kBitsPerMapLine)).getLsbD (f % kBitsPerMapLine) := by
  have hbit : f % kBitsPerMapLine < 64 := Nat.mod_lt f (by decide)
  generalize hline : m.allocMap (f / kBitsPerMapLine) = line
  rw [getBit, hline]
  cases hset : line.getLsbD (f % kBitsPerMapLine) with
  | true =>
      rw [bne_iff_ne]
      intro hzero
      have hat := congrArg (fun w : BitVec 64 => w.getLsbD (f % kBitsPerMapLine)) hzero
      simp [mask_getLsbD hbit, hset] at hat
  | false =>
      rw [bne_eq_false_iff_eq]
      refine BitVec.eq_of_getLsbD_eq fun i hi => ?_
      rw [BitVec.getLsbD_and, mask_getLsbD hi]
      by_cases h : i = f % kBitsPerMapLine
      · subst h
        simp [hset]
      · simp [h]

/-- **One bit is set, the others stay.** -/
theorem getBit_setBit (m : BitmapMemoryManager) (f g : Nat) (b : Bool) :
    (m.setBit f b).getBit g = if g = f then b else m.getBit g := by
  have hbit : g % kBitsPerMapLine < 64 := Nat.mod_lt g (by decide)
  have hdiv := Nat.div_add_mod f kBitsPerMapLine
  have hdiv' := Nat.div_add_mod g kBitsPerMapLine
  rw [getBit_eq, getBit_eq, setBit]
  by_cases hline : g / kBitsPerMapLine = f / kBitsPerMapLine
  · simp only [hline, Function.update_self]
    have hsame : g = f ↔ g % kBitsPerMapLine = f % kBitsPerMapLine := by
      constructor
      · exact congrArg (· % kBitsPerMapLine)
      · intro hmod
        rw [← hdiv, ← hdiv', hline, hmod]
    cases b with
    | true =>
        rw [if_pos rfl, BitVec.getLsbD_or, mask_getLsbD hbit]
        by_cases hmod : g % kBitsPerMapLine = f % kBitsPerMapLine
        · simp [hsame.mpr hmod]
        · simp [hmod, mt hsame.mp hmod]
    | false =>
        rw [if_neg Bool.false_ne_true, BitVec.getLsbD_and, BitVec.getLsbD_not,
          mask_getLsbD hbit]
        by_cases hmod : g % kBitsPerMapLine = f % kBitsPerMapLine
        · simp [hsame.mpr hmod]
        · simp [hmod, mt hsame.mp hmod, hbit]
  · have hne : g ≠ f := fun h => hline (congrArg (· / kBitsPerMapLine) h)
    simp only [Function.update_of_ne hline, if_neg hne]

/-- The loop of `Free` and `MarkAllocated`. -/
def setBits (m : BitmapMemoryManager) (start : Nat) (allocated : Bool) :
    Nat → BitmapMemoryManager
  | 0 => m
  | i + 1 => (m.setBits start allocated i).setBit (start + i) allocated

/-- `Free`. -/
def free (m : BitmapMemoryManager) (start n : Nat) : BitmapMemoryManager := m.setBits start false n

/-- `MarkAllocated`. -/
def markAllocated (m : BitmapMemoryManager) (start n : Nat) : BitmapMemoryManager :=
  m.setBits start true n

/-- `SetMemoryRange`. -/
def setMemoryRange (m : BitmapMemoryManager) (rangeBegin rangeEnd : Nat) : BitmapMemoryManager :=
  { m with rangeBegin, rangeEnd }

section setBits

variable (m : BitmapMemoryManager) (start : Nat) (b : Bool) (n : Nat)

@[simp] theorem setBits_rangeBegin : (m.setBits start b n).rangeBegin = m.rangeBegin := by
  induction n with
  | zero => rfl
  | succ n ih => exact ih

@[simp] theorem setBits_rangeEnd : (m.setBits start b n).rangeEnd = m.rangeEnd := by
  induction n with
  | zero => rfl
  | succ n ih => exact ih

theorem getBit_setBits (g : Nat) : (m.setBits start b n).getBit g =
    if start ≤ g ∧ g < start + n then b else m.getBit g := by
  induction n with
  | zero => rw [if_neg (by omega), setBits]
  | succ n ih =>
      rw [setBits, getBit_setBit, ih]
      by_cases hg : g = start + n
      · rw [if_pos hg, if_pos (by omega)]
      · rw [if_neg hg]
        congr 1
        apply propext
        omega

end setBits

/-! ## `Allocate` -/

/-- What the inner loop of `Allocate` finds. -/
inductive Probe where
  | free
  | taken (i : Nat)
  | outOfRange

/-- The inner loop: the frames from `start + i` on, as many as are left. -/
def probe (m : BitmapMemoryManager) (start : Nat) : Nat → Nat → Probe
  | _, 0 => .free
  | i, left + 1 =>
      if m.rangeEnd ≤ start + i then .outOfRange
      else if m.getBit (start + i) then .taken i
      else m.probe start (i + 1) left

variable {m : BitmapMemoryManager} {start i left n f : Nat}

theorem probe_free (h : m.probe start i left = .free) :
    ∀ j, i ≤ j → j < i + left → start + j < m.rangeEnd ∧ m.getBit (start + j) = false := by
  induction left generalizing i with
  | zero => intro j hj hlt; omega
  | succ left ih =>
      rw [probe] at h
      split at h
      · cases h
      split at h
      · cases h
      intro j hj hlt
      by_cases hji : j = i
      · subst hji
        exact ⟨by omega, by simpa using ‹¬m.getBit (start + j) = true›⟩
      · exact ih h j (by omega) (by omega)

theorem probe_taken {j : Nat} (h : m.probe start i left = .taken j) :
    j < i + left ∧ start + j < m.rangeEnd ∧ m.getBit (start + j) = true := by
  induction left generalizing i with
  | zero => cases h
  | succ left ih =>
      rw [probe] at h
      split at h
      · cases h
      split at h
      · cases h
        exact ⟨by omega, by omega, ‹_›⟩
      · obtain ⟨hlt, hset⟩ := ih h
        exact ⟨by omega, hset⟩

theorem probe_outOfRange (h : m.probe start i left = .outOfRange) :
    m.rangeEnd < start + (i + left) := by
  induction left generalizing i with
  | zero => cases h
  | succ left ih =>
      rw [probe] at h
      split at h
      · omega
      split at h
      · cases h
      · have hlt := ih h
        omega

/-- The outer loop: behind a frame that is taken it starts again. -/
def search (m : BitmapMemoryManager) (n start : Nat) : Option Nat :=
  match _h : m.probe start 0 n with
  | .free => some start
  | .taken i => m.search n (start + i + 1)
  | .outOfRange => none
termination_by m.rangeEnd - start
decreasing_by
  have htaken := probe_taken _h
  omega

/-- `Allocate`. -/
def allocate (m : BitmapMemoryManager) (n : Nat) : BitmapMemoryManager × Except Error Nat :=
  match m.search n m.rangeBegin with
  | some f => (m.markAllocated f n, .ok f)
  | none => (m, .error .kNoEnoughMemory)

/-- A run of `n` clear bits of the range, from `f` on. -/
structure Run (m : BitmapMemoryManager) (n f : Nat) : Prop where
  range_le : m.rangeBegin ≤ f
  le_range : f + n ≤ m.rangeEnd
  clear : ∀ g, f ≤ g → g < f + n → m.getBit g = false

/-- **The search** finds the lowest run, or there is none. -/
theorem search_eq (hn : 1 ≤ n) (hbegin : m.rangeBegin ≤ start)
    (hbelow : ∀ g, m.Run n g → start ≤ g) :
    match m.search n start with
    | some f => IsLeast {f | m.Run n f} f
    | none => ∀ f, ¬m.Run n f := by
  fun_induction search m n start with
  | case1 start hprobe =>
      have hclear := probe_free hprobe
      have hlast := (hclear (n - 1) (Nat.zero_le _) (by omega)).1
      refine ⟨⟨hbegin, by omega, fun g hle hlt => ?_⟩, fun g hg => hbelow g hg⟩
      have hg := (hclear (g - start) (Nat.zero_le _) (by omega)).2
      rwa [Nat.add_sub_cancel' hle] at hg
  | case2 start i hprobe ih =>
      obtain ⟨hlt, _, hset⟩ := probe_taken hprobe
      refine ih (by omega) fun g hg => ?_
      -- a run from before the set bit would reach over it
      have hle := hbelow g hg
      by_contra hbefore
      have hclear := hg.clear (start + i) (by omega) (by omega)
      rw [hset] at hclear
      cases hclear
  | case3 start hprobe =>
      intro f hf
      have hend := probe_outOfRange hprobe
      have hle := hbelow f hf
      have hrange := hf.le_range
      omega

/-- **`Allocate`**: the lowest run and nothing else is set, or there is none and nothing changes. -/
theorem allocate_eq (m : BitmapMemoryManager) (hn : 1 ≤ n) :
    match m.allocate n with
    | (m', .ok f) => IsLeast {f | m.Run n f} f ∧ m' = m.markAllocated f n
    | (m', .error _) => (∀ f, ¬m.Run n f) ∧ m' = m := by
  have hsearch := search_eq (m := m) hn (Nat.le_refl _) fun g hg => hg.range_le
  rw [allocate]
  cases hfound : m.search n m.rangeBegin with
  | some f =>
      rw [hfound] at hsearch
      exact ⟨hsearch, rfl⟩
  | none =>
      rw [hfound] at hsearch
      exact ⟨hsearch, rfl⟩

theorem getBit_markAllocated (m : BitmapMemoryManager) (start n g : Nat) :
    (m.markAllocated start n).getBit g = true ↔
      m.getBit g = true ∨ start ≤ g ∧ g < start + n := by
  rw [markAllocated, getBit_setBits]
  split <;> simp [*]

theorem getBit_free (m : BitmapMemoryManager) (start n g : Nat) :
    (m.free start n).getBit g = true ↔ m.getBit g = true ∧ ¬(start ≤ g ∧ g < start + n) := by
  rw [free, getBit_setBits]
  split <;> simp [*]

/-! ## The bits, without their lines -/

/-- The manager of `Laplus.Paging`. -/
def bits (m : BitmapMemoryManager) (h : m.rangeEnd ≤ Paging.kFrameCount) :
    Paging.BitmapMemoryManager where
  allocMap := m.getBit
  rangeBegin := m.rangeBegin
  rangeEnd := m.rangeEnd
  rangeEnd_le := h

section bits

variable (m : BitmapMemoryManager) (h : m.rangeEnd ≤ Paging.kFrameCount)

theorem bits_setBit (f : Nat) (b : Bool) : (m.setBit f b).bits h = (m.bits h).setBit f b := by
  have hbits : (m.setBit f b).getBit = Function.update m.getBit f b := by
    funext g
    rw [getBit_setBit, Function.update_apply]
  simp only [bits, Paging.BitmapMemoryManager.setBit, hbits]
  rfl

/-- `Free(frame, 1)`. -/
theorem bits_free (f : Nat) : (m.free f 1).bits h = (m.bits h).free f := m.bits_setBit h f false

/-- `Allocate(1)`. -/
theorem bits_allocate :
    (m.bits h).allocate =
      ((m.allocate 1).2.toOption).map fun f => ((m.setBit f true).bits h, f) := by
  have hallocate := m.allocate_eq (Nat.le_refl 1)
  rcases hresult : m.allocate 1 with ⟨m', e | f⟩ <;> rw [hresult] at hallocate
  · obtain ⟨hnone, _⟩ := hallocate
    refine Option.map_eq_none_iff.mpr (List.find?_eq_none.mpr fun g hg hclear => hnone g ?_)
    obtain ⟨hle, hlt⟩ := List.mem_range'_1.mp hg
    have hend : g + 1 ≤ m.rangeEnd := by
      simp only [bits] at hle hlt
      omega
    refine ⟨hle, hend, fun g' hle' hlt' => ?_⟩
    obtain rfl : g' = g := by omega
    simpa [bits] using hclear
  · obtain ⟨⟨hrun, hleast⟩, _⟩ := hallocate
    have hle := hrun.range_le
    have hlt := hrun.le_range
    have hfind : (List.range' m.rangeBegin (m.rangeEnd - m.rangeBegin)).find? (!m.getBit ·) =
        some f := by
      rw [List.find?_range'_eq_some]
      refine ⟨by simp [hrun.clear f (Nat.le_refl f) (Nat.lt_succ_self f)],
        List.mem_range'_1.mpr ⟨hle, by omega⟩, fun g hge hgf => ?_⟩
      by_contra hset
      have hleast' := hleast (a := g) ⟨hge, by omega, fun g' hle' hlt' => ?_⟩
      · omega
      · obtain rfl : g' = g := by omega
        simpa using hset
    exact (congrArg (Option.map _) hfind).trans
      (congrArg (fun manager => some (manager, f)) (m.bits_setBit h f true).symm)

end bits

end BitmapMemoryManager

/-! ## Histories -/

/-- Frames in a row. -/
structure Block where
  start : Nat
  size : Nat
deriving DecidableEq

/-- The frames of a block. -/
def Block.Has (b : Block) (f : Nat) : Prop := b.start ≤ f ∧ f < b.start + b.size

instance (b : Block) (f : Nat) : Decidable (b.Has f) :=
  inferInstanceAs (Decidable (_ ∧ _))

/-- No frame of `b` is a frame of `c`. -/
def Block.Apart (b c : Block) : Prop := ∀ i < b.size, ¬c.Has (b.start + i)

instance (b c : Block) : Decidable (b.Apart c) := Nat.decidableBallLT _ _

namespace Block

variable {b c : Block} {f : Nat}

theorem apart_iff : b.Apart c ↔ ∀ f, b.Has f → ¬c.Has f := by
  constructor
  · intro h f hf
    obtain ⟨hle, hlt⟩ := hf
    have hnot := h (f - b.start) (by omega)
    rwa [Nat.add_sub_cancel' hle] at hnot
  · exact fun h i hi => h _ ⟨Nat.le_add_right _ _, by omega⟩

theorem Apart.symm (h : b.Apart c) : c.Apart b :=
  apart_iff.mpr fun f hc hb => apart_iff.mp h f hb hc

end Block

/-- The manager, the blocks that were marked, and those that are live: returned by `Allocate` and
not freed since. -/
structure History where
  manager : BitmapMemoryManager
  marked : List Block
  live : List Block

/-- A call of the manager. -/
inductive Call where
  | allocate (n : Nat)
  | free (b : Block)
  | markAllocated (b : Block)

namespace History

/-- Before the first call. -/
def start (manager : BitmapMemoryManager) : History := ⟨manager, [], []⟩

def step (s : History) : Call → History
  | .allocate n =>
      match s.manager.allocate n with
      | (manager, .ok f) => { s with manager, live := ⟨f, n⟩ :: s.live }
      | (manager, .error _) => { s with manager }
  | .free b =>
      { s with manager := s.manager.free b.start b.size, live := s.live.erase b }
  | .markAllocated b =>
      { s with manager := s.manager.markAllocated b.start b.size, marked := b :: s.marked }

/-- A block that is freed is live; what is marked is outside the live blocks. -/
def Admits (s : History) : Call → Prop
  | .allocate n => 1 ≤ n
  | .free b => b ∈ s.live
  | .markAllocated b => ∀ c ∈ s.live, b.Apart c

instance (s : History) : (c : Call) → Decidable (s.Admits c)
  | .allocate n => inferInstanceAs (Decidable (1 ≤ n))
  | .free b => inferInstanceAs (Decidable (b ∈ s.live))
  | .markAllocated b => inferInstanceAs (Decidable (∀ c ∈ s.live, b.Apart c))

end History

/-- **Who owns which bit**, from the manager `m` on. -/
structure Kept (m : BitmapMemoryManager) (s : History) : Prop where
  rangeBegin : s.manager.rangeBegin = m.rangeBegin
  rangeEnd : s.manager.rangeEnd = m.rangeEnd
  bits : ∀ f, s.manager.getBit f = true ↔
    m.getBit f = true ∨ (∃ b ∈ s.marked, b.Has f) ∨ ∃ b ∈ s.live, b.Has f
  fresh : ∀ b ∈ s.live, ∀ f, b.Has f → m.getBit f = false ∧ ∀ c ∈ s.marked, ¬c.Has f
  apart : s.live.Pairwise Block.Apart
  inRange : ∀ b ∈ s.live, m.rangeBegin ≤ b.start ∧ b.start + b.size ≤ m.rangeEnd

namespace Kept

variable {m : BitmapMemoryManager} {s : History}

theorem start (m : BitmapMemoryManager) : Kept m (.start m) where
  rangeBegin := rfl
  rangeEnd := rfl
  bits f := by simp [History.start]
  fresh b hb := by cases hb
  apart := .nil
  inRange b hb := by cases hb

theorem allocate (h : Kept m s) {n : Nat} (hn : 1 ≤ n) : Kept m (s.step (.allocate n)) := by
  have hallocate := s.manager.allocate_eq hn
  rw [History.step]
  rcases hresult : s.manager.allocate n with ⟨manager, f | f⟩ <;> rw [hresult] at hallocate
  · obtain ⟨_, rfl⟩ := hallocate
    exact h
  · obtain ⟨⟨hrun, _⟩, rfl⟩ := hallocate
    -- the block was clear, so it belonged to nobody
    have hclear : ∀ g, (⟨f, n⟩ : Block).Has g → ¬(m.getBit g = true ∨
        (∃ b ∈ s.marked, b.Has g) ∨ ∃ b ∈ s.live, b.Has g) := by
      intro g hg
      rw [← h.bits g, hrun.clear g hg.1 hg.2]
      exact Bool.false_ne_true
    constructor
    case rangeBegin => exact (BitmapMemoryManager.setBits_rangeBegin ..).trans h.rangeBegin
    case rangeEnd => exact (BitmapMemoryManager.setBits_rangeEnd ..).trans h.rangeEnd
    case bits =>
      intro g
      rw [BitmapMemoryManager.getBit_markAllocated, h.bits g, List.exists_mem_cons_iff, or_assoc,
        or_assoc]
      exact or_congr_right (or_congr_right or_comm)
    case fresh =>
      intro b hb g hg
      rcases List.mem_cons.mp hb with rfl | hb
      · have hnot := hclear g hg
        exact ⟨by simpa using fun hset => hnot (.inl hset),
          fun c hc hcg => hnot (.inr (.inl ⟨c, hc, hcg⟩))⟩
      · exact h.fresh b hb g hg
    case apart =>
      refine List.pairwise_cons.mpr ⟨fun c hc => Block.apart_iff.mpr fun g hg hcg => ?_, h.apart⟩
      exact hclear g hg (.inr (.inr ⟨c, hc, hcg⟩))
    case inRange =>
      intro b hb
      rcases List.mem_cons.mp hb with rfl | hb
      · rw [← h.rangeBegin, ← h.rangeEnd]
        exact ⟨hrun.range_le, hrun.le_range⟩
      · exact h.inRange b hb

theorem free (h : Kept m s) {b : Block} (hb : b ∈ s.live) : Kept m (s.step (.free b)) := by
  have hperm := List.perm_cons_erase hb
  have hapart := (hperm.pairwise h.apart fun hbc => hbc.symm)
  obtain ⟨hhead, htail⟩ := List.pairwise_cons.mp hapart
  constructor
  case rangeBegin => exact (BitmapMemoryManager.setBits_rangeBegin ..).trans h.rangeBegin
  case rangeEnd => exact (BitmapMemoryManager.setBits_rangeEnd ..).trans h.rangeEnd
  case bits =>
    intro g
    have hsplit : (∃ c ∈ s.live, c.Has g) ↔ b.Has g ∨ ∃ c ∈ s.live.erase b, c.Has g := by
      simp only [hperm.mem_iff, List.exists_mem_cons_iff]
    have hothers : b.Has g → ¬∃ c ∈ s.live.erase b, c.Has g := fun hbg ⟨c, hc, hcg⟩ =>
      Block.apart_iff.mp (hhead c hc) g hbg hcg
    have hfresh := h.fresh b hb g
    have hbits := h.bits g
    rw [hsplit] at hbits
    rw [History.step, BitmapMemoryManager.getBit_free, hbits]
    constructor
    · rintro ⟨hm | hmarked | hbg | hlive, hnot⟩
      · exact .inl hm
      · exact .inr (.inl hmarked)
      · exact absurd hbg hnot
      · exact .inr (.inr hlive)
    · rintro (hm | hmarked | hlive)
      · refine ⟨.inl hm, fun hbg => ?_⟩
        rw [(hfresh hbg).1] at hm
        cases hm
      · obtain ⟨c, hc, hcg⟩ := hmarked
        exact ⟨.inr (.inl ⟨c, hc, hcg⟩), fun hbg => (hfresh hbg).2 c hc hcg⟩
      · exact ⟨.inr (.inr (.inr hlive)), fun hbg => hothers hbg hlive⟩
  case fresh => exact fun c hc => h.fresh c (List.mem_of_mem_erase hc)
  case apart => exact htail
  case inRange => exact fun c hc => h.inRange c (List.mem_of_mem_erase hc)

theorem markAllocated (h : Kept m s) {b : Block} (hb : ∀ c ∈ s.live, b.Apart c) :
    Kept m (s.step (.markAllocated b)) := by
  constructor
  case rangeBegin => exact (BitmapMemoryManager.setBits_rangeBegin ..).trans h.rangeBegin
  case rangeEnd => exact (BitmapMemoryManager.setBits_rangeEnd ..).trans h.rangeEnd
  case bits =>
    intro g
    rw [History.step, BitmapMemoryManager.getBit_markAllocated, h.bits g, List.exists_mem_cons_iff,
      or_assoc, or_right_comm]
    exact or_congr_right (or_congr_left or_comm)
  case fresh =>
    intro c hc g hg
    obtain ⟨hm, hmarked⟩ := h.fresh c hc g hg
    refine ⟨hm, fun d hd => ?_⟩
    rcases List.mem_cons.mp hd with rfl | hd
    · exact fun hdg => Block.apart_iff.mp (hb c hc) g hdg hg
    · exact hmarked d hd
  case apart => exact h.apart
  case inRange => exact h.inRange

/-- **A call.** -/
theorem step (h : Kept m s) {c : Call} (hc : s.Admits c) : Kept m (s.step c) := by
  cases c with
  | allocate n => exact h.allocate hc
  | free b => exact h.free hc
  | markAllocated b => exact h.markAllocated hc

end Kept

/-- **The frame allocator.**  After any calls the set bits are those that were set at the start, the
marked frames and the live blocks; the live blocks lie in the range, apart from each other, from
the marked frames and from what was set at the start; and `Allocate` sets the lowest run of clear
bits, unless there is none. -/
theorem allocator_correct (m : BitmapMemoryManager) (calls : List Call)
    (hcalls : Guarded History.step History.Admits (.start m) calls) :
    let s := run History.step (.start m) calls
    (∀ f, s.manager.getBit f = true ↔
      m.getBit f = true ∨ (∃ b ∈ s.marked, b.Has f) ∨ ∃ b ∈ s.live, b.Has f) ∧
    s.live.Pairwise Block.Apart ∧
    (∀ b ∈ s.live, m.rangeBegin ≤ b.start ∧ b.start + b.size ≤ m.rangeEnd ∧
      ∀ f, b.Has f → m.getBit f = false ∧ ∀ c ∈ s.marked, ¬c.Has f) ∧
    s.manager.rangeBegin = m.rangeBegin ∧ s.manager.rangeEnd = m.rangeEnd ∧
    ∀ n ≥ 1, match s.manager.allocate n with
      | (m', .ok f) => IsLeast {f | s.manager.Run n f} f ∧
          ∀ g, m'.getBit g = true ↔ s.manager.getBit g = true ∨ f ≤ g ∧ g < f + n
      | (m', .error _) => (∀ f, ¬s.manager.Run n f) ∧ m' = s.manager := by
  intro s
  have hkept : Kept m s := inv_run (Kept m) (fun s c h hc => h.step hc) (.start m) hcalls
  refine ⟨hkept.bits, hkept.apart, fun b hb => ?_, hkept.rangeBegin, hkept.rangeEnd,
    fun n hn => ?_⟩
  · obtain ⟨hle, hlt⟩ := hkept.inRange b hb
    exact ⟨hle, hlt, hkept.fresh b hb⟩
  · have hallocate := s.manager.allocate_eq hn
    rcases hresult : s.manager.allocate n with ⟨m', e | f⟩ <;> rw [hresult] at hallocate
    · exact hallocate
    · obtain ⟨hleast, rfl⟩ := hallocate
      exact ⟨hleast, s.manager.getBit_markAllocated f n⟩

/-- Frame 2 is taken: a block of two frames goes behind it, is freed, and a frame is marked. -/
def shortCalls : List Call :=
  [.allocate 2, .free ⟨3, 2⟩, .markAllocated ⟨1, 1⟩, .allocate 1]

theorem allocator_correct_short :
    let m : BitmapMemoryManager := ⟨fun i => if i = 0 then 4 else 0, 1, 70⟩
    let s := run History.step (.start m) shortCalls
    (∀ f, s.manager.getBit f = true ↔
      m.getBit f = true ∨ (∃ b ∈ s.marked, b.Has f) ∨ ∃ b ∈ s.live, b.Has f) ∧
    s.live.Pairwise Block.Apart ∧
    (∀ b ∈ s.live, m.rangeBegin ≤ b.start ∧ b.start + b.size ≤ m.rangeEnd ∧
      ∀ f, b.Has f → m.getBit f = false ∧ ∀ c ∈ s.marked, ¬c.Has f) ∧
    s.manager.rangeBegin = m.rangeBegin ∧ s.manager.rangeEnd = m.rangeEnd ∧
    ∀ n ≥ 1, match s.manager.allocate n with
      | (m', .ok f) => IsLeast {f | s.manager.Run n f} f ∧
          ∀ g, m'.getBit g = true ↔ s.manager.getBit g = true ∨ f ≤ g ∧ g < f + n
      | (m', .error _) => (∀ f, ¬s.manager.Run n f) ∧ m' = s.manager :=
  allocator_correct ⟨fun i => if i = 0 then 4 else 0, 1, 70⟩ shortCalls (by decide +kernel)

end Laplus.Memory
