/-
# `Laplus.Usb.Memory` — memory for the host controller (`usb/memory.cpp`)

`AllocMem` cuts blocks off `memory_pool` and takes none back.  A request that does not
fit may leave the pointer higher than it was, over its own alignment, but never lower.
-/
import Laplus.Lib.Bump
import Laplus.Lib.Run
import Mathlib.Algebra.GroupWithZero.Nat

namespace Laplus.Usb

open Lib

def kMemoryPoolSize : UInt64 := 4096 * 32

/-- The arguments of a call. -/
structure Request where
  size : UInt64
  alignment : UInt32
  boundary : UInt32

/-- An alignment and a boundary as they are asked for. -/
structure Request.Valid (r : Request) : Prop where
  alignment : r.alignment = 0 ∨ ∃ k, r.alignment.toNat = 2 ^ k
  boundary : r.boundary = 0 ∨ ∃ k, r.boundary.toNat = 2 ^ k
  le : r.boundary = 0 ∨ r.alignment ≤ r.boundary

/-- `Ceil`, for an address. -/
def Ceil (value : UInt64) (alignment : UInt32) : UInt64 :=
  (value + alignment.toUInt64 - 1) &&& ~~~(alignment - 1).toUInt64

/-- `AllocMem`: the block, if it is not null, and the pointer. -/
def AllocMem (memory_pool alloc_ptr : UInt64) (r : Request) : Option UInt64 × UInt64 :=
  let alloc_ptr := if 0 < r.alignment then Ceil alloc_ptr r.alignment else alloc_ptr
  let next_boundary := Ceil alloc_ptr r.boundary
  let alloc_ptr :=
    if 0 < r.boundary ∧ next_boundary < alloc_ptr + r.size then next_boundary else alloc_ptr
  if memory_pool + kMemoryPoolSize < alloc_ptr + r.size then (none, alloc_ptr)
  else (some alloc_ptr, alloc_ptr + r.size)

/-- The pointer, and the blocks that were handed out. -/
structure Pool where
  alloc_ptr : UInt64
  blocks : List (Request × UInt64)

def Pool.start (memory_pool : UInt64) : Pool := ⟨memory_pool, []⟩

/-- A call. -/
def Pool.alloc (memory_pool : UInt64) (s : Pool) (r : Request) : Pool :=
  let p := AllocMem memory_pool s.alloc_ptr r
  ⟨p.2, s.blocks ++ p.1.toList.map (r, ·)⟩

/-! ## Without overflow -/

/-- Where the block of a request goes. -/
def Request.place (r : Request) (ptr : Nat) : Nat :=
  allot ptr r.size.toNat r.alignment.toNat r.boundary.toNat

/-- The sums of a call are addresses. -/
structure Request.NoOverflow (r : Request) (ptr : UInt64) : Prop where
  alignment : ptr.toNat + r.alignment.toNat < 2 ^ 64
  boundary : align ptr.toNat r.alignment.toNat + r.boundary.toNat < 2 ^ 64
  size : r.place ptr.toNat + r.size.toNat < 2 ^ 64

variable {memory_pool v ptr : UInt64} {a : UInt32} {r : Request} {s : Pool} {rs : List Request}
  {k : Nat}

theorem and_mask (x : Nat) (hx : x < 2 ^ 64) (hk : k ≤ 64) :
    x &&& (2 ^ 64 - 1 - (2 ^ k - 1)) = x / 2 ^ k * 2 ^ k := by
  have hpow : 2 ^ k ≤ 2 ^ 64 := Nat.pow_le_pow_right Nat.two_pos hk
  have hpos := Nat.two_pow_pos k
  refine Nat.eq_of_testBit_eq fun i => ?_
  rw [Nat.testBit_and, Nat.sub_sub, Nat.add_comm 1, Nat.testBit_two_pow_sub_succ (by omega),
    Nat.testBit_two_pow_sub_one, Nat.testBit_mul_two_pow, Nat.testBit_div_two_pow]
  rcases Nat.lt_or_ge i k with hlt | hge
  · simp [hlt, Nat.not_le.mpr hlt]
  · rw [Nat.sub_add_cancel hge, decide_eq_true hge, decide_eq_false (Nat.not_lt.mpr hge)]
    rcases Nat.lt_or_ge i 64 with hi | hi
    · simp [hi]
    · rw [Nat.testBit_lt_two_pow (hx.trans_le (Nat.pow_le_pow_right Nat.two_pos hi))]
      rfl

/-- **`Ceil` rounds up.** -/
theorem Ceil_toNat (ha : a.toNat = 2 ^ k) (h : v.toNat + a.toNat < 2 ^ 64) :
    (Ceil v a).toNat = ceil v.toNat a.toNat := by
  have hlt := a.toNat_lt
  have hpos := Nat.two_pow_pos k
  have hk : k ≤ 64 := by
    rw [ha] at hlt
    exact ((Nat.pow_lt_pow_iff_right (by decide)).mp hlt).le.trans (by decide)
  have hadd : (v + a.toUInt64 - 1).toNat = v.toNat + a.toNat - 1 := by
    have hsum : (v + a.toUInt64).toNat = v.toNat + a.toNat := by
      rw [UInt64.toNat_add, UInt32.toNat_toUInt64, Nat.mod_eq_of_lt h]
    have hone : (1 : UInt64) ≤ v + a.toUInt64 := by
      rw [UInt64.le_iff_toNat_le, hsum]
      exact (by omega : 1 ≤ v.toNat + a.toNat)
    rw [UInt64.toNat_sub_of_le _ _ hone, hsum]
    rfl
  have hmask : (~~~(a - 1).toUInt64).toNat = 2 ^ 64 - 1 - (2 ^ k - 1) := by
    have hone : (1 : UInt32) ≤ a := by
      rw [UInt32.le_iff_toNat_le]
      exact (by omega : 1 ≤ a.toNat)
    rw [UInt64.toNat_not, UInt32.toNat_toUInt64, UInt32.toNat_sub_of_le _ _ hone, ha]
    rfl
  rw [Ceil, UInt64.toNat_and, hadd, hmask, and_mask _ (by omega) hk, ceil, ha]

/-! ## One call -/

theorem Request.Valid.dvd (h : r.Valid) (hb : 0 < r.boundary.toNat) (ha : 0 < r.alignment.toNat) :
    r.alignment.toNat ∣ r.boundary.toNat := by
  have hne : ∀ {x : UInt32}, 0 < x.toNat → x ≠ 0 := fun hpos he => by
    subst he
    exact absurd hpos (by decide)
  obtain ⟨i, hi⟩ := h.alignment.resolve_left (hne ha)
  obtain ⟨j, hj⟩ := h.boundary.resolve_left (hne hb)
  have hle := UInt32.le_iff_toNat_le.mp (h.le.resolve_left (hne hb))
  rw [hi, hj] at hle ⊢
  exact Nat.pow_dvd_pow 2 ((Nat.pow_le_pow_iff_right (by decide)).mp hle)

theorem pos_iff_toNat : 0 < a ↔ 0 < a.toNat := UInt32.lt_iff_toNat_lt

/-- The roundings of a request that asks for one. -/
theorem Ceil_valid (ha : a = 0 ∨ ∃ k, a.toNat = 2 ^ k) (hpos : 0 < a)
    (h : v.toNat + a.toNat < 2 ^ 64) : (Ceil v a).toNat = ceil v.toNat a.toNat := by
  obtain ⟨k, hk⟩ := ha.resolve_left fun he => by
    subst he
    exact absurd hpos (by decide)
  exact Ceil_toNat hk h

theorem aligned_toNat (hr : r.Valid) (hno : r.NoOverflow ptr) :
    (if 0 < r.alignment then Ceil ptr r.alignment else ptr).toNat =
      align ptr.toNat r.alignment.toNat := by
  rw [align]
  by_cases ha : 0 < r.alignment
  · rw [if_pos ha, if_pos (pos_iff_toNat.mp ha)]
    exact Ceil_valid hr.alignment ha hno.alignment
  · rw [if_neg ha, if_neg (pos_iff_toNat.not.mp ha)]

theorem placed_toNat (hr : r.Valid) (hno : r.NoOverflow ptr)
    (hv : v.toNat = align ptr.toNat r.alignment.toNat) :
    (if 0 < r.boundary ∧ Ceil v r.boundary < v + r.size then Ceil v r.boundary else v).toNat =
      r.place ptr.toNat := by
  have hsize : (v + r.size).toNat = v.toNat + r.size.toNat := by
    have hle := align_le_allot ptr.toNat r.size.toNat r.alignment.toNat r.boundary.toNat
    have hlt := hno.size
    rw [Request.place] at hlt
    rw [UInt64.toNat_add, Nat.mod_eq_of_lt (by omega)]
  rw [Request.place, allot, ← hv]
  by_cases hb : 0 < r.boundary
  · have hceil := Ceil_valid hr.boundary hb (by rw [hv]; exact hno.boundary)
    rw [apply_ite UInt64.toNat, hceil]
    refine if_congr (and_congr pos_iff_toNat ?_) rfl rfl
    rw [UInt64.lt_iff_toNat_lt, hceil, hsize]
  · rw [if_neg fun h => hb h.1, if_neg fun h => hb (pos_iff_toNat.mpr h.1)]

/-- **`AllocMem` takes the first place that fits.** -/
theorem AllocMem_eq (hpool : memory_pool.toNat + kMemoryPoolSize.toNat < 2 ^ 64) (hr : r.Valid)
    (hno : r.NoOverflow ptr) :
    ∃ p : UInt64, p.toNat = r.place ptr.toNat ∧
      (p + r.size).toNat = r.place ptr.toNat + r.size.toNat ∧
      AllocMem memory_pool ptr r =
        if memory_pool.toNat + kMemoryPoolSize.toNat < r.place ptr.toNat + r.size.toNat then
          (none, p)
        else (some p, p + r.size) := by
  have hp := placed_toNat hr hno (aligned_toNat hr hno)
  refine ⟨_, hp, ?_, ?_⟩
  · rw [UInt64.toNat_add, hp, Nat.mod_eq_of_lt hno.size]
  · refine if_congr ?_ rfl rfl
    rw [UInt64.lt_iff_toNat_lt, UInt64.toNat_add, Nat.mod_eq_of_lt hpool, UInt64.toNat_add, hp,
      Nat.mod_eq_of_lt hno.size]

/-! ## All calls -/

/-- The blocks, by begin and size. -/
def Pool.extents (s : Pool) : List (Nat × Nat) :=
  s.blocks.map fun b => (b.2.toNat, b.1.size.toNat)

/-- What the calls keep. -/
structure Pool.Sound (memory_pool : UInt64) (s : Pool) : Prop where
  handed : Handed memory_pool.toNat s.alloc_ptr.toNat s.extents
  fits : ∀ b ∈ s.blocks, Fits b.1.size.toNat b.1.alignment.toNat b.1.boundary.toNat b.2.toNat
  inside : ∀ b ∈ s.blocks,
    b.2.toNat + b.1.size.toNat ≤ memory_pool.toNat + kMemoryPoolSize.toNat

theorem Pool.sound_start (memory_pool : UInt64) : (start memory_pool).Sound memory_pool where
  handed := handed_nil _
  fits _ hb := absurd hb List.not_mem_nil
  inside _ hb := absurd hb List.not_mem_nil

/-- **A call.** -/
theorem Pool.Sound.alloc (h : s.Sound memory_pool)
    (hpool : memory_pool.toNat + kMemoryPoolSize.toNat < 2 ^ 64) (hr : r.Valid)
    (hno : r.NoOverflow s.alloc_ptr) : (s.alloc memory_pool r).Sound memory_pool := by
  obtain ⟨p, hp, hend, heq⟩ := AllocMem_eq hpool hr hno
  have hle : s.alloc_ptr.toNat ≤ p.toNat := hp ▸ le_allot _ _ _ _
  have hfits : Fits r.size.toNat r.alignment.toNat r.boundary.toNat p.toNat :=
    hp ▸ fits_allot hr.dvd _ _
  rw [Pool.alloc]
  by_cases hroom : memory_pool.toNat + kMemoryPoolSize.toNat <
      r.place s.alloc_ptr.toNat + r.size.toNat
  · rw [heq, if_pos hroom]
    simp only [Option.toList_none, List.map_nil, List.append_nil]
    exact ⟨h.handed.advance hle, h.fits, h.inside⟩
  · rw [heq, if_neg hroom]
    refine ⟨?_, fun b hb => ?_, fun b hb => ?_⟩
    · have hpush := h.handed.push hle r.size.toNat
      rw [hp, ← hend, ← hp] at hpush
      rw [extents, List.map_append]
      exact hpush
    · rcases List.mem_append.mp hb with hb | hb
      · exact h.fits b hb
      · rw [List.mem_singleton.mp hb]
        exact hfits
    · rcases List.mem_append.mp hb with hb | hb
      · exact h.inside b hb
      · rw [List.mem_singleton.mp hb, hp]
        exact Nat.le_of_not_lt hroom

/-- A request gets nothing exactly when no place from the pointer on is large enough. -/
theorem AllocMem_none_iff (hpool : memory_pool.toNat + kMemoryPoolSize.toNat < 2 ^ 64)
    (hr : r.Valid) (hno : r.NoOverflow ptr) :
    (AllocMem memory_pool ptr r).1 = none ↔ ¬ ∃ q, ptr.toNat ≤ q ∧
      Fits r.size.toNat r.alignment.toNat r.boundary.toNat q ∧
      q + r.size.toNat ≤ memory_pool.toNat + kMemoryPoolSize.toNat := by
  obtain ⟨p, hp, -, heq⟩ := AllocMem_eq hpool hr hno
  rw [heq]
  split
  next hlt =>
      refine iff_of_true rfl ?_
      rintro ⟨q, hq, hfits, hend⟩
      have hfirst : r.place ptr.toNat ≤ q := allot_le hfits hq
      omega
  next hlt =>
      refine iff_of_false (fun h => by cases h) (not_not.mpr ?_)
      exact ⟨r.place ptr.toNat, le_allot _ _ _ _, fits_allot hr.dvd _ _, Nat.le_of_not_lt hlt⟩

/-- Blocks that were handed out stay. -/
theorem Pool.blocks_prefix {rs' : List Request} (h : rs' <+: rs) (s : Pool) :
    (run (Pool.alloc memory_pool) s rs').blocks <+: (run (Pool.alloc memory_pool) s rs).blocks := by
  obtain ⟨es, rfl⟩ := h
  rw [run_append]
  generalize run (Pool.alloc memory_pool) s rs' = t
  induction es generalizing t with
  | nil => exact List.prefix_refl _
  | cons r es ih => exact (List.prefix_append _ _).trans (ih (t.alloc memory_pool r))

/-- **`AllocMem`, over all calls.**  The blocks lie in the pool, one behind the other, each as it
was asked for; and a call gets nothing when nothing fits, what was handed out before staying as it
is. -/
theorem allocMem_run (memory_pool : UInt64)
    (hpool : memory_pool.toNat + kMemoryPoolSize.toNat < 2 ^ 64) (rs : List Request)
    (hrs : Guarded (Pool.alloc memory_pool) (fun s r => r.Valid ∧ r.NoOverflow s.alloc_ptr)
      (.start memory_pool) rs) :
    let pool := run (Pool.alloc memory_pool) (.start memory_pool)
    ((pool rs).blocks.Pairwise fun b b' => b.2.toNat + b.1.size.toNat ≤ b'.2.toNat) ∧
    (∀ b ∈ (pool rs).blocks, memory_pool.toNat ≤ b.2.toNat ∧
      b.2.toNat + b.1.size.toNat ≤ memory_pool.toNat + kMemoryPoolSize.toNat ∧
      (0 < b.1.alignment.toNat → b.1.alignment.toNat ∣ b.2.toNat) ∧
      (0 < b.1.size.toNat → b.1.size.toNat ≤ b.1.boundary.toNat → ∀ m, b.1.boundary.toNat ∣ m →
        ¬ (b.2.toNat < m ∧ m < b.2.toNat + b.1.size.toNat))) ∧
    ∀ rs' r, rs' ++ [r] <+: rs → (pool rs').blocks <+: (pool rs).blocks ∧
      ((AllocMem memory_pool (pool rs').alloc_ptr r).1 = none ↔
        ¬ ∃ q, (pool rs').alloc_ptr.toNat ≤ q ∧
          Fits r.size.toNat r.alignment.toNat r.boundary.toNat q ∧
          q + r.size.toNat ≤ memory_pool.toNat + kMemoryPoolSize.toNat) := by
  intro pool
  have hsound : (pool rs).Sound memory_pool := inv_run (Pool.Sound memory_pool)
    (fun _ _ h hok => h.alloc hpool hok.1 hok.2) (Pool.sound_start memory_pool) hrs
  refine ⟨List.pairwise_map.mp hsound.handed.apart, fun b hb => ?_, fun rs' r hpre => ?_⟩
  · have hfits := hsound.fits b hb
    refine ⟨(hsound.handed.inside _ (List.mem_map_of_mem hb)).1, hsound.inside b hb,
      hfits.aligned, fun hsize hle m hm hcross => ?_⟩
    have hend := hfits.not_cross (hsize.trans_le hle) hle hm hcross.1
    omega
  · obtain ⟨es, rfl⟩ := hpre
    obtain ⟨hok, -⟩ := (guarded_append.mp (List.append_assoc rs' [r] es ▸ hrs)).2
    exact ⟨Pool.blocks_prefix (by rw [List.append_assoc]; exact List.prefix_append _ _) _,
      AllocMem_none_iff hpool hok.1 hok.2⟩

theorem allocMem_run_rings :
    let rs : List Request := [⟨512, 64, 65536⟩, ⟨200000, 64, 65536⟩, ⟨4096, 4096, 4096⟩]
    let blocks := (run (Pool.alloc 0x101000) (.start 0x101000) rs).blocks
    blocks.map (·.2) = [0x101000, 0x110000] ∧
      blocks.Pairwise fun b b' => b.2.toNat + b.1.size.toNat ≤ b'.2.toNat := by
  intro rs blocks
  refine ⟨by decide +kernel, (allocMem_run 0x101000 (by decide) rs ?_).1⟩
  refine ⟨⟨?_, ?_⟩, ⟨?_, ?_⟩, ⟨?_, ?_⟩, trivial⟩
  · exact ⟨.inr ⟨6, rfl⟩, .inr ⟨16, rfl⟩, .inr (by decide)⟩
  · constructor <;> decide +kernel
  · exact ⟨.inr ⟨6, rfl⟩, .inr ⟨16, rfl⟩, .inr (by decide)⟩
  · constructor <;> decide +kernel
  · exact ⟨.inr ⟨12, rfl⟩, .inr ⟨12, rfl⟩, .inr (by decide)⟩
  · constructor <;> decide +kernel

end Laplus.Usb
