/-
# `Laplus.Graphics.Stored` — frame buffers in memory

`frame_buffer.cpp`, byte by byte: where a pixel is stored, and the two loops that move
rows of bytes.  An access where there is no memory traps, and so does a `memcpy`
between rows that overlap, so that what goes through touches no other memory.
-/
import Mathlib.Algebra.Group.Int.Defs
import Mathlib.Algebra.GroupWithZero.Nat
import Laplus.Lib.Transfer
import Laplus.Graphics.FrameBuffer

namespace Laplus.Graphics

open Lib

/-! ## Where the pixels are -/

/-- `BytesPerPixel`. -/
def bytesPerPixel : PixelFormat → Int
  | .rgbResv8BitPerColor => 4
  | .bgrResv8BitPerColor => 4

@[simp] theorem bytesPerPixel_eq (f : PixelFormat) : bytesPerPixel f = 4 := by cases f <;> rfl

/-- `FrameBufferConfig`. -/
structure FrameBufferConfig where
  frameBuffer : Int
  pixelsPerScanLine : UInt32
  horizontalResolution : UInt32
  verticalResolution : UInt32
  pixelFormat : PixelFormat

/-- What `Copy` answers. -/
inductive CopyError where
  | success
  | unknownPixelFormat
deriving DecidableEq

/-- An `int` as a `size_t`. -/
def sizeT (n : Int) : Nat := (n % 2 ^ 64).toNat

theorem bmod_small {n : Nat} (h : n < 2 ^ 31) : (n : Int).bmod (2 ^ 32) = n :=
  Int.bmod_eq_of_le (by omega) (by omega)

/-- The loops over the rows. -/
def moveRows (move : Store UInt8 → Transfer → Except Trap (Store UInt8)) (dstStep srcStep : Int) :
    Nat → Store UInt8 → Transfer → Except Trap (Store UInt8)
  | 0, m, _ => .ok m
  | y + 1, m, t => do
      let m ← move m t
      moveRows move dstStep srcStep y m ⟨t.dst + dstStep, t.src + srcStep, t.len⟩

namespace FrameBufferConfig

variable (c : FrameBufferConfig) (m : Store UInt8)

/-- `FrameAddrAt`.  The offset is an `unsigned int`. -/
def frameAddrAt (pos : Vector2D) : Int :=
  c.frameBuffer +
    bytesPerPixel c.pixelFormat * (c.pixelsPerScanLine.toNat * pos.y + pos.x) % 2 ^ 32

/-- `BytesPerScanLine`, as an `int`. -/
def bytesPerScanLine : Int :=
  (bytesPerPixel c.pixelFormat * c.pixelsPerScanLine.toNat).bmod (2 ^ 32)

/-- `FrameBufferSize`. -/
def frameBufferSize : Vector2D :=
  ⟨(c.horizontalResolution.toNat : Int).bmod (2 ^ 32),
    (c.verticalResolution.toNat : Int).bmod (2 ^ 32)⟩

/-- The part that `Copy` copies to. -/
def copyArea (dstPos : Vector2D) (src : FrameBufferConfig) (srcArea : Rectangle) : Rectangle :=
  let srcAreaShifted : Rectangle := ⟨dstPos, srcArea.size⟩
  let srcOutline : Rectangle := ⟨dstPos - srcArea.pos, src.frameBufferSize⟩
  let dstOutline : Rectangle := ⟨⟨0, 0⟩, c.frameBufferSize⟩
  (dstOutline.inter srcOutline).inter srcAreaShifted

/-- `FrameBuffer::Copy`. -/
def copy (dstPos : Vector2D) (src : FrameBufferConfig) (srcArea : Rectangle) :
    Except Trap (Store UInt8 × CopyError) :=
  if c.pixelFormat ≠ src.pixelFormat then .ok (m, .unknownPixelFormat)
  else if bytesPerPixel c.pixelFormat ≤ 0 then .ok (m, .unknownPixelFormat)
  else do
    let area := c.copyArea dstPos src srcArea
    let srcStartPos := area.pos - (dstPos - srcArea.pos)
    let m ← moveRows Transfer.memcpy c.bytesPerScanLine src.bytesPerScanLine area.size.y.toNat m
      ⟨c.frameAddrAt area.pos, src.frameAddrAt srcStartPos,
        sizeT (bytesPerPixel c.pixelFormat * area.size.x)⟩
    return (m, .success)

/-- `FrameBuffer::Move`. -/
def move (dstPos : Vector2D) (src : Rectangle) : Except Trap (Store UInt8) :=
  let step := c.bytesPerScanLine
  let len := sizeT (bytesPerPixel c.pixelFormat * src.size.x)
  -- move up
  if dstPos.y < src.pos.y then
    moveRows Transfer.memcpy step step src.size.y.toNat m
      ⟨c.frameAddrAt dstPos, c.frameAddrAt src.pos, len⟩
  -- move left or move right
  else if dstPos.y = src.pos.y then
    moveRows Transfer.memmove step step src.size.y.toNat m
      ⟨c.frameAddrAt dstPos, c.frameAddrAt src.pos, len⟩
  -- move down, the last row first
  else
    moveRows Transfer.memcpy (-step) (-step) src.size.y.toNat m
      ⟨c.frameAddrAt (dstPos + ⟨0, src.size.y - 1⟩), c.frameAddrAt (src.pos + ⟨0, src.size.y - 1⟩),
        len⟩

/-! ## What the buffer holds -/

/-- The places of the buffer. -/
def outline : Rectangle := ⟨⟨0, 0⟩, ⟨c.horizontalResolution.toNat, c.verticalResolution.toNat⟩⟩

/-- The addresses of the buffer. -/
def Holds (a : Int) : Prop :=
  c.frameBuffer ≤ a ∧
    a < c.frameBuffer + 4 * (c.pixelsPerScanLine.toNat * c.verticalResolution.toNat)

instance (a : Int) : Decidable (c.Holds a) := inferInstanceAs (Decidable (_ ∧ _))

/-- There is memory at the addresses of the buffer. -/
def InMemory : Prop := ∀ a, c.Holds a → (m a).isSome

/-- The bytes of a pixel. -/
def pixel (p : Vector2D) : List (Option UInt8) :=
  (List.range 4).map fun i => m (c.frameAddrAt p + (i : Nat))

/-- The rows lie in their scan lines, and no `int` and no offset overflows: the heap of the kernel
has 128 MiB for its pictures. -/
structure Fits : Prop where
  width : c.horizontalResolution.toNat ≤ c.pixelsPerScanLine.toNat
  height : c.verticalResolution.toNat < 2 ^ 31
  scanLine : 4 * c.pixelsPerScanLine.toNat < 2 ^ 31
  bytes : 4 * (c.pixelsPerScanLine.toNat * c.verticalResolution.toNat) ≤ 2 ^ 32

/-- The memory after the pixels of an area have taken what was in other pixels: nothing else has
changed. -/
structure Taken (area : Vector2D → Prop) (source : Vector2D → List (Option UInt8))
    (m m' : Store UInt8) : Prop where
  taken : ∀ p, area p → c.pixel m' p = source p
  kept : ∀ p ∈ c.outline, ¬ area p → c.pixel m' p = c.pixel m p
  rest : ∀ a, (∀ p, area p → ∀ i < 4, a ≠ c.frameAddrAt p + (i : Nat)) → m' a = m a

/-! ### Addresses -/

/-- The place of a pixel in the row-major order. -/
def index (p : Vector2D) : Int := c.pixelsPerScanLine.toNat * p.y + p.x

variable {c m} {d s : FrameBufferConfig} {m' : Store UInt8} {r : Rectangle} {p q : Vector2D}

theorem mem_outline : p ∈ c.outline ↔ 0 ≤ p.x ∧ p.x < c.horizontalResolution.toNat ∧
    0 ≤ p.y ∧ p.y < c.verticalResolution.toNat := by
  simp only [outline, Rectangle.mem_def, Int.zero_add]

/-- A row ends before the next one starts. -/
theorem row_le (c : FrameBufferConfig) {y y' : Int} (h : y < y') :
    c.pixelsPerScanLine.toNat * y + c.pixelsPerScanLine.toNat ≤ c.pixelsPerScanLine.toNat * y' := by
  have hmul := Int.mul_le_mul_of_nonneg_left (Int.add_one_le_of_lt h)
    (Int.natCast_nonneg c.pixelsPerScanLine.toNat)
  rwa [Int.mul_add, Int.mul_one] at hmul

namespace Fits

theorem index_bound (h : c.Fits) (hp : p ∈ c.outline) : 0 ≤ c.index p ∧
    c.index p < c.pixelsPerScanLine.toNat * c.verticalResolution.toNat := by
  obtain ⟨hx, hx', hy, hy'⟩ := mem_outline.mp hp
  have hrow := c.row_le hy'
  have hnonneg := Int.mul_nonneg (Int.natCast_nonneg c.pixelsPerScanLine.toNat) hy
  have hwidth := h.width
  rw [index]
  omega

theorem frameAddrAt (h : c.Fits) (hp : p ∈ c.outline) :
    c.frameAddrAt p = c.frameBuffer + 4 * c.index p := by
  have hbound := h.index_bound hp
  have hbytes := h.bytes
  rw [FrameBufferConfig.frameAddrAt, bytesPerPixel_eq, ← index, Int.emod_eq_of_lt] <;> omega

/-- Every byte of a pixel is in the buffer. -/
theorem holds (h : c.Fits) (hp : p ∈ c.outline) {i : Nat} (hi : i < 4) :
    c.Holds (c.frameAddrAt p + i) := by
  have hbound := h.index_bound hp
  rw [Holds, h.frameAddrAt hp]
  omega

theorem index_inj (h : c.Fits) (hp : p ∈ c.outline) (hq : q ∈ c.outline)
    (heq : c.index p = c.index q) : p = q := by
  obtain ⟨hx, hx', -⟩ := mem_outline.mp hp
  obtain ⟨hu, hu', -⟩ := mem_outline.mp hq
  have hwidth := h.width
  rw [index, index] at heq
  have hrow : p.y = q.y := by
    rcases Int.lt_trichotomy p.y q.y with hlt | hrow | hlt
    · have hle := c.row_le hlt
      omega
    · exact hrow
    · have hle := c.row_le hlt
      omega
  rw [hrow] at heq
  exact Vector2D.ext (by omega) hrow

/-- A byte is in one pixel only. -/
theorem byte_inj (h : c.Fits) (hp : p ∈ c.outline) (hq : q ∈ c.outline) {i j : Nat} (hi : i < 4)
    (hj : j < 4) (heq : c.frameAddrAt p + i = c.frameAddrAt q + j) : p = q := by
  rw [h.frameAddrAt hp, h.frameAddrAt hq] at heq
  exact h.index_inj hp hq (by omega)

/-- From a row to another. -/
theorem frameAddrAt_row (h : c.Fits) {k : Int} (hp : p ∈ c.outline) (hk : p + ⟨0, k⟩ ∈ c.outline) :
    c.frameAddrAt (p + ⟨0, k⟩) = c.frameAddrAt p + k * c.bytesPerScanLine := by
  have hstep : c.bytesPerScanLine = 4 * c.pixelsPerScanLine.toNat := by
    have hscan := h.scanLine
    rw [bytesPerScanLine, bytesPerPixel_eq]
    exact bmod_small hscan
  rw [h.frameAddrAt hp, h.frameAddrAt hk, hstep, index, index]
  simp only [Vector2D.add_x, Vector2D.add_y, Int.mul_left_comm k 4, Int.mul_comm k, Int.mul_add]
  omega

end Fits

theorem Taken.congr {area area' : Vector2D → Prop} {source source' : Vector2D → List (Option UInt8)}
    (h : c.Taken area source m m') (harea : ∀ p, area' p ↔ area p)
    (hsource : ∀ p, source' p = source p) : c.Taken area' source' m m' where
  taken p hp := (h.taken p ((harea p).mp hp)).trans (hsource p).symm
  kept p hp hout := h.kept p hp fun hin => hout ((harea p).mpr hin)
  rest a ha := h.rest a fun p hp => ha p ((harea p).mpr hp)

/-- Nothing is taken. -/
theorem Taken.refl {area : Vector2D → Prop} {source : Vector2D → List (Option UInt8)}
    (h : ∀ p, ¬ area p) : c.Taken area source m m where
  taken p hp := (h p hp).elim
  kept _ _ _ := rfl
  rest _ _ := rfl

theorem pixel_eq_iff : d.pixel m' p = s.pixel m q ↔
    ∀ i < 4, m' (d.frameAddrAt p + (i : Nat)) = m (s.frameAddrAt q + (i : Nat)) := by
  rw [pixel, pixel, List.map_inj_left]
  simp only [List.mem_range]

/-! ## Rows -/

/-- A row of an area, to be taken from a row of the other buffer. -/
def rowOf (d s : FrameBufferConfig) (r : Rectangle) (q : Vector2D) (y : Int) : Transfer :=
  ⟨d.frameAddrAt (r.pos + ⟨0, y⟩), s.frameAddrAt (q + ⟨0, y⟩), (4 * r.size.x).toNat⟩

/-- An area, and what it takes: both lie in their buffers, which are in memory. -/
structure Area (d s : FrameBufferConfig) (m : Store UInt8) (r : Rectangle) (q : Vector2D) : Prop where
  dstFits : d.Fits
  srcFits : s.Fits
  dst : ∀ p ∈ r, p ∈ d.outline
  src : ∀ p ∈ r, p - r.pos + q ∈ s.outline
  dstMemory : d.InMemory m
  srcMemory : s.InMemory m

namespace Area

variable {y : Int} {i b : Nat}

/-- The byte of a pixel in its row. -/
theorem row_at (h : Area d s m r q) (hp : p ∈ r) (hi : (i : Int) = 4 * (p.x - r.pos.x) + (b : Nat)) :
    (rowOf d s r q (p.y - r.pos.y)).dst + i = d.frameAddrAt p + b ∧
      (rowOf d s r q (p.y - r.pos.y)).src + i = s.frameAddrAt (p - r.pos + q) + b := by
  have hr := Rectangle.mem_def.mp hp
  have hfirst : r.pos + ⟨0, p.y - r.pos.y⟩ ∈ r := by
    simp only [Rectangle.mem_def, Vector2D.add_x, Vector2D.add_y]
    omega
  have hsrc := h.src _ hfirst
  rw [Vector2D.add_sub_cancel_left, Vector2D.add_comm] at hsrc
  rw [rowOf]
  dsimp only
  rw [h.dstFits.frameAddrAt (h.dst _ hfirst), h.dstFits.frameAddrAt (h.dst p hp),
    h.srcFits.frameAddrAt hsrc, h.srcFits.frameAddrAt (h.src p hp)]
  simp only [index, Vector2D.add_x, Vector2D.add_y, Vector2D.sub_x, Vector2D.sub_y, Int.mul_add,
    Int.mul_sub]
  omega

/-- Every byte of a row is a byte of a pixel. -/
theorem row_byte (h : Area d s m r q) (hy : 0 ≤ y ∧ y < r.size.y) (hi : i < (rowOf d s r q y).len) :
    ∃ p ∈ r, p.y = r.pos.y + y ∧ ∃ b < 4, (rowOf d s r q y).dst + i = d.frameAddrAt p + (b : Nat) ∧
      (rowOf d s r q y).src + i = s.frameAddrAt (p - r.pos + q) + (b : Nat) := by
  have hlen : i < (4 * r.size.x).toNat := hi
  have hp : r.pos + ⟨(i / 4 : Nat), y⟩ ∈ r := by
    simp only [Rectangle.mem_def, Vector2D.add_x, Vector2D.add_y]
    omega
  refine ⟨_, hp, rfl, i % 4, Nat.mod_lt i (by decide), ?_⟩
  have hat := h.row_at (i := i) (b := i % 4) hp (by simp only [Vector2D.add_x]; omega)
  have hrow : (r.pos + ⟨(i / 4 : Nat), y⟩ : Vector2D).y - r.pos.y = y := by
    simp only [Vector2D.add_y]
    omega
  rwa [hrow] at hat

/-- `memcpy` of a row of which nothing is written that is read. -/
theorem memcpy_ok (h : Area d s m r q) (hy : 0 ≤ y ∧ y < r.size.y)
    (hread : ∀ p ∈ r, ∀ p' ∈ r, p.y = r.pos.y + y → p'.y = r.pos.y + y → ∀ i < 4, ∀ i' < 4,
      d.frameAddrAt p + (i : Nat) ≠ s.frameAddrAt (p' - r.pos + q) + (i' : Nat))
    (hmapped : (rowOf d s r q y).Mapped m') :
    Transfer.memcpy m' (rowOf d s r q y) = .ok ((rowOf d s r q y).apply m') := by
  refine Transfer.memcpy_ok (fun hover => ?_) hmapped
  obtain ⟨i, hi, i', hi', heq⟩ := hover.common
  obtain ⟨p, hp, hpy, b, hb, hdst, -⟩ := h.row_byte hy hi
  obtain ⟨p', hp', hpy', b', hb', -, hsrc⟩ := h.row_byte hy hi'
  rw [hdst, hsrc] at heq
  exact hread p hp p' hp' hpy hpy' b hb b' hb' heq

/-- **The rows of an area**, in an order in which none is read after another was written there. -/
theorem foldlM_taken (h : Area d s m r q) (row : Nat → Int)
    {move : Store UInt8 → Transfer → Except Trap (Store UInt8)}
    (hrow : ∀ k < r.size.y.toNat, 0 ≤ row k ∧ row k < r.size.y)
    (hall : ∀ y, 0 ≤ y → y < r.size.y → ∃ k < r.size.y.toNat, row k = y)
    (hinj : ∀ j k, j < k → row j ≠ row k)
    (hread : ∀ j k, j < k → k < r.size.y.toNat → ∀ p ∈ r, ∀ p' ∈ r, p.y = r.pos.y + row j →
      p'.y = r.pos.y + row k → ∀ i < 4, ∀ i' < 4,
        d.frameAddrAt p + (i : Nat) ≠ s.frameAddrAt (p' - r.pos + q) + (i' : Nat))
    (hmove : ∀ k < r.size.y.toNat, ∀ m : Store UInt8, (rowOf d s r q (row k)).Mapped m →
      move m (rowOf d s r q (row k)) = .ok ((rowOf d s r q (row k)).apply m)) :
    ∃ m', ((List.range r.size.y.toNat).map fun k => rowOf d s r q (row k)).foldlM move m = .ok m' ∧
      d.Taken (· ∈ r) (fun p => s.pixel m (p - r.pos + q)) m m' := by
  have hmem : ∀ t ∈ (List.range r.size.y.toNat).map (fun k => rowOf d s r q (row k)),
      ∃ k < r.size.y.toNat, t = rowOf d s r q (row k) := by
    intro t ht
    obtain ⟨k, hk, rfl⟩ := List.mem_map.mp ht
    exact ⟨k, List.mem_range.mp hk, rfl⟩
  have hmapped : ∀ t ∈ (List.range r.size.y.toNat).map (fun k => rowOf d s r q (row k)),
      t.Mapped m := by
    intro t ht i hi
    obtain ⟨k, hk, rfl⟩ := hmem t ht
    obtain ⟨p, hp, -, b, hb, hdst, hsrc⟩ := h.row_byte (hrow k hk) hi
    rw [hdst, hsrc]
    exact ⟨h.srcMemory _ (h.srcFits.holds (h.src p hp) hb),
      h.dstMemory _ (h.dstFits.holds (h.dst p hp) hb)⟩
  have hbefore : ((List.range r.size.y.toNat).map fun k => rowOf d s r q (row k)).Pairwise
      Transfer.Before := by
    rw [List.pairwise_map]
    refine List.pairwise_lt_range.imp_of_mem fun {j k} hj hk hjk => ?_
    have hk := List.mem_range.mp hk
    constructor
    · intro i hi i' hi' heq
      obtain ⟨p, hp, hpy, b, hb, hdst, -⟩ := h.row_byte (hrow j (Nat.lt_trans hjk hk)) hi
      obtain ⟨p', hp', hpy', b', hb', -, hsrc⟩ := h.row_byte (hrow k hk) hi'
      rw [hdst, hsrc] at heq
      exact hread j k hjk hk p hp p' hp' hpy hpy' b hb b' hb' heq
    · intro i hi i' hi' heq
      obtain ⟨p, hp, hpy, b, hb, hdst, -⟩ := h.row_byte (hrow j (Nat.lt_trans hjk hk)) hi
      obtain ⟨p', hp', hpy', b', hb', hdst', -⟩ := h.row_byte (hrow k hk) hi'
      rw [hdst, hdst'] at heq
      have hsame := h.dstFits.byte_inj (h.dst p hp) (h.dst p' hp') hb hb' heq
      refine hinj j k hjk ?_
      rw [← hsame] at hpy'
      omega
  obtain ⟨m', hm', hmoved, hkept⟩ := Transfer.foldlM_atOnce
    (fun t ht m hm => by
      obtain ⟨k, hk, rfl⟩ := hmem t ht
      exact hmove k hk m hm) hmapped hbefore
  have hrest : ∀ a, (∀ p, p ∈ r → ∀ i < 4, a ≠ d.frameAddrAt p + (i : Nat)) → m' a = m a := by
    intro a ha
    refine hkept a fun t ht i hi heq => ?_
    obtain ⟨k, hk, rfl⟩ := hmem t ht
    obtain ⟨p, hp, -, b, hb, hdst, -⟩ := h.row_byte (hrow k hk) hi
    exact ha p hp b hb (heq.trans hdst)
  refine ⟨m', hm', fun p hp => ?_, fun p hp hout => ?_, hrest⟩
  · refine pixel_eq_iff.mpr fun b hb => ?_
    have hr := Rectangle.mem_def.mp hp
    obtain ⟨k, hk, hky⟩ := hall (p.y - r.pos.y) (by omega) (by omega)
    obtain ⟨hdst, hsrc⟩ := h.row_at (i := (4 * (p.x - r.pos.x)).toNat + b) (b := b) hp (by omega)
    rw [← hky] at hdst hsrc
    rw [← hdst, ← hsrc]
    refine hmoved _ (List.mem_map_of_mem (List.mem_range.mpr hk)) _ ?_
    show _ < (4 * r.size.x).toNat
    omega
  · refine pixel_eq_iff.mpr fun b hb => hrest _ fun p' hp' b' hb' heq => hout ?_
    rw [h.dstFits.byte_inj hp (h.dst p' hp') hb hb' heq]
    exact hp'

end Area

/-! ### The loops -/

theorem moveRows_eq (move : Store UInt8 → Transfer → Except Trap (Store UInt8))
    (dstStep srcStep : Int) (n : Nat) (m : Store UInt8) (t : Transfer) :
    moveRows move dstStep srcStep n m t = ((List.range n).map fun k : Nat =>
      (⟨t.dst + k * dstStep, t.src + k * srcStep, t.len⟩ : Transfer)).foldlM move m := by
  induction n generalizing m t with
  | zero => rfl
  | succ n ih =>
    have hnext : ∀ a step : Int, ∀ k : Nat, a + step + k * step = a + ((k + 1 : Nat) : Int) * step := by
      intro a step k
      rw [Int.natCast_succ, Int.add_mul, Int.one_mul]
      omega
    rw [moveRows, List.range_succ_eq_map, List.map_cons, List.map_map, List.foldlM_cons]
    simp only [Int.natCast_zero, Int.zero_mul, Int.add_zero, ih, hnext, Function.comp_def]

theorem moveRows_empty {move : Store UInt8 → Transfer → Except Trap (Store UInt8)}
    (hmove : ∀ m t, t.len = 0 → move m t = .ok m) (dstStep srcStep : Int) (n : Nat) (m : Store UInt8)
    {t : Transfer} (ht : t.len = 0) : moveRows move dstStep srcStep n m t = .ok m := by
  induction n generalizing t with
  | zero => rfl
  | succ n ih =>
    rw [moveRows, hmove m t ht]
    exact ih ht

theorem Area.moveRows_taken (h : Area d s m r q) (hx : 0 ≤ r.size.x) {y₀ dir : Int}
    (move : Store UInt8 → Transfer → Except Trap (Store UInt8))
    (hdir : dir = 1 ∧ y₀ = 0 ∨ dir = -1 ∧ y₀ = r.size.y - 1)
    (hempty : ∀ m t, t.len = 0 → move m t = .ok m)
    (hread : ∀ y y', dir * y < dir * y' → ∀ p ∈ r, ∀ p' ∈ r, p.y = r.pos.y + y →
      p'.y = r.pos.y + y' → ∀ i < 4, ∀ i' < 4,
        d.frameAddrAt p + (i : Nat) ≠ s.frameAddrAt (p' - r.pos + q) + (i' : Nat))
    (hmove : ∀ y, 0 ≤ y → y < r.size.y → ∀ m : Store UInt8, (rowOf d s r q y).Mapped m →
      move m (rowOf d s r q y) = .ok ((rowOf d s r q y).apply m)) :
    ∃ m', moveRows move (dir * d.bytesPerScanLine) (dir * s.bytesPerScanLine) r.size.y.toNat m
        ⟨d.frameAddrAt (r.pos + ⟨0, y₀⟩), s.frameAddrAt (q + ⟨0, y₀⟩), sizeT (4 * r.size.x)⟩ =
          .ok m' ∧ d.Taken (· ∈ r) (fun p => s.pixel m (p - r.pos + q)) m m' := by
  by_cases hsome : 0 < r.size.x ∧ 0 < r.size.y
  · have hin : ∀ y, 0 ≤ y → y < r.size.y → r.pos + ⟨0, y⟩ ∈ r := by
      intro y hy hy'
      simp only [Rectangle.mem_def, Vector2D.add_x, Vector2D.add_y]
      omega
    have hq : ∀ y, 0 ≤ y → y < r.size.y → q + ⟨0, y⟩ ∈ s.outline := by
      intro y hy hy'
      have hsrc := h.src _ (hin y hy hy')
      rwa [Vector2D.add_sub_cancel_left, Vector2D.add_comm] at hsrc
    have hlen : sizeT (4 * r.size.x) = (4 * r.size.x).toNat := by
      have hlast : r.pos + ⟨r.size.x - 1, 0⟩ ∈ r := by
        simp only [Rectangle.mem_def, Vector2D.add_x, Vector2D.add_y]
        omega
      have hfirst := mem_outline.mp (h.dst _ (hin 0 (by omega) hsome.2))
      have hlast := mem_outline.mp (h.dst _ hlast)
      have hscan := h.dstFits.scanLine
      have hwidth := h.dstFits.width
      simp only [Vector2D.add_x] at hfirst hlast
      rw [sizeT, Int.emod_eq_of_lt] <;> omega
    have hrow : ∀ k : Nat, k < r.size.y.toNat → 0 ≤ y₀ + k * dir ∧ y₀ + k * dir < r.size.y := by
      intro k hk
      rcases hdir with ⟨rfl, rfl⟩ | ⟨rfl, rfl⟩ <;> omega
    have hrows : (List.range r.size.y.toNat).map (fun k : Nat =>
        (⟨d.frameAddrAt (r.pos + ⟨0, y₀⟩) + k * (dir * d.bytesPerScanLine),
          s.frameAddrAt (q + ⟨0, y₀⟩) + k * (dir * s.bytesPerScanLine),
          sizeT (4 * r.size.x)⟩ : Transfer)) =
        (List.range r.size.y.toNat).map fun k : Nat => rowOf d s r q (y₀ + k * dir) := by
      refine List.map_congr_left fun k hk => ?_
      obtain ⟨hk, hk'⟩ := hrow k (List.mem_range.mp hk)
      obtain ⟨h₀, h₀'⟩ := hrow 0 (by omega)
      simp only [Int.natCast_zero, Int.zero_mul, Int.add_zero] at h₀ h₀'
      have hadd : ∀ v : Vector2D, v + ⟨0, y₀⟩ + ⟨0, k * dir⟩ = v + ⟨0, y₀ + k * dir⟩ := by
        intro v
        ext <;> simp only [Vector2D.add_x, Vector2D.add_y] <;> omega
      have hdst := h.dstFits.frameAddrAt_row (k := k * dir) (h.dst _ (hin y₀ h₀ h₀'))
        (by rw [hadd]; exact h.dst _ (hin _ hk hk'))
      have hsrc := h.srcFits.frameAddrAt_row (k := k * dir) (hq y₀ h₀ h₀')
        (by rw [hadd]; exact hq _ hk hk')
      rw [hadd] at hdst hsrc
      rw [rowOf, hdst, hsrc, hlen, Int.mul_assoc, Int.mul_assoc]
    rw [moveRows_eq, hrows]
    refine h.foldlM_taken (fun k : Nat => y₀ + k * dir) hrow ?_ ?_ ?_ ?_
    · intro y hy hy'
      rcases hdir with ⟨rfl, rfl⟩ | ⟨rfl, rfl⟩
      · exact ⟨y.toNat, by omega, by omega⟩
      · exact ⟨(r.size.y - 1 - y).toNat, by omega, by omega⟩
    · intro j k hjk
      rcases hdir with ⟨rfl, rfl⟩ | ⟨rfl, rfl⟩ <;> omega
    · intro j k hjk hk
      refine hread _ _ ?_
      rcases hdir with ⟨rfl, rfl⟩ | ⟨rfl, rfl⟩ <;> omega
    · intro k hk
      exact hmove _ (hrow k hk).1 (hrow k hk).2
  · have hnone : ∀ p, ¬ p ∈ r := by
      intro p hp
      have hp := Rectangle.mem_def.mp hp
      omega
    refine ⟨m, ?_, Taken.refl hnone⟩
    by_cases hy : r.size.y ≤ 0
    · rw [Int.toNat_of_nonpos hy]
      rfl
    · refine moveRows_empty hempty _ _ _ m ?_
      have hzero : r.size.x = 0 := by omega
      show sizeT (4 * r.size.x) = 0
      rw [hzero]
      rfl

/-! ## `Copy` -/

/-- The buffers have no address in common. -/
def Apart (d s : FrameBufferConfig) : Prop := ∀ a, d.Holds a → ¬ s.Holds a

variable {dstPos : Vector2D} {srcArea : Rectangle}

theorem Fits.frameBufferSize (h : c.Fits) :
    c.frameBufferSize = ⟨c.horizontalResolution.toNat, c.verticalResolution.toNat⟩ := by
  have hwidth := h.width
  have hscan := h.scanLine
  unfold FrameBufferConfig.frameBufferSize
  rw [bmod_small (by omega), bmod_small h.height]

/-- What is in the part that is copied to. -/
theorem mem_copyArea (hd : d.Fits) (hs : s.Fits) : p ∈ d.copyArea dstPos s srcArea ↔
    p ∈ d.outline ∧ p - dstPos + srcArea.pos ∈ s.outline ∧ p - dstPos + srcArea.pos ∈ srcArea := by
  rw [copyArea, Rectangle.mem_inter, Rectangle.mem_inter, hd.frameBufferSize, hs.frameBufferSize,
    and_assoc]
  simp only [outline, Rectangle.mem_def, Vector2D.add_x, Vector2D.add_y, Vector2D.sub_x,
    Vector2D.sub_y]
  omega

theorem copyArea_size (hd : d.Fits) (hs : s.Fits) (hx : 0 ≤ srcArea.size.x)
    (hy : 0 ≤ srcArea.size.y) : 0 ≤ (d.copyArea dstPos s srcArea).size.x := by
  rw [copyArea, hd.frameBufferSize, hs.frameBufferSize]
  have hnonneg : ∀ n : Nat, (0 : Int) ≤ n := Int.natCast_nonneg
  exact (Rectangle.inter_size (s := ⟨dstPos, srcArea.size⟩)
    (Rectangle.inter_size ⟨hnonneg _, hnonneg _⟩ ⟨hnonneg _, hnonneg _⟩) ⟨hx, hy⟩).1

/-- A pixel takes the source's where that lies in the source and in the part to copy. -/
theorem copy_taken (hd : d.Fits) (hs : s.Fits) (hdm : d.InMemory m) (hsm : s.InMemory m)
    (hapart : d.Apart s) (hformat : d.pixelFormat = s.pixelFormat) (hx : 0 ≤ srcArea.size.x)
    (hy : 0 ≤ srcArea.size.y) : ∃ m', d.copy m dstPos s srcArea = .ok (m', .success) ∧
      d.Taken (fun p => p ∈ d.outline ∧ p - dstPos + srcArea.pos ∈ s.outline ∧
          p - dstPos + srcArea.pos ∈ srcArea)
        (fun p => s.pixel m (p - dstPos + srcArea.pos)) m m' := by
  have hplace : ∀ r : Rectangle, ∀ p, p - r.pos + (r.pos - (dstPos - srcArea.pos)) =
      p - dstPos + srcArea.pos := by
    intro r p
    ext <;> simp only [Vector2D.add_x, Vector2D.add_y, Vector2D.sub_x, Vector2D.sub_y] <;> omega
  have harea : Area d s m (d.copyArea dstPos s srcArea)
      ((d.copyArea dstPos s srcArea).pos - (dstPos - srcArea.pos)) :=
    { dstFits := hd
      srcFits := hs
      dst := fun p hp => ((mem_copyArea hd hs).mp hp).1
      src := fun p hp => by
        rw [hplace]
        exact ((mem_copyArea hd hs).mp hp).2.1
      dstMemory := hdm
      srcMemory := hsm }
  have hread : ∀ p ∈ d.copyArea dstPos s srcArea, ∀ p' ∈ d.copyArea dstPos s srcArea,
      ∀ i < 4, ∀ i' < 4, d.frameAddrAt p + (i : Nat) ≠
        s.frameAddrAt (p' - (d.copyArea dstPos s srcArea).pos +
          ((d.copyArea dstPos s srcArea).pos - (dstPos - srcArea.pos))) + (i' : Nat) := by
    intro p hp p' hp' i hi i' hi' heq
    refine hapart _ (hd.holds (harea.dst p hp) hi) ?_
    rw [heq]
    exact hs.holds (harea.src p' hp') hi'
  obtain ⟨m', hm', htaken⟩ := harea.moveRows_taken (copyArea_size hd hs hx hy)
    Transfer.memcpy (.inl ⟨rfl, rfl⟩) (fun m t => Transfer.memcpy_empty)
    (fun y y' _ p hp p' hp' _ _ => hread p hp p' hp') fun y hy hy' m hmapped =>
      harea.memcpy_ok ⟨hy, hy'⟩ (fun p hp p' hp' _ _ => hread p hp p' hp') hmapped
  rw [Int.one_mul, Int.one_mul, Vector2D.add_zero, Vector2D.add_zero] at hm'
  refine ⟨m', ?_, htaken.congr (fun p => (mem_copyArea hd hs).symm) fun p => ?_⟩
  · rw [copy, if_neg (not_not.mpr hformat), if_neg (by simp), bytesPerPixel_eq]
    dsimp only
    rw [hm']
    rfl
  · rw [hplace]

/-- What two buffers hold of a memory, and nothing else. -/
def confined (d s : FrameBufferConfig) (m : Store UInt8) : Store UInt8 := fun a =>
  if d.Holds a ∨ s.Holds a then m a else none

/-- **`Copy` clips exactly**: a pixel takes the source's where that lies in the source and in the
part to copy, nothing else changes, and no memory is touched but that of the buffers. -/
theorem copy_clips (hd : d.Fits) (hs : s.Fits) (hdm : d.InMemory m) (hsm : s.InMemory m)
    (hapart : d.Apart s) (hformat : d.pixelFormat = s.pixelFormat) (hx : 0 ≤ srcArea.size.x)
    (hy : 0 ≤ srcArea.size.y) :
    (∃ m', d.copy m dstPos s srcArea = .ok (m', .success) ∧
      d.Taken (fun p => p ∈ d.outline ∧ p - dstPos + srcArea.pos ∈ s.outline ∧
          p - dstPos + srcArea.pos ∈ srcArea)
        (fun p => s.pixel m (p - dstPos + srcArea.pos)) m m') ∧
      ∃ m', d.copy (confined d s m) dstPos s srcArea = .ok (m', .success) := by
  refine ⟨copy_taken hd hs hdm hsm hapart hformat hx hy, ?_⟩
  have hd' : d.InMemory (confined d s m) := fun a ha => by
    rw [confined, if_pos (.inl ha)]
    exact hdm a ha
  have hs' : s.InMemory (confined d s m) := fun a ha => by
    rw [confined, if_pos (.inr ha)]
    exact hsm a ha
  obtain ⟨m', hm', -⟩ := copy_taken hd hs hd' hs' hapart hformat hx hy
  exact ⟨m', hm'⟩

/-- A part of a picture of two pixels, with a row of a buffer that has one more in memory. -/
theorem copy_clips_left :
    (∃ m', copy ⟨0, 3, 2, 2, .rgbResv8BitPerColor⟩ (fun _ => some 7) ⟨-1, 1⟩
        ⟨100, 2, 2, 1, .rgbResv8BitPerColor⟩ ⟨⟨0, 0⟩, ⟨2, 1⟩⟩ = .ok (m', .success) ∧
      Taken ⟨0, 3, 2, 2, .rgbResv8BitPerColor⟩
        (fun p => p ∈ outline ⟨0, 3, 2, 2, .rgbResv8BitPerColor⟩ ∧
          p - ⟨-1, 1⟩ + ⟨0, 0⟩ ∈ outline ⟨100, 2, 2, 1, .rgbResv8BitPerColor⟩ ∧
          p - ⟨-1, 1⟩ + ⟨0, 0⟩ ∈ (⟨⟨0, 0⟩, ⟨2, 1⟩⟩ : Rectangle))
        (fun p => pixel ⟨100, 2, 2, 1, .rgbResv8BitPerColor⟩ (fun _ => some 7)
          (p - ⟨-1, 1⟩ + ⟨0, 0⟩)) (fun _ => some 7) m') ∧
      ∃ m', copy ⟨0, 3, 2, 2, .rgbResv8BitPerColor⟩
        (confined ⟨0, 3, 2, 2, .rgbResv8BitPerColor⟩ ⟨100, 2, 2, 1, .rgbResv8BitPerColor⟩
          fun _ => some 7) ⟨-1, 1⟩ ⟨100, 2, 2, 1, .rgbResv8BitPerColor⟩ ⟨⟨0, 0⟩, ⟨2, 1⟩⟩ =
            .ok (m', .success) := by
  refine copy_clips ⟨by decide, by decide, by decide, by decide⟩
    ⟨by decide, by decide, by decide, by decide⟩ (fun _ _ => rfl) (fun _ _ => rfl) ?_ rfl (by decide)
    (by decide)
  intro a ha ha'
  simp [Holds] at ha ha'
  omega

/-! ### The picture -/

/-- The colour that the writer of a format stores in these bytes. -/
def colorOf (format : PixelFormat) : List (Option UInt8) → Option PixelColor
  | some a :: some b :: some c :: _ =>
      match format with
      | .rgbResv8BitPerColor => some ⟨a, b, c⟩
      | .bgrResv8BitPerColor => some ⟨c, b, a⟩
  | _ => none

/-- The buffer shows a picture. -/
structure Shows (c : FrameBufferConfig) (m : Store UInt8) (f : FrameBuffer) : Prop where
  width : f.width = c.horizontalResolution.toNat
  height : f.height = c.verticalResolution.toNat
  format : f.format = c.pixelFormat
  color : ∀ p ∈ c.outline, colorOf c.pixelFormat (c.pixel m p) = some (f.pixel p)

theorem Shows.outline {f : FrameBuffer} (h : c.Shows m f) : f.outline = c.outline := by
  rw [FrameBuffer.outline, FrameBuffer.size, h.width, h.height, FrameBufferConfig.outline]

/-- **`Copy` is the copy of the picture.** -/
theorem copy_shows {f g : FrameBuffer} (hd : d.Fits) (hs : s.Fits) (hdm : d.InMemory m)
    (hsm : s.InMemory m) (hapart : d.Apart s) (hx : 0 ≤ srcArea.size.x) (hy : 0 ≤ srcArea.size.y)
    (hf : d.Shows m f) (hg : s.Shows m g) (hformat : d.pixelFormat = s.pixelFormat) :
    ∃ m', d.copy m dstPos s srcArea = .ok (m', .success) ∧
      d.Shows m' (f.copy dstPos g srcArea) := by
  obtain ⟨m', hm', htaken⟩ : ∃ m', d.copy m dstPos s srcArea = .ok (m', .success) ∧ _ :=
    copy_taken hd hs hdm hsm hapart hformat hx hy
  have hsame : f.format = g.format := by rw [hf.format, hg.format, hformat]
  have hsize : (f.copy dstPos g srcArea).width = f.width ∧
      (f.copy dstPos g srcArea).height = f.height := by
    rw [FrameBuffer.copy, if_neg (not_not.mpr hsame)]
    exact ⟨rfl, rfl⟩
  refine ⟨m', hm', hsize.1.trans hf.width, hsize.2.trans hf.height,
    FrameBuffer.copy_format.trans hf.format, fun p hp => ?_⟩
  have hplace : p - (dstPos - srcArea.pos) = p - dstPos + srcArea.pos := by
    ext <;> simp only [Vector2D.add_x, Vector2D.add_y, Vector2D.sub_x, Vector2D.sub_y] <;> omega
  have harea : p ∈ f.copyArea dstPos g srcArea ↔ p ∈ d.outline ∧
      p - dstPos + srcArea.pos ∈ s.outline ∧ p - dstPos + srcArea.pos ∈ srcArea := by
    rw [FrameBuffer.mem_copyArea, hf.outline, hg.outline, hplace]
    simp only [Rectangle.mem_def, Vector2D.add_x, Vector2D.add_y, Vector2D.sub_x, Vector2D.sub_y]
    omega
  rw [FrameBuffer.copy_pixel hsame]
  split
  next hin =>
    rw [htaken.taken p (harea.mp hin), hformat, hplace]
    exact hg.color _ (harea.mp hin).2.1
  next hout =>
    rw [htaken.kept p hp fun hin => hout (harea.mpr hin)]
    exact hf.color p hp

/-! ## `Move` -/

/-- The pixels of the part that is moved to, however the two parts overlap. -/
theorem move_taken (hc : c.Fits) (hm : c.InMemory m) {src : Rectangle} (hx : 0 ≤ src.size.x)
    (hsrc : ∀ p ∈ src, p ∈ c.outline)
    (hdst : ∀ p ∈ (⟨dstPos, src.size⟩ : Rectangle), p ∈ c.outline) :
    ∃ m', c.move m dstPos src = .ok m' ∧
      c.Taken (· ∈ (⟨dstPos, src.size⟩ : Rectangle)) (fun p => c.pixel m (p - dstPos + src.pos))
        m m' := by
  have harea : Area c c m ⟨dstPos, src.size⟩ src.pos :=
    { dstFits := hc
      srcFits := hc
      dst := hdst
      src := fun p hp => hsrc _ (by
        simp only [Rectangle.mem_def, Vector2D.add_x, Vector2D.add_y, Vector2D.sub_x,
          Vector2D.sub_y] at hp ⊢
        omega)
      dstMemory := hm
      srcMemory := hm }
  -- what is written in one row and read in another
  have hrow : ∀ {y y' : Int}, dstPos.y + y ≠ src.pos.y + y' →
      ∀ p ∈ (⟨dstPos, src.size⟩ : Rectangle), ∀ p' ∈ (⟨dstPos, src.size⟩ : Rectangle),
        p.y = dstPos.y + y → p'.y = dstPos.y + y' → ∀ i < 4, ∀ i' < 4,
          c.frameAddrAt p + (i : Nat) ≠ c.frameAddrAt (p' - dstPos + src.pos) + (i' : Nat) := by
    intro y y' hne p hp p' hp' hy hy' i hi i' hi' heq
    have hsame := hc.byte_inj (harea.dst p hp) (harea.src p' hp') hi hi' heq
    have hsame := congrArg Vector2D.y hsame
    simp only [Vector2D.add_y, Vector2D.sub_y] at hsame
    omega
  have hcopy : dstPos.y ≠ src.pos.y → ∀ y, 0 ≤ y → y < src.size.y → ∀ m : Store UInt8,
      (rowOf c c ⟨dstPos, src.size⟩ src.pos y).Mapped m →
        Transfer.memcpy m (rowOf c c ⟨dstPos, src.size⟩ src.pos y) =
          .ok ((rowOf c c ⟨dstPos, src.size⟩ src.pos y).apply m) :=
    fun hne y hy hy' m hmapped => harea.memcpy_ok ⟨hy, hy'⟩ (hrow (by omega)) hmapped
  rcases Int.lt_trichotomy dstPos.y src.pos.y with hup | hlevel | hdown
  · obtain ⟨m', hm', htaken⟩ := harea.moveRows_taken hx Transfer.memcpy (.inl ⟨rfl, rfl⟩)
      (fun m t => Transfer.memcpy_empty) (fun y y' hlt => hrow (by omega))
      (hcopy (Int.ne_of_lt hup))
    rw [Int.one_mul, Vector2D.add_zero, Vector2D.add_zero] at hm'
    refine ⟨m', ?_, htaken⟩
    rw [move, if_pos hup, bytesPerPixel_eq]
    exact hm'
  · obtain ⟨m', hm', htaken⟩ := harea.moveRows_taken hx Transfer.memmove (.inl ⟨rfl, rfl⟩)
      (fun m t => Transfer.memmove_empty) (fun y y' hlt => hrow (by omega))
      (fun y _ _ m hmapped => Transfer.memmove_ok hmapped)
    rw [Int.one_mul, Vector2D.add_zero, Vector2D.add_zero] at hm'
    refine ⟨m', ?_, htaken⟩
    rw [move, if_neg (by omega), if_pos hlevel, bytesPerPixel_eq]
    exact hm'
  · obtain ⟨m', hm', htaken⟩ := harea.moveRows_taken hx Transfer.memcpy (.inr ⟨rfl, rfl⟩)
      (fun m t => Transfer.memcpy_empty) (fun y y' hlt => hrow (by omega))
      (hcopy (Int.ne_of_gt hdown))
    rw [Int.neg_one_mul] at hm'
    refine ⟨m', ?_, htaken⟩
    rw [move, if_neg (by omega), if_neg (by omega), bytesPerPixel_eq]
    exact hm'

/-- **`Move` is a simultaneous copy.** -/
theorem move_at_once (hc : c.Fits) (hm : c.InMemory m) {src : Rectangle} (hx : 0 ≤ src.size.x)
    (hsrc : ∀ p ∈ src, p ∈ c.outline)
    (hdst : ∀ p ∈ (⟨dstPos, src.size⟩ : Rectangle), p ∈ c.outline) :
    ∃ m', c.move m dstPos src = .ok m' ∧
      (∀ p ∈ (⟨dstPos, src.size⟩ : Rectangle),
        c.pixel m' p = c.pixel m (p - dstPos + src.pos)) ∧
      (∀ p ∈ c.outline, ¬ p ∈ (⟨dstPos, src.size⟩ : Rectangle) → c.pixel m' p = c.pixel m p) ∧
      ∀ a, ¬ c.Holds a → m' a = m a := by
  obtain ⟨m', hm', htaken⟩ := move_taken hc hm hx hsrc hdst
  refine ⟨m', hm', htaken.taken, htaken.kept, fun a ha => htaken.rest a fun p hp i hi heq => ha ?_⟩
  rw [heq]
  exact hc.holds (hdst p hp) hi

/-- Two rows of two pixels, moved a row down and a column to the right. -/
theorem move_at_once_down :
    ∃ m', move ⟨0, 4, 3, 3, .bgrResv8BitPerColor⟩ (fun a => some (UInt8.ofNat a.toNat)) ⟨1, 1⟩
        ⟨⟨0, 0⟩, ⟨2, 2⟩⟩ = .ok m' ∧
      (∀ p ∈ (⟨⟨1, 1⟩, ⟨2, 2⟩⟩ : Rectangle), pixel ⟨0, 4, 3, 3, .bgrResv8BitPerColor⟩ m' p =
        pixel ⟨0, 4, 3, 3, .bgrResv8BitPerColor⟩ (fun a => some (UInt8.ofNat a.toNat))
          (p - ⟨1, 1⟩ + ⟨0, 0⟩)) ∧
      (∀ p ∈ outline ⟨0, 4, 3, 3, .bgrResv8BitPerColor⟩, ¬ p ∈ (⟨⟨1, 1⟩, ⟨2, 2⟩⟩ : Rectangle) →
        pixel ⟨0, 4, 3, 3, .bgrResv8BitPerColor⟩ m' p =
          pixel ⟨0, 4, 3, 3, .bgrResv8BitPerColor⟩ (fun a => some (UInt8.ofNat a.toNat)) p) ∧
      ∀ a, ¬ Holds ⟨0, 4, 3, 3, .bgrResv8BitPerColor⟩ a → m' a = some (UInt8.ofNat a.toNat) := by
  refine move_at_once ⟨by decide, by decide, by decide, by decide⟩ (fun _ _ => rfl) (by decide) ?_ ?_
  · intro p hp
    rw [mem_outline]
    simp [Rectangle.mem_def] at hp ⊢
    omega
  · intro p hp
    rw [mem_outline]
    simp [Rectangle.mem_def] at hp ⊢
    omega

end FrameBufferConfig

end Laplus.Graphics
