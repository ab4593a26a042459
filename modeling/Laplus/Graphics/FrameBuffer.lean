/-
# `Laplus.Graphics.FrameBuffer` — rectangles, colours and frame buffers

`graphics.hpp` and `frame_buffer.cpp`.  Coordinates are integers: the sums the
code makes of its `int`s are taken to be exact.  A picture is a map from places to
colours, and what a writer is told is a list of writes.
-/
import Laplus.Lib.Painter

namespace Laplus.Graphics

open Lib

/-! ## Vectors and rectangles -/

/-- `Vector2D<int>`. -/
@[ext] structure Vector2D where
  x : Int
  y : Int
deriving DecidableEq

namespace Vector2D

instance : Add Vector2D := ⟨fun a b => ⟨a.x + b.x, a.y + b.y⟩⟩
instance : Sub Vector2D := ⟨fun a b => ⟨a.x - b.x, a.y - b.y⟩⟩

variable (a b : Vector2D)

@[simp] theorem add_x : (a + b).x = a.x + b.x := rfl
@[simp] theorem add_y : (a + b).y = a.y + b.y := rfl
@[simp] theorem sub_x : (a - b).x = a.x - b.x := rfl
@[simp] theorem sub_y : (a - b).y = a.y - b.y := rfl

theorem add_comm : a + b = b + a := by
  ext <;> simp only [add_x, add_y] <;> omega

theorem add_zero : a + ⟨0, 0⟩ = a := by
  ext <;> simp only [add_x, add_y] <;> omega

theorem add_sub_cancel : a + (b - a) = b := by
  ext <;> simp only [add_x, add_y, sub_x, sub_y] <;> omega

theorem add_sub_cancel_left : a + b - a = b := by
  ext <;> simp only [add_x, add_y, sub_x, sub_y] <;> omega

theorem sub_sub_self : a - (a - b) = b := by
  ext <;> simp only [sub_x, sub_y] <;> omega

theorem add_sub_assoc (c : Vector2D) : a - b + c = a + c - b := by
  ext <;> simp only [add_x, add_y, sub_x, sub_y] <;> omega

/-- `ElementMax`. -/
def elementMax : Vector2D := ⟨max a.x b.x, max a.y b.y⟩

/-- `ElementMin`. -/
def elementMin : Vector2D := ⟨min a.x b.x, min a.y b.y⟩

end Vector2D

/-- `Rectangle<int>`. -/
structure Rectangle where
  pos : Vector2D
  size : Vector2D
deriving DecidableEq

namespace Rectangle

/-- The corner after the last place. -/
def stop (r : Rectangle) : Vector2D := r.pos + r.size

instance : Membership Vector2D Rectangle where
  mem r p := r.pos.x ≤ p.x ∧ p.x < r.pos.x + r.size.x ∧ r.pos.y ≤ p.y ∧ p.y < r.pos.y + r.size.y

variable {r s : Rectangle} {p : Vector2D}

theorem mem_def : p ∈ r ↔
    r.pos.x ≤ p.x ∧ p.x < r.pos.x + r.size.x ∧ r.pos.y ≤ p.y ∧ p.y < r.pos.y + r.size.y :=
  Iff.rfl

instance (p : Vector2D) (r : Rectangle) : Decidable (p ∈ r) := decidable_of_iff _ mem_def.symm

/-- `operator&`. -/
def inter (r s : Rectangle) : Rectangle :=
  if r.stop.x < s.pos.x ∨ r.stop.y < s.pos.y ∨ s.stop.x < r.pos.x ∨ s.stop.y < r.pos.y then
    ⟨⟨0, 0⟩, ⟨0, 0⟩⟩
  else
    let newPos := r.pos.elementMax s.pos
    ⟨newPos, r.stop.elementMin s.stop - newPos⟩

/-- The intersection holds the places of both, also where the rectangles are apart. -/
@[simp] theorem mem_inter : p ∈ r.inter s ↔ p ∈ r ∧ p ∈ s := by
  unfold inter
  split <;>
    · simp only [mem_def, stop, Vector2D.elementMax, Vector2D.elementMin, Vector2D.add_x,
        Vector2D.add_y, Vector2D.sub_x, Vector2D.sub_y] at *
      omega

theorem inter_size (hr : 0 ≤ r.size.x ∧ 0 ≤ r.size.y) (hs : 0 ≤ s.size.x ∧ 0 ≤ s.size.y) :
    0 ≤ (r.inter s).size.x ∧ 0 ≤ (r.inter s).size.y := by
  unfold inter
  split <;>
    · simp only [stop, Vector2D.elementMax, Vector2D.elementMin, Vector2D.add_x, Vector2D.add_y,
        Vector2D.sub_x, Vector2D.sub_y] at *
      omega

/-- A place of the rectangle moved by a vector. -/
theorem mem_shift (v : Vector2D) : p - v ∈ r ↔ p ∈ (⟨r.pos + v, r.size⟩ : Rectangle) := by
  simp only [mem_def, Vector2D.add_x, Vector2D.add_y, Vector2D.sub_x, Vector2D.sub_y]
  omega

end Rectangle

/-! ## Loops over places -/

/-- `for(int i = lo; i < hi; ++i)`. -/
def loop (lo hi : Int) : List Int := (List.range (hi - lo).toNat).map fun i : Nat => lo + i

@[simp] theorem mem_loop {lo hi i : Int} : i ∈ loop lo hi ↔ lo ≤ i ∧ i < hi := by
  rw [loop, List.mem_map]
  constructor
  · rintro ⟨j, hj, rfl⟩
    rw [List.mem_range] at hj
    omega
  · rintro ⟨hlo, hhi⟩
    exact ⟨(i - lo).toNat, List.mem_range.mpr (by omega), by omega⟩

/-- Row by row, from one place up to another. -/
def sweep (lo hi : Vector2D) : List Vector2D :=
  (loop lo.y hi.y).flatMap fun y => (loop lo.x hi.x).map fun x => ⟨x, y⟩

@[simp] theorem mem_sweep {lo hi v : Vector2D} :
    v ∈ sweep lo hi ↔ lo.x ≤ v.x ∧ v.x < hi.x ∧ lo.y ≤ v.y ∧ v.y < hi.y := by
  simp only [sweep, List.mem_flatMap, List.mem_map, mem_loop]
  constructor
  · rintro ⟨y, hy, x, hx, rfl⟩
    exact ⟨hx.1, hx.2, hy.1, hy.2⟩
  · rintro ⟨h₁, h₂, h₃, h₄⟩
    exact ⟨v.y, ⟨h₃, h₄⟩, v.x, ⟨h₁, h₂⟩, rfl⟩

/-! ## Colours and writes -/

/-- `PixelColor`. -/
structure PixelColor where
  r : UInt8
  g : UInt8
  b : UInt8
deriving DecidableEq

/-- `ToColor`. -/
def toColor (c : UInt32) : PixelColor :=
  ⟨((c >>> 16) &&& 0xff).toUInt8, ((c >>> 8) &&& 0xff).toUInt8, (c &&& 0xff).toUInt8⟩

/-- `PixelFormat`. -/
inductive PixelFormat where
  | rgbResv8BitPerColor
  | bgrResv8BitPerColor
deriving DecidableEq

/-- A call of `PixelWriter::Write`. -/
abbrev Write := Vector2D × PixelColor

/-- Every place of a rectangle written, row by row. -/
def tile (r : Rectangle) (c : Vector2D → PixelColor) : List Write :=
  (sweep ⟨0, 0⟩ r.size).map fun d => (r.pos + d, c d)

/-- What `FillRectangle` writes. -/
def fillRectangle (pos size : Vector2D) (c : PixelColor) : List Write :=
  tile ⟨pos, size⟩ fun _ => c

theorem mem_tile {r : Rectangle} {c : Vector2D → PixelColor} {p : Vector2D} :
    p ∈ (tile r c).map Prod.fst ↔ p ∈ r := by
  rw [tile, List.map_map, List.mem_map]
  constructor
  · rintro ⟨d, hd, rfl⟩
    simp only [mem_sweep] at hd
    simp only [Rectangle.mem_def, Function.comp_apply, Vector2D.add_x, Vector2D.add_y]
    omega
  · intro hp
    rw [Rectangle.mem_def] at hp
    refine ⟨p - r.pos, mem_sweep.mpr ?_, Vector2D.add_sub_cancel ..⟩
    simp only [Vector2D.sub_x, Vector2D.sub_y]
    omega

/-! ## Frame buffers -/

/-- `FrameBuffer`: its size and format, and what it shows. -/
structure FrameBuffer where
  width : Nat
  height : Nat
  format : PixelFormat
  pixel : Vector2D → PixelColor

namespace FrameBuffer

/-- `FrameBufferSize`. -/
def size (f : FrameBuffer) : Vector2D := ⟨f.width, f.height⟩

/-- The places of the buffer. -/
def outline (f : FrameBuffer) : Rectangle := ⟨⟨0, 0⟩, f.size⟩

/-- What `Writer()` is told. -/
def draw (f : FrameBuffer) (ws : List Write) : FrameBuffer :=
  { f with pixel := Painter.stamp ws f.pixel }

@[simp] theorem draw_outline (f : FrameBuffer) (ws : List Write) :
    (f.draw ws).outline = f.outline := rfl
@[simp] theorem draw_format (f : FrameBuffer) (ws : List Write) :
    (f.draw ws).format = f.format := rfl

/-- The part `Copy` copies to. -/
def copyArea (dst : FrameBuffer) (dstPos : Vector2D) (src : FrameBuffer) (srcArea : Rectangle) :
    Rectangle :=
  let srcAreaShifted : Rectangle := ⟨dstPos, srcArea.size⟩
  let srcOutline : Rectangle := ⟨dstPos - srcArea.pos, src.size⟩
  let dstOutline : Rectangle := ⟨⟨0, 0⟩, dst.size⟩
  (dstOutline.inter srcOutline).inter srcAreaShifted

/-- `FrameBuffer::Copy`, a row after the other.  An error is dropped by every caller. -/
def copy (dst : FrameBuffer) (dstPos : Vector2D) (src : FrameBuffer) (srcArea : Rectangle) :
    FrameBuffer :=
  if dst.format ≠ src.format then dst
  else
    let area := dst.copyArea dstPos src srcArea
    let srcStartPos := area.pos - (dstPos - srcArea.pos)
    dst.draw (tile area fun d => src.pixel (srcStartPos + d))

variable {dst src : FrameBuffer} {dstPos p : Vector2D} {srcArea : Rectangle}

theorem mem_copyArea : p ∈ dst.copyArea dstPos src srcArea ↔
    p ∈ dst.outline ∧ p - (dstPos - srcArea.pos) ∈ src.outline ∧
      p ∈ (⟨dstPos, srcArea.size⟩ : Rectangle) := by
  rw [copyArea, Rectangle.mem_inter, Rectangle.mem_inter, Rectangle.mem_shift, and_assoc]
  simp only [outline, Rectangle.mem_def, Vector2D.add_x, Vector2D.add_y, Int.zero_add]

@[simp] theorem copy_outline : (dst.copy dstPos src srcArea).outline = dst.outline := by
  unfold copy
  split <;> rfl

@[simp] theorem copy_format : (dst.copy dstPos src srcArea).format = dst.format := by
  unfold copy
  split <;> rfl

/-- A copy shows the source, shifted, inside the part and the buffer as it was elsewhere. -/
theorem copy_pixel (hf : dst.format = src.format) :
    (dst.copy dstPos src srcArea).pixel p =
      if p ∈ dst.copyArea dstPos src srcArea then src.pixel (p - (dstPos - srcArea.pos))
      else dst.pixel p := by
  rw [copy, if_neg (not_not.mpr hf)]
  refine (Painter.stamp_apply (f := fun q => src.pixel (q - (dstPos - srcArea.pos))) ?_).trans ?_
  · rintro w hw
    obtain ⟨d, -, rfl⟩ := List.mem_map.mp hw
    exact congrArg src.pixel (Vector2D.add_sub_assoc ..)
  · simp only [mem_tile]

end FrameBuffer

end Laplus.Graphics
