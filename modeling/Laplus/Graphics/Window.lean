/-
# `Laplus.Graphics.Window` — strings and windows

`font.cpp` and `window.cpp`.  The glyphs are parameters: the half-width font is a
file the build makes, and the others come from FreeType.  `Window::Write` indexes
its rows unchecked, so a write outside of the window is a fault here.
-/
import Laplus.Graphics.FrameBuffer

namespace Laplus.Graphics

open Lib

/-! ## Strings -/

/-- A glyph that FreeType renders. -/
structure Glyph where
  /-- `{bitmap_left, baseline - bitmap_top}`. -/
  topleft : Vector2D
  rows : Nat
  width : Nat
  lit : Vector2D → Bool

/-- What the text is drawn with. -/
structure Font where
  /-- `GetFont`: sixteen rows, unless the font ends before them. -/
  getFont : UInt8 → Option (Nat → UInt8)
  /-- `NewFTFace` and `RenderUnicode`; they fail where there is none. -/
  renderUnicode : UInt32 → Option Glyph

/-- The places of a character's cell that its glyph lights. -/
def litCells (rows : Nat → UInt8) : List Vector2D :=
  (sweep ⟨0, 0⟩ ⟨8, 16⟩).filter fun d =>
    ((rows d.y.toNat) <<< UInt8.ofNat d.x.toNat) &&& 0x80 ≠ 0

variable (font : Font)

/-- What `WriteAscii` writes. -/
def writeAscii (pos : Vector2D) (c : UInt8) (color : PixelColor) : List Write :=
  match font.getFont c with
  | none => []
  | some rows => (litCells rows).map fun d => (pos + d, color)

/-- `IsHankaku`. -/
def isHankaku (c : UInt32) : Bool := c ≤ 0x7f

/-- What `WriteUnicode` writes: two question marks for a character that is not rendered. -/
def writeUnicode (pos : Vector2D) (c : UInt32) (color : PixelColor) : List Write :=
  if c ≤ 0x7f then writeAscii font pos c.toUInt8 color
  else
    match font.renderUnicode c with
    | none => writeAscii font pos 0x3f color ++ writeAscii font (pos + ⟨8, 0⟩) 0x3f color
    | some g => ((sweep ⟨0, 0⟩ ⟨g.width, g.rows⟩).filter g.lit).map fun d =>
        (pos + g.topleft + d, color)

/-- `CountUTF8Size`. -/
def countUTF8Size (c : UInt8) : Nat :=
  if c < 0x80 then 1
  else if 0xc0 ≤ c ∧ c < 0xe0 then 2
  else if 0xe0 ≤ c ∧ c < 0xf0 then 3
  else if 0xf0 ≤ c ∧ c < 0xf8 then 4
  else 0

/-- `ConvertUTF8To32`, on the bytes before the terminator. -/
def convertUTF8To32 (u8 : List UInt8) : UInt32 × Nat :=
  let at' (i : Nat) : UInt32 := (u8.getD i 0).toUInt32
  match countUTF8Size (u8.getD 0 0) with
  | 1 => (at' 0, 1)
  | 2 => ((at' 0 &&& 0x1f) <<< 6 ||| (at' 1 &&& 0x3f), 2)
  | 3 => ((at' 0 &&& 0x0f) <<< 12 ||| (at' 1 &&& 0x3f) <<< 6 ||| (at' 2 &&& 0x3f), 3)
  | 4 => ((at' 0 &&& 0x07) <<< 18 ||| (at' 1 &&& 0x3f) <<< 12 ||| (at' 2 &&& 0x3f) <<< 6 |||
      (at' 3 &&& 0x3f), 4)
  | _ => (0, 0)

/-- What `WriteString` writes, from column `x` on.  There is no answer for a byte that starts no
character, where the loop does not move, and for a character that the terminator cuts off. -/
def writeString (pos : Vector2D) (color : PixelColor) (x : Int) : List UInt8 → Option (List Write)
  | [] => some []
  | c :: s =>
    let (u32, bytes) := convertUTF8To32 (c :: s)
    if bytes = 0 ∨ s.length + 1 < bytes then none
    else
      (writeString pos color (x + if isHankaku u32 then 1 else 2) (s.drop (bytes - 1))).map
        (writeUnicode font (pos + ⟨8 * x, 0⟩) u32 color ++ ·)
  termination_by s => s.length
  decreasing_by simp only [List.length_drop, List.length_cons]; omega

variable {font} {pos : Vector2D} {color : PixelColor} {x : Int} {c : UInt8} {s : List UInt8}

/-- What a character below `0x80` writes is its half-width glyph. -/
theorem writeString_ascii (hc : c < 0x80) : writeString font pos color x (c :: s) =
    (writeString font pos color (x + 1) s).map
      (writeAscii font (pos + ⟨8 * x, 0⟩) c color ++ ·) := by
  have hle : c.toUInt32 ≤ 0x7f := by
    rw [UInt32.le_iff_toNat_le, UInt8.toNat_toUInt32]
    exact Nat.le_of_lt_succ (UInt8.lt_iff_toNat_lt.mp hc)
  have hconv : convertUTF8To32 (c :: s) = (c.toUInt32, 1) := by
    simp [convertUTF8To32, countUTF8Size, hc]
  rw [writeString, hconv]
  simp [isHankaku, writeUnicode, hle]

/-- **What an ASCII string writes**: the lit places of the glyph of each character, eight columns
after those of the one before. -/
theorem writeString_of_ascii (font : Font) (pos : Vector2D) (color : PixelColor) :
    ∀ (x : Int) {s : List UInt8}, (∀ c ∈ s, c < 0x80) →
      ∃ ws, writeString font pos color x s = some ws ∧ ∀ w, w ∈ ws ↔
        ∃ i c, s[i]? = some c ∧ w ∈ writeAscii font (pos + ⟨8 * (x + (i : Nat)), 0⟩) c color
  | x, [], _ => ⟨[], by rw [writeString], by simp⟩
  | x, c :: s, h => by
    obtain ⟨ws, hws, hmem⟩ := writeString_of_ascii font pos color (x + 1) (s := s)
      fun d hd => h d (List.mem_cons_of_mem c hd)
    refine ⟨_, by rw [writeString_ascii (h c List.mem_cons_self), hws, Option.map_some],
      fun w => ?_⟩
    rw [List.mem_append, hmem]
    constructor
    · rintro (hw | ⟨i, d, hd, hw⟩)
      · exact ⟨0, c, rfl, by simpa using hw⟩
      · refine ⟨i + 1, d, hd, ?_⟩
        rwa [Int.natCast_succ, Int.add_comm _ 1, ← Int.add_assoc]
    · rintro ⟨_ | i, d, hd, hw⟩
      · cases hd
        exact .inl (by simpa using hw)
      · refine .inr ⟨i, d, hd, ?_⟩
        rwa [Int.natCast_succ, Int.add_comm _ 1, ← Int.add_assoc] at hw

/-- A glyph stays inside its cell. -/
theorem mem_writeAscii {w : Write} (hw : w ∈ writeAscii font pos c color) :
    w.1 ∈ (⟨pos, ⟨8, 16⟩⟩ : Rectangle) := by
  unfold writeAscii at hw
  split at hw
  · cases hw
  · obtain ⟨d, hd, rfl⟩ := List.mem_map.mp hw
    have hcell := mem_sweep.mp (List.mem_filter.mp hd).1
    simp only [Rectangle.mem_def, Vector2D.add_x, Vector2D.add_y]
    dsimp only at hcell
    omega

/-! ## Windows -/

/-- What goes wrong in the graphics code. -/
inductive Fault where
  /-- An index outside of the rows of a window. -/
  | outOfBounds
  /-- The end of a string is missed. -/
  | unterminated
  /-- `FindLayer` finds nothing, and its result is used. -/
  | nullLayer
  /-- A layer of the stack has been freed. -/
  | staleLayer
  /-- A rectangle is used that nothing was assigned to. -/
  | undefinedArea
deriving DecidableEq

/-- `Window`, and `ToplevelWindow` where it has a title.  The shadow buffer has the size of the
window. -/
structure Window where
  width : Nat
  height : Nat
  shadowFormat : PixelFormat
  data : Vector2D → PixelColor
  shadow : Vector2D → PixelColor
  transparentColor : Option PixelColor
  title : Option (List UInt8)

namespace Window

/-- `Window::Window`: both pictures are black. -/
def new (width height : Nat) (shadowFormat : PixelFormat) : Window :=
  ⟨width, height, shadowFormat, fun _ => ⟨0, 0, 0⟩, fun _ => ⟨0, 0, 0⟩, none, none⟩

/-- `Window::Size`. -/
def size (w : Window) : Vector2D := ⟨w.width, w.height⟩

/-- The places of the window. -/
def outline (w : Window) : Rectangle := ⟨⟨0, 0⟩, w.size⟩

/-- `shadow_buffer_`. -/
def shadowBuffer (w : Window) : FrameBuffer := ⟨w.width, w.height, w.shadowFormat, w.shadow⟩

/-- Both pictures of the window with a place written. -/
def put (w : Window) (pos : Vector2D) (c : PixelColor) : Window :=
  { w with data := Function.update w.data pos c, shadow := Function.update w.shadow pos c }

/-- `Window::Write`. -/
def write (w : Window) (pos : Vector2D) (c : PixelColor) : Except Fault Window :=
  if pos ∈ w.outline then .ok (w.put pos c) else .error .outOfBounds

/-- What `Window::Writer` is told. -/
def draw (w : Window) (ws : List Write) : Except Fault Window :=
  ws.foldlM (fun w x => w.write x.1 x.2) w

/-- The same window, up to what is drawn in it. -/
structure SameFrame (w w' : Window) : Prop where
  width : w'.width = w.width
  height : w'.height = w.height
  shadowFormat : w'.shadowFormat = w.shadowFormat
  transparentColor : w'.transparentColor = w.transparentColor
  title : w'.title = w.title

namespace SameFrame

variable {w w₁ w₂ : Window}

theorem refl (w : Window) : SameFrame w w := ⟨rfl, rfl, rfl, rfl, rfl⟩

theorem trans (h₁ : SameFrame w w₁) (h₂ : SameFrame w₁ w₂) : SameFrame w w₂ where
  width := h₂.width.trans h₁.width
  height := h₂.height.trans h₁.height
  shadowFormat := h₂.shadowFormat.trans h₁.shadowFormat
  transparentColor := h₂.transparentColor.trans h₁.transparentColor
  title := h₂.title.trans h₁.title

theorem size (h : SameFrame w w₁) : w₁.size = w.size := by
  rw [Window.size, h.width, h.height, Window.size]

theorem outline (h : SameFrame w w₁) : w₁.outline = w.outline := by
  rw [Window.outline, h.size, Window.outline]

end SameFrame

theorem sameFrame_put (w : Window) (pos : Vector2D) (c : PixelColor) : SameFrame w (w.put pos c) :=
  ⟨rfl, rfl, rfl, rfl, rfl⟩

theorem draw_cons_inside {x : Write} {ws : List Write} {w : Window} (hx : x.1 ∈ w.outline) :
    w.draw (x :: ws) = (w.put x.1 x.2).draw ws := by
  rw [draw, List.foldlM_cons, write, if_pos hx]
  rfl

theorem draw_cons_outside {x : Write} {ws : List Write} {w : Window} (hx : x.1 ∉ w.outline) :
    w.draw (x :: ws) = .error .outOfBounds := by
  rw [draw, List.foldlM_cons, write, if_neg hx]
  rfl

/-- Writes inside of the window go through. -/
theorem draw_inside : ∀ {ws : List Write} {w : Window}, (∀ x ∈ ws, x.1 ∈ w.outline) →
    ∃ w', w.draw ws = .ok w' ∧ SameFrame w w'
  | [], w, _ => ⟨w, rfl, .refl w⟩
  | x :: ws, w, h => by
    have hsame := sameFrame_put w x.1 x.2
    obtain ⟨w', hw', hrest⟩ := draw_inside (w := w.put x.1 x.2) fun y hy => by
      rw [hsame.outline]
      exact h y (List.mem_cons_of_mem x hy)
    exact ⟨w', (draw_cons_inside (h x List.mem_cons_self)).trans hw', hsame.trans hrest⟩

/-- A write outside of the window is a fault. -/
theorem draw_outside : ∀ {ws : List Write} {w : Window}, (∃ x ∈ ws, x.1 ∉ w.outline) →
    w.draw ws = .error .outOfBounds
  | [], w, h => by
    obtain ⟨x, hx, -⟩ := h
    cases hx
  | x :: ws, w, h => by
    by_cases hx : x.1 ∈ w.outline
    · obtain ⟨y, hy, hout⟩ := h
      rw [draw_cons_inside hx]
      refine draw_outside ⟨y, (List.mem_cons.mp hy).resolve_left fun heq => ?_, ?_⟩
      · exact hout (heq ▸ hx)
      · rwa [(sameFrame_put w x.1 x.2).outline]
    · exact draw_cons_outside hx

/-! ## Title bars -/

/-- `kCloseButtonWidth` and `kCloseButtonHeight`. -/
def kCloseButtonWidth : Int := 16
def kCloseButtonHeight : Int := 14

/-- `close_button`. -/
def closeButton : List String :=
  ["...............@", ".:::::::::::::$@", ".:::::::::::::$@", ".:::@@::::@@::$@",
    ".::::@@::@@:::$@", ".:::::@@@@::::$@", ".::::::@@:::::$@", ".:::::@@@@::::$@",
    ".::::@@::@@:::$@", ".:::@@::::@@::$@", ".:::::::::::::$@", ".:::::::::::::$@",
    ".$$$$$$$$$$$$$$@", "@@@@@@@@@@@@@@@@"]

/-- The colour of a place of the close button. -/
def closeColor (d : Vector2D) : PixelColor :=
  match (closeButton.getD d.y.toNat "").toList.getD d.x.toNat '.' with
  | '@' => toColor 0x000000
  | '$' => toColor 0x848484
  | ':' => toColor 0xc6c6c6
  | _ => toColor 0xffffff

variable (font)

/-- What `DrawWindowTitle` writes. -/
def drawWindowTitle (winW : Int) (title : List UInt8) (active : Bool) : Option (List Write) :=
  let bgcolor := if active then 0x000084 else 0xffffff
  let titlecolor := if active then 0xffffff else 0x797979
  (writeString font ⟨24, 4⟩ (toColor titlecolor) 0 title).map fun s =>
    fillRectangle ⟨3, 3⟩ ⟨winW - 6, 18⟩ (toColor bgcolor) ++ s ++
      tile ⟨⟨winW - 5 - kCloseButtonWidth, 5⟩, ⟨kCloseButtonWidth, kCloseButtonHeight⟩⟩ closeColor

/-- `Window::Activate` and `Window::Deactivate`: nothing, but for a `ToplevelWindow`. -/
def setActive (active : Bool) (w : Window) : Except Fault Window :=
  match w.title with
  | none => .ok w
  | some t =>
    match drawWindowTitle font w.width t active with
    | none => .error .unterminated
    | some ws => w.draw ws

def activate : Window → Except Fault Window := setActive font true
def deactivate : Window → Except Fault Window := setActive font false

/-- The window is large enough for its title bar, if it has one. -/
def TitleFits (w : Window) : Prop :=
  ∀ t, w.title = some t → ∀ active, ∃ ws, drawWindowTitle font w.width t active = some ws ∧
    ∀ x ∈ ws, x.1 ∈ w.outline

variable {font} {w w' : Window}

theorem SameFrame.titleFits (h : SameFrame w w') (hw : w.TitleFits font) : w'.TitleFits font := by
  intro t ht active
  rw [h.title] at ht
  rw [h.width, h.outline]
  exact hw t ht active

theorem setActive_ok (h : w.TitleFits font) (active : Bool) :
    ∃ w', setActive font active w = .ok w' ∧ SameFrame w w' := by
  cases ht : w.title with
  | none => exact ⟨w, by rw [setActive, ht], .refl w⟩
  | some t =>
    obtain ⟨ws, hws, hin⟩ := h t ht active
    obtain ⟨w', hw', hsame⟩ := draw_inside hin
    refine ⟨w', ?_, hsame⟩
    simp only [setActive, ht, hws, hw']

/-- An ASCII title fits where there is room for its characters, the close button and the bar. -/
theorem titleFits_of_ascii (h : ∀ t, w.title = some t → (∀ c ∈ t, c < 0x80) ∧
    24 + 8 * t.length ≤ w.width ∧ 21 ≤ w.height) : w.TitleFits font := by
  intro t ht active
  obtain ⟨hascii, hwidth, hheight⟩ := h t ht
  obtain ⟨s, hs, hmem⟩ := writeString_of_ascii font ⟨24, 4⟩
    (toColor (if active then 0xffffff else 0x797979)) 0 hascii
  refine ⟨_, by rw [drawWindowTitle, hs, Option.map_some], fun x hx => ?_⟩
  rw [List.mem_append, List.mem_append] at hx
  have hshape : x.1 ∈ w.outline ↔
      0 ≤ x.1.x ∧ x.1.x < w.width ∧ 0 ≤ x.1.y ∧ x.1.y < w.height := by
    simp only [outline, size, Rectangle.mem_def, Int.zero_add]
  rw [hshape]
  rcases hx with (hfill | hstr) | hclose
  · have hin := mem_tile.mp (List.mem_map_of_mem (f := Prod.fst) hfill)
    simp only [Rectangle.mem_def] at hin
    omega
  · obtain ⟨i, c, hi, hw⟩ := (hmem x).mp hstr
    have hlt := (List.getElem?_eq_some_iff.mp hi).1
    have hin := mem_writeAscii hw
    simp only [Rectangle.mem_def, Vector2D.add_x, Vector2D.add_y] at hin
    omega
  · have hin := mem_tile.mp (List.mem_map_of_mem (f := Prod.fst) hclose)
    simp only [Rectangle.mem_def, kCloseButtonWidth, kCloseButtonHeight] at hin
    omega

/-! ## Drawing a window -/

/-- What a window with a transparent colour writes: the places that show, wherever they are on the
destination. -/
def transparentWrites (w : Window) (tc : PixelColor) (dst : FrameBuffer) (pos : Vector2D) :
    List Write :=
  let lo : Vector2D := ⟨max 0 (0 - pos.x), max 0 (0 - pos.y)⟩
  let hi : Vector2D := ⟨min w.width (dst.width - pos.x), min w.height (dst.height - pos.y)⟩
  ((sweep lo hi).filter fun v => w.data v ≠ tc).map fun v => (pos + v, w.data v)

/-- `Window::DrawTo`.  An opaque window is copied inside the area; a transparent one does not
look at the area. -/
def drawTo (w : Window) (dst : FrameBuffer) (pos : Vector2D) (area : Rectangle) : FrameBuffer :=
  match w.transparentColor with
  | none =>
    let windowArea : Rectangle := ⟨pos, w.size⟩
    let intersection := area.inter windowArea
    dst.copy intersection.pos w.shadowBuffer ⟨intersection.pos - pos, intersection.size⟩
  | some tc => dst.draw (w.transparentWrites tc dst pos)

/-- What the window shows at its place. -/
def sprite (w : Window) (pos : Vector2D) : Sprite Vector2D PixelColor := fun p =>
  if p ∈ (⟨pos, w.size⟩ : Rectangle) then
    match w.transparentColor with
    | none => some (w.shadow (p - pos))
    | some tc => if w.data (p - pos) = tc then none else some (w.data (p - pos))
  else none

variable {dst : FrameBuffer} {area : Rectangle} {p : Vector2D}

theorem sprite_outside (hp : p ∉ (⟨pos, w.size⟩ : Rectangle)) : w.sprite pos p = none := if_neg hp

theorem sprite_solid (hw : w.transparentColor = none) (hp : p ∈ (⟨pos, w.size⟩ : Rectangle)) :
    w.sprite pos p = some (w.shadow (p - pos)) := by
  rw [sprite, if_pos hp, hw]

@[simp] theorem drawTo_outline : (w.drawTo dst pos area).outline = dst.outline := by
  unfold drawTo
  split
  · exact FrameBuffer.copy_outline
  · rfl

@[simp] theorem drawTo_format : (w.drawTo dst pos area).format = dst.format := by
  unfold drawTo
  split
  · exact FrameBuffer.copy_format
  · rfl

theorem sub_mem_outline : p - pos ∈ w.outline ↔ p ∈ (⟨pos, w.size⟩ : Rectangle) := by
  simp only [outline, Rectangle.mem_def, Vector2D.sub_x, Vector2D.sub_y]
  omega

/-- An opaque window is its sprite, clipped to the area. -/
theorem drawTo_solid (hw : w.transparentColor = none) (hf : dst.format = w.shadowFormat)
    (hp : p ∈ dst.outline) : (w.drawTo dst pos area).pixel p =
      Painter.lay (Painter.clip (· ∈ area) (w.sprite pos)) dst.pixel p := by
  have hmem : p ∈ dst.copyArea (area.inter ⟨pos, w.size⟩).pos w.shadowBuffer
      ⟨(area.inter ⟨pos, w.size⟩).pos - pos, (area.inter ⟨pos, w.size⟩).size⟩ ↔
      p ∈ area ∧ p ∈ (⟨pos, w.size⟩ : Rectangle) := by
    have hinter :
        p ∈ (⟨(area.inter ⟨pos, w.size⟩).pos, (area.inter ⟨pos, w.size⟩).size⟩ : Rectangle) ↔
          p ∈ area ∧ p ∈ (⟨pos, w.size⟩ : Rectangle) := Rectangle.mem_inter
    have hsrc : p - pos ∈ w.shadowBuffer.outline ↔ p ∈ (⟨pos, w.size⟩ : Rectangle) :=
      sub_mem_outline
    rw [FrameBuffer.mem_copyArea, Vector2D.sub_sub_self, hinter, hsrc]
    exact ⟨fun h => h.2.2, fun h => ⟨hp, h.2, h⟩⟩
  simp only [drawTo, hw, Painter.lay, Painter.clip, sprite]
  rw [FrameBuffer.copy_pixel hf]
  simp only [hmem, Vector2D.sub_sub_self]
  by_cases harea : p ∈ area <;> by_cases hwin : p ∈ (⟨pos, w.size⟩ : Rectangle) <;>
    simp [harea, hwin, shadowBuffer]

theorem mem_transparentWrites {tc : PixelColor} (hp : p ∈ dst.outline) :
    p ∈ (w.transparentWrites tc dst pos).map Prod.fst ↔
      p ∈ (⟨pos, w.size⟩ : Rectangle) ∧ w.data (p - pos) ≠ tc := by
  simp only [FrameBuffer.outline, FrameBuffer.size, Rectangle.mem_def] at hp
  rw [transparentWrites, List.map_map, List.mem_map]
  constructor
  · rintro ⟨v, hv, rfl⟩
    simp only [List.mem_filter, mem_sweep] at hv
    simp only [Function.comp_apply, Vector2D.add_sub_cancel_left]
    refine ⟨?_, of_decide_eq_true hv.2⟩
    simp only [Rectangle.mem_def, size, Vector2D.add_x, Vector2D.add_y]
    omega
  · rintro ⟨hin, hne⟩
    simp only [Rectangle.mem_def, size] at hin
    refine ⟨p - pos, List.mem_filter.mpr ⟨mem_sweep.mpr ?_, decide_eq_true hne⟩,
      Vector2D.add_sub_cancel ..⟩
    simp only [Vector2D.sub_x, Vector2D.sub_y]
    omega

/-- A transparent window is its sprite, the area notwithstanding. -/
theorem drawTo_transparent {tc : PixelColor} (hw : w.transparentColor = some tc)
    (hp : p ∈ dst.outline) : (w.drawTo dst pos area).pixel p =
      Painter.lay (w.sprite pos) dst.pixel p := by
  simp only [drawTo, hw]
  refine (Painter.stamp_apply (f := fun q => w.data (q - pos)) ?_).trans ?_
  · intro x hx
    obtain ⟨v, -, rfl⟩ := List.mem_map.mp hx
    exact congrArg w.data (Vector2D.add_sub_cancel_left ..).symm
  · simp only [mem_transparentWrites hp, Painter.lay, sprite, hw]
    by_cases hwin : p ∈ (⟨pos, w.size⟩ : Rectangle) <;> by_cases hne : w.data (p - pos) = tc <;>
      simp [hwin, hne]

end Window

end Laplus.Graphics
