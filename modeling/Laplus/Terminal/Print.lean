/-
# `Laplus.Terminal.Print` — what a terminal prints (`terminal.cpp`)

The cursor of a terminal and the cells of its window that are painted.  A glyph
has the cell of its character, whatever FreeType puts there.

`Print` runs through its text as `WriteString` does, and both trust the first
byte of a character (`text_ends_iff`).  On encoded text they see the characters
that were encoded (`text_decodes`).
-/
import Laplus.Graphics.Text

namespace Laplus

open Lib Graphics

namespace Terminal

def kRows : Int := 15
def kColumns : Int := 60
def kLineMax : Nat := 128

/-- `std::array<char, kLineMax>`. -/
abbrev LineBuf := Fin kLineMax → UInt8

/-- `kTopLeftMargin` of `ToplevelWindow`. -/
def kTopLeftMargin : Vector2D := ⟨4, 24⟩

/-- `kMarginX` and `kMarginY`. -/
def kMargin : Vector2D := ⟨8, 28⟩

end Terminal

/-- `Terminal`.  `painted` are the places of its window that are written, the last first. -/
structure Terminal where
  showWindow : Bool
  cursor : Vector2D
  cursorVisible : Bool
  linebufIndex : Int
  linebuf : Terminal.LineBuf
  cmdHistory : List Terminal.LineBuf
  cmdHistoryIndex : Int
  painted : List Rectangle

namespace Terminal

/-- The window of a terminal. -/
def window : Rectangle := ⟨⟨0, 0⟩, ⟨kColumns * 8 + 8 + kMargin.x, kRows * 16 + 8 + kMargin.y⟩⟩

/-- Something is written to the window. -/
def paint (t : Terminal) (pos size : Vector2D) : Terminal :=
  { t with painted := ⟨pos, size⟩ :: t.painted }

/-- `CalcCursorPos`. -/
def calcCursorPos (t : Terminal) : Vector2D :=
  kTopLeftMargin + ⟨4 + 8 * t.cursor.x, 4 + 16 * t.cursor.y⟩

/-- `DrawCursor`, in either colour. -/
def drawCursor (t : Terminal) : Terminal :=
  if t.showWindow then t.paint t.calcCursorPos ⟨7, 15⟩ else t

/-- `BlinkCursor`. -/
def blinkCursor (t : Terminal) : Terminal :=
  { t with cursorVisible := !t.cursorVisible }.drawCursor

/-- `Scroll1`: the rows move up, and the row of the cursor is cleared. -/
def scroll1 (t : Terminal) : Terminal :=
  (t.paint (kTopLeftMargin + ⟨4, 4⟩) ⟨8 * kColumns, 16 * (kRows - 1)⟩).paint
    (kTopLeftMargin + ⟨4, 4 + 16 * t.cursor.y⟩) ⟨8 * kColumns, 16⟩

/-- The start of the next row. -/
def newline (t : Terminal) : Terminal :=
  let t := { t with cursor := ⟨0, t.cursor.y⟩ }
  if t.cursor.y < kRows - 1 then { t with cursor := ⟨0, t.cursor.y + 1⟩ } else t.scroll1

/-- A character of so many columns, written at the cursor. -/
def put (t : Terminal) (columns : Int) : Terminal :=
  let t := t.paint t.calcCursorPos ⟨8 * columns, 16⟩
  { t with cursor := ⟨t.cursor.x + columns, t.cursor.y⟩ }

/-- `Print`, of a character. -/
def printChar (t : Terminal) (c : UInt32) : Terminal :=
  if !t.showWindow then t
  else if c = 0x0a then t.newline
  else if isHankaku c then (if t.cursor.x = kColumns then t.newline else t).put 1
  else (if t.cursor.x ≥ kColumns - 1 then t.newline else t).put 2

/-- The condition of the loop of `Print` on its index, where there is a length. -/
def below (len : Option Nat) (i : Nat) : Bool := len.all fun len => decide (i < len)

/-- A round of the loop of `Print`. -/
def printRound (len : Option Nat) :
    List UInt8 → Nat × Terminal → Round (Nat × Terminal) (Nat × Terminal) :=
  textRound (below len) printChar

/-- `Terminal::Terminal`, with a window or without. -/
def new (showWindow : Bool) : Terminal :=
  let t : Terminal := ⟨showWindow, ⟨0, 0⟩, false, 0, fun _ => 0, [], -1, []⟩
  let t := if showWindow then
    (((t.paint kTopLeftMargin (window.size - kMargin)).drawCursor).printChar 0x3e).drawCursor else t
  { t with cmdHistory := List.replicate 8 fun _ => 0 }

/-! ## The end of the text -/

/-- **Where text output ends.**  A string ends at its terminator, and a read behind it faults:
`WriteString` and `Print` are left without one iff, as far as they go, every first byte announces
as many bytes as there are.  `Print` with a length reads nothing from there on iff among the bytes
before is one that it does not get past. -/
theorem text_ends_iff (font : Font) (pos : Vector2D) (color : PixelColor) (t : Terminal)
    (len : Option Nat) (mem : List UInt8) {s : List UInt8} (hs : 0 ∉ s) :
    (Ends (writeStringRound font pos color (s ++ [0])) (0, 0, []) ↔
      Whole (fun _ => true) 0 0 s) ∧
    (Ends (printRound len (s ++ [0])) (0, t) ↔ Whole (below len) 0 0 s) ∧
    (¬ Faults (printRound (some mem.length) mem) (0, t) ↔ Stopped 0 mem) := by
  refine ⟨text_ends_iff_whole hs rfl, text_ends_iff_whole hs rfl, ?_⟩
  exact text_within_iff (fun j hj => decide_eq_true hj) (Nat.zero_le _)

/-- Two whole characters. -/
theorem text_ends_whole : Ends (printRound none ([0xc3, 0xa9, 0x41] ++ [0])) (0, new true) :=
  (text_ends_iff ⟨fun _ => none, fun _ => none⟩ ⟨0, 0⟩ ⟨0, 0, 0⟩ (new true) none []
    (show 0 ∉ [0xc3, 0xa9, 0x41] by decide)).2.1.mpr (by decide)

/-- A byte that is no first byte, one that takes the terminator with it, and a text that fills its
length. -/
theorem text_hangs :
    ¬ Ends (writeStringRound ⟨fun _ => none, fun _ => none⟩ ⟨0, 0⟩ ⟨0, 0, 0⟩ ([0x80] ++ [0]))
      (0, 0, []) ∧
    ¬ Ends (printRound none ([0xc3] ++ [0])) (0, new true) ∧
    Faults (printRound (some 1) [0x41]) (0, new true) :=
  ⟨(text_ends_iff_whole (by decide) rfl).not.mpr (by decide),
    (text_ends_iff_whole (by decide) rfl).not.mpr (by decide), 2, rfl⟩

/-! ## Encoded text -/

/-- **Decoding inverts encoding.**  On the encoding of a text, with a terminator behind it and
anything behind that, the loops take its characters one after the other and are left at the
terminator. -/
theorem text_decodes (l : List Char) (hl : '\x00' ∉ l) (rest : List UInt8) :
    Yields (textRound (fun _ => true) (fun us u32 => us ++ [u32]) (utf8 l ++ 0 :: rest)) (0, [])
      ((utf8 l).length, l.map Char.val) ∧
    (∀ (font : Font) (pos : Vector2D) (color : PixelColor),
      Yields (writeStringRound font pos color (utf8 l ++ 0 :: rest)) (0, 0, [])
        ((utf8 l).length, (l.map Char.val).foldl (emitGlyph font pos color) (0, []))) ∧
    ∀ t : Terminal, Yields (printRound none (utf8 l ++ 0 :: rest)) (0, t)
      ((utf8 l).length, (l.map Char.val).foldl printChar t) := by
  have hlist : ∀ us : List UInt32, us.foldl (fun us u32 => us ++ [u32]) [] = us := fun us => by
    have happ : ∀ vs : List UInt32, us.foldl (fun us u32 => us ++ [u32]) vs = vs ++ us := by
      induction us with
      | nil => exact fun vs => (List.append_nil vs).symm
      | cons u us ih => exact fun vs => by rw [List.foldl_cons, ih, List.append_assoc]; rfl
    exact happ []
  have hrun : ∀ {σ : Type} {more : Nat → Bool} (emit : σ → UInt32 → σ) (a : σ),
      (∀ j, more j = true) → Yields (textRound more emit (utf8 l ++ 0 :: rest)) (0, a)
        ((utf8 l).length, (l.map Char.val).foldl emit a) := fun emit a hmore => by
    have h := textRound_encode emit a hmore hl
      (show (utf8 l ++ 0 :: rest).drop 0 = utf8 l ++ 0 :: rest from rfl)
    rwa [Nat.zero_add] at h
  refine ⟨?_, fun font pos color => hrun _ _ fun _ => rfl, fun t => hrun _ _ fun _ => rfl⟩
  have h := hrun (fun us u32 => us ++ [u32]) [] fun _ => rfl
  rwa [hlist] at h

/-- A text with characters of one to four bytes. -/
theorem text_decodes_four :
    Yields (textRound (fun _ => true) (fun us u32 => us ++ [u32]) (utf8 ['a', 'é', '語', '😀'] ++ [0]))
      (0, []) (10, [0x61, 0xe9, 0x8a9e, 0x1f600]) :=
  (text_decodes ['a', 'é', '語', '😀'] (by decide) []).1

end Terminal

end Laplus
