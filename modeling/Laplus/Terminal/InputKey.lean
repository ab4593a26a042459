/-
# `Laplus.Terminal.InputKey` — the state of a terminal (`terminal.cpp`)

Typing moves the cursor and the index of the line together.  Output moves the
cursor alone, so a line may grow longer than a row before it is entered; and
`HistoryUpDown` puts the cursor behind whatever line it recalls.

Between the calls that a key makes, and while its command runs, other tasks print
to the same terminal: an event is a call of `Print` for a character, or one of the
parts of `InputKey`.  A terminal here has a window.  All that is kept is `InRange`,
and `stays_in_range_iff` says in which runs it is.
-/
import Laplus.Lib.Run
import Laplus.Terminal.Print

namespace Laplus

open Lib Graphics

namespace Terminal

/-! ## `InputKey` -/

/-- `strlen`, of an array; it has no answer where there is no NUL. -/
def strlen (b : LineBuf) : Option Nat := (List.ofFn b).findIdx? fun c => c = 0

/-- So many characters of an array. -/
def text (b : LineBuf) (n : Nat) : List UInt8 := (List.ofFn b).take n

/-- `linebuf_[linebuf_index_] = c`. -/
def setLine (t : Terminal) (c : UInt8) : Option Terminal :=
  if h : 0 ≤ t.linebufIndex ∧ t.linebufIndex < kLineMax then
    some { t with
      linebuf := Function.update t.linebuf ⟨t.linebufIndex.toNat, by omega⟩ c }
  else none

/-- The cell of a character of `WriteString`. -/
def emitCell (pos : Vector2D) (p : Int × Terminal) (u32 : UInt32) : Int × Terminal :=
  let columns := if isHankaku u32 then 1 else 2
  (p.1 + columns, p.2.paint (pos + ⟨8 * p.1, 0⟩) ⟨8 * columns, 16⟩)

/-- `WriteString` to the window; it has no answer where its loop is not left at the terminator. -/
def writeString (t : Terminal) (pos : Vector2D) (s : List UInt8) : Option Terminal :=
  match rounds (textRound (fun _ => true) (emitCell pos) (s ++ [0])) (s.length + 1) (0, 0, t) with
  | .done r => some r.2.2
  | _ => none

/-- Where `HistoryUpDown` goes. -/
def historyIndex (t : Terminal) (direction : Int) : Int :=
  if direction = -1 ∧ t.cmdHistoryIndex ≥ 0 then t.cmdHistoryIndex - 1
  else if direction = 1 ∧ t.cmdHistoryIndex + 1 < t.cmdHistory.length then t.cmdHistoryIndex + 1
  else t.cmdHistoryIndex

/-- The line there. -/
def recalled (t : Terminal) (index : Int) : Option LineBuf :=
  if index ≥ 0 then t.cmdHistory[index.toNat]? else some fun _ => 0

/-- `HistoryUpDown`. -/
def historyUpDown (t : Terminal) (direction : Int) : Option Terminal := do
  let index := t.historyIndex direction
  let t := { t with cmdHistoryIndex := index, cursor := ⟨1, t.cursor.y⟩ }
  let firstPos := t.calcCursorPos
  let t := t.paint firstPos ⟨8 * (kColumns - 1), 16⟩
  let history ← t.recalled index
  let n ← strlen history
  let t := { t with
    linebuf := fun i => if i ≤ n then history i else t.linebuf i
    linebufIndex := n }
  let t ← t.writeString firstPos (text history n)
  return { t with cursor := ⟨t.linebufIndex + 1, t.cursor.y⟩ }

/-- What `InputKey` does for the Enter key before `ExecuteLine`. -/
def enter (t : Terminal) : Option Terminal := do
  let t ← t.setLine 0
  let t := if t.linebufIndex > 0 then
    { t with cmdHistory := t.linebuf :: t.cmdHistory.dropLast } else t
  return { t with linebufIndex := 0, cmdHistoryIndex := -1 }.newline

/-- The backspace key. -/
def backspace (t : Terminal) : Terminal :=
  if t.cursor.x > 0 then
    let t := { t with cursor := ⟨t.cursor.x - 1, t.cursor.y⟩ }
    let t := if t.showWindow then t.paint t.calcCursorPos ⟨8, 16⟩ else t
    if t.linebufIndex > 0 then { t with linebufIndex := t.linebufIndex - 1 } else t
  else t

/-- A character is typed. -/
def type (t : Terminal) (ascii : UInt8) : Option Terminal :=
  if t.cursor.x < kColumns - 1 ∧ t.linebufIndex < kLineMax - 1 then do
    let t ← t.setLine ascii
    let t := { t with linebufIndex := t.linebufIndex + 1 }
    let t := if t.showWindow then t.paint t.calcCursorPos ⟨8, 16⟩ else t
    return { t with cursor := ⟨t.cursor.x + 1, t.cursor.y⟩ }
  else some t

/-- The direction of a history key. -/
def direction (keycode ascii : UInt8) : Option Int :=
  if ascii ≠ 0 then none
  else if keycode = 0x51 then some (-1)
  else if keycode = 0x52 then some 1
  else none

/-- `InputKey`, up to `ExecuteLine` for the Enter key. -/
def keyDown (t : Terminal) (keycode ascii : UInt8) : Option Terminal :=
  let t := t.drawCursor
  if ascii = 0x0a then t.enter
  else if ascii = 0x08 then some t.backspace.drawCursor
  else if ascii ≠ 0 then (t.type ascii).map drawCursor
  else
    match direction keycode ascii with
    | some d => (t.historyUpDown d).map drawCursor
    | none => some t.drawCursor

/-- What `InputKey` does for the Enter key after `ExecuteLine`: `Print(">")`, and the cursor. -/
def prompt (t : Terminal) : Terminal := (t.drawCursor.printChar 0x3e).drawCursor.drawCursor

/-- `InputKey`. -/
def inputKey (t : Terminal) (keycode ascii : UInt8) (executeLine : Terminal → Option Terminal) :
    Option Terminal :=
  let t := t.keyDown keycode ascii
  if ascii = 0x0a then (t.bind executeLine).map prompt else t

/-- The `clear` command. -/
def clear (t : Terminal) : Terminal :=
  let t := if t.showWindow then t.paint (kTopLeftMargin + ⟨4, 4⟩) ⟨8 * kColumns, 16 * kRows⟩ else t
  { t with cursor := ⟨t.cursor.x, 0⟩ }

/-- What happens to a terminal.  `cut` is a NUL that `ExecuteLine` writes to the line. -/
inductive Event where
  | key (keycode ascii : UInt8)
  | prompt
  | printChar (c : UInt32)
  | drawCursor
  | blink
  | clear
  | cut (i : Fin kLineMax)

def step (t : Terminal) : Event → Option Terminal
  | .key keycode ascii => t.keyDown keycode ascii
  | .prompt => some t.prompt
  | .printChar c => some (t.printChar c)
  | .drawCursor => some t.drawCursor
  | .blink => some t.blinkCursor
  | .clear => some t.clear
  | .cut i => some { t with linebuf := Function.update t.linebuf i 0 }

/-- A step, where nothing was read or written outside of an array before. -/
def next (s : Option Terminal) (e : Event) : Option Terminal := s.bind fun t => t.step e

/-! ## What is kept -/

/-- All places of a rectangle are in the window. -/
def Inside (r : Rectangle) : Prop := ∀ p ∈ r, p ∈ window

/-- **The terminal is in range.** -/
structure InRange (t : Terminal) : Prop where
  x : 0 ≤ t.cursor.x ∧ t.cursor.x ≤ kColumns
  y : 0 ≤ t.cursor.y ∧ t.cursor.y < kRows
  index : 0 ≤ t.linebufIndex ∧ t.linebufIndex < kLineMax
  history : t.cmdHistory.length = 8 ∧ ∀ b ∈ t.cmdHistory, ∃ i, b i = 0
  historyIndex : -1 ≤ t.cmdHistoryIndex ∧ t.cmdHistoryIndex < 8
  painted : ∀ r ∈ t.painted, Inside r

/-- Nothing was read or written outside of an array, and the terminal is in range. -/
def Sound (s : Option Terminal) : Prop := ∃ t, s = some t ∧ InRange t

/-- The text that a history key recalls. -/
def recalledText (t : Terminal) (direction : Int) : Option (List UInt8) := do
  let b ← t.recalled (t.historyIndex direction)
  let n ← strlen b
  return text b n

/-- A history key recalls a line of whole characters that is shorter than a row. -/
def Fits (t : Terminal) : Event → Prop
  | .key keycode ascii => ∀ d, direction keycode ascii = some d → ∀ s, t.recalledText d = some s →
      (s.length : Int) < kColumns ∧ Whole (fun _ => true) 0 0 s
  | _ => True

variable {t t' : Terminal} {pos size : Vector2D} {c : UInt32}

theorem inside_of (hx : 0 ≤ pos.x ∧ pos.x + size.x ≤ 496) (hy : 0 ≤ pos.y ∧ pos.y + size.y ≤ 276) :
    Inside ⟨pos, size⟩ := by
  intro p hp
  have hwindow : window = ⟨⟨0, 0⟩, ⟨496, 276⟩⟩ := rfl
  rw [hwindow, Rectangle.mem_def]
  rw [Rectangle.mem_def] at hp
  dsimp only at hp ⊢
  omega

namespace InRange

theorem paint (h : InRange t) (hr : Inside ⟨pos, size⟩) : InRange (t.paint pos size) :=
  ⟨h.x, h.y, h.index, h.history, h.historyIndex, List.forall_mem_cons.mpr ⟨hr, h.painted⟩⟩

/-- The cursor is moved. -/
theorem move (h : InRange t) {x y : Int} (hx : 0 ≤ x ∧ x ≤ kColumns) (hy : 0 ≤ y ∧ y < kRows) :
    InRange { t with cursor := ⟨x, y⟩ } :=
  ⟨hx, hy, h.index, h.history, h.historyIndex, h.painted⟩

/-- What is at the cursor is in the window, up to its width. -/
theorem cell (h : InRange t) {w k : Int} (hw : 8 * t.cursor.x + w ≤ 488) (hk : k ≤ 16) :
    Inside ⟨t.calcCursorPos, ⟨w, k⟩⟩ := by
  obtain ⟨hx, -⟩ := h.x
  obtain ⟨hy, hy'⟩ := h.y
  simp only [kRows] at hy'
  refine inside_of ?_ ?_ <;>
    · simp only [calcCursorPos, kTopLeftMargin, Vector2D.add_x, Vector2D.add_y]
      omega

theorem drawCursor (h : InRange t) : InRange t.drawCursor := by
  unfold Terminal.drawCursor
  split
  · have hx := h.x.2
    simp only [kColumns] at hx
    exact h.paint (h.cell (by omega) (by decide))
  · exact h

theorem blinkCursor (h : InRange t) : InRange t.blinkCursor :=
  drawCursor (t := { t with cursorVisible := !t.cursorVisible })
    ⟨h.x, h.y, h.index, h.history, h.historyIndex, h.painted⟩

theorem scroll1 (h : InRange t) : InRange t.scroll1 := by
  obtain ⟨hy, hy'⟩ := h.y
  simp only [kRows] at hy'
  have hmove : Inside ⟨kTopLeftMargin + ⟨4, 4⟩, ⟨8 * kColumns, 16 * (kRows - 1)⟩⟩ :=
    inside_of (by decide) (by decide)
  have hclear : Inside ⟨kTopLeftMargin + ⟨4, 4 + 16 * t.cursor.y⟩, ⟨8 * kColumns, 16⟩⟩ := by
    refine inside_of ?_ ?_ <;>
      · simp only [kTopLeftMargin, kColumns, Vector2D.add_x, Vector2D.add_y]
        omega
  exact (h.paint hmove).paint hclear

theorem newline (h : InRange t) : InRange t.newline ∧ t.newline.cursor.x = 0 := by
  have hstart := h.move (x := 0) (by decide) h.y
  unfold Terminal.newline
  dsimp only
  split
  · rename_i hy
    have hy' := h.y.1
    exact ⟨hstart.move (by decide) ⟨by omega, by omega⟩, rfl⟩
  · exact ⟨hstart.scroll1, rfl⟩

theorem put (h : InRange t) {columns : Int} (hc : 0 ≤ columns)
    (hx : t.cursor.x + columns ≤ kColumns) : InRange (t.put columns) := by
  have hx' : t.cursor.x + columns ≤ 60 := hx
  have hx0 := h.x.1
  exact (h.paint (h.cell (by omega) (by decide))).move ⟨Int.add_nonneg hx0 hc, hx⟩ h.y

theorem printChar (h : InRange t) (c : UInt32) : InRange (t.printChar c) := by
  obtain ⟨hx, hx'⟩ := h.x
  obtain ⟨hnewline, h0⟩ := h.newline
  unfold Terminal.printChar
  split_ifs with h1 h2 h3 h4 h5
  · exact h
  · exact hnewline
  · exact hnewline.put (by decide) (by rw [h0]; decide)
  · exact h.put (by decide) (by omega)
  · exact hnewline.put (by decide) (by rw [h0]; decide)
  · exact h.put (by decide) (by omega)

theorem prompt (h : InRange t) : InRange t.prompt :=
  (h.drawCursor.printChar 0x3e).drawCursor.drawCursor

theorem clear (h : InRange t) : InRange t.clear := by
  have hrect : Inside ⟨kTopLeftMargin + ⟨4, 4⟩, ⟨8 * kColumns, 16 * kRows⟩⟩ :=
    inside_of (by decide) (by decide)
  unfold Terminal.clear
  dsimp only
  split
  · exact (h.paint hrect).move h.x (by decide)
  · exact h.move h.x (by decide)

/-- The line and the history are changed. -/
theorem line (h : InRange t) (b : LineBuf) {lines : List LineBuf} {k j : Int}
    (hk : 0 ≤ k ∧ k < kLineMax) (hlines : lines.length = 8 ∧ ∀ b ∈ lines, ∃ i, b i = 0)
    (hj : -1 ≤ j ∧ j < 8) :
    InRange { t with linebufIndex := k, linebuf := b, cmdHistory := lines, cmdHistoryIndex := j } :=
  ⟨h.x, h.y, hk, hlines, hj, h.painted⟩

/-- An index in range. -/
theorem setLine (h : InRange t) (c : UInt8) : ∃ b : LineBuf, t.setLine c = some { t with linebuf := b } ∧
    ∃ i, b i = c := by
  have hindex := h.index
  exact ⟨_, dif_pos h.index, ⟨t.linebufIndex.toNat, by omega⟩, Function.update_self _ _ _⟩

theorem enter (h : InRange t) : ∃ t', t.enter = some t' ∧ InRange t' := by
  obtain ⟨b, hset, hb⟩ := h.setLine 0
  have hlines : (b :: t.cmdHistory.dropLast).length = 8 ∧
      ∀ l ∈ b :: t.cmdHistory.dropLast, ∃ i, l i = 0 := by
    refine ⟨?_, List.forall_mem_cons.mpr ⟨hb, fun l hl => h.history.2 l (List.dropLast_subset _ hl)⟩⟩
    rw [List.length_cons, List.length_dropLast, h.history.1]
  rw [Terminal.enter, hset]
  dsimp only [Option.bind_eq_bind, Option.bind_some]
  split
  · exact ⟨_, rfl, (newline (h.line b (by decide) hlines (by decide))).1⟩
  · exact ⟨_, rfl, (newline (h.line b (by decide) h.history (by decide))).1⟩

theorem backspace (h : InRange t) : InRange t.backspace := by
  obtain ⟨hx, hx'⟩ := h.x
  have h60 : t.cursor.x ≤ 60 := hx'
  unfold Terminal.backspace
  split
  case isFalse => exact h
  case isTrue hpos =>
    have hmove := h.move (x := t.cursor.x - 1) (y := t.cursor.y) ⟨by omega, by omega⟩ h.y
    have hcell : InRange (if t.showWindow then
        { t with cursor := ⟨t.cursor.x - 1, t.cursor.y⟩ }.paint
          { t with cursor := ⟨t.cursor.x - 1, t.cursor.y⟩ }.calcCursorPos ⟨8, 16⟩
        else { t with cursor := ⟨t.cursor.x - 1, t.cursor.y⟩ }) := by
      split
      · exact hmove.paint (hmove.cell (by simp only; omega) (by decide))
      · exact hmove
    dsimp only at hcell ⊢
    generalize (if t.showWindow = true then _ else _ : Terminal) = u at hcell ⊢
    obtain ⟨h0, h1⟩ := hcell.index
    split
    · exact hcell.line u.linebuf ⟨by omega, by omega⟩ hcell.history hcell.historyIndex
    · exact hcell

theorem type (h : InRange t) (ascii : UInt8) : ∃ t', t.type ascii = some t' ∧ InRange t' := by
  obtain ⟨b, hset, -⟩ := h.setLine ascii
  rw [Terminal.type, hset]
  split
  case isFalse => exact ⟨t, rfl, h⟩
  case isTrue hroom =>
    obtain ⟨hx, hk⟩ := hroom
    have hx' : t.cursor.x < 59 := hx
    have hx0 := h.x.1
    have hindex := h.index.1
    have hline := h.line b (k := t.linebufIndex + 1) ⟨by omega, by omega⟩ h.history h.historyIndex
    dsimp only [Option.bind_eq_bind, Option.bind_some]
    refine ⟨_, rfl, move ?_ ⟨?_, ?_⟩ ?_⟩
    · split
      · exact hline.paint (hline.cell (by simp only; omega) (by decide))
      · exact hline
    · split <;> simp only [Terminal.paint] <;> omega
    · split <;> simp only [Terminal.paint] <;> omega
    · split <;> exact h.y

end InRange

/-! ## The history -/

/-- An array with a NUL has a string. -/
theorem strlen_some {b : LineBuf} (h : ∃ i, b i = 0) : ∃ n, strlen b = some n := by
  obtain ⟨i, hi⟩ := h
  refine Option.isSome_iff_exists.mp (List.findIdx?_isSome.trans (List.any_eq_true.mpr ?_))
  exact ⟨b i, List.mem_ofFn.mpr ⟨i, rfl⟩, decide_eq_true hi⟩

theorem strlen_spec {b : LineBuf} {n : Nat} (h : strlen b = some n) :
    n < kLineMax ∧ 0 ∉ text b n ∧ (text b n).length = n := by
  obtain ⟨hlt, -, hbefore⟩ := List.findIdx?_eq_some_iff_getElem.mp h
  have hlen : n < kLineMax := by rwa [List.length_ofFn] at hlt
  refine ⟨hlen, fun h0 => ?_, ?_⟩
  · obtain ⟨j, hj, hzero⟩ := List.mem_take_iff_getElem.mp h0
    exact hbefore j (by omega) (decide_eq_true hzero)
  · rw [text, List.length_take, List.length_ofFn]
    omega

/-- What `WriteString` does not touch, and the strings for which it comes to an end. -/
theorem writeString_some {s : List UInt8} (hs : 0 ∉ s) (h : t.writeString pos s = some t') :
    t' = { t with painted := t'.painted } ∧ Whole (fun _ => true) 0 0 s := by
  unfold Terminal.writeString at h
  cases hr : rounds (textRound (fun _ => true) (emitCell pos) (s ++ [0])) (s.length + 1) (0, 0, t) with
  | again p => rw [hr] at h; cases h
  | fault => rw [hr] at h; cases h
  | done r =>
      rw [hr] at h
      cases h
      have hsame : r.2.2 = { t with painted := r.2.2.painted } :=
        Yields.inv (s := (0, 0, t)) (fun p => p.2.2 = { t with painted := p.2.2.painted })
          (fun p q hp hround => by
            obtain ⟨u32, hq⟩ := textRound_again hround
            rw [hq, emitCell]
            dsimp only [paint]
            rw [hp])
          (Q := fun p => p.2.2 = { t with painted := p.2.2.painted })
          (fun p q hp hround => textRound_done hround ▸ hp) ⟨_, hr⟩ rfl
      exact ⟨hsame, (text_ends_iff_whole hs rfl).mp ⟨r, _, hr⟩⟩

/-- `WriteString` of a line from the second column on. -/
theorem InRange.writeString (h : InRange t) {s : List UInt8} (hs : 0 ∉ s)
    (hlen : (s.length : Int) < kColumns) (hwhole : Whole (fun _ => true) 0 0 s)
    (hx : t.cursor.x = 1) :
    ∃ t', t.writeString t.calcCursorPos s = some t' ∧ ∀ r ∈ t'.painted, Inside r := by
  have hlen' : (s.length : Int) < 60 := hlen
  obtain ⟨hy0, hy⟩ := h.y
  have hy' : t.cursor.y < 15 := hy
  have hcell : ∀ {i : Nat} {p : Int × Terminal} {c : UInt8} {u : List UInt8},
      (s ++ [0]).drop i = c :: u → countUTF8Size c ≠ 0 → countUTF8Size c ≤ u.length + 1 →
      0 ≤ p.1 ∧ p.1 ≤ i ∧ (∀ r ∈ p.2.painted, Inside r) →
      0 ≤ (emitCell t.calcCursorPos p (convertUTF8To32 (c :: u)).1).1 ∧
        (emitCell t.calcCursorPos p (convertUTF8To32 (c :: u)).1).1 ≤ (i + countUTF8Size c : Nat) ∧
        ∀ r ∈ (emitCell t.calcCursorPos p (convertUTF8To32 (c :: u)).1).2.painted, Inside r := by
    rintro i p c u hmem h0 hsize ⟨hp0, hpi, hpainted⟩
    have hcolumns := columns_le (s := u) h0
    have hbytes : i + countUTF8Size c ≤ s.length + 1 := by
      have hdrop := congrArg List.length hmem
      rw [List.length_drop, List.length_append, List.length_singleton, List.length_cons] at hdrop
      omega
    have hrect : ∀ columns : Int, 0 ≤ columns → columns ≤ countUTF8Size c →
        Inside ⟨t.calcCursorPos + ⟨8 * p.1, 0⟩, ⟨8 * columns, 16⟩⟩ := fun columns hc hle => by
      refine inside_of ?_ ?_ <;>
        · simp only [calcCursorPos, kTopLeftMargin, Vector2D.add_x, Vector2D.add_y]
          omega
    unfold emitCell
    split at hcolumns <;> rename_i hw
    · rw [if_pos hw]
      exact ⟨by simp only; omega, by simp only; omega,
        List.forall_mem_cons.mpr ⟨hrect 1 (by decide) (by omega), hpainted⟩⟩
    · rw [if_neg hw]
      exact ⟨by simp only; omega, by simp only; omega,
        List.forall_mem_cons.mpr ⟨hrect 2 (by decide) (by omega), hpainted⟩⟩
  obtain ⟨r, hr, -, -, hpainted⟩ := text_rounds
    (fun i (p : Int × Terminal) => 0 ≤ p.1 ∧ p.1 ≤ i ∧ ∀ r ∈ p.2.painted, Inside r) hcell hs
    (show (s ++ [0]).drop 0 = s ++ [0] from rfl) (a := (0, t)) hwhole ⟨Int.le_refl 0, Int.le_refl 0, h.painted⟩
  exact ⟨r.2.2, by rw [Terminal.writeString, hr], hpainted⟩

/-- The terminal when `HistoryUpDown` writes the line that it recalls. -/
def recalling (t : Terminal) (index : Int) (b : LineBuf) (n : Nat) : Terminal :=
  let t := { t with cmdHistoryIndex := index, cursor := ⟨1, t.cursor.y⟩ }
  let t := t.paint t.calcCursorPos ⟨8 * (kColumns - 1), 16⟩
  { t with linebuf := fun i => if i ≤ n then b i else t.linebuf i, linebufIndex := n }

theorem historyUpDown_eq {d : Int} {b : LineBuf} {n : Nat}
    (hb : t.recalled (t.historyIndex d) = some b) (hn : strlen b = some n) :
    t.historyUpDown d = ((t.recalling (t.historyIndex d) b n).writeString
      (t.recalling (t.historyIndex d) b n).calcCursorPos (text b n)).map
        fun t => { t with cursor := ⟨t.linebufIndex + 1, t.cursor.y⟩ } := by
  have hbind : t.historyUpDown d = (t.recalled (t.historyIndex d)).bind fun b =>
      (strlen b).bind fun n => ((t.recalling (t.historyIndex d) b n).writeString
        (t.recalling (t.historyIndex d) b n).calcCursorPos (text b n)).bind
          fun t => some { t with cursor := ⟨t.linebufIndex + 1, t.cursor.y⟩ } := rfl
  rw [hbind, hb, Option.bind_some, hn, Option.bind_some, Option.map_eq_bind]
  rfl

namespace InRange

theorem historyIndex_range (h : InRange t) (d : Int) :
    -1 ≤ t.historyIndex d ∧ t.historyIndex d < 8 := by
  obtain ⟨h0, h1⟩ := h.historyIndex
  have hlen := h.history.1
  unfold Terminal.historyIndex
  split_ifs <;> omega

/-- Every line that is recalled is a string. -/
theorem recalled_some (h : InRange t) (d : Int) :
    ∃ b n, t.recalled (t.historyIndex d) = some b ∧ strlen b = some n := by
  obtain ⟨b, hb, hzero⟩ : ∃ b, t.recalled (t.historyIndex d) = some b ∧ ∃ i, b i = 0 := by
    unfold Terminal.recalled
    split
    · have hindex := (h.historyIndex_range d).2
      have hlt : (t.historyIndex d).toNat < t.cmdHistory.length := by
        rw [h.history.1]
        omega
      exact ⟨_, List.getElem?_eq_getElem hlt, h.history.2 _ (List.getElem_mem hlt)⟩
    · exact ⟨_, rfl, ⟨0, by decide⟩, rfl⟩
  obtain ⟨n, hn⟩ := strlen_some hzero
  exact ⟨b, n, hb, hn⟩

theorem recalling (h : InRange t) {d : Int} {b : LineBuf} {n : Nat} (hn : n < kLineMax) :
    InRange (t.recalling (t.historyIndex d) b n) := by
  have hmove := (h.line t.linebuf h.index h.history (h.historyIndex_range d)).move (x := 1)
    (by decide) h.y
  have hcell : 8 * 1 + 8 * (kColumns - 1) ≤ 488 := by decide
  have hpaint := hmove.paint (hmove.cell (k := 16) hcell (by decide))
  exact hpaint.line _ ⟨Int.natCast_nonneg n, Int.ofNat_lt.mpr hn⟩ h.history (h.historyIndex_range d)

/-- **`HistoryUpDown`** keeps the terminal in range iff the line fits a row. -/
theorem historyUpDown_iff (h : InRange t) (d : Int) : Sound (t.historyUpDown d) ↔
    ∀ s, t.recalledText d = some s → (s.length : Int) < kColumns ∧ Whole (fun _ => true) 0 0 s := by
  obtain ⟨b, n, hb, hn⟩ := h.recalled_some d
  obtain ⟨hmax, h0, hlen⟩ := strlen_spec hn
  have htext : t.recalledText d = some (text b n) := by
    simp only [Terminal.recalledText, hb, hn, Option.bind_eq_bind, Option.bind_some, Option.pure_def]
  have hrecalling := h.recalling (d := d) (b := b) hmax
  rw [htext, historyUpDown_eq hb hn]
  constructor
  · rintro ⟨u, hu, hrange⟩ s hs
    cases hs
    obtain ⟨v, hv, rfl⟩ := Option.map_eq_some_iff.mp hu
    obtain ⟨hsame, hwhole⟩ := writeString_some h0 hv
    have hx := hrange.x.2
    have hindex : v.linebufIndex = n := by rw [hsame]; rfl
    simp only [hindex] at hx
    exact ⟨by omega, hwhole⟩
  · intro hfits
    obtain ⟨hshort, hwhole⟩ := hfits _ rfl
    obtain ⟨v, hv, hpainted⟩ := hrecalling.writeString h0 hshort hwhole rfl
    obtain ⟨hsame, -⟩ := writeString_some h0 hv
    refine ⟨_, by rw [hv]; rfl, ?_⟩
    have hv' : InRange v := by
      rw [hsame]
      exact ⟨hrecalling.x, hrecalling.y, hrecalling.index, hrecalling.history,
        hrecalling.historyIndex, hpainted⟩
    have hindex : v.linebufIndex = n := by rw [hsame]; rfl
    exact hv'.move ⟨by omega, by omega⟩ hv'.y

end InRange

/-! ## Runs -/

/-- The cursor that is drawn afterwards changes nothing else. -/
theorem sound_drawCursor {o : Option Terminal} : Sound (o.map Terminal.drawCursor) ↔ Sound o := by
  constructor
  · rintro ⟨u, hu, h⟩
    obtain ⟨v, hv, rfl⟩ := Option.map_eq_some_iff.mp hu
    refine ⟨v, hv, ?_⟩
    unfold Terminal.drawCursor at h
    split at h
    · exact ⟨h.x, h.y, h.index, h.history, h.historyIndex, (List.forall_mem_cons.mp h.painted).2⟩
    · exact h
  · rintro ⟨u, rfl, h⟩
    exact ⟨_, rfl, h.drawCursor⟩

theorem recalledText_drawCursor (d : Int) : t.drawCursor.recalledText d = t.recalledText d := by
  unfold Terminal.drawCursor
  split <;> rfl

/-- **Keys.** -/
theorem keyDown_iff (h : InRange t) (keycode ascii : UInt8) :
    Sound (t.keyDown keycode ascii) ↔ Fits t (.key keycode ascii) := by
  have hdraw := h.drawCursor
  have hnone : direction keycode ascii = none → Fits t (.key keycode ascii) := fun hd d hsome => by
    rw [hd] at hsome
    cases hsome
  unfold keyDown
  split_ifs with h1 h2 h3
  · exact iff_of_true hdraw.enter (hnone (if_pos (by rw [h1]; decide)))
  · exact iff_of_true ⟨_, rfl, hdraw.backspace.drawCursor⟩ (hnone (if_pos (by rw [h2]; decide)))
  · exact iff_of_true (sound_drawCursor.mpr (hdraw.type ascii)) (hnone (if_pos h3))
  · cases hd : direction keycode ascii with
    | none => exact iff_of_true ⟨_, rfl, hdraw.drawCursor⟩ (hnone hd)
    | some d =>
        rw [sound_drawCursor, hdraw.historyUpDown_iff, recalledText_drawCursor]
        constructor
        · intro hfits d' hd'
          rw [hd] at hd'
          cases hd'
          exact hfits
        · exact fun hfits => hfits d hd

/-- Every event but a history key keeps the terminal in range, and a history key iff its line
fits. -/
theorem step_iff (h : InRange t) (e : Event) : Sound (t.step e) ↔ Fits t e := by
  cases e with
  | prompt => exact iff_of_true ⟨_, rfl, h.prompt⟩ trivial
  | printChar c => exact iff_of_true ⟨_, rfl, h.printChar c⟩ trivial
  | drawCursor => exact iff_of_true ⟨_, rfl, h.drawCursor⟩ trivial
  | blink => exact iff_of_true ⟨_, rfl, h.blinkCursor⟩ trivial
  | clear => exact iff_of_true ⟨_, rfl, h.clear⟩ trivial
  | cut i =>
      exact iff_of_true ⟨_, rfl, h.x, h.y, h.index, h.history, h.historyIndex, h.painted⟩ trivial
  | key keycode ascii => exact keyDown_iff h keycode ascii

/-- The constructor. -/
theorem inRange_new : InRange (new true) := by
  have hpainted : ∀ r ∈ (new true).painted, (0 ≤ r.pos.x ∧ r.pos.x + r.size.x ≤ 496) ∧
      0 ≤ r.pos.y ∧ r.pos.y + r.size.y ≤ 276 := by decide
  refine ⟨by decide, by decide, by decide, ⟨rfl, fun b hb => ⟨⟨0, by decide⟩, ?_⟩⟩, by decide,
    fun r hr => inside_of (hpainted r hr).1 (hpainted r hr).2⟩
  rw [List.eq_of_mem_replicate hb]

/-- A line that goes on after another task has begun a new row, and is then recalled. -/
def longLine : List Event :=
  List.replicate 40 (.key 4 0x61) ++ .printChar 0x0a :: List.replicate 21 (.key 4 0x61) ++
    [.key 40 0x0a, .prompt, .key 0x52 0]

theorem run_none (es : List Event) : run next none es = none := by
  induction es with
  | nil => rfl
  | cons e es ih => exact ih

/-- `InputKey`, with the events while its command runs. -/
theorem inputKey_run (t : Terminal) (keycode ascii : UInt8) (es : List Event) :
    t.inputKey keycode ascii (fun t => run next (some t) es) =
      run next (some t) (if ascii = 0x0a then .key keycode ascii :: (es ++ [.prompt])
        else [.key keycode ascii]) := by
  unfold inputKey
  split
  · rw [run_cons, run_append]
    cases hkey : t.keyDown keycode ascii with
    | none =>
        have hnext : next (some t) (.key keycode ascii) = none := hkey
        rw [hnext, run_none]
        rfl
    | some u =>
        have hnext : next (some t) (.key keycode ascii) = some u := hkey
        rw [hnext]
        cases hrun : run next (some u) es with
        | none => simp only [Option.bind_some, hrun]; rfl
        | some v => simp only [Option.bind_some, hrun]; rfl
  · rfl

/-- `Print` of a text, after any number of rounds. -/
theorem printRound_run {len : Option Nat} {mem : List UInt8} {n : Nat} {p q : Nat × Terminal}
    (h : rounds (printRound len mem) n p = .again q ∨ rounds (printRound len mem) n p = .done q) :
    ∃ cs : List UInt32, run next (some p.2) (cs.map .printChar) = some q.2 := by
  induction n generalizing p with
  | zero =>
      rcases h with h | h
      · cases h
        exact ⟨[], rfl⟩
      · cases h
  | succ n ih =>
      cases hr : printRound len mem p with
      | fault => simp only [rounds_fault hr] at h; rcases h with h | h <;> cases h
      | done r =>
          rw [rounds_done hr] at h
          rcases h with h | h
          · cases h
          · cases h
            exact ⟨[], by rw [textRound_done hr]; rfl⟩
      | again p' =>
          rw [rounds_again hr] at h
          obtain ⟨u32, hp'⟩ := textRound_again hr
          obtain ⟨cs, hcs⟩ := ih h
          exact ⟨u32 :: cs, by rw [← hcs, hp']; rfl⟩

end Terminal

end Laplus
