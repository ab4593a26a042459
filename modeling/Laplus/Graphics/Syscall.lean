/-
# `Laplus.Graphics.Syscall` — what an application draws

`WinWriteString` and `WinFillRectangle` of `syscall.cpp`.  The arguments are cut to
`int`s and go to `Window::Writer` as they are: nothing between the application and
`Window::Write` looks at the size of the window.
-/
import Laplus.Graphics.Desktop

namespace Laplus.Graphics

/-! ## The calls -/

/-- `Result`. -/
structure Result where
  value : UInt64
  error : Nat
deriving DecidableEq

def EBADF : Nat := 9

/-- A 64-bit argument as the `int` that the callee takes. -/
def toInt (arg : UInt64) : Int := arg.toUInt32.toInt32.toInt

/-- `DoWinFunc` after its function: the layer is drawn, unless the flags say not to. -/
def doWinRedraw (d : Desktop) (layerFlags layerId : UInt32) (res : Result) :
    Except Fault (Desktop × Result) :=
  if res.error ≠ 0 then .ok (d, res)
  else if layerFlags &&& 1 = 0 then (d.drawLayer layerId).map fun d => (d, res)
  else .ok (d, res)

/-- `DoWinFunc`. -/
def doWinFunc (f : Window → Except Fault (Window × Result)) (d : Desktop) (layerIdFlags : UInt64) :
    Except Fault (Desktop × Result) :=
  let layerFlags := (layerIdFlags >>> 32).toUInt32
  let layerId := (layerIdFlags &&& 0xffffffff).toUInt32
  match d.manager.findLayer layerId with
  | none => .ok (d, ⟨0, EBADF⟩)
  | some l => do
    let (w, res) ← f l.window
    doWinRedraw (d.modify l.addr fun l => { l with window := w }) layerFlags layerId res

variable (font : Font)

/-- `WinWriteString`; `s` is what stands at `arg5` before the terminator. -/
def winWriteString (d : Desktop) (arg1 arg2 arg3 arg4 : UInt64) (s : List UInt8) :
    Except Fault (Desktop × Result) :=
  doWinFunc (fun win =>
    match writeString font ⟨toInt arg2, toInt arg3⟩ (toColor arg4.toUInt32) 0 s with
    | none => .error .unterminated
    | some ws => (win.draw ws).map fun win => (win, ⟨0, 0⟩)) d arg1

/-- `WinFillRectangle`. -/
def winFillRectangle (d : Desktop) (arg1 arg2 arg3 arg4 arg5 arg6 : UInt64) :
    Except Fault (Desktop × Result) :=
  doWinFunc (fun win =>
    (win.draw (fillRectangle ⟨toInt arg2, toInt arg3⟩ ⟨toInt arg4, toInt arg5⟩
      (toColor arg6.toUInt32))).map fun win => (win, ⟨0, 0⟩)) d arg1

/-! ## What is drawn out of bounds -/

variable {d : Desktop} {w : Window} {ws : List Write}

theorem drawLayer_bounds (id : UInt32) : d.drawLayer id ≠ .error .outOfBounds := by
  intro h
  rw [Desktop.drawLayer, Desktop.drawIn] at h
  cases hls : d.manager.stackLayers with
  | error e =>
    rw [hls, LayerManager.stackLayers_error hls] at h
    cases h
  | ok ls =>
    rw [hls] at h
    simp only [bind, Except.bind] at h
    split at h <;> cases h

theorem doWinRedraw_bounds {layerFlags layerId : UInt32} {res : Result} :
    doWinRedraw d layerFlags layerId res ≠ .error .outOfBounds := by
  intro h
  unfold doWinRedraw at h
  split at h
  · cases h
  · split at h
    · cases hdraw : d.drawLayer layerId with
      | error e =>
        rw [hdraw] at h
        cases h
        exact drawLayer_bounds layerId hdraw
      | ok d' =>
        rw [hdraw] at h
        cases h
    · cases h

/-- After the function there is only the redraw. -/
theorem doWinFunc_bounds {f : Window → Except Fault (Window × Result)} {arg1 : UInt64} :
    doWinFunc f d arg1 ≠ .error .outOfBounds ↔
      ∀ l, d.manager.findLayer (arg1 &&& 0xffffffff).toUInt32 = some l →
        f l.window ≠ .error .outOfBounds := by
  cases hfind : d.manager.findLayer (arg1 &&& 0xffffffff).toUInt32 with
  | none =>
    refine iff_of_true (fun h => ?_) fun l hl => by cases hl
    simp only [doWinFunc, hfind] at h
    cases h
  | some l =>
    simp only [doWinFunc, hfind, Option.some.injEq, forall_eq']
    cases hf : f l.window with
    | error e =>
      constructor
      · intro h heq
        cases heq
        exact h rfl
      · intro h heq
        cases heq
        exact h rfl
    | ok r => exact iff_of_true doWinRedraw_bounds fun h => by cases h

theorem draw_bounds : (w.draw ws).map (fun win => (win, (⟨0, 0⟩ : Result))) ≠ .error .outOfBounds ↔
    ∀ x ∈ ws, x.1 ∈ w.outline := by
  constructor
  · intro h x hx
    by_contra hout
    rw [Window.draw_outside ⟨x, hx, hout⟩] at h
    exact h rfl
  · intro h herr
    obtain ⟨w', hw', -⟩ := Window.draw_inside h
    rw [hw'] at herr
    cases herr

theorem mem_outline {v : Vector2D} :
    v ∈ w.outline ↔ 0 ≤ v.x ∧ v.x < w.width ∧ 0 ≤ v.y ∧ v.y < w.height := by
  simp only [Window.outline, Window.size, Rectangle.mem_def, Int.zero_add]

/-- A rectangle that is not empty is inside where its corners are. -/
theorem fillRectangle_inside {pos size : Vector2D} {c : PixelColor} :
    (∀ x ∈ fillRectangle pos size c, x.1 ∈ w.outline) ↔ size.x ≤ 0 ∨ size.y ≤ 0 ∨
      0 ≤ pos.x ∧ pos.x + size.x ≤ w.width ∧ 0 ≤ pos.y ∧ pos.y + size.y ≤ w.height := by
  have hmem : (∀ x ∈ fillRectangle pos size c, x.1 ∈ w.outline) ↔
      ∀ v ∈ (⟨pos, size⟩ : Rectangle), v ∈ w.outline := by
    constructor
    · intro h v hv
      obtain ⟨x, hx, rfl⟩ := List.mem_map.mp (mem_tile.mpr hv)
      exact h x hx
    · intro h x hx
      exact h x.1 (mem_tile.mp (List.mem_map_of_mem hx))
  rw [hmem]
  constructor
  · intro h
    by_contra hcon
    simp only [not_or, Int.not_le] at hcon
    have hfirst := mem_outline.mp (h pos (by
      simp only [Rectangle.mem_def]
      omega))
    have hlast := mem_outline.mp (h ⟨pos.x + size.x - 1, pos.y + size.y - 1⟩ (by
      simp only [Rectangle.mem_def]
      omega))
    dsimp only at hlast
    omega
  · intro h v hv
    simp only [Rectangle.mem_def] at hv
    rw [mem_outline]
    omega

/-! ## Every call -/

/-- A string of ASCII characters, the terminator left out. -/
structure AsciiString where
  bytes : List UInt8
  ascii : ∀ c ∈ bytes, 0 < c ∧ c < 0x80

/-- A drawing call of an application. -/
inductive WinCall where
  | writeString (arg1 arg2 arg3 arg4 : UInt64) (s : AsciiString)
  | fillRectangle (arg1 arg2 arg3 arg4 arg5 arg6 : UInt64)

namespace WinCall

def run (d : Desktop) : WinCall → Except Fault (Desktop × Result)
  | writeString arg1 arg2 arg3 arg4 s => winWriteString font d arg1 arg2 arg3 arg4 s.bytes
  | fillRectangle arg1 arg2 arg3 arg4 arg5 arg6 => winFillRectangle d arg1 arg2 arg3 arg4 arg5 arg6

/-- The layer the call names. -/
def layerId : WinCall → UInt32
  | writeString arg1 .. => (arg1 &&& 0xffffffff).toUInt32
  | fillRectangle arg1 .. => (arg1 &&& 0xffffffff).toUInt32

/-- What the call draws is inside of a window: the lit places of every glyph, or a rectangle that is
not empty. -/
def Fits (w : Window) : WinCall → Prop
  | writeString _ arg2 arg3 _ s => ∀ (i : Nat) c rows, s.bytes[i]? = some c →
      font.getFont c = some rows → ∀ v ∈ litCells rows,
        0 ≤ toInt arg2 + 8 * i + v.x ∧ toInt arg2 + 8 * i + v.x < w.width ∧
        0 ≤ toInt arg3 + v.y ∧ toInt arg3 + v.y < w.height
  | fillRectangle _ arg2 arg3 arg4 arg5 _ => toInt arg4 ≤ 0 ∨ toInt arg5 ≤ 0 ∨
      0 ≤ toInt arg2 ∧ toInt arg2 + toInt arg4 ≤ w.width ∧
      0 ≤ toInt arg3 ∧ toInt arg3 + toInt arg5 ≤ w.height

variable {font}

/-- **Drawing calls stay inside of the window** exactly where what they draw fits. -/
theorem run_inside_iff (call : WinCall) : call.run font d ≠ .error .outOfBounds ↔
    ∀ l, d.manager.findLayer call.layerId = some l → call.Fits font l.window := by
  cases call with
  | fillRectangle arg1 arg2 arg3 arg4 arg5 arg6 =>
    rw [run, winFillRectangle, doWinFunc_bounds]
    simp only [draw_bounds, fillRectangle_inside]
    rfl
  | writeString arg1 arg2 arg3 arg4 s =>
    obtain ⟨ws, hws, hmem⟩ := writeString_of_ascii font ⟨toInt arg2, toInt arg3⟩
      (toColor arg4.toUInt32) 0 fun c hc => (s.ascii c hc).2
    rw [run, winWriteString, doWinFunc_bounds]
    simp only [hws, draw_bounds]
    refine forall_congr' fun l => imp_congr_right fun _ => ?_
    constructor
    · intro h i c rows hc hrows v hv
      have hw : (⟨toInt arg2, toInt arg3⟩ + ⟨8 * (0 + i), 0⟩ + v, toColor arg4.toUInt32) ∈ ws := by
        refine (hmem _).mpr ⟨i, c, hc, ?_⟩
        rw [writeAscii, hrows]
        exact List.mem_map_of_mem hv
      have hin := mem_outline.mp (h _ hw)
      simp only [Vector2D.add_x, Vector2D.add_y, Int.zero_add, Int.add_zero] at hin
      exact hin
    · intro h x hx
      obtain ⟨i, c, hc, hx⟩ := (hmem x).mp hx
      unfold writeAscii at hx
      split at hx
      · cases hx
      · rename_i rows hrows
        obtain ⟨v, hv, rfl⟩ := List.mem_map.mp hx
        rw [mem_outline]
        simp only [Vector2D.add_x, Vector2D.add_y, Int.zero_add, Int.add_zero]
        exact h i c rows hc hrows v hv

/-- A rectangle one column to the left of a window is not dropped. -/
theorem fill_left_of_window : (fillRectangle 2 0xffffffffffffffff 0 1 1 0).run
    ⟨fun _ => none, fun _ => none⟩ Desktop.sampleDesktop = .error .outOfBounds := by
  rfl

end WinCall

end Laplus.Graphics
