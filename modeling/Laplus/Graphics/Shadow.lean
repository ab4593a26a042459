/-
# `Laplus.Graphics.Shadow` — the two pictures of a window

`window.cpp`.  A window has its colours twice: in rows, from which `At` reads, and in
its shadow buffer.  `Write` stores in both; `Move` moves the shadow buffer alone.
-/
import Mathlib.Logic.Function.Basic
import Laplus.Lib.Run
import Laplus.Graphics.Stored

namespace Laplus.Graphics

open Lib

/-! ## Writers -/

/-- `p[0]`, `p[1]` and `p[2]`. -/
def storeThree (m : Store UInt8) (p : Int) (x y z : UInt8) : Except Trap (Store UInt8) := do
  let m ← m.put p x
  let m ← m.put (p + 1) y
  m.put (p + 2) z

namespace FrameBufferConfig

variable (c : FrameBufferConfig) (m : Store UInt8)

/-- `FrameBufferWriter::PixelAt`. -/
def pixelAt (pos : Vector2D) : Int :=
  c.frameBuffer + 4 * (c.pixelsPerScanLine.toNat * pos.y + pos.x) % 2 ^ 32

/-- `Write` of the writers of the two formats. -/
def write (pos : Vector2D) (color : PixelColor) : Except Trap (Store UInt8) :=
  match c.pixelFormat with
  | .rgbResv8BitPerColor => storeThree m (c.pixelAt pos) color.r color.g color.b
  | .bgrResv8BitPerColor => storeThree m (c.pixelAt pos) color.b color.g color.r

end FrameBufferConfig

/-! ## Windows -/

/-- `Window`: its rows of colours, and its shadow buffer in memory. -/
structure ShadowedWindow where
  data : Vector2D → PixelColor
  shadowBuffer : FrameBufferConfig
  memory : Store UInt8

/-- `Write` and `Move`. -/
inductive WindowCall where
  | write (pos : Vector2D) (c : PixelColor)
  | move (dstPos : Vector2D) (src : Rectangle)

namespace ShadowedWindow

/-- `Window::Window`.  Both stores are cleared when they are resized. -/
def new (frameBuffer : Int) (width height : UInt32) (shadowFormat : PixelFormat)
    (m : Store UInt8) : ShadowedWindow :=
  let config : FrameBufferConfig := ⟨frameBuffer, width, width, height, shadowFormat⟩
  { data := fun _ => ⟨0, 0, 0⟩
    shadowBuffer := config
    memory := fun a => if config.Holds a then some 0 else m a }

variable (w : ShadowedWindow)

/-- `Window::At`. -/
def at' (pos : Vector2D) : PixelColor := w.data pos

/-- The colour in the shadow buffer. -/
def shadowAt (pos : Vector2D) : Option PixelColor :=
  FrameBufferConfig.colorOf w.shadowBuffer.pixelFormat (w.shadowBuffer.pixel w.memory pos)

/-- `Window::Write`.  The rows are indexed unchecked. -/
def write (pos : Vector2D) (c : PixelColor) : Except Trap ShadowedWindow :=
  if pos ∈ w.shadowBuffer.outline then do
    let m ← w.shadowBuffer.write w.memory pos c
    return { w with data := Function.update w.data pos c, memory := m }
  else .error .unmapped

/-- `Window::Move`. -/
def move (dstPos : Vector2D) (src : Rectangle) : Except Trap ShadowedWindow :=
  (w.shadowBuffer.move w.memory dstPos src).map fun m => { w with memory := m }

/-- One call. -/
def step : Except Trap ShadowedWindow → WindowCall → Except Trap ShadowedWindow
  | .error e, _ => .error e
  | .ok w, .write pos c => w.write pos c
  | .ok w, .move dstPos src => w.move dstPos src

/-- The calls inside of the bounds. -/
def Inside (c : FrameBufferConfig) : WindowCall → Prop
  | .write pos _ => pos ∈ c.outline
  | .move dstPos src => 0 ≤ src.size.x ∧ (∀ p ∈ src, p ∈ c.outline) ∧
      ∀ p ∈ (⟨dstPos, src.size⟩ : Rectangle), p ∈ c.outline

/-- The two stores show the same. -/
def Agrees : Prop := ∀ p ∈ w.shadowBuffer.outline, w.shadowAt p = some (w.at' p)

/-- What is moved looks like what it is moved onto. -/
def Unseen : WindowCall → Prop
  | .write _ _ => True
  | .move dstPos src =>
      ∀ p ∈ (⟨dstPos, src.size⟩ : Rectangle), w.at' p = w.at' (p - dstPos + src.pos)

/-- The shadow buffer is there. -/
structure Valid (c : FrameBufferConfig) (w : ShadowedWindow) : Prop where
  buffer : w.shadowBuffer = c
  fits : c.Fits
  inMemory : c.InMemory w.memory

end ShadowedWindow

/-! ## One call -/

variable {c : FrameBufferConfig} {m m' : Store UInt8} {p q : Vector2D} {color : PixelColor}

theorem storeThree_ok {a : Int} (x y z : UInt8) (h₀ : (m a).isSome) (h₁ : (m (a + 1)).isSome)
    (h₂ : (m (a + 2)).isSome) : ∃ m', storeThree m a x y z = .ok m' ∧ m' a = some x ∧
      m' (a + 1) = some y ∧ m' (a + 2) = some z ∧
      ∀ b, b ≠ a → b ≠ a + 1 → b ≠ a + 2 → m' b = m b := by
  refine ⟨Function.update (Function.update (Function.update m a (some x)) (a + 1) (some y)) (a + 2)
    (some z), ?_, ?_, ?_, Function.update_self .., fun b hb hb₁ hb₂ => ?_⟩
  · have hne₁ : a + 1 ≠ a := by omega
    have hne₂ : a + 2 ≠ a + 1 := by omega
    have hne₃ : a + 2 ≠ a := by omega
    rw [storeThree, Store.put_ok h₀]
    show (Store.put _ _ _ >>= _) = _
    rw [Store.put_ok (by rwa [Function.update_of_ne hne₁])]
    show Store.put _ _ _ = _
    rw [Store.put_ok (by rwa [Function.update_of_ne hne₂, Function.update_of_ne hne₃])]
  · rw [Function.update_of_ne (by omega), Function.update_of_ne (by omega), Function.update_self]
  · rw [Function.update_of_ne (by omega), Function.update_self]
  · rw [Function.update_of_ne hb₂, Function.update_of_ne hb₁, Function.update_of_ne hb]

namespace FrameBufferConfig

theorem pixelAt_eq (c : FrameBufferConfig) (pos : Vector2D) :
    c.pixelAt pos = c.frameAddrAt pos := by
  rw [pixelAt, frameAddrAt, bytesPerPixel_eq]

/-- **`Write`** stores one pixel. -/
theorem write_ok (hc : c.Fits) (hm : c.InMemory m) (hp : p ∈ c.outline) (color : PixelColor) :
    ∃ m', c.write m p color = .ok m' ∧ colorOf c.pixelFormat (c.pixel m' p) = some color ∧
      (∀ q ∈ c.outline, q ≠ p → c.pixel m' q = c.pixel m q) ∧ c.InMemory m' := by
  have hsome : ∀ i : Nat, i < 4 → (m (c.frameAddrAt p + i)).isSome := fun i hi =>
    hm _ (hc.holds hp hi)
  have h₀ := hsome 0 (by decide)
  rw [Int.natCast_zero, Int.add_zero] at h₀
  obtain ⟨b₃, hb₃⟩ := Option.isSome_iff_exists.mp (hsome 3 (by decide))
  have hthree : ∀ x y z : UInt8, ∃ m', storeThree m (c.pixelAt p) x y z = .ok m' ∧
      c.pixel m' p = [some x, some y, some z, some b₃] ∧
      (∀ q ∈ c.outline, q ≠ p → c.pixel m' q = c.pixel m q) ∧ c.InMemory m' := by
    intro x y z
    obtain ⟨m', hm', hx, hy, hz, hrest⟩ :=
      storeThree_ok x y z h₀ (hsome 1 (by decide)) (hsome 2 (by decide))
    refine ⟨m', by rw [pixelAt_eq, hm'], ?_, fun q hq hne => ?_, fun a ha => ?_⟩
    · have h₃ := hrest (c.frameAddrAt p + 3) (by omega) (by omega) (by omega)
      have hlist : c.pixel m' p = [m' (c.frameAddrAt p + 0), m' (c.frameAddrAt p + 1),
          m' (c.frameAddrAt p + 2), m' (c.frameAddrAt p + 3)] := rfl
      rw [hlist, Int.add_zero, hx, hy, hz, h₃]
      exact congrArg (fun b => [some x, some y, some z, b]) hb₃
    · have hbyte : ∀ i < 4, ∀ j < 4, c.frameAddrAt q + (i : Nat) ≠ c.frameAddrAt p + (j : Nat) :=
        fun i hi j hj heq => hne (hc.byte_inj hq hp hi hj heq)
      refine pixel_eq_iff.mpr fun i hi => hrest _ ?_ (hbyte i hi 1 (by decide))
        (hbyte i hi 2 (by decide))
      have h := hbyte i hi 0 (by decide)
      rwa [Int.natCast_zero, Int.add_zero] at h
    · by_cases hin : a = c.frameAddrAt p ∨ a = c.frameAddrAt p + 1 ∨ a = c.frameAddrAt p + 2
      · rcases hin with rfl | rfl | rfl
        · rw [hx]
          rfl
        · rw [hy]
          rfl
        · rw [hz]
          rfl
      · rw [hrest a (fun h => hin (.inl h)) (fun h => hin (.inr (.inl h)))
          fun h => hin (.inr (.inr h))]
        exact hm a ha
  rw [write]
  cases hformat : c.pixelFormat with
  | rgbResv8BitPerColor =>
    obtain ⟨m', hm', hpixel, hothers, hmem⟩ := hthree color.r color.g color.b
    refine ⟨m', hm', ?_, hothers, hmem⟩
    rw [hpixel]
    rfl
  | bgrResv8BitPerColor =>
    obtain ⟨m', hm', hpixel, hothers, hmem⟩ := hthree color.b color.g color.r
    refine ⟨m', hm', ?_, hothers, hmem⟩
    rw [hpixel]
    rfl

/-- What is taken from a buffer in memory stays in memory. -/
theorem Taken.inMemory {area : Vector2D → Prop} {source : Vector2D → List (Option UInt8)}
    (h : c.Taken area source m m') (hc : c.Fits) (hm : c.InMemory m)
    (hsource : ∀ p, area p → ∃ q ∈ c.outline, source p = c.pixel m q) : c.InMemory m' := by
  intro a ha
  by_cases hin : ∃ p, area p ∧ ∃ i < 4, a = c.frameAddrAt p + (i : Nat)
  · obtain ⟨p, hp, i, hi, rfl⟩ := hin
    obtain ⟨q, hq, hsame⟩ := hsource p hp
    rw [pixel_eq_iff.mp ((h.taken p hp).trans hsame) i hi]
    exact hm _ (hc.holds hq hi)
  · rw [h.rest a fun p hp i hi heq => hin ⟨p, hp, i, hi, heq⟩]
    exact hm a ha

end FrameBufferConfig

namespace ShadowedWindow

variable {w : ShadowedWindow} {dstPos : Vector2D} {src : Rectangle}

/-- `Write` keeps the two stores the same. -/
theorem Valid.write (h : w.Valid c) (hp : p ∈ c.outline) (color : PixelColor) :
    ∃ w', w.write p color = .ok w' ∧ w'.Valid c ∧ w'.data = Function.update w.data p color ∧
      (w.Agrees → w'.Agrees) := by
  obtain ⟨rfl, hfits, hm⟩ := h
  obtain ⟨m', hm', hcolor, hothers, hmem⟩ := FrameBufferConfig.write_ok hfits hm hp color
  refine ⟨{ w with data := Function.update w.data p color, memory := m' }, ?_, ⟨rfl, hfits, hmem⟩,
    rfl, fun hagrees q hq => ?_⟩
  · rw [ShadowedWindow.write, if_pos hp, hm']
    rfl
  · by_cases hqp : q = p
    · show _ = some (Function.update w.data p color q)
      rw [hqp, Function.update_self]
      exact hcolor
    · show FrameBufferConfig.colorOf _ (w.shadowBuffer.pixel m' q) =
        some (Function.update w.data p color q)
      rw [Function.update_of_ne hqp, hothers q hq hqp]
      exact hagrees q hq

/-- **`Move` keeps them the same** if it is not seen, and only then. -/
theorem Valid.move (h : w.Valid c) (he : Inside c (.move dstPos src)) :
    ∃ w', w.move dstPos src = .ok w' ∧ w'.Valid c ∧
      (w.Agrees → (w'.Agrees ↔ w.Unseen (.move dstPos src))) := by
  obtain ⟨rfl, hfits, hm⟩ := h
  obtain ⟨hx, hsrc, hdst⟩ := he
  obtain ⟨m', hm', htaken⟩ := FrameBufferConfig.move_taken hfits hm hx hsrc hdst
  have hfrom : ∀ p ∈ (⟨dstPos, src.size⟩ : Rectangle),
      p - dstPos + src.pos ∈ w.shadowBuffer.outline := by
    intro p hp
    refine hsrc _ ?_
    simp only [Rectangle.mem_def, Vector2D.add_x, Vector2D.add_y, Vector2D.sub_x,
      Vector2D.sub_y] at hp ⊢
    omega
  refine ⟨{ w with memory := m' }, ?_, ⟨rfl, hfits, htaken.inMemory hfits hm fun p hp =>
    ⟨_, hfrom p hp, rfl⟩⟩, fun hagrees => ?_⟩
  · rw [ShadowedWindow.move, hm']
    rfl
  · -- the colour a place of the part moved to has taken
    have hmoved : ∀ p ∈ (⟨dstPos, src.size⟩ : Rectangle),
        shadowAt { w with memory := m' } p = some (w.at' (p - dstPos + src.pos)) := by
      intro p hp
      rw [shadowAt]
      dsimp only
      rw [htaken.taken p hp]
      exact hagrees _ (hfrom p hp)
    constructor
    · intro hsame p hp
      have hboth := (hsame p (hdst p hp)).symm.trans (hmoved p hp)
      exact Option.some.inj hboth
    · intro hunseen p hp
      by_cases hin : p ∈ (⟨dstPos, src.size⟩ : Rectangle)
      · rw [hmoved p hin, ← hunseen p hin]
        rfl
      · rw [shadowAt]
        dsimp only
        rw [htaken.kept p hp hin]
        exact hagrees p hp

/-- A new window is black in both stores. -/
theorem new_agrees (frameBuffer : Int) {width height : UInt32} {shadowFormat : PixelFormat}
    (m : Store UInt8) (hfits : (new frameBuffer width height shadowFormat m).shadowBuffer.Fits) :
    (new frameBuffer width height shadowFormat m).Agrees := by
  intro p hp
  have hbyte : ∀ i < 4, (new frameBuffer width height shadowFormat m).memory
      ((new frameBuffer width height shadowFormat m).shadowBuffer.frameAddrAt p + (i : Nat)) =
        some 0 := fun i hi => if_pos (hfits.holds hp hi)
  have hpixel : (new frameBuffer width height shadowFormat m).shadowBuffer.pixel
      (new frameBuffer width height shadowFormat m).memory p = List.replicate 4 (some 0) := by
    rw [FrameBufferConfig.pixel, List.map_congr_left fun i hi => hbyte i (List.mem_range.mp hi)]
    rfl
  rw [shadowAt, hpixel]
  cases shadowFormat <;> rfl

/-- **The two stores agree** in every state of a run if no move of it is seen, and only then. -/
theorem stores_agree_iff (frameBuffer : Int) {width height : UInt32} {shadowFormat : PixelFormat}
    (m : Store UInt8) (hfits : (new frameBuffer width height shadowFormat m).shadowBuffer.Fits)
    {calls : List WindowCall}
    (hcalls : ∀ e ∈ calls, Inside (new frameBuffer width height shadowFormat m).shadowBuffer e) :
    (∀ es, es <+: calls → ∃ w,
      run step (.ok (new frameBuffer width height shadowFormat m)) es = .ok w ∧ w.Agrees) ↔
    Guarded step (fun s e => ∀ w, s = .ok w → w.Unseen e)
      (.ok (new frameBuffer width height shadowFormat m)) calls := by
  refine admitted_prefix_iff
    (fun s => ∃ w, s = .ok w ∧
      w.Valid (new frameBuffer width height shadowFormat m).shadowBuffer)
    (fun s => ∃ w, s = .ok w ∧ w.Agrees)
    ?_ ?_ ⟨_, rfl, rfl, hfits, fun a ha => ?_⟩ ⟨_, rfl, new_agrees frameBuffer m hfits⟩
    (guarded_of_forall step _ hcalls)
  · rintro _ e ⟨w, rfl, hw⟩ - he -
    cases e with
    | write pos color =>
      obtain ⟨w', hw', hvalid, -⟩ := hw.write he color
      exact ⟨w', hw', hvalid⟩
    | move dstPos src =>
      obtain ⟨w', hw', hvalid, -⟩ := hw.move he
      exact ⟨w', hw', hvalid⟩
  · rintro _ e ⟨w, rfl, hw⟩ ⟨_, hsame, hagrees⟩ he
    cases hsame
    cases e with
    | write pos color =>
      obtain ⟨w', hw', -, -, hkept⟩ := hw.write he color
      exact iff_of_true ⟨w', hw', hkept hagrees⟩ fun _ _ => trivial
    | move dstPos src =>
      obtain ⟨w', hw', -, hiff⟩ := hw.move he
      constructor
      · rintro ⟨w'', hw'', hagrees'⟩ u hu
        cases hu
        cases hw'.symm.trans hw''
        exact (hiff hagrees).mp hagrees'
      · intro hunseen
        exact ⟨w', hw', (hiff hagrees).mpr (hunseen w rfl)⟩
  · exact Option.isSome_of_eq_some (if_pos ha)

/-- A place is written and moved to the right. -/
theorem stores_differ_after_move :
    ¬ ∀ es, es <+: [.write ⟨0, 0⟩ ⟨255, 0, 0⟩, .move ⟨1, 0⟩ ⟨⟨0, 0⟩, ⟨1, 1⟩⟩] → ∃ w,
      run step (.ok (new 0 2 1 .rgbResv8BitPerColor fun _ => none)) es = .ok w ∧ w.Agrees := by
  intro hall
  obtain ⟨w, hw, hagrees⟩ := hall _ (List.prefix_refl _)
  have hcolors : (run step (.ok (new 0 2 1 .rgbResv8BitPerColor fun _ => none))
      [.write ⟨0, 0⟩ ⟨255, 0, 0⟩, .move ⟨1, 0⟩ ⟨⟨0, 0⟩, ⟨1, 1⟩⟩]).map
        (fun w => (w.shadowBuffer.outline, w.shadowAt ⟨1, 0⟩, w.at' ⟨1, 0⟩)) =
      .ok (⟨⟨0, 0⟩, ⟨2, 1⟩⟩, some ⟨255, 0, 0⟩, ⟨0, 0, 0⟩) := by rfl
  rw [hw] at hcolors
  simp only [Except.map, Except.ok.injEq, Prod.mk.injEq] at hcolors
  obtain ⟨houtline, hshadow, hat⟩ := hcolors
  have hsame := hagrees ⟨1, 0⟩ (by rw [houtline]; decide)
  rw [hshadow, hat] at hsame
  revert hsame
  decide

/-- A window that is written and then moved onto what looks the same. -/
theorem stores_agree_black :
    (∀ es, es <+: [.write ⟨0, 0⟩ ⟨0, 0, 0⟩, .move ⟨1, 0⟩ ⟨⟨0, 0⟩, ⟨1, 1⟩⟩] → ∃ w,
      run step (.ok (new 0 2 1 .rgbResv8BitPerColor fun _ => none)) es = .ok w ∧ w.Agrees) ↔
    Guarded step (fun s e => ∀ w, s = .ok w → w.Unseen e)
      (.ok (new 0 2 1 .rgbResv8BitPerColor fun _ => none))
      [.write ⟨0, 0⟩ ⟨0, 0, 0⟩, .move ⟨1, 0⟩ ⟨⟨0, 0⟩, ⟨1, 1⟩⟩] := by
  refine stores_agree_iff 0 (fun _ => none) ⟨by decide, by decide, by decide, by decide⟩ ?_
  intro e he
  simp only [List.mem_cons, List.not_mem_nil, or_false] at he
  rcases he with rfl | rfl
  · show (⟨0, 0⟩ : Vector2D) ∈ (⟨⟨0, 0⟩, ⟨2, 1⟩⟩ : Rectangle)
    decide
  · refine ⟨by decide, fun p hp => ?_, fun p hp => ?_⟩
    · rw [FrameBufferConfig.mem_outline]
      simp [Rectangle.mem_def, new] at hp ⊢
      omega
    · rw [FrameBufferConfig.mem_outline]
      simp [Rectangle.mem_def, new] at hp ⊢
      omega

end ShadowedWindow

end Laplus.Graphics
