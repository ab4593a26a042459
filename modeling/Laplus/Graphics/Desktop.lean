/-
# `Laplus.Graphics.Desktop` — what is drawn of the stack

The drawing half of `layer.cpp`: a part of the stack is painted into the back
buffer, and an area of that is copied to the screen.  Each operation repaints one
or two rectangles only.
-/
import Laplus.Graphics.Layer

namespace Laplus.Graphics

open Lib
open LayerManager (without)

/-! ## The operations -/

/-- `layer_manager`, with its back buffer and its screen, and `active_layer`. -/
structure Desktop where
  manager : LayerManager Window
  backBuffer : FrameBuffer
  screen : FrameBuffer
  activeLayer : UInt32
  mouseLayer : UInt32

/-- `Error`. -/
inductive Error where
  | success
  | noSuchEntry
deriving DecidableEq

/-- `Layer::DrawTo`, one layer after the other. -/
def drawLayers (b : FrameBuffer) (area : Rectangle) (ls : List (Layer Window)) : FrameBuffer :=
  ls.foldl (fun b l => l.window.drawTo b l.pos area) b

/-- The loop of `LayerManager::Draw(id, area)`: `window_area`, once `draw` is set, and the back
buffer. -/
def drawLoop (id : UInt32) : Rectangle → List (Layer Window) → Option Rectangle → FrameBuffer →
    Option Rectangle × FrameBuffer
  | _, [], windowArea, b => (windowArea, b)
  | area, l :: ls, windowArea, b =>
    let own : Rectangle := ⟨l.pos, l.window.size⟩
    let clips := area.size.x ≥ 0 ∨ area.size.y ≥ 0
    let area' := if l.id = id ∧ clips then ⟨area.pos + own.pos, area.size⟩ else area
    let windowArea' :=
      if l.id = id then some (if clips then own.inter area' else own) else windowArea
    match windowArea' with
    | none => drawLoop id area' ls none b
    | some r => drawLoop id area' ls (some r) (l.window.drawTo b l.pos r)

namespace Desktop

variable (font : Font) (d : Desktop)

/-- `screen_->Copy(area.pos, back_buffer_, area)`. -/
def present (back : FrameBuffer) (area : Rectangle) : Desktop :=
  { d with backBuffer := back, screen := d.screen.copy area.pos back area }

/-- `LayerManager::Draw(area)`. -/
def draw (area : Rectangle) : Except Fault Desktop := do
  let ls ← d.manager.stackLayers
  return d.present (drawLayers d.backBuffer area ls) area

/-- `LayerManager::Draw(id, area)`. -/
def drawIn (id : UInt32) (area : Rectangle) : Except Fault Desktop := do
  let ls ← d.manager.stackLayers
  match drawLoop id area ls none d.backBuffer with
  | (none, _) => .error .undefinedArea
  | (some windowArea, back) => .ok (d.present back windowArea)

/-- `LayerManager::Draw(id)`. -/
def drawLayer (id : UInt32) : Except Fault Desktop := d.drawIn id ⟨⟨0, 0⟩, ⟨-1, -1⟩⟩

/-- A method call on a layer. -/
def modify (addr : Nat) (f : Layer Window → Layer Window) : Desktop :=
  { d with manager := d.manager.modify addr f }

/-- `Move` and `MoveRelative`, where the layer goes by its position. -/
def moveBy (id : UInt32) (f : Vector2D → Vector2D) : Except Fault Desktop :=
  match d.manager.findLayer id with
  | none => .error .nullLayer
  | some l => do
    let d ← (d.modify l.addr fun l => { l with pos := f l.pos }).draw ⟨l.pos, l.window.size⟩
    d.drawLayer id

/-- `LayerManager::Move`. -/
def move (id : UInt32) (newPos : Vector2D) : Except Fault Desktop := d.moveBy id fun _ => newPos

/-- `LayerManager::MoveRelative`. -/
def moveRelative (id : UInt32) (posDiff : Vector2D) : Except Fault Desktop :=
  d.moveBy id fun pos => pos + posDiff

/-- The first half of `ActiveLayer::Activate`: the layer that was active. -/
def deactivateActive : Except Fault Desktop :=
  if d.activeLayer > 0 then
    match d.manager.findLayer d.activeLayer with
    | none => .error .nullLayer
    | some l => do
      let w ← l.window.deactivate font
      (d.modify l.addr fun l => { l with window := w }).drawLayer d.activeLayer
  else .ok d

/-- The second half: the layer that becomes active, and goes just below the mouse. -/
def activateNext (layerId : UInt32) : Except Fault Desktop :=
  let d := { d with activeLayer := layerId }
  if layerId > 0 then
    match d.manager.findLayer layerId with
    | none => .error .nullLayer
    | some l => do
      let w ← l.window.activate font
      let m ← (d.manager.modify l.addr fun l => { l with window := w }).upDown layerId 0
      let height ← m.getHeight d.mouseLayer
      let m ← m.upDown layerId (height - 1)
      { d with manager := m }.drawLayer layerId
  else .ok d

/-- `ActiveLayer::Activate`, but for the messages to the tasks of the windows. -/
def activate (layerId : UInt32) : Except Fault Desktop :=
  if d.activeLayer = layerId then .ok d
  else do
    let d ← d.deactivateActive font
    d.activateNext font layerId

/-- `CloseLayer`. -/
def closeLayer (layerId : UInt32) : Except Fault (Desktop × Error) :=
  match d.manager.findLayer layerId with
  | none => .ok (d, .noSuchEntry)
  | some l => do
    let d ← d.activate font 0
    let d ← { d with manager := d.manager.removeLayer layerId }.draw ⟨l.pos, l.window.size⟩
    return (d, .success)

/-- A call that changes what is shown. -/
inductive Op where
  | move (id : UInt32) (newPos : Vector2D)
  | moveRelative (id : UInt32) (posDiff : Vector2D)
  | activate (layerId : UInt32)
  | close (layerId : UInt32)

def run : Op → Except Fault Desktop
  | .move id newPos => d.move id newPos
  | .moveRelative id posDiff => d.moveRelative id posDiff
  | .activate layerId => d.activate font layerId
  | .close layerId => (d.closeLayer font layerId).map Prod.fst

end Desktop

/-! ## The naive painter -/

/-- The places of a layer. -/
def Layer.outline (l : Layer Window) : Rectangle := ⟨l.pos, l.window.size⟩

/-- What a layer shows. -/
def Layer.sprite (l : Layer Window) : Sprite Vector2D PixelColor := l.window.sprite l.pos

/-- **The full composition**: every layer of the stack, from the lowest to the topmost. -/
def composition (ls : List (Layer Window)) : Sprite Vector2D PixelColor :=
  Painter.top (ls.map Layer.sprite)

variable {font : Font} {d d' : Desktop} {os j k ls : List (Layer Window)} {mouse l : Layer Window}
  {b : FrameBuffer} {area : Rectangle} {p : Vector2D} {t : Vector2D → PixelColor}

theorem sprites_concat (ls : List (Layer Window)) (l : Layer Window) :
    (ls ++ [l]).map Layer.sprite = ls.map Layer.sprite ++ [l.sprite] := by
  rw [List.map_append, List.map_singleton]

theorem sprite_outside (hp : p ∉ l.outline) : l.sprite p = none := Window.sprite_outside hp

theorem sprite_solid (hl : l.window.transparentColor = none) (hp : p ∈ l.outline) :
    (l.sprite p).isSome := by
  rw [Layer.sprite, Window.sprite_solid hl hp]
  rfl

/-- Opaque layers with a transparent one on top, drawn in an area. -/
theorem drawLayers_pixel {tc : PixelColor} (hmouse : mouse.window.transparentColor = some tc) :
    ∀ {k : List (Layer Window)} {b : FrameBuffer},
      (∀ l ∈ k, l.window.transparentColor = none ∧ l.window.shadowFormat = b.format) →
      p ∈ b.outline → (drawLayers b area (k ++ [mouse])).pixel p =
        Painter.paint ((k.map Layer.sprite).map (Painter.clip (· ∈ area)) ++ [mouse.sprite])
          b.pixel p
  | [], b, _, hp => Window.drawTo_transparent hmouse hp
  | l :: k, b, hk, hp => by
    obtain ⟨hsolid, hformat⟩ := hk l List.mem_cons_self
    have ih := drawLayers_pixel hmouse (k := k) (b := l.window.drawTo b l.pos area)
      (fun l' hl' => by
        rw [Window.drawTo_format]
        exact hk l' (List.mem_cons_of_mem l hl'))
      (by rwa [Window.drawTo_outline])
    rw [drawLayers, List.cons_append, List.foldl_cons, ← drawLayers, ih, Painter.paint_apply,
      Painter.paint_apply, Window.drawTo_solid hsolid hformat.symm hp, List.map_cons,
      List.map_cons, List.cons_append, Painter.top_cons, Painter.lay]
    cases Painter.top ((k.map Layer.sprite).map (Painter.clip (· ∈ area)) ++ [mouse.sprite]) p
    · rfl
    · rfl

theorem drawLayers_frame (area : Rectangle) (ls : List (Layer Window)) : ∀ b : FrameBuffer,
    (drawLayers b area ls).outline = b.outline ∧ (drawLayers b area ls).format = b.format := by
  induction ls with
  | nil => exact fun b => ⟨rfl, rfl⟩
  | cons l ls ih =>
    intro b
    rw [drawLayers, List.foldl_cons, ← drawLayers, (ih _).1, (ih _).2, Window.drawTo_outline,
      Window.drawTo_format]
    exact ⟨rfl, rfl⟩

/-- `Draw(id)` draws the layers from its own on, inside of its own outline. -/
theorem drawLoop_from {id : UInt32} (hj : ∀ l ∈ j, l.id ≠ id) (hk : ∀ l ∈ k, l.id ≠ id)
    (hl : l.id = id) : drawLoop id ⟨⟨0, 0⟩, ⟨-1, -1⟩⟩ (j ++ l :: k) none b =
      (some l.outline, drawLayers b l.outline (l :: k)) := by
  have hafter : ∀ (k : List (Layer Window)) (b : FrameBuffer), (∀ l ∈ k, l.id ≠ id) →
      drawLoop id ⟨⟨0, 0⟩, ⟨-1, -1⟩⟩ k (some l.outline) b =
        (some l.outline, drawLayers b l.outline k) := by
    intro k
    induction k with
    | nil => exact fun b _ => rfl
    | cons a k ih =>
      intro b ha
      have hne := ha a List.mem_cons_self
      simp only [drawLoop, hne, false_and, if_false]
      exact ih _ fun l' hl' => ha l' (List.mem_cons_of_mem a hl')
  induction j with
  | nil =>
    simp only [List.nil_append, drawLoop, hl, true_and, if_true]
    exact hafter k _ hk
  | cons a j ih =>
    have hne := hj a List.mem_cons_self
    simp only [List.cons_append, drawLoop, hne, false_and, if_false]
    exact ih fun l' hl' => hj l' (List.mem_cons_of_mem a hl')

/-! ## Arranged desktops -/

/-- The layer is the same, up to what is drawn in its window. -/
structure Layer.Alike (l l' : Layer Window) : Prop where
  id : l'.id = l.id
  pos : l'.pos = l.pos
  window : l.window.SameFrame l'.window

theorem Layer.Alike.outline {l' : Layer Window} (h : l.Alike l') : l'.outline = l.outline := by
  rw [Layer.outline, h.pos, h.window.size, Layer.outline]

/-- An opaque layer that can be drawn, its title bar included. -/
structure Layer.Drawable (font : Font) (format : PixelFormat) (l : Layer Window) : Prop where
  solid : l.window.transparentColor = none
  format : l.window.shadowFormat = format
  title : l.window.TitleFits font

theorem Layer.Drawable.sameFrame {format : PixelFormat} (h : l.Drawable font format)
    {l' : Layer Window} (hw : l.window.SameFrame l'.window) : l'.Drawable font format where
  solid := hw.transparentColor.trans h.solid
  format := hw.shadowFormat.trans h.format
  title := hw.titleFits h.title

/-- The stack is these opaque layers, the mouse layer on top. -/
structure Desktop.Arranged (font : Font) (d : Desktop) (os : List (Layer Window))
    (mouse : Layer Window) : Prop where
  holds : d.manager.Holds (os ++ [mouse])
  mouseId : mouse.id = d.mouseLayer
  drawable : ∀ l ∈ os, l.Drawable font d.screen.format
  transparent : mouse.window.transparentColor.isSome
  backOutline : d.backBuffer.outline = d.screen.outline
  backFormat : d.backBuffer.format = d.screen.format
  active : d.activeLayer = 0 ∨ ∃ l ∈ os, l.id = d.activeLayer

/-- The back buffer and the screen show the composition, over `t` where nothing is shown. -/
def Desktop.Composed (d : Desktop) (ls : List (Layer Window)) (t : Vector2D → PixelColor) : Prop :=
  ∀ p ∈ d.screen.outline, Painter.Shows (ls.map Layer.sprite) t d.backBuffer.pixel p ∧
    Painter.Shows (ls.map Layer.sprite) t d.screen.pixel p

/-- The opaque layers `k`, and the mouse, have been drawn in an area. -/
structure Redrawn (d d' : Desktop) (area : Rectangle) (k : List (Layer Window))
    (mouse : Layer Window) : Prop where
  manager : d'.manager = d.manager
  activeLayer : d'.activeLayer = d.activeLayer
  mouseLayer : d'.mouseLayer = d.mouseLayer
  outline : d'.screen.outline = d.screen.outline
  format : d'.screen.format = d.screen.format
  backOutline : d'.backBuffer.outline = d.backBuffer.outline
  backFormat : d'.backBuffer.format = d.backBuffer.format
  back : ∀ p ∈ d.screen.outline, d'.backBuffer.pixel p = Painter.paint
    ((k.map Layer.sprite).map (Painter.clip (· ∈ area)) ++ [mouse.sprite]) d.backBuffer.pixel p
  screen : ∀ p ∈ d.screen.outline,
    d'.screen.pixel p = if p ∈ area then d'.backBuffer.pixel p else d.screen.pixel p

namespace Desktop.Arranged

theorem redrawn (h : d.Arranged font os mouse) (hr : Redrawn d d' area k mouse) :
    d'.Arranged font os mouse where
  holds := hr.manager ▸ h.holds
  mouseId := h.mouseId.trans hr.mouseLayer.symm
  drawable l hl := hr.format ▸ h.drawable l hl
  transparent := h.transparent
  backOutline := by rw [hr.backOutline, hr.outline, h.backOutline]
  backFormat := by rw [hr.backFormat, hr.format, h.backFormat]
  active := hr.activeLayer ▸ h.active

/-- What is presented after a part of the stack has been drawn. -/
theorem present (h : d.Arranged font os mouse) (hk : ∀ l ∈ k, l ∈ os) (area : Rectangle) :
    Redrawn d (d.present (drawLayers d.backBuffer area (k ++ [mouse])) area) area k mouse := by
  obtain ⟨tc, htc⟩ := Option.isSome_iff_exists.mp h.transparent
  obtain ⟨houtline, hformat⟩ := drawLayers_frame area (k ++ [mouse]) d.backBuffer
  refine ⟨rfl, rfl, rfl, FrameBuffer.copy_outline, FrameBuffer.copy_format, houtline, hformat,
    fun p hp => ?_, fun p hp => ?_⟩
  · refine drawLayers_pixel htc (fun l hl => ?_) (h.backOutline ▸ hp)
    have hdraw := h.drawable l (hk l hl)
    exact ⟨hdraw.solid, hdraw.format.trans h.backFormat.symm⟩
  · have hzero : area.pos - area.pos = (⟨0, 0⟩ : Vector2D) := by
      ext <;> simp
    have hsub : p - (⟨0, 0⟩ : Vector2D) = p := by
      ext <;> simp
    have hmem : p ∈ d.screen.copyArea area.pos (drawLayers d.backBuffer area (k ++ [mouse])) area ↔
        p ∈ area := by
      rw [FrameBuffer.mem_copyArea, hzero, hsub, houtline, h.backOutline]
      exact ⟨fun hin => hin.2.2, fun hin => ⟨hp, hp, hin⟩⟩
    refine (FrameBuffer.copy_pixel (hformat.trans h.backFormat).symm).trans ?_
    simp only [hmem, hzero, hsub]
    rfl

theorem draw (h : d.Arranged font os mouse) (area : Rectangle) :
    ∃ d', d.draw area = .ok d' ∧ Redrawn d d' area os mouse := by
  refine ⟨_, ?_, h.present (fun l hl => hl) area⟩
  rw [Desktop.draw, h.holds.stackLayers]
  rfl

/-- The ids of the layers below and above a layer. -/
theorem ids_apart (h : d.manager.Holds (j ++ l :: k)) :
    (∀ l' ∈ j, l'.id ≠ l.id) ∧ ∀ l' ∈ k, l'.id ≠ l.id := by
  have hids := h.ids_nodup
  rw [List.map_append, List.map_cons, List.nodup_append, List.nodup_cons] at hids
  exact ⟨fun l' hl' => hids.2.2 _ (List.mem_map_of_mem hl') _ List.mem_cons_self,
    fun l' hl' heq => hids.2.1.1 (heq ▸ List.mem_map_of_mem hl')⟩

theorem drawLayer (h : d.Arranged font (j ++ l :: k) mouse) :
    ∃ d', d.drawLayer l.id = .ok d' ∧ Redrawn d d' l.outline (l :: k) mouse := by
  refine ⟨_, ?_, h.present (fun l' hl' => List.mem_append_right j hl') l.outline⟩
  have hholds : d.manager.Holds (j ++ l :: (k ++ [mouse])) := by
    simpa using h.holds
  obtain ⟨hj, hk⟩ := ids_apart hholds
  rw [Desktop.drawLayer, Desktop.drawIn, hholds.stackLayers]
  simp only [bind, Except.bind]
  rw [drawLoop_from hj hk rfl]
  rfl

theorem drawMouse (h : d.Arranged font os mouse) :
    ∃ d', d.drawLayer mouse.id = .ok d' ∧ Redrawn d d' mouse.outline [] mouse := by
  refine ⟨_, ?_, h.present (fun l hl => (List.not_mem_nil hl).elim) mouse.outline⟩
  obtain ⟨hj, hk⟩ := ids_apart h.holds
  rw [Desktop.drawLayer, Desktop.drawIn, h.holds.stackLayers]
  simp only [bind, Except.bind]
  rw [drawLoop_from hj hk rfl]
  rfl

variable {f : Layer Window → Layer Window}

/-- A method call on an opaque layer that leaves its window in its frame. -/
theorem modify (h : d.Arranged font (j ++ l :: k) mouse) (haddr : ∀ l, (f l).addr = l.addr)
    (hid : ∀ l, (f l).id = l.id) (hw : l.window.SameFrame (f l).window) :
    (d.modify l.addr f).Arranged font (j ++ f l :: k) mouse where
  holds := by
    have hm := h.holds
    rw [List.append_assoc, List.cons_append] at hm ⊢
    exact LayerManager.map_patch hm.addrs_nodup ▸ hm.modify l.addr haddr hid
  mouseId := h.mouseId
  drawable a ha := by
    rcases List.mem_append.mp ha with ha | ha
    · exact h.drawable a (List.mem_append_left _ ha)
    · rcases List.mem_cons.mp ha with rfl | ha
      · exact (h.drawable l (by simp)).sameFrame hw
      · exact h.drawable a (List.mem_append_right _ (List.mem_cons_of_mem l ha))
  transparent := h.transparent
  backOutline := h.backOutline
  backFormat := h.backFormat
  active := by
    refine h.active.imp_right fun hact => ?_
    obtain ⟨a, ha, heq⟩ := hact
    rcases List.mem_append.mp ha with ha | ha
    · exact ⟨a, List.mem_append_left _ ha, heq⟩
    · rcases List.mem_cons.mp ha with rfl | ha
      · exact ⟨f a, by simp, (hid a).trans heq⟩
      · exact ⟨a, List.mem_append_right _ (List.mem_cons_of_mem _ ha), heq⟩

/-- A method call on the mouse layer. -/
theorem modifyMouse (h : d.Arranged font os mouse) (haddr : ∀ l, (f l).addr = l.addr)
    (hid : ∀ l, (f l).id = l.id) (hw : mouse.window.SameFrame (f mouse).window) :
    (d.modify mouse.addr f).Arranged font os (f mouse) where
  holds := LayerManager.map_patch h.holds.addrs_nodup ▸ h.holds.modify mouse.addr haddr hid
  mouseId := (hid mouse).trans h.mouseId
  drawable := h.drawable
  transparent := by
    rw [hw.transparentColor]
    exact h.transparent
  backOutline := h.backOutline
  backFormat := h.backFormat
  active := h.active

end Desktop.Arranged

/-! ## What is repainted is enough -/

/-- The layers from `k` on have been drawn where they cover an area; elsewhere the back buffer and
the screen were right. -/
theorem Redrawn.composed (hr : Redrawn d d' area k mouse)
    (hcover : ∀ p ∈ d.screen.outline, p ∈ area → (composition k p).isSome)
    (hclean : ∀ p ∈ d.screen.outline, p ∉ area →
      Painter.Shows ((j ++ k ++ [mouse]).map Layer.sprite) t d.backBuffer.pixel p ∧
        Painter.Shows ((j ++ k ++ [mouse]).map Layer.sprite) t d.screen.pixel p) :
    d'.Composed (j ++ k ++ [mouse]) t := by
  intro p hp
  rw [hr.outline] at hp
  have hback : Painter.Shows ((j ++ k ++ [mouse]).map Layer.sprite) t d'.backBuffer.pixel p := by
    rw [Painter.Shows, hr.back p hp]
    simp only [List.map_append, List.map_singleton] at hclean ⊢
    exact Painter.shows_repaint (hcover p hp) fun hout => (hclean p hp hout).1.primed
  refine ⟨hback, ?_⟩
  rw [Painter.Shows, hr.screen p hp]
  by_cases harea : p ∈ area
  · rw [if_pos harea]
    exact hback
  · rw [if_neg harea]
    exact (hclean p hp harea).2

/-- Where the layers with an id are not, the composition is the same without them. -/
theorem top_without {id : UInt32} (h : ∀ l ∈ ls, l.id = id → p ∉ l.outline) :
    Painter.top ((without id ls).map Layer.sprite) p = Painter.top (ls.map Layer.sprite) p :=
  Painter.top_map_filter fun l hl hid =>
    sprite_outside (h l hl (by simpa using hid))

/-- Where a layer is not, and was not, the composition is the same after a method call on it. -/
theorem shows_patched {l' : Layer Window} {c : Vector2D → PixelColor}
    (h : Painter.Shows ((j ++ l :: k ++ [mouse]).map Layer.sprite) t c p) (hl : p ∉ l.outline)
    (hl' : p ∉ l'.outline) :
    Painter.Shows ((j ++ l' :: k ++ [mouse]).map Layer.sprite) t c p := by
  simp only [Painter.Shows, List.map_append, List.map_cons, Painter.top_append, Painter.top_cons,
    sprite_outside hl, sprite_outside hl'] at h ⊢
  exact h

namespace Desktop.Arranged

/-- **Moving an opaque layer.** -/
theorem moveBy (h : d.Arranged font (j ++ l :: k) mouse)
    (hc : d.Composed (j ++ l :: k ++ [mouse]) d.backBuffer.pixel) (f : Vector2D → Vector2D) :
    ∃ d', d.moveBy l.id f = .ok d' ∧ d'.screen.outline = d.screen.outline ∧
      d'.Arranged font (j ++ { l with pos := f l.pos } :: k) mouse ∧
      d'.Composed (j ++ { l with pos := f l.pos } :: k ++ [mouse]) d.backBuffer.pixel := by
  let d₀ := d.modify l.addr fun l => { l with pos := f l.pos }
  let l' : Layer Window := { l with pos := f l.pos }
  have h₀ : d₀.Arranged font (j ++ l' :: k) mouse :=
    h.modify (fun _ => rfl) (fun _ => rfl) (.refl _)
  obtain ⟨d₁, hd₁, hr₁⟩ := h₀.draw l.outline
  have h₁ := h₀.redrawn hr₁
  obtain ⟨d₂, hd₂, hr₂⟩ := h₁.drawLayer
  refine ⟨d₂, ?_, hr₂.outline.trans hr₁.outline, h₁.redrawn hr₂, ?_⟩
  · rw [Desktop.moveBy, h.holds.find (h.holds.mem l (by simp))]
    exact (congrArg (· >>= fun d : Desktop => d.drawLayer l.id) hd₁).trans hd₂
  · have hcover : ∀ p ∈ d₁.screen.outline, p ∈ l'.outline → (composition (l' :: k) p).isSome :=
      fun p _ hin => Painter.top_isSome_of_mem List.mem_cons_self
        (sprite_solid (h₁.drawable l' (by simp)).solid hin)
    refine hr₂.composed hcover fun p hp hout => ?_
    rw [hr₁.outline] at hp
    have hback : Painter.Shows ((j ++ l' :: k ++ [mouse]).map Layer.sprite) d.backBuffer.pixel
        d₁.backBuffer.pixel p := by
      rw [Painter.Shows, hr₁.back p hp, sprites_concat]
      refine Painter.shows_repaint_all fun hold => ?_
      have hclean := shows_patched (hc p hp).1 hold hout
      rw [sprites_concat] at hclean
      exact hclean.primed
    refine ⟨hback, ?_⟩
    rw [Painter.Shows, hr₁.screen p hp]
    by_cases hold : p ∈ l.outline
    · rw [if_pos hold]
      exact hback
    · rw [if_neg hold]
      exact shows_patched (hc p hp).2 hold hout

/-- **Moving the mouse.**  The back buffer is right after the first of the two repaints. -/
theorem moveMouse (h : d.Arranged font os mouse)
    (hc : d.Composed (os ++ [mouse]) d.backBuffer.pixel) (f : Vector2D → Vector2D) :
    ∃ d', d.moveBy mouse.id f = .ok d' ∧ d'.screen.outline = d.screen.outline ∧
      d'.Arranged font os { mouse with pos := f mouse.pos } ∧
      d'.Composed (os ++ [{ mouse with pos := f mouse.pos }]) d.backBuffer.pixel := by
  let d₀ := d.modify mouse.addr fun l => { l with pos := f l.pos }
  let mouse' : Layer Window := { mouse with pos := f mouse.pos }
  have h₀ : d₀.Arranged font os mouse' :=
    h.modifyMouse (fun _ => rfl) (fun _ => rfl) (.refl _)
  obtain ⟨d₁, hd₁, hr₁⟩ := h₀.draw mouse.outline
  have h₁ := h₀.redrawn hr₁
  obtain ⟨d₂, hd₂, hr₂⟩ := h₁.drawMouse
  refine ⟨d₂, ?_, hr₂.outline.trans hr₁.outline, h₁.redrawn hr₂, ?_⟩
  · rw [Desktop.moveBy, h.holds.find (h.holds.mem mouse (by simp))]
    exact (congrArg (· >>= fun d : Desktop => d.drawLayer mouse.id) hd₁).trans hd₂
  · simp only [Desktop.Composed, sprites_concat] at hc ⊢
    intro p hp
    rw [hr₂.outline, hr₁.outline] at hp
    have hback₁ : Painter.Shows (os.map Layer.sprite ++ [mouse'.sprite]) d.backBuffer.pixel
        d₁.backBuffer.pixel p := by
      rw [Painter.Shows, hr₁.back p hp]
      refine Painter.shows_repaint_all fun hold => ?_
      exact (hc p hp).1.swap (sprite_outside hold)
    have hback₂ : Painter.Shows (os.map Layer.sprite ++ [mouse'.sprite]) d.backBuffer.pixel
        d₂.backBuffer.pixel p := by
      rw [Painter.Shows, hr₂.back p (hr₁.outline ▸ hp)]
      exact hback₁.primed
    refine ⟨hback₂, ?_⟩
    rw [Painter.Shows, hr₂.screen p (hr₁.outline ▸ hp), hr₁.screen p hp]
    by_cases hnew : p ∈ mouse'.outline
    · rw [if_pos hnew]
      exact hback₂
    · rw [if_neg hnew]
      by_cases hold : p ∈ mouse.outline
      · rw [if_pos hold]
        exact hback₁
      · rw [if_neg hold]
        have hscreen := (hc p hp).2.swap (n := mouse'.sprite) (sprite_outside hold)
        rw [Painter.Primed, sprite_outside hnew, Option.getD_none] at hscreen
        exact hscreen

/-! ### Activating and closing -/

/-- **Deactivating.**  The title bar is drawn again, and the stack from that layer on. -/
theorem deactivateActive (h : d.Arranged font os mouse) (hc : d.Composed (os ++ [mouse]) t) :
    ∃ d' g, d.deactivateActive font = .ok d' ∧ (∀ l ∈ d.manager.layers, l.Alike (g l)) ∧
      d'.manager.layers = d.manager.layers.map g ∧ d'.screen.outline = d.screen.outline ∧
      d'.screen.format = d.screen.format ∧ d'.mouseLayer = d.mouseLayer ∧
      d'.Arranged font (os.map g) mouse ∧ d'.Composed (os.map g ++ [mouse]) t := by
  by_cases hpos : d.activeLayer > 0
  · obtain ⟨l, hl, hid⟩ := h.active.resolve_left fun hzero => by
      rw [hzero] at hpos
      exact absurd hpos (by decide)
    obtain ⟨j, k, rfl⟩ := List.append_of_mem hl
    obtain ⟨w, hw, hsame⟩ := Window.setActive_ok (h.drawable l hl).title false
    let f : Layer Window → Layer Window := fun l => { l with window := w }
    have hmem : l ∈ d.manager.layers := h.holds.mem l (by simp)
    have h₀ : (d.modify l.addr f).Arranged font (j ++ f l :: k) mouse :=
      h.modify (fun _ => rfl) (fun _ => rfl) hsame
    obtain ⟨d', hd', hr⟩ := h₀.drawLayer
    have hmap : (j ++ l :: k).map (LayerManager.patch l.addr f) = j ++ f l :: k := by
      have hnodup := h.holds.addrs_nodup
      rw [List.map_append] at hnodup
      exact LayerManager.map_patch (List.nodup_append.mp hnodup).1
    refine ⟨d', LayerManager.patch l.addr f, ?_, fun l' hl' => ?_, ?_, hr.outline, hr.format,
      hr.mouseLayer, ?_, ?_⟩
    · rw [Desktop.deactivateActive, if_pos hpos, ← hid, h.holds.find hmem]
      exact (congrArg (· >>= fun w =>
        (d.modify l.addr fun l => { l with window := w }).drawLayer l.id) hw).trans hd'
    · unfold LayerManager.patch
      split
      · rename_i heq
        rw [h.holds.addr l' hl' l hmem heq]
        exact ⟨rfl, rfl, hsame⟩
      · exact ⟨rfl, rfl, .refl _⟩
    · rw [hr.manager]
      rfl
    · rw [hmap]
      exact h₀.redrawn hr
    · rw [hmap]
      refine hr.composed (fun p _ hin => Painter.top_isSome_of_mem List.mem_cons_self
        (sprite_solid (h₀.drawable (f l) (by simp)).solid hin)) fun p hp hout => ?_
      have hold : p ∉ l.outline := by
        rwa [Layer.outline, ← hsame.size]
      exact ⟨shows_patched (hc p hp).1 hold hout, shows_patched (hc p hp).2 hold hout⟩
  · refine ⟨d, id, by rw [Desktop.deactivateActive, if_neg hpos],
      fun l _ => ⟨rfl, rfl, .refl _⟩, (List.map_id _).symm, rfl, rfl, rfl, ?_, ?_⟩
    · rwa [List.map_id]
    · rwa [List.map_id]

/-- **Activating.**  The layer goes just below the mouse, and is drawn there. -/
theorem activateNext (h : d.Arranged font os mouse) (hc : d.Composed (os ++ [mouse]) t)
    (hl : l ∈ d.manager.layers) (hpos : l.id > 0) (hne : l.id ≠ d.mouseLayer)
    (hdraw : l.Drawable font d.screen.format) :
    ∃ d' w, d.activateNext font l.id = .ok d' ∧ l.window.SameFrame w ∧
      d'.screen.outline = d.screen.outline ∧
      d'.Arranged font (without l.id os ++ [{ l with window := w }]) mouse ∧
      d'.Composed (without l.id os ++ [{ l with window := w }] ++ [mouse]) t := by
  obtain ⟨w, hw, hsame⟩ := Window.setActive_ok hdraw.title true
  let f : Layer Window → Layer Window := fun l => { l with window := w }
  have h₀ := h.holds.modify (f := f) l.addr (fun _ => rfl) fun _ => rfl
  have hl₀ : f l ∈ (d.manager.modify l.addr f).layers := List.mem_map.mpr ⟨l, hl, if_pos rfl⟩
  obtain ⟨m₁, hm₁, -, h₁⟩ := h₀.upDown_zero hl₀
  have hrest : without (f l).id ((os ++ [mouse]).map (LayerManager.patch l.addr f)) =
      without l.id os ++ [mouse] := by
    rw [h.holds.without_patch (f := f) hl fun _ => rfl]
    exact LayerManager.without_concat fun heq => hne (heq ▸ h.mouseId)
  rw [hrest, ← List.cons_append] at h₁
  obtain ⟨m₂, hm₂, -, h₂⟩ := h₁.upDown_under
  let d₀ : Desktop := { d with activeLayer := l.id, manager := m₂ }
  have hd₀ : d₀.Arranged font (without l.id os ++ [f l]) mouse :=
    { holds := by
        rw [List.append_assoc]
        exact h₂
      mouseId := h.mouseId
      drawable := fun a ha => by
        rcases List.mem_append.mp ha with ha | ha
        · exact h.drawable a (LayerManager.mem_without.mp ha).1
        · rw [List.mem_singleton.mp ha]
          exact hdraw.sameFrame hsame
      transparent := h.transparent
      backOutline := h.backOutline
      backFormat := h.backFormat
      active := .inr ⟨f l, by simp, rfl⟩ }
  obtain ⟨d', hd', hr⟩ := hd₀.drawLayer
  refine ⟨d', w, ?_, hsame, hr.outline, hd₀.redrawn hr, ?_⟩
  · have hheight : m₁.getHeight d.mouseLayer = .ok ((f l :: without l.id os).length : Int) :=
      h.mouseId ▸ h₁.getHeight_top
    have hunder : ((f l :: without l.id os).length : Int) - 1 = (without l.id os).length := by
      simp
    rw [Desktop.activateNext, if_pos hpos, h.holds.find hl]
    calc _ = (do
          let m ← (d.manager.modify l.addr f).upDown l.id 0
          let height ← m.getHeight d.mouseLayer
          let m ← m.upDown l.id (height - 1)
          ({ d with activeLayer := l.id, manager := m } : Desktop).drawLayer l.id) :=
        congrArg (· >>= _) hw
      _ = (do
          let height ← m₁.getHeight d.mouseLayer
          let m ← m₁.upDown l.id (height - 1)
          ({ d with activeLayer := l.id, manager := m } : Desktop).drawLayer l.id) :=
        congrArg (· >>= _) hm₁
      _ = (do
          let m ← m₁.upDown l.id ((f l :: without l.id os).length - 1)
          ({ d with activeLayer := l.id, manager := m } : Desktop).drawLayer l.id) :=
        congrArg (· >>= _) hheight
      _ = d₀.drawLayer l.id := by
        rw [hunder]
        exact congrArg (· >>= _) hm₂
      _ = .ok d' := hd'
  · refine hr.composed (fun p _ hin => Painter.top_isSome_of_mem List.mem_cons_self
      (sprite_solid (hdraw.sameFrame hsame).solid hin)) fun p hp hout => ?_
    have hold : p ∉ l.outline := by
      rwa [Layer.outline, ← hsame.size]
    have hrest : Painter.top ((without l.id os).map Layer.sprite) p =
        Painter.top (os.map Layer.sprite) p := by
      refine top_without fun a ha heq => ?_
      rwa [h.holds.id a (h.holds.mem a (List.mem_append_left _ ha)) l hl heq]
    have hkept {c : Vector2D → PixelColor}
        (hshows : Painter.Shows ((os ++ [mouse]).map Layer.sprite) t c p) :
        Painter.Shows ((without l.id os ++ [f l] ++ [mouse]).map Layer.sprite) t c p := by
      rw [sprites_concat, Painter.Shows, Painter.top_concat] at hshows ⊢
      rw [sprites_concat, Painter.top_concat, sprite_outside hout, Option.none_or, hrest, hshows]
    exact ⟨hkept (hc p hp).1, hkept (hc p hp).2⟩

/-- `Activate(0)`. -/
theorem activateZero (h : d.Arranged font os mouse) (hc : d.Composed (os ++ [mouse]) t) :
    ∃ d' g, d.activate font 0 = .ok d' ∧ (∀ l ∈ d.manager.layers, l.Alike (g l)) ∧
      d'.manager.layers = d.manager.layers.map g ∧ d'.screen.outline = d.screen.outline ∧
      d'.activeLayer = 0 ∧ d'.Arranged font (os.map g) mouse ∧
      d'.Composed (os.map g ++ [mouse]) t := by
  by_cases hzero : d.activeLayer = 0
  · refine ⟨d, id, if_pos hzero, fun l _ => ⟨rfl, rfl, .refl _⟩, (List.map_id _).symm, rfl, hzero,
      ?_, ?_⟩
    · rwa [List.map_id]
    · rwa [List.map_id]
  · obtain ⟨d₁, g, hd₁, halike, hlayers, houtline, -, -, h₁, hc₁⟩ := h.deactivateActive hc
    refine ⟨{ d₁ with activeLayer := 0 }, g, ?_, halike, hlayers, houtline, rfl, ?_, hc₁⟩
    · rw [Desktop.activate, if_neg hzero]
      exact congrArg (· >>= fun d : Desktop => d.activateNext font 0) hd₁
    · exact { h₁ with active := .inl rfl }

/-- `Activate`, of another layer or of none. -/
theorem activate (h : d.Arranged font os mouse) (hc : d.Composed (os ++ [mouse]) t)
    (hl : l ∈ d.manager.layers) (hne : l.id ≠ d.mouseLayer)
    (hdraw : l.Drawable font d.screen.format) :
    ∃ d' os', d.activate font l.id = .ok d' ∧ d'.screen.outline = d.screen.outline ∧
      d'.Arranged font os' mouse ∧ d'.Composed (os' ++ [mouse]) t := by
  by_cases hsame : d.activeLayer = l.id
  · exact ⟨d, os, if_pos hsame, rfl, h, hc⟩
  · obtain ⟨d₁, g, hd₁, halike, hlayers, houtline, hformat, hmouse, h₁, hc₁⟩ :=
      h.deactivateActive hc
    have hact : d.activate font l.id = d₁.activateNext font l.id := by
      rw [Desktop.activate, if_neg hsame]
      exact congrArg (· >>= fun d : Desktop => d.activateNext font l.id) hd₁
    have hzero (hpos : ¬ l.id > 0) : l.id = 0 := UInt32.toNat_inj.mp (by
      rw [gt_iff_lt, UInt32.lt_iff_toNat_lt] at hpos
      simpa using hpos)
    by_cases hpos : l.id > 0
    · have hgl := halike l hl
      obtain ⟨d', w, hd', -, houtline', h', hc'⟩ := h₁.activateNext (l := g l) hc₁
        (hlayers ▸ List.mem_map_of_mem hl) (hgl.id ▸ hpos) (by rwa [hgl.id, hmouse])
        (hformat ▸ hdraw.sameFrame hgl.window)
      exact ⟨d', _, hact.trans (hgl.id ▸ hd'), houtline'.trans houtline, h', hc'⟩
    · exact ⟨{ d₁ with activeLayer := l.id }, os.map g,
        by rw [hact, Desktop.activateNext, if_neg hpos], houtline, { h₁ with active := .inl (hzero hpos) }, hc₁⟩

/-- **Closing.**  What the layer leaves is covered by the lowest one. -/
theorem closeLayer {bottom : Layer Window} (h : d.Arranged font os mouse)
    (hc : d.Composed (os ++ [mouse]) t) (hbottom : bottom ∈ os)
    (hcovers : ∀ p ∈ d.screen.outline, p ∈ bottom.outline) {id : UInt32} (hne : id ≠ bottom.id)
    (hmouse : id ≠ d.mouseLayer) :
    ∃ d' os', (d.closeLayer font id).map Prod.fst = .ok d' ∧
      d'.screen.outline = d.screen.outline ∧ d'.Arranged font os' mouse ∧
      d'.Composed (os' ++ [mouse]) t := by
  cases hfind : d.manager.findLayer id with
  | none =>
    refine ⟨d, os, ?_, rfl, h, hc⟩
    rw [Desktop.closeLayer, hfind]
    rfl
  | some l =>
    obtain ⟨hl, rfl⟩ := LayerManager.findLayer_mem hfind
    obtain ⟨d₁, g, hd₁, halike, hlayers, houtline, hactive, h₁, hc₁⟩ := h.activateZero hc
    have hgl := halike l hl
    have hmem : g l ∈ d₁.manager.layers := hlayers ▸ List.mem_map_of_mem hl
    let d₂ : Desktop := { d₁ with manager := d₁.manager.removeLayer l.id }
    have hrest : without l.id (os.map g ++ [mouse]) = without l.id (os.map g) ++ [mouse] :=
      LayerManager.without_concat fun heq => hmouse (heq ▸ h.mouseId)
    have h₂ : d₂.Arranged font (without l.id (os.map g)) mouse :=
      { holds := by
          have hremoved := h₁.holds.removeLayer hmem
          rw [hgl.id, hrest] at hremoved
          exact hremoved
        mouseId := h₁.mouseId
        drawable := fun a ha => h₁.drawable a (LayerManager.mem_without.mp ha).1
        transparent := h₁.transparent
        backOutline := h₁.backOutline
        backFormat := h₁.backFormat
        active := .inl hactive }
    obtain ⟨d', hd', hr⟩ := h₂.draw l.outline
    refine ⟨d', _, ?_, hr.outline.trans houtline, h₂.redrawn hr, ?_⟩
    · rw [Desktop.closeLayer, hfind]
      simp only [hd₁]
      show Except.map Prod.fst (d₂.draw l.outline >>= fun d => .ok (d, Error.success)) = .ok d'
      rw [hd']
      rfl
    · refine hr.composed (j := []) (fun p hp _ => ?_) fun p hp hout => ?_
      · have hg := halike bottom (h.holds.mem bottom (List.mem_append_left _ hbottom))
        have hin : g bottom ∈ without l.id (os.map g) :=
          LayerManager.mem_without.mpr ⟨List.mem_map_of_mem hbottom, hg.id ▸ hne.symm⟩
        refine Painter.top_isSome_of_mem (List.mem_map_of_mem hin)
          (sprite_solid (h₂.drawable _ hin).solid ?_)
        rw [hg.outline]
        exact hcovers p (houtline ▸ hp)
      · have hkept : Painter.top ((without l.id (os.map g)).map Layer.sprite) p =
            Painter.top ((os.map g).map Layer.sprite) p := by
          refine top_without fun a ha heq => ?_
          have ha' := h₁.holds.mem a (List.mem_append_left _ ha)
          rwa [h₁.holds.id a ha' (g l) hmem (heq.trans hgl.id.symm), hgl.outline]
        have hclean := hc₁ p hp
        simp only [List.nil_append, sprites_concat, Painter.Shows, Painter.top_concat, hkept]
          at hclean ⊢
        exact hclean

end Desktop.Arranged

/-! ## Incremental redraw -/

namespace Desktop

/-- What the calls start from: the lowest layer covers the screen, and the back buffer and the
screen both show the full composition. -/
structure Ready (font : Font) (d : Desktop) (bottom : Layer Window) (os : List (Layer Window))
    (mouse : Layer Window) : Prop where
  arranged : d.Arranged font (bottom :: os) mouse
  covers : ∀ p ∈ d.screen.outline, p ∈ bottom.outline
  shown : ∀ p ∈ d.screen.outline,
    composition (bottom :: os ++ [mouse]) p = some (d.backBuffer.pixel p) ∧
      composition (bottom :: os ++ [mouse]) p = some (d.screen.pixel p)

/-- Any layer of the stack is moved, any layer but the mouse is activated, any layer but the lowest
and the mouse is closed. -/
def Admits (font : Font) (d : Desktop) (bottom : Layer Window) (os : List (Layer Window))
    (mouse : Layer Window) : Op → Prop
  | .move id _ => ∃ l ∈ bottom :: os ++ [mouse], l.id = id
  | .moveRelative id _ => ∃ l ∈ bottom :: os ++ [mouse], l.id = id
  | .activate id => id ≠ d.mouseLayer ∧ (id = 0 ∨
      ∃ l ∈ d.manager.layers, l.id = id ∧ l.Drawable font d.screen.format)
  | .close id => id ≠ d.mouseLayer ∧ id ≠ bottom.id

variable {bottom : Layer Window}

theorem Ready.composed (h : d.Ready font bottom os mouse) :
    d.Composed (bottom :: os ++ [mouse]) d.backBuffer.pixel := by
  intro p hp
  obtain ⟨hback, hscreen⟩ := h.shown p hp
  rw [composition] at hback hscreen
  rw [Painter.Shows, Painter.Shows, hback]
  exact ⟨rfl, Option.some.inj (hscreen.symm.trans hback)⟩

/-- Both moves. -/
theorem Ready.moveBy (h : d.Ready font bottom os mouse) (hl : l ∈ bottom :: os ++ [mouse])
    (f : Vector2D → Vector2D) : ∃ d' os' mouse', d.moveBy l.id f = .ok d' ∧
      d'.screen.outline = d.screen.outline ∧ d'.Arranged font os' mouse' ∧
      d'.Composed (os' ++ [mouse']) d.backBuffer.pixel := by
  rcases List.mem_append.mp hl with hl | hl
  · obtain ⟨j, k, hjk⟩ := List.append_of_mem hl
    have harr := h.arranged
    have hcomp := h.composed
    rw [hjk] at harr hcomp
    obtain ⟨d', hd', houtline, h', hc'⟩ := harr.moveBy hcomp f
    exact ⟨d', _, mouse, hd', houtline, h', hc'⟩
  · rw [List.mem_singleton.mp hl]
    obtain ⟨d', hd', houtline, h', hc'⟩ := h.arranged.moveMouse h.composed f
    exact ⟨d', _, _, hd', houtline, h', hc'⟩

/-- One call. -/
theorem Ready.run (h : d.Ready font bottom os mouse) {op : Op}
    (hop : d.Admits font bottom os mouse op) : ∃ d' os' mouse', d.run font op = .ok d' ∧
      d'.screen.outline = d.screen.outline ∧ d'.Arranged font os' mouse' ∧
      d'.Composed (os' ++ [mouse']) d.backBuffer.pixel := by
  cases op with
  | move id newPos =>
    obtain ⟨l, hl, rfl⟩ := hop
    exact h.moveBy hl fun _ => newPos
  | moveRelative id posDiff =>
    obtain ⟨l, hl, rfl⟩ := hop
    exact h.moveBy hl fun pos => pos + posDiff
  | activate id =>
    obtain ⟨hmouse, rfl | ⟨l, hl, rfl, hdraw⟩⟩ := hop
    · obtain ⟨d', g, hd', -, -, houtline, -, h', hc'⟩ := h.arranged.activateZero h.composed
      exact ⟨d', _, mouse, hd', houtline, h', hc'⟩
    · obtain ⟨d', os', hd', houtline, h', hc'⟩ := h.arranged.activate h.composed hl hmouse hdraw
      exact ⟨d', os', mouse, hd', houtline, h', hc'⟩
  | close id =>
    obtain ⟨d', os', hd', houtline, h', hc'⟩ := h.arranged.closeLayer h.composed
      List.mem_cons_self h.covers hop.2 hop.1
    exact ⟨d', os', mouse, hd', houtline, h', hc'⟩

/-- **Incremental redraw equals full redraw.**  After a move, an activation or a close, the back
buffer and the screen show the composition of the stack as it is then; where it shows nothing,
which is only where the lowest layer has been moved away, they are as they were. -/
theorem redraw_incremental (h : d.Ready font bottom os mouse) {op : Op}
    (hop : d.Admits font bottom os mouse op) :
    ∃ d' ls, d.run font op = .ok d' ∧ d'.manager.stackLayers = .ok ls ∧
      d'.screen.outline = d.screen.outline ∧ ∀ p ∈ d.screen.outline,
        d'.backBuffer.pixel p = (composition ls p).getD (d.backBuffer.pixel p) ∧
        d'.screen.pixel p = (composition ls p).getD (d.backBuffer.pixel p) := by
  obtain ⟨d', os', mouse', hd', houtline, h', hc'⟩ := h.run hop
  exact ⟨d', os' ++ [mouse'], hd', h'.holds.stackLayers, houtline,
    fun p hp => hc' p (houtline ▸ hp)⟩

/-- A background, a window with an empty title that leaves the screen on the left, and the mouse. -/
def sampleStack : List (Layer Window) :=
  [⟨0, 1, ⟨0, 0⟩, .new 40 30 .rgbResv8BitPerColor, false⟩,
    ⟨1, 2, ⟨-3, 5⟩, { Window.new 24 21 .rgbResv8BitPerColor with title := some [] }, true⟩]

def sampleMouse : Layer Window :=
  ⟨2, 3, ⟨10, 10⟩, { Window.new 15 24 .rgbResv8BitPerColor with
    transparentColor := some ⟨0, 0, 1⟩ }, false⟩

/-- They are shown, and the window is active. -/
def sampleDesktop : Desktop :=
  let shown (p : Vector2D) := (composition (sampleStack ++ [sampleMouse]) p).getD ⟨0, 0, 0⟩
  { manager := ⟨sampleStack ++ [sampleMouse], [0, 1, 2], 3, 3⟩
    backBuffer := ⟨40, 30, .rgbResv8BitPerColor, shown⟩
    screen := ⟨40, 30, .rgbResv8BitPerColor, shown⟩
    activeLayer := 2
    mouseLayer := 3 }

theorem sampleDesktop_ready (font : Font) : sampleDesktop.Ready font
    (sampleStack.get ⟨0, by decide⟩) [sampleStack.get ⟨1, by decide⟩] sampleMouse := by
  have hcovers : ∀ p ∈ sampleDesktop.screen.outline,
      p ∈ (sampleStack.get ⟨0, by decide⟩).outline := fun p hp => hp
  refine ⟨⟨⟨rfl, fun l hl => hl, by decide, ?_, ?_⟩, rfl, ?_, rfl, rfl, rfl,
    .inr ⟨sampleStack.get ⟨1, by decide⟩, by simp, rfl⟩⟩, hcovers, fun p hp => ?_⟩
  · simp [sampleDesktop, sampleStack, sampleMouse]
  · simp [sampleDesktop, sampleStack, sampleMouse]
  · intro l hl
    have hdraw : l.window.transparentColor = none ∧
        l.window.shadowFormat = .rgbResv8BitPerColor ∧ (l.window.title = none ∨
          l.window.title = some [] ∧ 24 ≤ l.window.width ∧ 21 ≤ l.window.height) := by
      rcases List.mem_cons.mp hl with rfl | hl
      · exact ⟨rfl, rfl, .inl rfl⟩
      · rw [List.mem_singleton.mp hl]
        exact ⟨rfl, rfl, .inr ⟨rfl, by decide, by decide⟩⟩
    refine ⟨hdraw.1, hdraw.2.1, Window.titleFits_of_ascii fun t ht => ?_⟩
    rcases hdraw.2.2 with hnone | ⟨hsome, hwidth, hheight⟩
    · rw [hnone] at ht
      cases ht
    · rw [hsome] at ht
      cases ht
      exact ⟨fun c hc => (List.not_mem_nil hc).elim, by simpa using hwidth, hheight⟩
  · have hsome : (composition (sampleStack ++ [sampleMouse]) p).isSome :=
      Painter.top_isSome_of_mem List.mem_cons_self (sprite_solid rfl (hcovers p hp))
    obtain ⟨c, hc⟩ := Option.isSome_iff_exists.mp hsome
    have hshown : (composition (sampleStack ++ [sampleMouse]) p).getD ⟨0, 0, 0⟩ = c := by
      rw [hc]
      rfl
    exact ⟨hc.trans (congrArg some hshown.symm), hc.trans (congrArg some hshown.symm)⟩

/-- The window goes to the right and up. -/
theorem redraw_incremental_sample :
    ∃ d' ls, sampleDesktop.run ⟨fun _ => none, fun _ => none⟩ (.moveRelative 2 ⟨9, -4⟩) = .ok d' ∧
      d'.manager.stackLayers = .ok ls ∧ d'.screen.outline = sampleDesktop.screen.outline ∧
      ∀ p ∈ sampleDesktop.screen.outline,
        d'.backBuffer.pixel p = (composition ls p).getD (sampleDesktop.backBuffer.pixel p) ∧
        d'.screen.pixel p = (composition ls p).getD (sampleDesktop.backBuffer.pixel p) :=
  redraw_incremental (sampleDesktop_ready _) ⟨sampleStack.get ⟨1, by decide⟩, by simp, rfl⟩

end Desktop

end Laplus.Graphics
