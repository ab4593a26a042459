/-
# `Laplus.Graphics.Mouse` — the ids the window manager keeps

`mouse.cpp`, and what applications, terminals and layer messages do to the layers.
`drag_layer_id_` and `active_layer_` keep an id from one event to the next, and a
layer may be closed in between.  What is drawn is left out: drawing only follows
the pointers of the stack.  So are the messages to the tasks of the windows, which
are sent only where `FindLayer` finds the layer.
-/
import Laplus.Lib.Run
import Laplus.Graphics.Layer

namespace Laplus.Graphics

open Lib

/-! ## The window manager -/

/-- A window, or a `ToplevelWindow`, but for what is drawn in it. -/
structure Shape where
  size : Vector2D
  toplevel : Bool
deriving DecidableEq

/-- `WindowRegion`. -/
inductive WindowRegion where
  | titleBar
  | closeButton
  | border
  | other
deriving DecidableEq

/-- `GetWindowRegion`. -/
def Shape.getWindowRegion (w : Shape) (pos : Vector2D) : WindowRegion :=
  if ¬ w.toplevel then .other
  else if pos.x < 2 ∨ w.size.x - 2 ≤ pos.x ∨ pos.y < 2 ∨ w.size.y - 2 ≤ pos.y then .border
  else if pos.y < 24 then
    if w.size.x - 5 - Window.kCloseButtonWidth ≤ pos.x ∧ pos.x < w.size.x - 5 ∧ 5 ≤ pos.y ∧
        pos.y < 5 + Window.kCloseButtonHeight then .closeButton
    else .titleBar
  else .other

namespace LayerManager

variable (m : LayerManager Shape)

/-- `Move` and `MoveRelative`, where the layer goes by its position; then the stack is drawn. -/
def moveBy (id : UInt32) (f : Vector2D → Vector2D) : Except Fault (LayerManager Shape) :=
  match m.findLayer id with
  | none => .error .nullLayer
  | some l => do
    let m := m.modify l.addr fun l => { l with pos := f l.pos }
    let _ ← m.stackLayers
    return m

/-- `LayerManager::FindLayerByPosition`. -/
def findLayerByPosition (pos : Vector2D) (excludeId : UInt32) :
    Except Fault (Option (Layer Shape)) :=
  m.stackLayers.map fun ls => ls.reverse.find? fun l =>
    l.id ≠ excludeId ∧ pos ∈ (⟨l.pos, l.window.size⟩ : Rectangle)

end LayerManager

/-- `layer_manager`, `active_layer` and the mouse.  `Mouse::layer_id_` and
`ActiveLayer::mouse_layer_` are set once, to the same id. -/
structure WindowManager where
  manager : LayerManager Shape
  activeLayer : UInt32
  mouseLayer : UInt32
  screenSize : Vector2D
  position : Vector2D
  dragLayerId : UInt32
  previousButtons : UInt8

namespace WindowManager

variable (s : WindowManager)

/-- The first half of `ActiveLayer::Activate`. -/
def deactivateActive : Except Fault (List (Layer Shape)) :=
  if s.activeLayer > 0 then
    match s.manager.findLayer s.activeLayer with
    | none => .error .nullLayer
    | some _ => s.manager.stackLayers
  else .ok []

/-- The second half. -/
def activateNext (layerId : UInt32) : Except Fault WindowManager :=
  if layerId > 0 then
    match s.manager.findLayer layerId with
    | none => .error .nullLayer
    | some _ => do
      let m ← s.manager.upDown layerId 0
      let height ← m.getHeight s.mouseLayer
      let m ← m.upDown layerId (height - 1)
      let _ ← m.stackLayers
      return { s with manager := m, activeLayer := layerId }
  else .ok { s with activeLayer := layerId }

/-- `ActiveLayer::Activate`. -/
def activate (layerId : UInt32) : Except Fault WindowManager :=
  if s.activeLayer = layerId then .ok s
  else do
    let _ ← s.deactivateActive
    s.activateNext layerId

/-- `CloseLayer`. -/
def closeLayer (layerId : UInt32) : Except Fault WindowManager :=
  match s.manager.findLayer layerId with
  | none => .ok s
  | some _ => do
    let s ← s.activate 0
    let m := s.manager.removeLayer layerId
    let _ ← m.stackLayers
    return { s with manager := m }

/-- The left button goes down on a layer, or on none. -/
def pressOn : Option (Layer Shape) → Except Fault WindowManager
  | none => s.activate 0
  | some l =>
    if l.draggable then
      let s := if l.window.getWindowRegion (s.position - l.pos) = .titleBar then
        { s with dragLayerId := l.id } else s
      s.activate l.id
    else s.activate 0

def press : Except Fault WindowManager := do
  let layer ← s.manager.findLayerByPosition s.position s.mouseLayer
  s.pressOn layer

/-- The left button stays down. -/
def drag (posdiff : Vector2D) : Except Fault WindowManager :=
  if s.dragLayerId > 0 then
    (s.manager.moveBy s.dragLayerId fun pos => pos + posdiff).map fun m => { s with manager := m }
  else .ok s

/-- What `Mouse::OnInterrupt` does for the left button. -/
def leftButton (buttons : UInt8) (posdiff : Vector2D) : Except Fault WindowManager :=
  let previousLeftPressed := s.previousButtons &&& 0x01 ≠ 0
  let leftPressed := buttons &&& 0x01 ≠ 0
  if ¬ previousLeftPressed ∧ leftPressed then s.press
  else if previousLeftPressed ∧ leftPressed then s.drag posdiff
  else if previousLeftPressed ∧ ¬ leftPressed then .ok { s with dragLayerId := 0 }
  else .ok s

/-- `Mouse::OnInterrupt`. -/
def onInterrupt (buttons : UInt8) (displacementX displacementY : Int8) :
    Except Fault WindowManager :=
  let oldpos := s.position
  let newpos := (oldpos + ⟨displacementX.toInt, displacementY.toInt⟩).elementMin
    (s.screenSize + ⟨-1, -1⟩)
  let position := newpos.elementMax ⟨0, 0⟩
  let posdiff := position - oldpos
  do
    let m ← s.manager.moveBy s.mouseLayer fun _ => position
    let s ← { s with manager := m, position := position }.leftButton buttons posdiff
    return { s with previousButtons := buttons }

/-- `OpenWindow`. -/
def openWindow (w h x y : Int) : Except Fault WindowManager :=
  let (m, layerId) := s.manager.newLayer ⟨⟨w, h⟩, true⟩ ⟨x, y⟩ true
  { s with manager := m }.activate layerId

/-- The window of a `Terminal`: `TaskTerminal` moves it to its place and activates it. -/
def openTerminal : Except Fault WindowManager := do
  let (m, layerId) := s.manager.newLayer ⟨⟨60 * 8 + 8 + 8, 15 * 16 + 8 + 28⟩, true⟩ ⟨0, 0⟩ true
  let m ← m.moveBy layerId fun _ => ⟨100, 200⟩
  { s with manager := m }.activate layerId

/-- The window of `TaskWallclock`. -/
def openClock : Except Fault WindowManager := do
  let (m, layerId) := s.manager.newLayer ⟨⟨8 * 10, 16 * 2⟩, false⟩
    (s.screenSize - ⟨8 * 10, 16 * 2⟩ - ⟨4, 8⟩) false
  let m ← m.upDown layerId 2
  return { s with manager := m }

end WindowManager

/-- `LayerOperation`, with the coordinates of the message. -/
inductive LayerOperation where
  | move (x y : Int)
  | moveRelative (x y : Int)
  | draw
  | drawArea

/-- What happens to the window manager. -/
inductive DesktopEvent where
  | mouseReport (buttons : UInt8) (displacementX displacementY : Int8)
  | openWindow (w h x y : Int)
  | openTerminal
  | openClock
  | closeLayer (id : UInt32)
  | layerMessage (op : LayerOperation) (id : UInt32)

namespace WindowManager

variable (s : WindowManager)

/-- `ProcessLayerMessage`.  `Draw` does not ask `FindLayer` for the layer. -/
def processLayerMessage (id : UInt32) : LayerOperation → Except Fault WindowManager
  | .move x y => (s.manager.moveBy id fun _ => ⟨x, y⟩).map fun m => { s with manager := m }
  | .moveRelative x y =>
    (s.manager.moveBy id fun pos => pos + ⟨x, y⟩).map fun m => { s with manager := m }
  | .draw | .drawArea => s.manager.stackLayers.map fun _ => s

/-- One event; after a fault there is no more. -/
def step : Except Fault WindowManager → DesktopEvent → Except Fault WindowManager
  | .error e, _ => .error e
  | .ok s, .mouseReport buttons dx dy => s.onInterrupt buttons dx dy
  | .ok s, .openWindow w h x y => s.openWindow w h x y
  | .ok s, .openTerminal => s.openTerminal
  | .ok s, .openClock => s.openClock
  | .ok s, .closeLayer id => s.closeLayer id
  | .ok s, .layerMessage op id => s.processLayerMessage id op

/-- `InitializeLayer`, the two windows of `main.cpp` and `InitializeMouse`: the desktop, the
console, the main window, the text window and the mouse. -/
def boot (screenSize : Vector2D) : Except Fault WindowManager := do
  let bg := LayerManager.newLayer ⟨[], [], 0, 0⟩ ⟨screenSize, false⟩ ⟨0, 0⟩ false
  let console := bg.1.newLayer ⟨⟨80 * 8, 25 * 16⟩, false⟩ ⟨0, 0⟩ false
  let m ← console.1.upDown bg.2 0
  let m ← m.upDown console.2 1
  let main := m.newLayer ⟨⟨160, 52⟩, true⟩ ⟨300, 100⟩ true
  let m ← main.1.upDown main.2 2147483647
  let text := m.newLayer ⟨⟨160, 52⟩, true⟩ ⟨500, 100⟩ true
  let m ← text.1.upDown text.2 2147483647
  let mouse := m.newLayer ⟨⟨15, 24⟩, false⟩ ⟨0, 0⟩ false
  let m ← mouse.1.moveBy mouse.2 fun _ => ⟨200, 200⟩
  let m ← m.upDown mouse.2 2147483647
  return ⟨m, 0, mouse.2, screenSize, ⟨200, 200⟩, 0, 0⟩

end WindowManager

/-! ## What the manager keeps -/

namespace LayerManager

variable {ω : Type*} {m m' : LayerManager ω} {id : UInt32} {a : Nat} {l : Layer ω}

/-- `FindLayer` finds a layer with the id. -/
def Has (m : LayerManager ω) (id : UInt32) : Prop := (m.findLayer id).isSome

instance (m : LayerManager ω) (id : UInt32) : Decidable (m.Has id) :=
  inferInstanceAs (Decidable ((m.findLayer id).isSome = true))

/-- Every pointer of the stack is what `FindLayer` finds for the id of its layer: a layer that gets
an id in use never comes onto the stack. -/
structure Sound (m : LayerManager ω) : Prop where
  once : m.layerStack.Nodup
  front : ∀ a ∈ m.layerStack, ∃ l, m.findLayer l.id = some l ∧ l.addr = a
  addr : ∀ l ∈ m.layers, ∀ l' ∈ m.layers, l.addr = l'.addr → l = l'
  fresh : ∀ l ∈ m.layers, l.addr < m.allocated

/-- The same ids are found. -/
structure Kept (m m' : LayerManager ω) : Prop where
  sound : m'.Sound
  has : ∀ id, m'.Has id ↔ m.Has id

theorem Kept.trans {m₁ : LayerManager ω} (h : Kept m m₁) (h' : Kept m₁ m') : Kept m m' :=
  ⟨h'.sound, fun id => (h'.has id).trans (h.has id)⟩

theorem Sound.kept (h : m.Sound) : Kept m m := ⟨h, fun _ => Iff.rfl⟩

theorem not_has (h : ¬ m.Has id) : m.findLayer id = none := by
  simpa [Has] using h

/-- The layers of the stack, each what `FindLayer` finds for its id. -/
theorem Sound.stackLayers_found (h : m.Sound) : ∃ ls, m.stackLayers = .ok ls ∧
    ls.map Layer.addr = m.layerStack ∧ ∀ l ∈ ls, m.findLayer l.id = some l := by
  have hall : ∀ st : List Nat, (∀ a ∈ st, a ∈ m.layerStack) →
      ∃ ls, st.mapM m.deref = .ok ls ∧ ls.map Layer.addr = st ∧
        ∀ l ∈ ls, m.findLayer l.id = some l := by
    intro st hst
    induction st with
    | nil => exact ⟨[], rfl, rfl, fun l hl => (List.not_mem_nil hl).elim⟩
    | cons a st ih =>
      obtain ⟨ls, hls, hmap, hfound⟩ := ih fun b hb => hst b (List.mem_cons_of_mem a hb)
      obtain ⟨l, hl, rfl⟩ := h.front a (hst a List.mem_cons_self)
      have hderef : m.deref l.addr = .ok l := by
        rw [deref, find_key h.addr (findLayer_mem hl).1]
      refine ⟨l :: ls, ?_, congrArg _ hmap, List.forall_mem_cons.mpr ⟨hl, hfound⟩⟩
      rw [List.mapM_cons, hderef, hls]
      rfl
  exact hall m.layerStack fun a ha => ha

/-- No pointer of the stack is stale. -/
theorem Sound.stackLayers (h : m.Sound) :
    ∃ ls, m.stackLayers = .ok ls ∧ ∀ l ∈ ls, m.Has l.id := by
  obtain ⟨ls, hls, -, hfound⟩ := h.stackLayers_found
  exact ⟨ls, hls, fun l hl => Option.isSome_of_eq_some (hfound l hl)⟩

/-! ### New layers -/

theorem findLayer_newLayer (w : ω) (pos : Vector2D) (draggable : Bool) :
    (m.newLayer w pos draggable).1.findLayer id = (m.findLayer id).or
      (if m.latestId + 1 = id then some ⟨m.allocated, m.latestId + 1, pos, w, draggable⟩
        else none) := by
  rw [findLayer, newLayer, List.find?_append, findLayer]
  by_cases h : m.latestId + 1 = id <;> simp [h]

theorem has_newLayer (w : ω) (pos : Vector2D) (draggable : Bool) :
    (m.newLayer w pos draggable).1.Has id ↔ m.Has id ∨ m.latestId + 1 = id := by
  rw [Has, findLayer_newLayer, Option.isSome_or, Has, Bool.or_eq_true]
  by_cases h : m.latestId + 1 = id <;> simp [h]

/-- A new layer is found by its id. -/
theorem has_new (w : ω) (pos : Vector2D) (draggable : Bool) :
    (m.newLayer w pos draggable).1.Has (m.newLayer w pos draggable).2 :=
  (has_newLayer w pos draggable).mpr (.inr rfl)

theorem Sound.newLayer (h : m.Sound) (w : ω) (pos : Vector2D) (draggable : Bool) :
    (m.newLayer w pos draggable).1.Sound where
  once := h.once
  front a ha := by
    obtain ⟨l, hl, rfl⟩ := h.front a ha
    refine ⟨l, ?_, rfl⟩
    rw [findLayer_newLayer, hl, Option.some_or]
  addr l hl l' hl' heq := by
    rcases List.mem_append.mp hl with hl | hl <;> rcases List.mem_append.mp hl' with hl' | hl'
    · exact h.addr l hl l' hl' heq
    · rw [List.mem_singleton.mp hl'] at heq
      exact absurd heq (Nat.ne_of_lt (h.fresh l hl))
    · rw [List.mem_singleton.mp hl] at heq
      exact absurd heq.symm (Nat.ne_of_lt (h.fresh l' hl'))
    · rw [List.mem_singleton.mp hl, List.mem_singleton.mp hl']
  fresh l hl := by
    rcases List.mem_append.mp hl with hl | hl
    · exact Nat.lt_succ_of_lt (h.fresh l hl)
    · rw [List.mem_singleton.mp hl]
      exact Nat.lt_succ_self _

/-! ### Method calls -/

variable {f : Layer ω → Layer ω}

theorem findLayer_modify (hid : ∀ l, (f l).id = l.id) :
    (m.modify a f).findLayer id = (m.findLayer id).map (patch a f) := by
  have hcomp : ((fun l : Layer ω => decide (l.id = id)) ∘ patch a f) =
      fun l => decide (l.id = id) := by
    funext l
    rw [Function.comp_apply, patch_id hid]
  rw [findLayer, modify, List.find?_map, hcomp, findLayer]

theorem Sound.modify (h : m.Sound) (haddr : ∀ l, (f l).addr = l.addr) (hid : ∀ l, (f l).id = l.id) :
    Kept m (m.modify a f) where
  sound :=
    { once := h.once
      front := fun b hb => by
        obtain ⟨l, hl, rfl⟩ := h.front b hb
        refine ⟨patch a f l, ?_, patch_addr haddr l⟩
        rw [findLayer_modify hid, patch_id hid, hl, Option.map_some]
      addr := fun l hl l' hl' heq => by
        obtain ⟨l₀, hl₀, rfl⟩ := List.mem_map.mp hl
        obtain ⟨l₁, hl₁, rfl⟩ := List.mem_map.mp hl'
        rw [patch_addr haddr, patch_addr haddr] at heq
        rw [h.addr l₀ hl₀ l₁ hl₁ heq]
      fresh := fun l hl => by
        obtain ⟨l₀, hl₀, rfl⟩ := List.mem_map.mp hl
        rw [patch_addr haddr]
        exact h.fresh l₀ hl₀ }
  has id := by
    rw [Has, findLayer_modify hid, Option.isSome_map, Has]

/-! ### Up, down and away -/

/-- Another stack of the layers that are found. -/
theorem Sound.restack (h : m.Sound) {st : List Nat} (hst : st.Nodup)
    (hmem : ∀ a ∈ st, ∃ l, m.findLayer l.id = some l ∧ l.addr = a) :
    Kept m { m with layerStack := st } where
  sound := ⟨hst, hmem, h.addr, h.fresh⟩
  has _ := Iff.rfl

theorem moveTo_perm (st : List Nat) (a h : Nat) : (moveTo st a h).Perm (a :: st.erase a) := by
  unfold moveTo
  split
  · rename_i ha
    rw [List.erase_of_not_mem ha]
    exact List.perm_insertIdx a st (Nat.min_le_right h _)
  · rename_i ha
    have hlen := List.length_erase_of_mem (not_not.mp ha)
    have hpos := List.length_pos_of_mem (not_not.mp ha)
    refine List.perm_insertIdx a _ ?_
    rw [hlen]
    split <;> omega

theorem Sound.hide (h : m.Sound) (id : UInt32) : Kept m (m.hide id) := by
  unfold LayerManager.hide
  split
  · exact h.kept
  · exact h.restack (h.once.erase _) fun a ha => h.front a (List.mem_of_mem_erase ha)

theorem Sound.upDown (h : m.Sound) (hid : m.Has id) (newHeight : Int) :
    ∃ m', m.upDown id newHeight = .ok m' ∧ Kept m m' := by
  obtain ⟨l, hl⟩ := Option.isSome_iff_exists.mp hid
  unfold LayerManager.upDown
  split
  · exact ⟨_, rfl, h.hide id⟩
  · rw [hl]
    have hperm := moveTo_perm m.layerStack l.addr newHeight.toNat
    refine ⟨_, rfl, h.restack ?_ fun a ha => ?_⟩
    · exact hperm.nodup_iff.mpr (List.nodup_cons.mpr ⟨h.once.not_mem_erase, h.once.erase _⟩)
    · rcases List.mem_cons.mp (hperm.mem_iff.mp ha) with rfl | ha
      · exact ⟨l, by rw [(findLayer_mem hl).2, hl], rfl⟩
      · exact h.front a (List.mem_of_mem_erase ha)

theorem Sound.getHeight (h : m.Sound) (id : UInt32) : ∃ height, m.getHeight id = .ok height := by
  obtain ⟨ls, hls, -⟩ := h.stackLayers
  exact ⟨_, by rw [LayerManager.getHeight, hls]; rfl⟩

theorem layers_removeLayer :
    (m.removeLayer id).layers = m.layers.filter fun l => l.id ≠ id := by
  unfold removeLayer LayerManager.hide
  split <;> rfl

theorem findLayer_removeLayer {id' : UInt32} :
    (m.removeLayer id).findLayer id' = if id' = id then none else m.findLayer id' := by
  rw [findLayer, layers_removeLayer, List.find?_filter]
  split
  · rename_i heq
    rw [List.find?_eq_none]
    intro l _
    simp only [heq, decide_not, Bool.decide_and, Bool.decide_eq_true]
    simp
  · rename_i hne
    refine congrArg (fun q => List.find? q m.layers) (funext fun l => ?_)
    by_cases h : l.id = id' <;> simp [h, hne]

theorem has_removeLayer {id' : UInt32} : (m.removeLayer id).Has id' ↔ m.Has id' ∧ id' ≠ id := by
  rw [Has, findLayer_removeLayer, Has]
  by_cases h : id' = id <;> simp [h]

theorem mem_removeLayer (h : m.Sound) (ha : a ∈ (m.removeLayer id).layerStack) :
    a ∈ m.layerStack ∧ ∀ l, m.findLayer id = some l → a ≠ l.addr := by
  have ha : a ∈ (m.hide id).layerStack := ha
  rw [LayerManager.hide] at ha
  cases hfind : m.findLayer id with
  | none =>
    rw [hfind] at ha
    exact ⟨ha, fun l hl => by cases hl⟩
  | some l₀ =>
    rw [hfind] at ha
    refine ⟨List.mem_of_mem_erase ha, fun l hl heq => ?_⟩
    cases hl
    exact h.once.not_mem_erase (heq ▸ ha)

/-- The layer that is found leaves the stack; no other layer with its id is there. -/
theorem Sound.removeLayer (h : m.Sound) (id : UInt32) : (m.removeLayer id).Sound where
  once := (h.hide id).sound.once
  front a ha := by
    obtain ⟨hmem, hother⟩ := mem_removeLayer h ha
    obtain ⟨l, hl, rfl⟩ := h.front a hmem
    have hne : l.id ≠ id := fun heq => hother l (heq ▸ hl) rfl
    exact ⟨l, by rw [findLayer_removeLayer, if_neg hne, hl], rfl⟩
  addr l hl l' hl' heq := by
    rw [layers_removeLayer] at hl hl'
    exact h.addr l (List.mem_filter.mp hl).1 l' (List.mem_filter.mp hl').1 heq
  fresh l hl := by
    rw [layers_removeLayer] at hl
    have hallocated : (m.removeLayer id).allocated = m.allocated := by
      unfold LayerManager.removeLayer LayerManager.hide
      split <;> rfl
    rw [hallocated]
    exact h.fresh l (List.mem_filter.mp hl).1

/-- A layer is moved exactly where it is found. -/
theorem Sound.moveBy {m : LayerManager Shape} (h : m.Sound) (hid : m.Has id)
    (f : Vector2D → Vector2D) : ∃ m', m.moveBy id f = .ok m' ∧ Kept m m' := by
  obtain ⟨l, hl⟩ := Option.isSome_iff_exists.mp hid
  have hkept := h.modify (a := l.addr) (f := fun l => { l with pos := f l.pos }) (fun _ => rfl)
    fun _ => rfl
  obtain ⟨ls, hls, -⟩ := hkept.sound.stackLayers
  refine ⟨_, ?_, hkept⟩
  rw [LayerManager.moveBy, hl]
  exact congrArg (· >>= fun _ => _) hls

theorem moveBy_missing {m : LayerManager Shape} (hid : ¬ m.Has id) (f : Vector2D → Vector2D) :
    m.moveBy id f = .error .nullLayer := by
  rw [LayerManager.moveBy, not_has hid]

end LayerManager

/-! ## The stored ids -/

namespace WindowManager

open LayerManager

variable {s : WindowManager} {id : UInt32}

/-- The two stored ids are `0` or found. -/
structure Refers (s : WindowManager) : Prop where
  drag : s.dragLayerId = 0 ∨ s.manager.Has s.dragLayerId
  active : s.activeLayer = 0 ∨ s.manager.Has s.activeLayer

/-- The calls that keep the layers keep what is stored. -/
theorem Refers.kept (h : s.Refers) {m' : LayerManager Shape} (hk : Kept s.manager m') :
    { s with manager := m' }.Refers where
  drag := h.drag.imp_right (hk.has _).mpr
  active := h.active.imp_right (hk.has _).mpr

theorem activateNext_ok (h : s.manager.Sound) (hid : id = 0 ∨ s.manager.Has id) :
    ∃ m', s.activateNext id = .ok { s with manager := m', activeLayer := id } ∧
      Kept s.manager m' := by
  by_cases hpos : id > 0
  · have hhas : s.manager.Has id := hid.resolve_left fun hzero => by
      rw [hzero] at hpos
      exact absurd hpos (by decide)
    obtain ⟨l, hl⟩ := Option.isSome_iff_exists.mp hhas
    obtain ⟨m₁, hm₁, h₁⟩ := h.upDown hhas 0
    obtain ⟨height, hheight⟩ := h₁.sound.getHeight s.mouseLayer
    obtain ⟨m₂, hm₂, h₂⟩ := h₁.sound.upDown ((h₁.has id).mpr hhas) (height - 1)
    obtain ⟨ls, hls, -⟩ := h₂.sound.stackLayers
    refine ⟨m₂, ?_, h₁.trans h₂⟩
    rw [activateNext, if_pos hpos, hl]
    simp only [hm₁, hheight, hm₂, hls, bind, Except.bind, pure, Except.pure]
  · exact ⟨s.manager, if_neg hpos, h.kept⟩

theorem deactivateActive_ok (h : s.manager.Sound)
    (hact : s.activeLayer = 0 ∨ s.manager.Has s.activeLayer) :
    ∃ ls, s.deactivateActive = .ok ls := by
  unfold deactivateActive
  split
  · rename_i hpos
    have hhas := hact.resolve_left fun hzero => by
      rw [hzero] at hpos
      exact absurd hpos (by decide)
    obtain ⟨l, hl⟩ := Option.isSome_iff_exists.mp hhas
    rw [hl]
    exact h.stackLayers.imp fun _ hls => hls.1
  · exact ⟨[], rfl⟩

/-- **`Activate`** goes through where both ids are `0` or found. -/
theorem activate_ok (h : s.manager.Sound) (hact : s.activeLayer = 0 ∨ s.manager.Has s.activeLayer)
    (hid : id = 0 ∨ s.manager.Has id) :
    ∃ m', s.activate id = .ok { s with manager := m', activeLayer := id } ∧
      Kept s.manager m' := by
  by_cases hsame : s.activeLayer = id
  · refine ⟨s.manager, ?_, h.kept⟩
    rw [activate, if_pos hsame, ← hsame]
  · obtain ⟨ls, hls⟩ := deactivateActive_ok h hact
    obtain ⟨m', hm', hk⟩ := activateNext_ok h hid
    refine ⟨m', ?_, hk⟩
    rw [activate, if_neg hsame, hls]
    exact hm'

/-- The window manager is as it should be. -/
structure Good (s : WindowManager) : Prop where
  sound : s.manager.Sound
  refers : s.Refers

theorem Good.kept (h : s.Good) {m' : LayerManager Shape} (hk : Kept s.manager m') :
    { s with manager := m' }.Good :=
  ⟨hk.sound, h.refers.kept hk⟩

theorem Good.activate (h : s.Good) (hid : id = 0 ∨ s.manager.Has id) :
    ∃ s', s.activate id = .ok s' ∧ s'.Good := by
  obtain ⟨m', hm', hk⟩ := activate_ok h.sound h.refers.active hid
  exact ⟨_, hm', hk.sound, h.refers.drag.imp_right (hk.has _).mpr, hid.imp_right (hk.has id).mpr⟩

theorem Good.pressOn (h : s.Good) (layer : Option (Layer Shape))
    (hl : ∀ l, layer = some l → s.manager.Has l.id) : ∃ s', s.pressOn layer = .ok s' ∧ s'.Good := by
  cases layer with
  | none => exact h.activate (.inl rfl)
  | some l =>
    have hl := hl l rfl
    simp only [WindowManager.pressOn]
    split
    · split
      · exact Good.activate (s := { s with dragLayerId := l.id })
          ⟨h.sound, .inr hl, h.refers.active⟩ (.inr hl)
      · exact h.activate (.inr hl)
    · exact h.activate (.inl rfl)

/-- The press of the button stores the ids of a layer of the stack. -/
theorem Good.press (h : s.Good) : ∃ s', s.press = .ok s' ∧ s'.Good := by
  obtain ⟨ls, hls, hhas⟩ := h.sound.stackLayers
  have hfound : s.manager.findLayerByPosition s.position s.mouseLayer =
      .ok (ls.reverse.find? fun l => l.id ≠ s.mouseLayer ∧
        s.position ∈ (⟨l.pos, l.window.size⟩ : Rectangle)) := by
    rw [findLayerByPosition, hls]
    rfl
  obtain ⟨s', hs', h'⟩ := h.pressOn (ls.reverse.find? fun l => l.id ≠ s.mouseLayer ∧
    s.position ∈ (⟨l.pos, l.window.size⟩ : Rectangle)) fun l hl =>
      hhas l (List.mem_reverse.mp (List.mem_of_find?_eq_some hl))
  exact ⟨s', (congrArg (· >>= fun layer => s.pressOn layer) hfound).trans hs', h'⟩

theorem Good.drag (h : s.Good) (posdiff : Vector2D) : ∃ s', s.drag posdiff = .ok s' ∧ s'.Good := by
  unfold WindowManager.drag
  split
  · rename_i hpos
    have hhas := h.refers.drag.resolve_left fun hzero => by
      rw [hzero] at hpos
      exact absurd hpos (by decide)
    obtain ⟨m', hm', hk⟩ := h.sound.moveBy hhas fun pos => pos + posdiff
    exact ⟨_, by rw [hm']; rfl, h.kept hk⟩
  · exact ⟨s, rfl, h⟩

theorem Good.leftButton (h : s.Good) (buttons : UInt8) (posdiff : Vector2D) :
    ∃ s', s.leftButton buttons posdiff = .ok s' ∧ s'.Good := by
  unfold WindowManager.leftButton
  dsimp only
  split
  · exact h.press
  · split
    · exact h.drag posdiff
    · split
      · exact ⟨_, rfl, h.sound, .inl rfl, h.refers.active⟩
      · exact ⟨s, rfl, h⟩

/-- A mouse report needs its layer, and nothing else. -/
theorem Good.onInterrupt (h : s.Good) (hmouse : s.manager.Has s.mouseLayer) (buttons : UInt8)
    (dx dy : Int8) : ∃ s', s.onInterrupt buttons dx dy = .ok s' ∧ s'.Good := by
  let position := ((s.position + ⟨dx.toInt, dy.toInt⟩).elementMin
    (s.screenSize + ⟨-1, -1⟩)).elementMax ⟨0, 0⟩
  obtain ⟨m', hm', hk⟩ := h.sound.moveBy hmouse fun _ => position
  obtain ⟨s', hs', h'⟩ := Good.leftButton (s := { s with manager := m', position := position })
    ⟨hk.sound, (h.refers.kept hk).drag, (h.refers.kept hk).active⟩ buttons (position - s.position)
  refine ⟨{ s' with previousButtons := buttons }, ?_, h'.sound, h'.refers.drag, h'.refers.active⟩
  calc s.onInterrupt buttons dx dy = (do
        let s ← { s with manager := m', position := position }.leftButton buttons
          (position - s.position)
        return { s with previousButtons := buttons }) := congrArg (· >>= _) hm'
    _ = .ok { s' with previousButtons := buttons } := congrArg (· >>= _) hs'

theorem onInterrupt_missing (hmouse : ¬ s.manager.Has s.mouseLayer) (buttons : UInt8)
    (dx dy : Int8) : s.onInterrupt buttons dx dy = .error .nullLayer :=
  congrArg (· >>= _) (moveBy_missing hmouse _)

theorem Good.newLayer (h : s.Good) (w : Shape) (pos : Vector2D) (draggable : Bool) :
    { s with manager := (s.manager.newLayer w pos draggable).1 }.Good := by
  refine ⟨h.sound.newLayer w pos draggable, ?_, ?_⟩
  · exact h.refers.drag.imp_right fun hd => (has_newLayer w pos draggable).mpr (.inl hd)
  · exact h.refers.active.imp_right fun ha => (has_newLayer w pos draggable).mpr (.inl ha)

theorem Good.openWindow (h : s.Good) (w h' x y : Int) :
    ∃ s', s.openWindow w h' x y = .ok s' ∧ s'.Good := by
  exact (h.newLayer ⟨⟨w, h'⟩, true⟩ ⟨x, y⟩ true).activate (.inr (has_new _ _ _))

theorem Good.openTerminal (h : s.Good) : ∃ s', s.openTerminal = .ok s' ∧ s'.Good := by
  have hnew := h.newLayer ⟨⟨60 * 8 + 8 + 8, 15 * 16 + 8 + 28⟩, true⟩ ⟨0, 0⟩ true
  obtain ⟨m', hm', hk⟩ := hnew.sound.moveBy (has_new _ _ _) fun _ => ⟨100, 200⟩
  obtain ⟨s', hs', h'⟩ := (hnew.kept hk).activate (.inr ((hk.has _).mpr (has_new _ _ _)))
  exact ⟨s', (congrArg (· >>= _) hm').trans hs', h'⟩

theorem Good.openClock (h : s.Good) : ∃ s', s.openClock = .ok s' ∧ s'.Good := by
  have hnew := h.newLayer ⟨⟨8 * 10, 16 * 2⟩, false⟩ (s.screenSize - ⟨8 * 10, 16 * 2⟩ - ⟨4, 8⟩) false
  obtain ⟨m', hm', hk⟩ := hnew.sound.upDown (has_new _ _ _) 2
  exact ⟨_, congrArg (· >>= _) hm', hnew.kept hk⟩

/-- **`CloseLayer`** deactivates the layer, and leaves the id of the layer that is dragged. -/
theorem Good.closeLayer (h : s.Good) (id : UInt32) :
    ∃ s', s.closeLayer id = .ok s' ∧ s'.manager.Sound ∧
      (s'.Refers ↔ (s.dragLayerId = id → id = 0)) := by
  by_cases hid : s.manager.Has id
  · obtain ⟨l, hl⟩ := Option.isSome_iff_exists.mp hid
    obtain ⟨m', hm', hk⟩ := activate_ok h.sound h.refers.active (.inl (rfl : (0 : UInt32) = 0))
    have hsound := hk.sound.removeLayer id
    obtain ⟨ls, hls, -⟩ := hsound.stackLayers
    refine ⟨{ s with manager := m'.removeLayer id, activeLayer := 0 }, ?_, hsound, ?_⟩
    · rw [WindowManager.closeLayer, hl]
      simp only [hm', hls, bind, Except.bind, pure, Except.pure]
    · constructor
      · intro hrefers heq
        rcases hrefers.drag with hzero | hhas
        · exact heq.symm.trans hzero
        · exact absurd heq (has_removeLayer.mp hhas).2
      · intro hdrag
        refine ⟨?_, .inl rfl⟩
        rcases h.refers.drag with hzero | hhas
        · exact .inl hzero
        · by_cases heq : s.dragLayerId = id
          · exact .inl (heq.trans (hdrag heq))
          · exact .inr (has_removeLayer.mpr ⟨(hk.has _).mpr hhas, heq⟩)
  · refine ⟨s, ?_, h.sound, iff_of_true h.refers fun heq => ?_⟩
    · rw [WindowManager.closeLayer, not_has hid]
    · exact heq ▸ h.refers.drag.resolve_right (heq ▸ hid)

/-! ## Runs -/

/-- **Nothing refers to a closed layer**: no handler has used a layer that was not found, and the
stored ids are `0` or found. -/
def Sane : Except Fault WindowManager → Prop
  | .ok s => s.Refers
  | .error _ => False

instance (s : WindowManager) : Decidable s.Refers :=
  decidable_of_iff ((s.dragLayerId = 0 ∨ s.manager.Has s.dragLayerId) ∧
      (s.activeLayer = 0 ∨ s.manager.Has s.activeLayer))
    ⟨fun h => ⟨h.1, h.2⟩, fun h => ⟨h.drag, h.active⟩⟩

instance : ∀ r : Except Fault WindowManager, Decidable (Sane r)
  | .ok s => inferInstanceAs (Decidable s.Refers)
  | .error _ => isFalse fun h => h

/-- What an event may find: a report finds the mouse layer, a layer that is closed is not being
dragged, and a layer that is moved by a message is there. -/
def Meets : Except Fault WindowManager → DesktopEvent → Prop
  | .ok s, .mouseReport .. => s.manager.Has s.mouseLayer
  | .ok s, .closeLayer id => s.dragLayerId = id → id = 0
  | .ok s, .layerMessage (.move ..) id => s.manager.Has id
  | .ok s, .layerMessage (.moveRelative ..) id => s.manager.Has id
  | _, _ => True

/-- The layers are sound, unless there was a fault. -/
def SoundState : Except Fault WindowManager → Prop
  | .ok s => s.manager.Sound
  | .error _ => True

/-- **Step.** -/
theorem step_iff (h : s.Good) (e : DesktopEvent) :
    SoundState (step (.ok s) e) ∧ (Sane (step (.ok s) e) ↔ Meets (.ok s) e) := by
  have hgood {r : Except Fault WindowManager} (hr : ∃ s', r = .ok s' ∧ s'.Good) :
      SoundState r ∧ Sane r := by
    obtain ⟨s', rfl, h'⟩ := hr
    exact ⟨h'.sound, h'.refers⟩
  -- a layer that a message moves
  have hmoved (id : UInt32) (f : Vector2D → Vector2D) :
      SoundState ((s.manager.moveBy id f).map fun m => { s with manager := m }) ∧
        (Sane ((s.manager.moveBy id f).map fun m => { s with manager := m }) ↔
          s.manager.Has id) := by
    by_cases hid : s.manager.Has id
    · obtain ⟨m', hm', hk⟩ := h.sound.moveBy hid f
      rw [hm']
      exact ⟨hk.sound, iff_of_true (h.refers.kept hk) hid⟩
    · rw [moveBy_missing hid f]
      exact ⟨trivial, iff_of_false (fun hsane => hsane) hid⟩
  cases e with
  | mouseReport buttons dx dy =>
    rw [step, Meets]
    by_cases hmouse : s.manager.Has s.mouseLayer
    · obtain ⟨hsound, hsane⟩ := hgood (h.onInterrupt hmouse buttons dx dy)
      exact ⟨hsound, iff_of_true hsane hmouse⟩
    · rw [onInterrupt_missing hmouse buttons dx dy]
      exact ⟨trivial, iff_of_false (fun hsane => hsane) hmouse⟩
  | openWindow w h' x y =>
    rw [step]
    obtain ⟨hsound, hsane⟩ := hgood (h.openWindow w h' x y)
    exact ⟨hsound, iff_of_true hsane trivial⟩
  | openTerminal =>
    rw [step]
    obtain ⟨hsound, hsane⟩ := hgood h.openTerminal
    exact ⟨hsound, iff_of_true hsane trivial⟩
  | openClock =>
    rw [step]
    obtain ⟨hsound, hsane⟩ := hgood h.openClock
    exact ⟨hsound, iff_of_true hsane trivial⟩
  | closeLayer id =>
    obtain ⟨s', hs', hsound, hrefers⟩ := h.closeLayer id
    rw [step, hs']
    exact ⟨hsound, hrefers⟩
  | layerMessage op id =>
    rw [step]
    obtain ⟨ls, hls, -⟩ := h.sound.stackLayers
    cases op with
    | move x y =>
      rw [processLayerMessage, Meets]
      exact hmoved id fun _ => ⟨x, y⟩
    | moveRelative x y =>
      rw [processLayerMessage, Meets]
      have hrelative := hmoved id fun pos => pos + ⟨x, y⟩
      exact hrelative
    | draw =>
      rw [processLayerMessage, hls]
      exact ⟨h.sound, iff_of_true h.refers trivial⟩
    | drawArea =>
      rw [processLayerMessage, hls]
      exact ⟨h.sound, iff_of_true h.refers trivial⟩

theorem boot_good (screenSize : Vector2D) : ∃ s, boot screenSize = .ok s ∧ s.Good := by
  have hempty : (⟨[], [], 0, 0⟩ : LayerManager Shape).Sound :=
    ⟨List.nodup_nil, fun a ha => (List.not_mem_nil ha).elim, fun l hl => (List.not_mem_nil hl).elim,
      fun l hl => (List.not_mem_nil hl).elim⟩
  let bg := LayerManager.newLayer ⟨[], [], 0, 0⟩ (⟨screenSize, false⟩ : Shape) ⟨0, 0⟩ false
  let console := bg.1.newLayer ⟨⟨80 * 8, 25 * 16⟩, false⟩ ⟨0, 0⟩ false
  have hconsole : console.1.Sound := (hempty.newLayer _ _ _).newLayer _ _ _
  obtain ⟨m₁, hm₁, h₁⟩ := hconsole.upDown ((has_newLayer _ _ _).mpr (.inl (has_new _ _ _))) 0
  obtain ⟨m₂, hm₂, h₂⟩ := h₁.sound.upDown ((h₁.has console.2).mpr (has_new _ _ _)) 1
  obtain ⟨m₃, hm₃, h₃⟩ := (h₂.sound.newLayer ⟨⟨160, 52⟩, true⟩ ⟨300, 100⟩ true).upDown
    (has_new _ _ _) 2147483647
  obtain ⟨m₄, hm₄, h₄⟩ := (h₃.sound.newLayer ⟨⟨160, 52⟩, true⟩ ⟨500, 100⟩ true).upDown
    (has_new _ _ _) 2147483647
  let mouse := m₄.newLayer ⟨⟨15, 24⟩, false⟩ ⟨0, 0⟩ false
  have hmouse : mouse.1.Has mouse.2 := has_new _ _ _
  obtain ⟨m₅, hm₅, h₅⟩ := (h₄.sound.newLayer _ _ _).moveBy hmouse fun _ => ⟨200, 200⟩
  obtain ⟨m₆, hm₆, h₆⟩ := h₅.sound.upDown ((h₅.has mouse.2).mpr hmouse) 2147483647
  refine ⟨⟨m₆, 0, mouse.2, screenSize, ⟨200, 200⟩, 0, 0⟩, ?_, h₆.sound, .inl rfl, .inl rfl⟩
  simp only [boot, bind, Except.bind]
  rw [hm₁]
  dsimp only
  rw [hm₂]
  dsimp only
  rw [hm₃]
  dsimp only
  rw [hm₄]
  dsimp only
  rw [hm₅]
  dsimp only
  rw [hm₆]
  rfl

/-- **Run.**  For any screen and any events: nothing ever refers to a closed layer exactly when
every event finds what it may. -/
theorem sane_run_iff (screenSize : Vector2D) (es : List DesktopEvent) :
    (∀ es', es' <+: es → Sane (run step (boot screenSize) es')) ↔
      Guarded step Meets (boot screenSize) es := by
  obtain ⟨s, hs, h⟩ := boot_good screenSize
  rw [hs]
  refine admitted_prefix_iff SoundState Sane ?_ ?_ h.sound h.refers
    (guarded_true step _ es)
  · intro r e hsound hsane _ _
    cases r with
    | ok s => exact (step_iff ⟨hsound, hsane⟩ e).1
    | error f => exact hsane.elim
  · intro r e hsound hsane _
    cases r with
    | ok s => exact (step_iff ⟨hsound, hsane⟩ e).2
    | error f => exact hsane.elim

/-- A window is closed while its title bar is dragged; the next report moves it. -/
def closedUnderDrag : List DesktopEvent :=
  [.openWindow 200 100 150 190, .mouseReport 1 0 0, .closeLayer 6, .mouseReport 1 1 0]

/-- The window is still being dragged after it has been closed. -/
theorem closedUnderDrag_refers : ¬ ∀ (screenSize : Vector2D) (es : List DesktopEvent),
    ∀ es', es' <+: es → Sane (run step (boot screenSize) es') := by
  intro h
  have hsane := h ⟨800, 600⟩ closedUnderDrag (closedUnderDrag.take 3) (List.take_prefix 3 _)
  exact absurd hsane (by decide +kernel)

end WindowManager

end Laplus.Graphics
