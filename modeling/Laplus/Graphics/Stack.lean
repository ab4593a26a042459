/-
# `Laplus.Graphics.Stack` — where the layers are in the stack

`layer.cpp`.  `UpDown` takes the place in the stack before it erases the layer, so that
the layer comes to the height that was asked for, whether it was below or above it; and
`Activate` is two of these moves, around the height of the mouse.
-/
import Laplus.Graphics.Mouse

namespace Laplus.Graphics

open Lib

/-! ## One move -/

namespace LayerManager

variable {ω : Type*} {m : LayerManager ω} {id : UInt32} {l : Layer ω} {st lower upper : List Nat}
  {a t h : Nat}

/-- Where a layer comes to. -/
def heightIn (st : List Nat) (a h : Nat) : Nat :=
  if a ∈ st then min h (st.length - 1) else min h st.length

/-- A move is an insertion into the other layers. -/
theorem moveTo_eq (st : List Nat) (a h : Nat) :
    moveTo st a h = (st.erase a).insertIdx (heightIn st a h) a := by
  rw [moveTo, heightIn]
  by_cases ha : a ∈ st
  · have hpos := List.length_pos_of_mem ha
    rw [if_neg (not_not.mpr ha), if_pos ha]
    congr 1
    split <;> omega
  · rw [if_pos ha, if_neg ha, List.erase_of_not_mem ha]

theorem heightIn_le (st : List Nat) (a h : Nat) : heightIn st a h ≤ (st.erase a).length := by
  rw [heightIn]
  split
  next ha =>
    rw [List.length_erase_of_mem ha]
    exact Nat.min_le_right ..
  next ha =>
    rw [List.erase_of_not_mem ha]
    exact Nat.min_le_right ..

theorem moveTo_getElem (st : List Nat) (a h : Nat) :
    (moveTo st a h)[heightIn st a h]? = some a := by
  rw [moveTo_eq, List.getElem?_insertIdx_self, if_pos (heightIn_le st a h)]

theorem insertIdx_erase {xs : List Nat} {i : Nat} (ha : a ∉ xs) (hi : i ≤ xs.length) :
    (xs.insertIdx i a).erase a = xs := by
  obtain ⟨ys, zs, rfl, rfl⟩ : ∃ ys zs, xs = ys ++ zs ∧ i = ys.length :=
    ⟨xs.take i, xs.drop i, (List.take_append_drop i xs).symm, (List.length_take_of_le hi).symm⟩
  have hys : a ∉ ys := fun hmem => ha (List.mem_append_left zs hmem)
  rw [insertIdx_append, List.erase_append_right _ hys, List.erase_cons_head]

/-- The other layers keep their order. -/
theorem moveTo_erase (hst : st.Nodup) (a h : Nat) : (moveTo st a h).erase a = st.erase a := by
  rw [moveTo_eq]
  exact insertIdx_erase hst.not_mem_erase (heightIn_le st a h)

/-- To the bottom, and from there to just below another layer. -/
theorem moveTo_below (hst : (lower ++ t :: upper).Nodup) (ha : a ≠ t) :
    moveTo (lower ++ t :: upper) a 0 = a :: (lower.erase a ++ t :: upper.erase a) ∧
      moveTo (a :: (lower.erase a ++ t :: upper.erase a)) a (lower.erase a).length =
        lower.erase a ++ a :: t :: upper.erase a := by
  have herase : (lower ++ t :: upper).erase a = lower.erase a ++ t :: upper.erase a := by
    by_cases hmem : a ∈ lower
    · have hupper : a ∉ upper := fun hup =>
        (List.nodup_append.mp hst).2.2 a hmem a (List.mem_cons_of_mem t hup) rfl
      rw [List.erase_append_left _ hmem, List.erase_of_not_mem hupper]
    · rw [List.erase_append_right _ hmem, List.erase_cons_tail (by simpa using ha.symm),
        List.erase_of_not_mem hmem]
  refine ⟨by rw [moveTo_zero, herase], ?_⟩
  have hheight : heightIn (a :: (lower.erase a ++ t :: upper.erase a)) a (lower.erase a).length =
      (lower.erase a).length := by
    rw [heightIn, if_pos List.mem_cons_self, List.length_cons, List.length_append, List.length_cons]
    omega
  rw [moveTo_eq, hheight, List.erase_cons_head, insertIdx_append]

/-! ## The layers of the stack -/

/-- The height of a layer. -/
theorem Sound.getHeight_eq (h : m.Sound) (hl : m.findLayer id = some l)
    (hst : m.layerStack = lower ++ l.addr :: upper) : m.getHeight id = .ok lower.length := by
  obtain ⟨ls, hls, hmap, hfound⟩ := h.stackLayers_found
  rw [hst] at hmap
  obtain ⟨ls₁, ls₂, rfl, rfl, hls₂⟩ := List.map_eq_append_iff.mp hmap
  obtain ⟨l', ls₃, rfl, hl', -⟩ := List.map_eq_cons_iff.mp hls₂
  have hid : ∀ x ∈ ls₁ ++ l' :: ls₃, x.id = id → x = l := by
    intro x hx heq
    have hx := hfound x hx
    rw [heq, hl] at hx
    exact (Option.some.inj hx).symm
  have hsame : l' = l :=
    h.addr l' (findLayer_mem (hfound l' (by simp))).1 l (findLayer_mem hl).1 hl'
  have hbefore : ls₁.findIdx? (fun x => decide (x.id = id)) = none := by
    rw [List.findIdx?_eq_none_iff]
    intro x hx
    refine decide_eq_false fun heq => ?_
    have haddr : x.addr = l.addr := congrArg Layer.addr (hid x (List.mem_append_left _ hx) heq)
    have honce := h.once
    rw [hst] at honce
    exact (List.nodup_append.mp honce).2.2 x.addr (List.mem_map_of_mem hx) l.addr
      List.mem_cons_self haddr
  have hat : (ls₁ ++ l' :: ls₃).findIdx? (fun x => decide (x.id = id)) = some ls₁.length := by
    rw [List.findIdx?_append, hbefore]
    simp [List.findIdx?_cons, hsame, (findLayer_mem hl).2]
  rw [LayerManager.getHeight, hls, Except.map, hat, List.length_map]

end LayerManager

/-! ## Calls -/

/-- A call of `layer_manager` or `active_layer`. -/
inductive StackCall where
  | newLayer (window : Shape) (pos : Vector2D) (draggable : Bool)
  | upDown (id : UInt32) (newHeight : Int)
  | hide (id : UInt32)
  | removeLayer (id : UInt32)
  | setMouseLayer (id : UInt32)
  | activate (id : UInt32)

namespace WindowManager

open LayerManager

variable {s s' : WindowManager} {id : UInt32} {l top : Layer Shape} {lower upper : List Nat}

def call (s : WindowManager) : StackCall → Except Fault WindowManager
  | .newLayer window pos draggable =>
      .ok { s with manager := (s.manager.newLayer window pos draggable).1 }
  | .upDown id newHeight => (s.manager.upDown id newHeight).map fun m => { s with manager := m }
  | .hide id => .ok { s with manager := s.manager.hide id }
  | .removeLayer id => .ok { s with manager := s.manager.removeLayer id }
  | .setMouseLayer id => .ok { s with mouseLayer := id }
  | .activate id => s.activate id

/-- The layers that are moved exist, and the active layer is not removed. -/
def Admits (s : WindowManager) : StackCall → Prop
  | .upDown id _ => s.manager.Has id
  | .hide id => s.manager.Has id
  | .removeLayer id => id ≠ s.activeLayer
  | .activate id => id = 0 ∨ s.manager.Has id
  | _ => True

/-- Any calls, from an empty stack on. -/
inductive Stacked : WindowManager → Prop where
  | start {s : WindowManager} : s.manager = ⟨[], [], 0, 0⟩ → s.activeLayer = 0 → Stacked s
  | call {s s' : WindowManager} (c : StackCall) : Stacked s → s.Admits c → s.call c = .ok s' →
      Stacked s'

/-- The stack is in order, and so are the moves. -/
structure Ordered (s : WindowManager) : Prop where
  once : s.manager.layerStack.Nodup
  exist : ∀ a ∈ s.manager.layerStack, ∃ l ∈ s.manager.layers, l.addr = a
  up : ∀ id l h, s.manager.findLayer id = some l → 0 ≤ h → ∃ m',
    s.manager.upDown id h = .ok m' ∧
    m'.layerStack[if l.addr ∈ s.manager.layerStack then
        min h.toNat (s.manager.layerStack.length - 1)
      else min h.toNat s.manager.layerStack.length]? = some l.addr ∧
    m'.layerStack.erase l.addr = s.manager.layerStack.erase l.addr
  down : ∀ id l h, s.manager.findLayer id = some l → h < 0 → ∃ m',
    s.manager.upDown id h = .ok m' ∧ l.addr ∉ m'.layerStack ∧
    m'.layerStack = s.manager.layerStack.erase l.addr
  activate : ∀ id l top lower upper, 0 < id → id ≠ s.activeLayer → id ≠ s.mouseLayer →
    s.manager.findLayer id = some l → s.manager.findLayer s.mouseLayer = some top →
    s.manager.layerStack = lower ++ top.addr :: upper → ∃ s', s.activate id = .ok s' ∧
      s'.manager.layerStack = lower.erase l.addr ++ l.addr :: top.addr :: upper.erase l.addr

/-- What the calls keep. -/
structure StackInv (s : WindowManager) : Prop where
  sound : s.manager.Sound
  active : s.activeLayer = 0 ∨ s.manager.Has s.activeLayer

/-- **A call** goes through. -/
theorem StackInv.call {c : StackCall} (h : s.StackInv) (hc : s.Admits c) :
    ∃ s', s.call c = .ok s' ∧ s'.StackInv := by
  cases c with
  | newLayer window pos draggable =>
      exact ⟨_, rfl, h.sound.newLayer window pos draggable,
        h.active.imp_right fun hhas => (has_newLayer window pos draggable).mpr (.inl hhas)⟩
  | upDown id newHeight =>
      obtain ⟨m', hm', hk⟩ := h.sound.upDown hc newHeight
      refine ⟨{ s with manager := m' }, ?_, hk.sound, h.active.imp_right (hk.has _).mpr⟩
      rw [WindowManager.call, hm']
      rfl
  | hide id =>
      have hk := h.sound.hide id
      exact ⟨_, rfl, hk.sound, h.active.imp_right (hk.has _).mpr⟩
  | removeLayer id =>
      exact ⟨_, rfl, h.sound.removeLayer id,
        h.active.imp_right fun hhas => has_removeLayer.mpr ⟨hhas, hc.symm⟩⟩
  | setMouseLayer id => exact ⟨_, rfl, h.sound, h.active⟩
  | activate id =>
      obtain ⟨m', hm', hk⟩ := activate_ok h.sound h.active hc
      exact ⟨_, hm', hk.sound, hc.imp_right (hk.has id).mpr⟩

theorem Stacked.inv (h : s.Stacked) : s.StackInv := by
  induction h with
  | @start s hm hactive =>
      refine ⟨?_, .inl hactive⟩
      rw [hm]
      exact ⟨.nil, fun a ha => (List.not_mem_nil ha).elim, fun l hl => (List.not_mem_nil hl).elim,
        fun l hl => (List.not_mem_nil hl).elim⟩
  | call c _ hc hs' ih =>
      obtain ⟨s', hok, hinv⟩ := ih.call hc
      rw [hs'] at hok
      cases hok
      exact hinv

/-- **`Activate`**, with the mouse in the stack. -/
theorem StackInv.activate_stack (h : s.StackInv) (hpos : 0 < id) (hactive : id ≠ s.activeLayer)
    (hmouse : id ≠ s.mouseLayer) (hl : s.manager.findLayer id = some l)
    (htop : s.manager.findLayer s.mouseLayer = some top)
    (hst : s.manager.layerStack = lower ++ top.addr :: upper) :
    ∃ s', s.activate id = .ok s' ∧ s'.manager.layerStack =
      lower.erase l.addr ++ l.addr :: top.addr :: upper.erase l.addr := by
  have hne : l.addr ≠ top.addr := fun heq => by
    have hsame := h.sound.addr l (findLayer_mem hl).1 top (findLayer_mem htop).1 heq
    rw [← (findLayer_mem hl).2, hsame, (findLayer_mem htop).2] at hmouse
    exact hmouse rfl
  have honce := h.sound.once
  rw [hst] at honce
  obtain ⟨hbottom, hbelow⟩ := moveTo_below honce hne
  rw [← hst] at hbottom
  have hhas : s.manager.Has id := Option.isSome_of_eq_some hl
  obtain ⟨ls, hls⟩ := deactivateActive_ok h.sound h.active
  -- to the bottom
  obtain ⟨m₁, hm₁, hk₁⟩ := h.sound.upDown hhas 0
  have hup₁ : s.manager.upDown id 0 =
      .ok { s.manager with layerStack := moveTo s.manager.layerStack l.addr 0 } := by
    rw [LayerManager.upDown, hl]
    rfl
  rw [hup₁] at hm₁
  cases hm₁
  have hstack : moveTo s.manager.layerStack l.addr 0 =
      (l.addr :: lower.erase l.addr) ++ top.addr :: upper.erase l.addr := hbottom
  have hheight := hk₁.sound.getHeight_eq (l := top) htop hstack
  -- and to the mouse
  have hint : ((l.addr :: lower.erase l.addr).length : Int) - 1 =
      ((lower.erase l.addr).length : Int) := by
    rw [List.length_cons]
    omega
  have hkept : ∀ st, LayerManager.findLayer { s.manager with layerStack := st } id = some l :=
    fun _ => hl
  obtain ⟨m₂, hm₂, hk₂⟩ := hk₁.sound.upDown ((hk₁.has id).mpr hhas)
    ((lower.erase l.addr).length : Int)
  have hup₂ : LayerManager.upDown { s.manager with
        layerStack := moveTo s.manager.layerStack l.addr 0 } id (lower.erase l.addr).length =
      .ok { s.manager with
        layerStack := lower.erase l.addr ++ l.addr :: top.addr :: upper.erase l.addr } := by
    rw [hbottom, LayerManager.upDown, if_neg (by omega), hkept, ← hbelow, Int.toNat_natCast]
  rw [hup₂] at hm₂
  cases hm₂
  obtain ⟨ls₂, hls₂, -⟩ := hk₂.sound.stackLayers
  refine ⟨{ s with
    manager := { s.manager with
      layerStack := lower.erase l.addr ++ l.addr :: top.addr :: upper.erase l.addr }
    activeLayer := id }, ?_, rfl⟩
  rw [WindowManager.activate, if_neg hactive.symm, hls]
  show s.activateNext id = _
  rw [activateNext, if_pos hpos, hl]
  simp only [hup₁, hheight, hint, hup₂, hls₂, bind, Except.bind, pure, Except.pure]

/-- **The stack stays in order**, and no call fails. -/
theorem stack_ordered (h : s.Stacked) :
    s.Ordered ∧ ∀ c, s.Admits c → ∃ s', s.call c = .ok s' := by
  have hinv := h.inv
  refine ⟨?_, fun c hc => ?_⟩
  · exact {
      once := hinv.sound.once
      exist := fun a ha => by
        obtain ⟨l, hl, rfl⟩ := hinv.sound.front a ha
        exact ⟨l, (findLayer_mem hl).1, rfl⟩
      up := fun id l h hl hh => by
        refine ⟨{ s.manager with layerStack := moveTo s.manager.layerStack l.addr h.toNat }, ?_,
          moveTo_getElem _ _ _, moveTo_erase hinv.sound.once _ _⟩
        rw [LayerManager.upDown, if_neg (Int.not_lt.mpr hh), hl]
      down := fun id l h hl hh => by
        refine ⟨{ s.manager with layerStack := s.manager.layerStack.erase l.addr }, ?_,
          hinv.sound.once.not_mem_erase, rfl⟩
        rw [LayerManager.upDown, if_pos hh, hide, hl]
      activate := fun id l top lower upper hpos hactive hmouse hl htop hst =>
        hinv.activate_stack hpos hactive hmouse hl htop hst }
  · obtain ⟨s', hs', -⟩ := hinv.call hc
    exact ⟨s', hs'⟩

/-- A window, and the mouse above it. -/
def windowAndMouse : WindowManager where
  manager := ⟨[⟨0, 1, ⟨0, 0⟩, ⟨⟨9, 9⟩, false⟩, true⟩, ⟨1, 2, ⟨0, 0⟩, ⟨⟨5, 5⟩, false⟩, false⟩],
    [0, 1], 2, 2⟩
  activeLayer := 0
  mouseLayer := 2
  screenSize := ⟨80, 60⟩
  position := ⟨0, 0⟩
  dragLayerId := 0
  previousButtons := 0

theorem stack_ordered_two :
    windowAndMouse.Ordered ∧
      ∀ c, windowAndMouse.Admits c → ∃ s', windowAndMouse.call c = .ok s' := by
  have hstart : Stacked ⟨⟨[], [], 0, 0⟩, 0, 0, ⟨80, 60⟩, ⟨0, 0⟩, 0, 0⟩ := .start rfl rfl
  have hwindow := hstart.call (.newLayer ⟨⟨9, 9⟩, false⟩ ⟨0, 0⟩ true) trivial rfl
  have hmouse := hwindow.call (.newLayer ⟨⟨5, 5⟩, false⟩ ⟨0, 0⟩ false) trivial rfl
  have hset := hmouse.call (.setMouseLayer 2) trivial rfl
  have hshown := hset.call (.upDown 1 0) rfl rfl
  exact stack_ordered (hshown.call (.upDown 2 2147483647) rfl rfl)

end WindowManager

end Laplus.Graphics
