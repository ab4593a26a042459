/-
# `Laplus.Graphics.Layer` — the layer stack

`layer.cpp`.  The manager owns its layers, which are found by id, and holds the
stack as pointers to them, the lowest first.  Every `NewLayer` is followed in the
same expression by `SetWindow`, so a layer is made with its window.
-/
import Mathlib.Data.List.InsertIdx
import Mathlib.Data.List.Nodup
import Laplus.Graphics.Window

namespace Laplus.Graphics

open Lib

/-! ## Layers and their manager -/

/-- `Layer`, and where it was allocated. -/
structure Layer (ω : Type*) where
  addr : Nat
  id : UInt32
  pos : Vector2D
  window : ω
  draggable : Bool

/-- `LayerManager`, but for what is drawn. -/
structure LayerManager (ω : Type*) where
  layers : List (Layer ω)
  /-- `layer_stack_`: where each layer was allocated. -/
  layerStack : List Nat
  latestId : UInt32
  /-- How many layers have been allocated. -/
  allocated : Nat

namespace LayerManager

variable {ω : Type*} (m : LayerManager ω)

/-- `LayerManager::NewLayer`, with what its callers set. -/
def newLayer (window : ω) (pos : Vector2D) (draggable : Bool) : LayerManager ω × UInt32 :=
  let id := m.latestId + 1
  ({ m with
      layers := m.layers ++ [⟨m.allocated, id, pos, window, draggable⟩]
      latestId := id
      allocated := m.allocated + 1 }, id)

/-- `LayerManager::FindLayer`. -/
def findLayer (id : UInt32) : Option (Layer ω) := m.layers.find? fun l => l.id = id

/-- What a pointer of the stack points to. -/
def deref (addr : Nat) : Except Fault (Layer ω) :=
  match m.layers.find? fun l => l.addr = addr with
  | none => .error .staleLayer
  | some l => .ok l

/-- The layers that are shown, from the lowest to the topmost. -/
def stackLayers : Except Fault (List (Layer ω)) := m.layerStack.mapM m.deref

/-- The layer at an address after a method call on it, and the others as they are. -/
def patch (addr : Nat) (f : Layer ω → Layer ω) (l : Layer ω) : Layer ω :=
  if l.addr = addr then f l else l

/-- The layers after a method call on one of them. -/
def modify (addr : Nat) (f : Layer ω → Layer ω) : LayerManager ω :=
  { m with layers := m.layers.map (patch addr f) }

/-- `LayerManager::Hide`. -/
def hide (id : UInt32) : LayerManager ω :=
  match m.findLayer id with
  | none => m
  | some l => { m with layerStack := m.layerStack.erase l.addr }

/-- `LayerManager::RemoveLayer`. -/
def removeLayer (id : UInt32) : LayerManager ω :=
  let m := m.hide id
  { m with layers := m.layers.filter fun l => l.id ≠ id }

/-- Where `UpDown` puts a layer in the stack. -/
def moveTo (stack : List Nat) (addr : Nat) (newHeight : Nat) : List Nat :=
  let newHeight := min newHeight stack.length
  if addr ∉ stack then stack.insertIdx newHeight addr
  else
    (stack.erase addr).insertIdx (if newHeight = stack.length then newHeight - 1 else newHeight)
      addr

/-- `LayerManager::UpDown`.  Where the layer does not exist a null pointer would go on the stack. -/
def upDown (id : UInt32) (newHeight : Int) : Except Fault (LayerManager ω) :=
  if newHeight < 0 then .ok (m.hide id)
  else
    match m.findLayer id with
    | none => .error .nullLayer
    | some l => .ok { m with layerStack := moveTo m.layerStack l.addr newHeight.toNat }

/-- `LayerManager::GetHeight`. -/
def getHeight (id : UInt32) : Except Fault Int :=
  m.stackLayers.map fun ls => match ls.findIdx? fun l => l.id = id with
    | none => -1
    | some h => h

/-! ### What the stack holds -/

/-- The layers with other ids. -/
def without (id : UInt32) (ls : List (Layer ω)) : List (Layer ω) := ls.filter fun l => l.id ≠ id

/-- The manager shows these layers: each of them exists, and layers are told apart by where they
are allocated and by their ids. -/
structure Holds (ls : List (Layer ω)) : Prop where
  stack : m.layerStack = ls.map Layer.addr
  mem : ∀ l ∈ ls, l ∈ m.layers
  once : m.layerStack.Nodup
  addr : ∀ l ∈ m.layers, ∀ l' ∈ m.layers, l.addr = l'.addr → l = l'
  id : ∀ l ∈ m.layers, ∀ l' ∈ m.layers, l.id = l'.id → l = l'

variable {m} {ls j k : List (Layer ω)} {l : Layer ω} {f : Layer ω → Layer ω} {id : UInt32}

theorem mem_without : l ∈ without id ls ↔ l ∈ ls ∧ l.id ≠ id := by
  rw [without, List.mem_filter, decide_eq_true_iff]

theorem without_concat (h : l.id ≠ id) : without id (ls ++ [l]) = without id ls ++ [l] := by
  rw [without, List.filter_append, List.filter_cons_of_pos (by simpa using h), List.filter_nil,
    without]

/-- A layer is found by what tells it apart. -/
theorem find_key {κ : Type*} [DecidableEq κ] {key : Layer ω → κ} {L : List (Layer ω)}
    (hkey : ∀ l ∈ L, ∀ l' ∈ L, key l = key l' → l = l') (hl : l ∈ L) :
    (L.find? fun l' => key l' = key l) = some l := by
  obtain ⟨l', hl'⟩ := Option.isSome_iff_exists.mp
    (List.find?_isSome (p := fun l' => decide (key l' = key l)).mpr ⟨l, hl, decide_eq_true rfl⟩)
  have heq : key l' = key l := by simpa using List.find?_some hl'
  rw [hl', hkey l' (List.mem_of_find?_eq_some hl') l hl heq]

theorem patch_addr {a : Nat} (haddr : ∀ l, (f l).addr = l.addr) (l : Layer ω) :
    (patch a f l).addr = l.addr := by
  unfold patch
  split
  · exact haddr l
  · rfl

theorem patch_id {a : Nat} (hid : ∀ l, (f l).id = l.id) (l : Layer ω) :
    (patch a f l).id = l.id := by
  unfold patch
  split
  · exact hid l
  · rfl

/-- Only one of the layers has its address. -/
theorem map_patch (haddr : ((j ++ l :: k).map Layer.addr).Nodup) :
    (j ++ l :: k).map (patch l.addr f) = j ++ f l :: k := by
  rw [List.map_append, List.map_cons, List.nodup_append, List.nodup_cons] at haddr
  obtain ⟨-, ⟨hk, -⟩, hj⟩ := haddr
  have hother {i : List (Layer ω)} (hi : ∀ l' ∈ i, l'.addr ≠ l.addr) :
      i.map (patch l.addr f) = i :=
    (List.map_congr_left fun l' hl' => if_neg (hi l' hl')).trans (List.map_id' i)
  rw [List.map_append, List.map_cons, patch, if_pos rfl,
    hother fun l' hl' => hj _ (List.mem_map_of_mem hl') _ List.mem_cons_self,
    hother fun l' hl' heq => hk (heq ▸ List.mem_map_of_mem hl')]

@[simp] theorem moveTo_zero (s : List Nat) (a : Nat) : moveTo s a 0 = a :: s.erase a := by
  rw [moveTo, Nat.zero_min]
  split
  · rename_i ha
    rw [List.erase_of_not_mem ha, List.insertIdx_zero]
  · split <;> exact List.insertIdx_zero

theorem insertIdx_append (s t : List Nat) (a : Nat) :
    (s ++ t).insertIdx s.length a = s ++ a :: t := by
  induction s with
  | nil => exact List.insertIdx_zero
  | cons b s ih => exact congrArg (b :: ·) ih

theorem moveTo_under (a : Nat) (s : List Nat) (t : Nat) :
    moveTo (a :: s ++ [t]) a s.length = s ++ [a, t] := by
  have hlen : min s.length (a :: s ++ [t]).length = s.length := by
    simp only [List.length_append, List.length_cons]
    omega
  rw [moveTo, hlen, if_neg (by simp), List.cons_append, List.erase_cons_head, if_neg]
  · exact insertIdx_append s [t] a
  · simp only [List.length_append, List.length_cons]
    omega

theorem findLayer_mem (h : m.findLayer id = some l) : l ∈ m.layers ∧ l.id = id := by
  refine ⟨List.mem_of_find?_eq_some h, ?_⟩
  simpa using List.find?_some (p := fun l : Layer ω => decide (l.id = id)) h

/-- The stack only fails on a pointer to a layer that has been freed. -/
theorem stackLayers_error {e : Fault} (h : m.stackLayers = .error e) : e = .staleLayer := by
  have hall : ∀ s : List Nat, s.mapM m.deref = .error e → e = .staleLayer := by
    intro s
    induction s with
    | nil =>
      intro hs
      cases hs
    | cons a s ih =>
      intro hs
      rw [List.mapM_cons] at hs
      cases ha : m.deref a with
      | error e' =>
        rw [ha] at hs
        unfold deref at ha
        split at ha
        · cases ha
          cases hs
          rfl
        · cases ha
      | ok l =>
        cases hrest : s.mapM m.deref with
        | error e' =>
          rw [ha, hrest] at hs
          cases hs
          exact ih hrest
        | ok ls =>
          rw [ha, hrest] at hs
          cases hs
  exact hall m.layerStack h

namespace Holds

theorem find (h : m.Holds ls) (hl : l ∈ m.layers) : m.findLayer l.id = some l :=
  find_key h.id hl

theorem deref (h : m.Holds ls) (hl : l ∈ m.layers) : m.deref l.addr = .ok l := by
  rw [LayerManager.deref, find_key h.addr hl]

theorem stackLayers (h : m.Holds ls) : m.stackLayers = .ok ls := by
  have hall : ∀ k : List (Layer ω), (∀ l ∈ k, l ∈ m.layers) →
      (k.map Layer.addr).mapM m.deref = .ok k := by
    intro k hk
    induction k with
    | nil => rfl
    | cons l k ih =>
      rw [List.map_cons, List.mapM_cons, h.deref (hk l List.mem_cons_self),
        ih fun l' hl' => hk l' (List.mem_cons_of_mem l hl')]
      rfl
  rw [LayerManager.stackLayers, h.stack]
  exact hall ls h.mem

/-- A method call that leaves a layer where it is allocated, and its id. -/
theorem modify (h : m.Holds ls) (a : Nat) (haddr : ∀ l, (f l).addr = l.addr)
    (hid : ∀ l, (f l).id = l.id) : (m.modify a f).Holds (ls.map (patch a f)) where
  stack := by
    rw [List.map_map]
    exact h.stack.trans (List.map_congr_left fun l _ => (patch_addr haddr l).symm)
  mem l hl := by
    obtain ⟨l₀, hl₀, rfl⟩ := List.mem_map.mp hl
    exact List.mem_map_of_mem (h.mem l₀ hl₀)
  once := h.once
  addr l hl l' hl' heq := by
    obtain ⟨a₀, ha₀, rfl⟩ := List.mem_map.mp hl
    obtain ⟨b₀, hb₀, rfl⟩ := List.mem_map.mp hl'
    rw [patch_addr haddr, patch_addr haddr] at heq
    rw [h.addr a₀ ha₀ b₀ hb₀ heq]
  id l hl l' hl' heq := by
    obtain ⟨a₀, ha₀, rfl⟩ := List.mem_map.mp hl
    obtain ⟨b₀, hb₀, rfl⟩ := List.mem_map.mp hl'
    rw [patch_id hid, patch_id hid] at heq
    rw [h.id a₀ ha₀ b₀ hb₀ heq]

theorem addrs_nodup (h : m.Holds ls) : (ls.map Layer.addr).Nodup := h.stack ▸ h.once

/-- The other shown layers are as they were. -/
theorem without_patch (h : m.Holds ls) (hl : l ∈ m.layers) (hid : ∀ l, (f l).id = l.id) :
    without l.id (ls.map (patch l.addr f)) = without l.id ls := by
  have hcomp : ((fun l' : Layer ω => decide (l'.id ≠ l.id)) ∘ patch l.addr f) =
      fun l' => decide (l'.id ≠ l.id) := by
    funext l'
    rw [Function.comp_apply, patch_id hid]
  rw [without, List.filter_map, hcomp, ← without]
  refine (List.map_congr_left fun l' hl' => if_neg fun heq => ?_).trans (List.map_id' _)
  obtain ⟨hl', hne⟩ := mem_without.mp hl'
  exact hne (congrArg Layer.id (h.addr l' (h.mem l' hl') l hl heq))

/-- The stack without one layer. -/
theorem erase_addr (h : m.Holds ls) (hl : l ∈ m.layers) :
    m.layerStack.erase l.addr = (without l.id ls).map Layer.addr := by
  rw [h.once.erase_eq_filter, h.stack, List.filter_map, without]
  refine congrArg _ (List.filter_congr fun l' hl' => ?_)
  have hiff : l'.addr ≠ l.addr ↔ l'.id ≠ l.id := not_congr
    ⟨fun heq => by rw [h.addr l' (h.mem l' hl') l hl heq],
      fun heq => by rw [h.id l' (h.mem l' hl') l hl heq]⟩
  rw [Bool.eq_iff_iff]
  simpa using hiff

/-- A layer that is removed leaves the others where they are. -/
theorem removeLayer (h : m.Holds ls) (hl : l ∈ m.layers) :
    (m.removeLayer l.id).Holds (without l.id ls) := by
  have hhide : m.hide l.id = { m with layerStack := m.layerStack.erase l.addr } := by
    rw [LayerManager.hide, h.find hl]
  rw [LayerManager.removeLayer, hhide]
  exact {
    stack := h.erase_addr hl
    mem := fun l' hl' => mem_without.mpr ⟨h.mem l' (mem_without.mp hl').1, (mem_without.mp hl').2⟩
    once := h.once.erase l.addr
    addr := fun a ha b hb => h.addr a (List.mem_filter.mp ha).1 b (List.mem_filter.mp hb).1
    id := fun a ha b hb => h.id a (List.mem_filter.mp ha).1 b (List.mem_filter.mp hb).1 }

/-- To the bottom of the stack. -/
theorem upDown_zero (h : m.Holds ls) (hl : l ∈ m.layers) :
    ∃ m', m.upDown l.id 0 = .ok m' ∧ m'.layers = m.layers ∧ m'.Holds (l :: without l.id ls) := by
  refine ⟨{ m with layerStack := moveTo m.layerStack l.addr 0 }, ?_, rfl, ?_⟩
  · rw [LayerManager.upDown, h.find hl]
    rfl
  · have hstack : moveTo m.layerStack l.addr 0 = (l :: without l.id ls).map Layer.addr := by
      rw [moveTo_zero, h.erase_addr hl, List.map_cons]
    refine ⟨hstack, fun l' hl' => ?_, ?_, h.addr, h.id⟩
    · rcases List.mem_cons.mp hl' with rfl | hl'
      · exact hl
      · exact h.mem l' (mem_without.mp hl').1
    · rw [moveTo_zero]
      exact List.nodup_cons.mpr ⟨h.once.not_mem_erase, h.once.erase _⟩

/-- From the bottom of the stack to just under its topmost layer. -/
theorem upDown_under {top : Layer ω} (h : m.Holds (l :: ls ++ [top])) :
    ∃ m', m.upDown l.id ls.length = .ok m' ∧ m'.layers = m.layers ∧ m'.Holds (ls ++ [l, top]) := by
  have hl : l ∈ m.layers := h.mem l (by simp)
  refine ⟨{ m with layerStack := moveTo m.layerStack l.addr ls.length }, ?_, rfl, ?_⟩
  · rw [LayerManager.upDown, h.find hl, if_neg (by omega)]
    rfl
  · have hperm : (ls ++ [l, top]).Perm (l :: ls ++ [top]) := by
      rw [List.cons_append]
      exact List.perm_middle
    have hstack : moveTo m.layerStack l.addr ls.length = (ls ++ [l, top]).map Layer.addr := by
      rw [h.stack, List.cons_append, List.map_cons, List.map_append, List.map_singleton,
        List.map_append]
      simpa using moveTo_under l.addr (ls.map Layer.addr) top.addr
    refine ⟨hstack, fun l' hl' => h.mem l' (hperm.mem_iff.mp hl'), ?_, h.addr, h.id⟩
    rw [hstack]
    exact (hperm.map Layer.addr).nodup_iff.mpr (h.stack ▸ h.once)

/-- Two shown layers have two ids. -/
theorem ids_nodup (h : m.Holds ls) : (ls.map Layer.id).Nodup := by
  refine (List.nodup_map_iff_inj_on h.addrs_nodup.of_map).mpr fun l hl l' hl' heq => ?_
  exact h.id l (h.mem l hl) l' (h.mem l' hl') heq

/-- The height of the topmost layer. -/
theorem getHeight_top {top : Layer ω} (h : m.Holds (ls ++ [top])) :
    m.getHeight top.id = .ok ls.length := by
  have hids := h.ids_nodup
  rw [List.map_append, List.map_singleton, List.nodup_append] at hids
  have hne : ls.findIdx? (fun l => decide (l.id = top.id)) = none := by
    rw [List.findIdx?_eq_none_iff]
    intro l hl
    exact decide_eq_false (hids.2.2 l.id (List.mem_map_of_mem hl) top.id (by simp))
  have hfind : (ls ++ [top]).findIdx? (fun l => decide (l.id = top.id)) = some ls.length := by
    rw [List.findIdx?_append, hne]
    simp
  rw [LayerManager.getHeight, h.stackLayers, Except.map, hfind]

end Holds

end LayerManager

end Laplus.Graphics
