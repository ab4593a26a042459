/-
# `Laplus.Usb.Keyboard` — from a report to a window (`classdriver/keyboard.cpp`, `keyboard.cpp`, `main.cpp`)

A report of a keyboard lists the keys that are down.  `OnDataReceived` compares it with the last
one and calls its observers for every key that differs; the observer sends task 1 a message, and
task 1 hands it to the window that is active by then.

So each press and each release is handled once, in its order, and for one key they alternate,
however the reports, the words of a `Push`, the events and the messages are mixed.
-/
import Laplus.Lib.Changes
import Laplus.Timers.Blink
import Laplus.Usb.Hid

namespace Laplus.Usb

open Lib Xhci

/-! ## `HIDKeyboardDriver` -/

/-- The arguments of `ObserverType`. -/
structure KeyNote where
  modifier : UInt8
  keycode : UInt8
  press : Bool
deriving DecidableEq

instance kBufferSize_neZero : NeZero kBufferSize := ⟨by decide⟩

/-- The bits of `prev` and `current`. -/
def keysOf (b : Buffer) (key : UInt8) : Bool :=
  (List.range' 2 6).any fun i => decide (b (Fin.ofNat kBufferSize i) = key)

/-- The keys of the loop. -/
def scanned : List UInt8 := (List.range' 1 255).map UInt8.ofNat

/-- `OnDataReceived`. -/
def keyboardReceived (buf previous_buf : Buffer) : List KeyNote :=
  scanned.filterMap fun key =>
    let changed := keysOf previous_buf key ^^ keysOf buf key
    let pressed := changed && keysOf buf key
    if changed then some ⟨buf 0, key, pressed⟩ else none

/-! ## `keyboard.cpp` -/

/-- Characters of a row. -/
def chars (s : String) : List UInt8 := s.toList.map fun c => UInt8.ofNat c.toNat

/-- Keys without a character. -/
def blank (n : Nat) : List UInt8 := List.replicate n 0

/-- `keycode_map`. -/
def keycodeMap : List UInt8 :=
  blank 4 ++ chars "abcdefghijklmnopqrstuvwxyz1234567890\n" ++ [8, 8] ++
    chars "\t -=[]\\#;'`,./" ++ blank 27 ++ chars "/*-+\n1234567890.\\" ++ blank 2 ++
    chars "=" ++ blank 33 ++ chars "\\"

/-- `keycode_map_shifted`. -/
def keycodeMapShifted : List UInt8 :=
  blank 4 ++ chars "ABCDEFGHIJKLMNOPQRSTUVWXYZ!@#$%^&*()\n" ++ [8, 8] ++
    chars "\t _+\x7b\x7d|~:\"~<>?" ++ blank 27 ++ chars "/*-+\n1234567890.\\" ++ blank 2 ++
    chars "=" ++ blank 33 ++ chars "|"

/-- `kLShiftBitMask | kRShiftBitMask`. -/
def kShiftBitMask : UInt8 := 0b00100010

/-- `ascii`, of the observer. -/
def asciiOf (modifier keycode : UInt8) : UInt8 :=
  if modifier &&& kShiftBitMask ≠ 0 then keycodeMapShifted.getD keycode.toNat 0
  else keycodeMap.getD keycode.toNat 0

/-- The message of `default_observer`. -/
def keyMessage (n : KeyNote) : Timers.Message :=
  .keyPush n.modifier n.keycode (asciiOf n.modifier n.keycode) n.press

example : keyMessage ⟨0x02, 4, true⟩ = .keyPush 0x02 4 65 true := by decide

/-! ## `KernelMain` -/

/-- What becomes of a key. -/
inductive Handled where
  | textWindow (c : UInt8)
  | released
  | newTerminal
  | task (id : Nat)
  | notHandled
deriving DecidableEq

/-- The pipe of a keyboard, the messages of task 1, `active_layer`, `text_window_layer_id` and
`layer_task_map`, and the keys that task 1 has handled. -/
structure KeyboardSystem where
  pipe : Pipe
  msgs : List Timers.Message
  active : UInt32
  textWindow : UInt32
  layerTask : UInt32 → Option Nat
  handled : List (Timers.Message × Handled)

/-- A step of the pipe, a message to task 1 that is not a key, a message that task 1 takes, and what
others do to the windows. -/
inductive KeyboardEvent where
  | pipe (e : PipeEvent)
  | message
  | receive
  | windows (active : UInt32) (layerTask : UInt32 → Option Nat)

/-- `Message::kKeyPush`. -/
def isKey : Timers.Message → Bool
  | .keyPush _ _ _ _ => true
  | _ => false

namespace KeyboardSystem

variable (s : KeyboardSystem)

/-- The case `kKeyPush`; 59 is F2. -/
def route (keycode ascii : UInt8) (press : Bool) : Handled :=
  if s.active = s.textWindow then if press then .textWindow ascii else .released
  else if press ∧ keycode = 59 then .newTerminal
  else
    match s.layerTask s.active with
    | some id => .task id
    | none => .notHandled

/-- A message is handled; one to task 1 itself would come back. -/
def handle (m : Timers.Message) : KeyboardSystem :=
  match m with
  | .keyPush _ keycode ascii press =>
      let h := s.route keycode ascii press
      { s with
        msgs := if h = .task 1 then s.msgs ++ [m] else s.msgs
        handled := s.handled ++ [(m, h)] }
  | _ => s

def step : KeyboardEvent → KeyboardSystem
  | .pipe e =>
      let r := s.pipe.step keyboardReceived e
      { s with pipe := r.1, msgs := s.msgs ++ r.2.map keyMessage }
  | .message => { s with msgs := s.msgs ++ [.other] }
  | .receive =>
      match s.msgs with
      | [] => s
      | m :: msgs => { s with msgs }.handle m
  | .windows active layerTask => { s with active, layerTask }

/-- `layer_task_map` has the tasks that open windows, and task 1 is not one of them. -/
def Admits : KeyboardSystem → KeyboardEvent → Prop
  | _, .windows _ layerTask => ∀ id, layerTask id ≠ some 1
  | _, _ => True

/-- The driver waits for its first request, and no window but that of task 1 is open. -/
def start (ringAddr bufAddr : BitVec 64) (d : HIDBaseDriver) (textWindow : UInt32) :
    KeyboardSystem where
  pipe := .start ringAddr bufAddr d
  msgs := []
  active := 0
  textWindow
  layerTask _ := none
  handled := []

/-- The keys, those that have been handled first. -/
def keys : List Timers.Message := s.handled.map Prod.fst ++ s.msgs.filter isKey

end KeyboardSystem

/-- Which key a message is about, and whether it went down. -/
def keyChange : Timers.Message → Option (UInt8 × Bool)
  | .keyPush _ keycode _ press => some (keycode, press)
  | _ => none

/-! ## The keys that are told -/

/-- The keys that are down; 0 is no key. -/
def held (b : Buffer) (key : UInt8) : Bool := decide (key ≠ 0) && keysOf b key

theorem mem_scanned {key : UInt8} : key ∈ scanned ↔ key ≠ 0 := by
  rw [scanned, List.mem_map]
  constructor
  · rintro ⟨n, hn, rfl⟩ hzero
    have hn := List.mem_range'_1.mp hn
    have hval := congrArg UInt8.toNat hzero
    rw [UInt8.toNat_ofNat', Nat.mod_eq_of_lt (by omega)] at hval
    have hval : n = 0 := hval
    omega
  · intro hkey
    have hpos : key.toNat ≠ 0 := fun hzero => hkey (UInt8.toNat_inj.mp hzero)
    have hlt := key.toNat_lt
    exact ⟨key.toNat, List.mem_range'_1.mpr (by omega), UInt8.ofNat_toNat⟩

theorem scanned_nodup : scanned.Nodup := by
  refine List.Nodup.map_on (fun m hm n hn heq => ?_) List.nodup_range'
  have hm := List.mem_range'_1.mp hm
  have hn := List.mem_range'_1.mp hn
  have hval := congrArg UInt8.toNat heq
  rwa [UInt8.toNat_ofNat', UInt8.toNat_ofNat', Nat.mod_eq_of_lt (by omega),
    Nat.mod_eq_of_lt (by omega)] at hval

theorem among_held (b : Buffer) : Among scanned (held b) := fun key h => by
  rw [held, Bool.and_eq_true, decide_eq_true_eq] at h
  exact mem_scanned.mpr h.1

/-- The calls of the observers are the changes. -/
theorem map_keyboardReceived (buf previous_buf : Buffer) :
    (keyboardReceived buf previous_buf).map (fun n => (n.keycode, n.press)) =
      changes scanned (held previous_buf) (held buf) := by
  have hheld : changes scanned (held previous_buf) (held buf) =
      changes scanned (keysOf previous_buf) (keysOf buf) := changes_congr fun key hkey => by
    have hkey := mem_scanned.mp hkey
    simp [held, hkey]
  rw [hheld, keyboardReceived]
  generalize scanned = keys
  induction keys with
  | nil => rfl
  | cons key keys ih =>
      rw [changes_cons, ← ih, List.filterMap_cons]
      cases keysOf previous_buf key <;> cases keysOf buf key <;> simp

/-- The buffer after each report. -/
def images (b : Buffer) : List (List UInt8) → List Buffer
  | [] => []
  | r :: rs => overlay b r :: images (overlay b r) rs

theorem map_notesOf (b : Buffer) (rs : List (List UInt8)) :
    (notesOf keyboardReceived b rs).map (fun n => (n.keycode, n.press)) =
      changesAll scanned (held b) ((images b rs).map held) := by
  induction rs generalizing b with
  | nil => rfl
  | cons r rs ih =>
      rw [notesOf, List.map_append, map_keyboardReceived, ih, images, List.map_cons, changesAll]

theorem getLastD_images (b : Buffer) (rs : List (List UInt8)) :
    ((images b rs).map held).getLastD (held b) = held (rs.foldl overlay b) := by
  induction rs generalizing b with
  | nil => rfl
  | cons r rs ih => rw [images, List.map_cons, List.getLastD_cons, ih, List.foldl_cons]

/-- **What the observers are told** after these reports. -/
theorem notesOf_spec (rs : List (List UInt8)) :
    let told := (notesOf keyboardReceived (fun _ => 0) rs).map fun n => (n.keycode, n.press)
    Flips (fun _ => false) told ∧ replay (fun _ => false) told = held (image rs) := by
  have hstart : (fun _ => false) = held fun _ => 0 := by
    funext key
    refine (Bool.eq_false_iff.mpr fun htrue => ?_).symm
    rw [held, Bool.and_eq_true, decide_eq_true_eq, keysOf, List.any_eq_true] at htrue
    obtain ⟨hkey, i, _, hi⟩ := htrue
    exact hkey (of_decide_eq_true hi).symm
  have hamong : ∀ s ∈ (images (fun _ => 0) rs).map held, Among scanned s := fun s hs => by
    obtain ⟨b, -, rfl⟩ := List.mem_map.mp hs
    exact among_held b
  intro told
  have hspec := changesAll_spec scanned_nodup (among_held fun _ => 0) hamong
  rw [← map_notesOf, getLastD_images] at hspec
  rw [hstart]
  exact hspec

/-! ## The keys that are handled -/

theorem keyChange_keyMessage (n : KeyNote) :
    keyChange (keyMessage n) = some (n.keycode, n.press) := rfl

theorem filterMap_keyMessage (ns : List KeyNote) :
    (ns.map keyMessage).filterMap keyChange = ns.map fun n => (n.keycode, n.press) := by
  rw [List.filterMap_map, ← List.filterMap_eq_map]
  rfl

theorem filter_keyMessage (ns : List KeyNote) :
    (ns.map keyMessage).filter isKey = ns.map keyMessage :=
  List.filter_eq_self.mpr fun m hm => by
    obtain ⟨n, -, rfl⟩ := List.mem_map.mp hm
    rfl

namespace KeyboardSystem

variable {s : KeyboardSystem}

/-- The keys that are handled or wait are those of the reports that the driver has looked at. -/
structure Inv (s : KeyboardSystem) : Prop where
  pipe : s.pipe.Inv 8
  others : ∀ id, s.layerTask id ≠ some 1
  keys : s.keys = (notesOf keyboardReceived (fun _ => 0) s.pipe.heard).map keyMessage

theorem Inv.start {d : HIDBaseDriver} (h : d.Reads 8) {ringAddr : BitVec 64}
    (haddr : ringAddr >>> 4 <<< 4 = ringAddr) (bufAddr : BitVec 64) (textWindow : UInt32) :
    (KeyboardSystem.start ringAddr bufAddr d textWindow).Inv where
  pipe := .start h (by decide) haddr bufAddr
  others _ := nofun
  keys := rfl

/-- No key comes back to task 1. -/
theorem Inv.route_ne (h : s.Inv) (keycode ascii : UInt8) (press : Bool) :
    s.route keycode ascii press ≠ .task 1 := by
  rw [route]
  split
  · split <;> nofun
  · split
    · nofun
    · cases htask : s.layerTask s.active with
      | none => nofun
      | some id =>
          intro heq
          cases heq
          exact h.others _ htask

theorem Inv.receive (h : s.Inv) : (s.step .receive).Inv := by
  rw [KeyboardSystem.step]
  cases hmsgs : s.msgs with
  | nil => exact h
  | cons m msgs =>
      have hkeys := h.keys
      rw [KeyboardSystem.keys, hmsgs, List.filter_cons] at hkeys
      cases m with
      | keyPush modifier keycode ascii press =>
          have hroute : ({ s with msgs } : KeyboardSystem).route keycode ascii press ≠ .task 1 :=
            h.route_ne keycode ascii press
          rw [isKey, if_pos rfl] at hkeys
          refine ⟨h.pipe, h.others, ?_⟩
          simp only [handle, if_neg hroute, KeyboardSystem.keys, List.map_append, List.append_assoc]
          exact hkeys
      | timerTimeout timeout value => exact ⟨h.pipe, h.others, hkeys⟩
      | mouse => exact ⟨h.pipe, h.others, hkeys⟩
      | windowClose => exact ⟨h.pipe, h.others, hkeys⟩
      | pipe data => exact ⟨h.pipe, h.others, hkeys⟩
      | other => exact ⟨h.pipe, h.others, hkeys⟩

theorem Inv.step (h : s.Inv) {e : KeyboardEvent} (he : s.Admits e) : (s.step e).Inv := by
  cases e with
  | pipe e =>
      have hgoes : Pipe.Goes keyboardReceived s.pipe 8 (e.Loses 8) _ := h.pipe.step e
      refine ⟨hgoes.inv, h.others, ?_⟩
      show s.handled.map Prod.fst ++
        (s.msgs ++ (s.pipe.step keyboardReceived e).2.map keyMessage).filter isKey =
          (notesOf keyboardReceived (fun _ => 0) (s.pipe.step keyboardReceived e).1.heard).map
            keyMessage
      rw [hgoes.notes, List.filter_append, filter_keyMessage, List.map_append, ← h.keys,
        KeyboardSystem.keys, List.append_assoc]
  | message =>
      refine ⟨h.pipe, h.others, ?_⟩
      show s.handled.map Prod.fst ++ (s.msgs ++ [Timers.Message.other]).filter isKey = _
      rw [List.filter_append]
      show _ ++ (_ ++ []) = _
      rw [List.append_nil]
      exact h.keys
  | receive => exact h.receive
  | windows active layerTask => exact ⟨h.pipe, he, h.keys⟩

/-- As long as no transfer fails there is a transaction. -/
theorem Inv.alive {es : List KeyboardEvent} (h : s.Inv)
    (hes : Guarded KeyboardSystem.step Admits s es)
    (hlost : ∀ e, .pipe e ∈ es → ¬ PipeEvent.Loses 8 e) (halive : s.pipe.Alive) :
    (run KeyboardSystem.step s es).pipe.Alive := by
  induction es generalizing s with
  | nil => exact halive
  | cons e es ih =>
      have hrest : ∀ e', .pipe e' ∈ es → ¬ PipeEvent.Loses 8 e' := fun e' he' =>
        hlost e' (List.mem_cons_of_mem e he')
      refine ih (h.step hes.1) hes.2 hrest ?_
      cases e with
      | pipe e =>
          have hgoes : Pipe.Goes keyboardReceived s.pipe 8 (e.Loses 8) _ := h.pipe.step e
          exact (hgoes.alive halive).resolve_right (hlost e List.mem_cons_self)
      | message => exact halive
      | receive =>
          have hsame : (s.step .receive).pipe = s.pipe := by
            rw [KeyboardSystem.step]
            cases s.msgs with
            | nil => rfl
            | cons m msgs => cases m <;> rfl
          rw [hsame]
          exact halive
      | windows active layerTask => exact halive

end KeyboardSystem

/-- **From the keyboard to the windows.**  Whatever the order of reports, words, events and
messages, and whatever happens to the windows: the keys that task 1 has handled or will handle are
the presses and releases of the reports that the driver has looked at, which are all but at most the
last.  Played back they say which keys are down, each key goes down and up by turns, and as long as
no transfer fails the next report is asked for. -/
theorem keyboard {configs : List EndpointConfig}
    (hep : ∃ c ∈ configs, c.ep_type = kInterrupt ∧ isIn c.ep_id = true) (interface_index : UInt8)
    {ringAddr : BitVec 64} (haddr : ringAddr >>> 4 <<< 4 = ringAddr) (bufAddr : BitVec 64)
    (textWindow : UInt32) (es : List KeyboardEvent)
    (hes : Guarded KeyboardSystem.step KeyboardSystem.Admits
      (.start ringAddr bufAddr ((HIDBaseDriver.new interface_index 8).SetEndpoint configs)
        textWindow) es) :
    let s := run KeyboardSystem.step
      (.start ringAddr bufAddr ((HIDBaseDriver.new interface_index 8).SetEndpoint configs)
        textWindow) es
    let told := s.keys.filterMap keyChange
    s.keys = (notesOf keyboardReceived (fun _ => 0) s.pipe.heard).map keyMessage ∧
      (s.pipe.heard = s.pipe.reports ∨ s.pipe.heard = s.pipe.reports.dropLast) ∧
      replay (fun _ => false) told = held (image s.pipe.heard) ∧
      (∀ key, List.IsChain (· ≠ ·) (false :: toldOf key told)) ∧
      ((∀ e, .pipe e ∈ es → ¬ PipeEvent.Loses 8 e) → s.pipe.Alive) := by
  intro s told
  have hreads := HIDBaseDriver.reads_setEndpoint interface_index 8 hep
  have hstart := KeyboardSystem.Inv.start hreads haddr bufAddr textWindow
  have hinv : s.Inv := inv_run KeyboardSystem.Inv (fun s e h he => h.step he) hstart hes
  have htold : told =
      (notesOf keyboardReceived (fun _ => 0) s.pipe.heard).map fun n => (n.keycode, n.press) := by
    rw [← filterMap_keyMessage, ← hinv.keys]
  obtain ⟨hflips, hreplay⟩ := notesOf_spec s.pipe.heard
  rw [← htold] at hflips hreplay
  refine ⟨hinv.keys, ?_, hreplay, fun key => hflips.alternate key, fun hlost =>
    hstart.alive hes hlost (.inl rfl)⟩
  rw [Pipe.heard]
  split
  · exact .inr rfl
  · exact .inl rfl

/-- `Push` writes its words, and the controller looks. -/
def pushed : List KeyboardEvent := List.replicate 4 (.pipe .word) ++ [.pipe .look]

/-- The terminal of task 3 is opened, and A is pressed and let go. -/
def shortTyping : List KeyboardEvent :=
  .pipe .controlCompleted :: pushed ++ .windows 7 (fun _ => some 3) ::
    .pipe (.answer [0, 0, 4, 0, 0, 0, 0, 0]) :: .pipe .processEvent :: pushed ++
    [.message, .receive, .receive, .pipe (.answer [0, 0, 0, 0, 0, 0, 0, 0]), .pipe .processEvent,
      .receive]

/-- The endpoint 1 IN of a keyboard. -/
def shortEndpoints : List EndpointConfig := [⟨3, 3, 8, 10⟩]

def shortKeyboard : KeyboardSystem :=
  .start 0x1000 0x2000 ((HIDBaseDriver.new 0 8).SetEndpoint shortEndpoints) 1

example : (run KeyboardSystem.step shortKeyboard shortTyping).handled =
    [(.keyPush 0 4 97 true, .task 3), (.keyPush 0 4 97 false, .task 3)] := by decide +kernel

theorem keyboard_short :
    let s := run KeyboardSystem.step shortKeyboard shortTyping
    let told := s.keys.filterMap keyChange
    s.keys = (notesOf keyboardReceived (fun _ => 0) s.pipe.heard).map keyMessage ∧
      (s.pipe.heard = s.pipe.reports ∨ s.pipe.heard = s.pipe.reports.dropLast) ∧
      replay (fun _ => false) told = held (image s.pipe.heard) ∧
      (∀ key, List.IsChain (· ≠ ·) (false :: toldOf key told)) ∧
      ((∀ e, .pipe e ∈ shortTyping → ¬ PipeEvent.Loses 8 e) → s.pipe.Alive) := by
  have hep : ∃ c ∈ shortEndpoints, c.ep_type = kInterrupt ∧ isIn c.ep_id = true :=
    ⟨_, List.mem_cons_self, by decide, by decide⟩
  have haddr : (0x1000 : BitVec 64) >>> 4 <<< 4 = 0x1000 := by decide
  have hes : Guarded KeyboardSystem.step KeyboardSystem.Admits shortKeyboard shortTyping := by
    simp [shortTyping, pushed, KeyboardSystem.Admits]
  unfold shortKeyboard at hes ⊢
  exact keyboard hep 0 haddr 0x2000 1 shortTyping hes

end Laplus.Usb
