/-
# `Laplus.Usb.Hid` — the interrupt pipe of a HID driver (`classdriver/hid.cpp`, `xhci/device.cpp`)

The driver gives the controller one transaction at a time, with its own buffer; the controller
takes it when it looks at the ring, stores what the device answers, and reports.  The driver looks
at the report, copies it, and pushes the next transaction.

So there is one transaction, and it is in one place (`Stage`).  The buffer is written only while
the controller has it, and what the driver compares are this report and the last one.
-/
import Laplus.Usb.Descriptor
import Laplus.Xhci.Control

namespace Laplus.Usb

open Lib Xhci

/-! ## `HIDBaseDriver` -/

/-- `kBufferSize`. -/
def kBufferSize : Nat := 1024

/-- `buf_` and `previous_buf_`. -/
abbrev Buffer := Fin kBufferSize → UInt8

/-- `HIDBaseDriver`. -/
structure HIDBaseDriver where
  ep_interrupt_in : UInt8
  ep_interrupt_out : UInt8
  interface_index : UInt8
  in_packet_size : Nat
  initialize_phase : Nat
  buf : Buffer
  previous_buf : Buffer

/-- What a class driver asks of its device. -/
inductive Transaction where
  | controlOut (setup_data : SetupData)
  | normalIn (ep_id : UInt8) (len : Nat)
deriving DecidableEq

/-- `EndpointType::kInterrupt`. -/
def kInterrupt : UInt8 := 3

/-- `EndpointID::IsIn`. -/
def isIn (ep_id : UInt8) : Bool := ep_id &&& 1 != 0

/-- `request_type` of a class request to an interface, `kSetProtocol`. -/
def setProtocol (interface_index : UInt8) : SetupData :=
  ⟨0b00100001, 11, 0, interface_index.toBitVec.setWidth 16, 0⟩

namespace HIDBaseDriver

/-- The constructor. -/
def new (interface_index : UInt8) (in_packet_size : Nat) : HIDBaseDriver :=
  ⟨0, 0, interface_index, in_packet_size, 0, fun _ => 0, fun _ => 0⟩

variable (d : HIDBaseDriver)

/-- `SetEndpoint`. -/
def SetEndpoint (configs : List EndpointConfig) : HIDBaseDriver :=
  configs.foldl (fun d config =>
    if config.ep_type = kInterrupt ∧ isIn config.ep_id then
      { d with ep_interrupt_in := config.ep_id }
    else if config.ep_type = kInterrupt ∧ ¬ isIn config.ep_id then
      { d with ep_interrupt_out := config.ep_id }
    else d) d

/-- `OnEndpointsConfigured`. -/
def OnEndpointsConfigured : HIDBaseDriver × Transaction :=
  ({ d with initialize_phase := 1 }, .controlOut (setProtocol d.interface_index))

/-- `OnControlCompleted`; in any other phase it returns `kNotImplemented`. -/
def OnControlCompleted : Option (HIDBaseDriver × Transaction) :=
  if d.initialize_phase = 1 then
    some ({ d with initialize_phase := 2 }, .normalIn d.ep_interrupt_in d.in_packet_size)
  else none

/-- `std::copy_n(buf_.begin(), len, previous_buf_.begin())`. -/
def copyReport (len : Int) : HIDBaseDriver :=
  { d with previous_buf := fun i => if (i : Int) < len then d.buf i else d.previous_buf i }

/-- `OnNormalCompleted`, with `OnDataReceived` of the derived class and the calls of the observers
that this makes; for another endpoint it returns `kEndpointNotInCharge`. -/
def OnNormalCompleted {Note : Type} (onDataReceived : Buffer → Buffer → List Note) (ep_id : UInt8)
    (len : Int) : Option (HIDBaseDriver × List Note × Transaction) :=
  if isIn ep_id then
    some (d.copyReport len, onDataReceived d.buf d.previous_buf,
      .normalIn d.ep_interrupt_in d.in_packet_size)
  else none

end HIDBaseDriver

/-! ## The pipe -/

/-- The `NormalTRB` of `PushOneTransaction`. -/
def makeNormal (buf : BitVec 64) (len : BitVec 32) : Trb
  | 0 => buf.extractLsb' 0 32
  | 1 => buf.extractLsb' 32 32
  | 2 => (len.setWidth 17).setWidth 32
  | 3 => 1#32 <<< 2 ||| 1#32 <<< 5 ||| Trb.normalType.setWidth 32 <<< 10

/-- A `TransferEventTRB`; `trb_pointer` is the index of a TRB in the ring. -/
structure TransferEvent where
  index : Nat
  completion_code : BitVec 8
  residual_length : BitVec 24

/-- `OnTransferEventReceived` goes on. -/
def TransferEvent.succeeded (e : TransferEvent) : Bool :=
  e.completion_code = 1 || e.completion_code = 13

/-- The ring of `ep_interrupt_in_` and its controller, the driver, and where `buf_` is; the TRBs
that the controller has taken and not completed, its events that are not processed, and all the
reports that it has stored. -/
structure Pipe where
  ring : System
  driver : HIDBaseDriver
  bufAddr : BitVec 64
  fetched : List (Nat × Trb)
  events : List TransferEvent
  reports : List (List UInt8)

/-- The requests of the driver, the next word of a `Push`, a look of the controller, the answers of
the device, and the next event in `ProcessEvents`. -/
inductive PipeEvent where
  | controlCompleted
  | word
  | look
  | answer (report : List UInt8)
  | fail (completion_code : BitVec 8)
  | processEvent

/-- The transaction is lost by this event. -/
def PipeEvent.Loses (len : Nat) : PipeEvent → Prop
  | .answer report => len < report.length
  | .fail _ => True
  | _ => False

/-- A report, over what is in the buffer. -/
def overlay (b : Buffer) (report : List UInt8) : Buffer := fun i => report.getD i (b i)

namespace Pipe

variable {Note : Type} (onDataReceived : Buffer → Buffer → List Note) (p : Pipe)

/-- After `OnEndpointsConfigured`. -/
def start (ringAddr bufAddr : BitVec 64) (d : HIDBaseDriver) : Pipe where
  ring := .start ringAddr transferRingSize
  driver := d.OnEndpointsConfigured.1
  bufAddr
  fetched := []
  events := []
  reports := []

/-- The TRB that asks for a report. -/
def normalTrb (len : Nat) : Trb := makeNormal p.bufAddr (BitVec.ofNat 32 len)

/-- `NormalIn`; the requests on the control pipe are not for this ring. -/
def ask : Transaction → Pipe
  | .controlOut _ => p
  | .normalIn _ len => { p with ring := p.ring.step (.push (p.normalTrb len)) }

/-- The controller looks at the ring, and keeps what it takes. -/
def look : Pipe :=
  let ring := p.ring.consume
  { p with
    ring
    fetched := p.fetched ++ (ring.taken.drop p.ring.taken.length).map fun t => (p.ring.index, t) }

/-- The controller is done with the oldest TRB that it has. -/
def complete (e : Nat → TransferEvent) : Pipe :=
  match p.fetched with
  | [] => p
  | (index, _) :: rest => { p with fetched := rest, events := p.events ++ [e index] }

/-- The controller writes a report where the TRB says; no other memory matters here. -/
def store (trb : Trb) (report : List UInt8) : Pipe :=
  if trb.dataPointer = p.bufAddr then
    { p with
      driver := { p.driver with buf := overlay p.driver.buf report }
      reports := p.reports ++ [report] }
  else p

/-- The device answers a transaction with a report: it is stored, or it is too long (`Babble`). -/
def answer (report : List UInt8) : Pipe :=
  match p.fetched with
  | [] => p
  | (_, trb) :: _ =>
      let len := trb.transferLength.toNat
      if report.length ≤ len then
        (p.store trb report).complete fun index =>
          ⟨index, if report.length = len then 1 else 13, BitVec.ofNat 24 (len - report.length)⟩
      else p.complete fun index => ⟨index, 3, 0⟩

/-- The transaction fails. -/
def fail (completion_code : BitVec 8) : Pipe :=
  let e (index : Nat) : TransferEvent := ⟨index, completion_code, 0⟩
  if (e 0).succeeded then p else p.complete e

/-- `OnTransferEventReceived` of a device with one class driver. -/
def onTransferEventReceived (e : TransferEvent) : Pipe × List Note :=
  let trb := p.ring.ring.buf e.index
  if ¬ e.succeeded ∨ trb.type ≠ Trb.normalType then (p, [])
  else
    let len := (trb.transferLength.setWidth 32 - e.residual_length.setWidth 32).toInt
    match p.driver.OnNormalCompleted onDataReceived p.driver.ep_interrupt_in len with
    | none => (p, [])
    | some (driver, notes, t) => ({ p with driver }.ask t, notes)

/-- One step, and the calls of the observers; the driver goes on when `Push` has returned. -/
def step : PipeEvent → Pipe × List Note
  | .controlCompleted =>
      match p.ring.pc, p.driver.OnControlCompleted with
      | .idle, some (driver, t) => ({ p with driver }.ask t, [])
      | _, _ => (p, [])
  | .word => ({ p with ring := p.ring.step .word }, [])
  | .look => (p.look, [])
  | .answer report => (p.answer report, [])
  | .fail completion_code => (p.fail completion_code, [])
  | .processEvent =>
      match p.ring.pc, p.events with
      | .idle, e :: events => { p with events }.onTransferEventReceived onDataReceived e
      | _, _ => (p, [])

end Pipe

end Laplus.Usb

/-! ## The ring under the pipe -/

namespace Laplus.Xhci.System

variable {s : System} {n : Nat}

theorem consume_frame (s : System) : s.consume.ring = s.ring ∧ s.consume.pushed = s.pushed ∧
    s.consume.pc = s.pc := by
  rw [consume]
  cases s.hasTrb with
  | false => exact ⟨rfl, rfl, rfl⟩
  | true =>
      rw [Bool.not_true, if_neg Bool.false_ne_true]
      split <;> exact ⟨rfl, rfl, rfl⟩

/-- The controller takes nothing, or the TRB in a slot, which was pushed. -/
theorem Inv.consume_cases (h : s.Inv n) (hn : 2 ≤ n) :
    s.consume.taken = s.taken ∨
      s.consume.taken = s.taken ++ [s.ring.buf s.index] ∧ s.index < n ∧
        ∃ t ∈ s.pushed, (s.ring.buf s.index).body = t.body := by
  cases hhas : s.hasTrb with
  | false =>
      left
      rw [System.consume, hhas, Bool.not_false, if_pos rfl]
  | true =>
      rcases h.following with ⟨hindex, hcycle⟩ | ⟨hpos, hzero, hindex, hcycle⟩
      · obtain ⟨hitem, hstate⟩ := h.slot_takes hn hindex hcycle hhas
        rw [List.getElem?_map] at hitem
        obtain ⟨t, ht, hbody⟩ := Option.map_eq_some_iff.mp hitem
        refine .inr ⟨by rw [hstate], ?_, t, Inv.mem_written (List.mem_of_getElem? ht), hbody.symm⟩
        rw [hindex]
        exact Nat.mod_lt _ (by omega)
      · rcases h.link_follows hn hpos hzero hindex hcycle with ⟨_, hstate⟩ | ⟨hhas', _⟩
        · exact .inl (by rw [hstate])
        · rw [hhas] at hhas'
          cases hhas'

/-- The controller is never ahead of the pushes. -/
theorem Inv.taken_le (h : s.Inv n) : s.taken.length ≤ s.pushed.length := by
  have hle := h.order.length_le
  simp only [List.length_map] at hle
  refine hle.trans ?_
  rw [written]
  split <;> simp

/-- When all is taken, the words that are still written are those of the link TRB. -/
theorem Inv.word_slots (h : s.Inv n) (hall : s.pushed.length = s.taken.length)
    {index : Nat} (hindex : index < n) :
    (s.step .word).ring.buf index = s.ring.buf index := by
  have hle := h.order.length_le
  simp only [List.length_map] at hle
  have hproducing := h.producing
  rw [Producing] at hproducing
  have hstep : (s.step .word).ring = (s.ring.produce s.pc).1 := rfl
  rw [hstep]
  cases hpc : s.pc with
  | idle => rfl
  | data t i =>
      rw [hpc] at hproducing
      have hlen := congrArg List.length hproducing.2.2.1
      rw [List.length_append, List.length_singleton] at hlen
      omega
  | link i =>
      rw [hpc] at hproducing
      have hne : index ≠ s.ring.writeIndex := by omega
      have hbuf := s.ring.copyWord_buf_of_ne (Trb.link s.ring.bufAddr) (i := i) hne
      rw [Ring.produce]
      split <;> exact hbuf

end Laplus.Xhci.System

namespace Laplus.Usb

open Lib Xhci

/-! ## What is read back -/

section makeNormal

variable (buf : BitVec 64) (len : BitVec 32)

theorem type_makeNormal : (makeNormal buf len).type = Trb.normalType := by
  have hword : (1#32 <<< 2 ||| 1#32 <<< 5 ||| Trb.normalType.setWidth 32 <<< 10).extractLsb' 10 6 =
      Trb.normalType := by decide
  exact hword

/-- But for the word with the cycle bit it is a data stage TRB. -/
theorem makeNormal_word {i : Fin 4} (hi : i ≠ 3) :
    makeNormal buf len i = Trb.makeDataStage buf len true true i := by
  match i with
  | 0 => rfl
  | 1 => rfl
  | 2 => rfl
  | 3 => exact absurd rfl hi

variable {buf len} {t : Trb}

theorem word_of_body {t' : Trb} (h : t.body = t'.body) {i : Fin 4} (hi : i ≠ 3) : t i = t' i :=
  (Trb.withCycle_word t false hi).symm.trans
    ((congrFun h i).trans (Trb.withCycle_word t' false hi))

/-- What is read from a TRB that was pushed so. -/
theorem read_makeNormal (h : t.body = (makeNormal buf len).body) :
    t.type = Trb.normalType ∧ t.dataPointer = buf ∧ t.transferLength = len.setWidth 17 := by
  have hword {i : Fin 4} (hi : i ≠ 3) : t i = (Trb.makeDataStage buf len true true).body i := by
    rw [word_of_body h hi, makeNormal_word buf len hi]
    exact (Trb.withCycle_word _ false hi).symm
  refine ⟨?_, ?_, ?_⟩
  · have htype := congrArg Trb.type h
    rwa [Trb.type_withCycle, Trb.type_withCycle, type_makeNormal] at htype
  · rw [← Trb.dataPointer_make buf len true true false, Trb.dataPointer, hword (by decide),
      hword (by decide), ← Trb.dataPointer]
  · rw [← Trb.transferLength_make buf len true true false, Trb.transferLength, hword (by decide),
      ← Trb.transferLength]

end makeNormal

/-! ## One transaction -/

/-- The buffer after the reports. -/
def image (reports : List (List UInt8)) : Buffer := reports.foldl overlay fun _ => 0

/-- The calls of the observers for reports over a buffer. -/
def notesOf {Note : Type} (onDataReceived : Buffer → Buffer → List Note) (b : Buffer) :
    List (List UInt8) → List Note
  | [] => []
  | r :: rs => onDataReceived (overlay b r) b ++ notesOf onDataReceived (overlay b r) rs

theorem image_concat (rs : List (List UInt8)) (r : List UInt8) :
    image (rs ++ [r]) = overlay (image rs) r := List.foldl_concat ..

theorem notesOf_concat {Note : Type} {onDataReceived : Buffer → Buffer → List Note} {b : Buffer}
    {rs : List (List UInt8)} {r : List UInt8} :
    notesOf onDataReceived b (rs ++ [r]) = notesOf onDataReceived b rs ++
      onDataReceived (overlay (rs.foldl overlay b) r) (rs.foldl overlay b) := by
  induction rs generalizing b with
  | nil => simp [notesOf]
  | cons r' rs ih => rw [List.cons_append, notesOf, ih, notesOf, List.append_assoc]; rfl

namespace Pipe

variable {Note : Type} {onDataReceived : Buffer → Buffer → List Note} {p : Pipe} {len : Nat}

/-- The reports that the driver has looked at: all but the one that an event is still to tell. -/
def heard (p : Pipe) : List (List UInt8) :=
  if p.events.any TransferEvent.succeeded then p.reports.dropLast else p.reports

/-- All TRBs are taken, and the slot still holds what asks for a report. -/
structure Holds (p : Pipe) (len index : Nat) : Prop where
  all : p.ring.pushed.length = p.ring.taken.length
  slot : index < transferRingSize - 1
  trb : (p.ring.ring.buf index).body = (p.normalTrb len).body

/-- Where the transaction is: not yet pushed, with the controller, in an event, or lost. -/
inductive Stage (p : Pipe) (len : Nat) : Prop where
  | unconfigured (phase : p.driver.initialize_phase = 1) (pushed : p.ring.pushed = [])
      (fetched : p.fetched = []) (events : p.events = [])
  | ready (phase : p.driver.initialize_phase = 2)
      (pushed : p.ring.pushed.length = p.ring.taken.length + 1)
      (fetched : p.fetched = []) (events : p.events = [])
  | fetched (phase : p.driver.initialize_phase = 2) (index : Nat) (t : Trb)
      (holds : p.Holds len index) (trb : t.body = (p.normalTrb len).body)
      (fetched : p.fetched = [(index, t)]) (events : p.events = [])
  | answered (phase : p.driver.initialize_phase = 2) (e : TransferEvent) (report : List UInt8)
      (holds : p.Holds len e.index) (fetched : p.fetched = []) (events : p.events = [e])
      (succeeded : e.succeeded = true) (reports : p.reports = p.reports.dropLast ++ [report])
      (short : report.length ≤ len) (residual : e.residual_length.toNat = len - report.length)
  | failed (phase : p.driver.initialize_phase = 2)
      (pushed : p.ring.pushed.length = p.ring.taken.length) (fetched : p.fetched = [])
      (events : ∀ e ∈ p.events, e.succeeded = false)

/-- The pipe, with its one transaction and the two buffers. -/
structure Inv (p : Pipe) (len : Nat) : Prop where
  ring : p.ring.Inv (transferRingSize - 1)
  normal : ∀ t ∈ p.ring.pushed, t = p.normalTrb len
  input : isIn p.driver.ep_interrupt_in = true
  size : p.driver.in_packet_size = len
  bound : len ≤ kBufferSize
  stage : p.Stage len
  buf : p.driver.buf = image p.reports
  previous : p.driver.previous_buf = image p.heard

/-- There is a transaction: it is on the ring, with the controller or in an event; or there will be
one when the driver is configured. -/
def Alive (p : Pipe) : Prop :=
  p.driver.initialize_phase = 1 ∨ p.ring.pushed.length = p.ring.taken.length + 1 ∨
    p.fetched ≠ [] ∨ ∃ e ∈ p.events, e.succeeded = true

/-- A step, the reports that the driver has looked at, and the calls that it makes. -/
structure Goes (onDataReceived : Buffer → Buffer → List Note) (p : Pipe) (len : Nat) (lost : Prop)
    (r : Pipe × List Note) : Prop where
  inv : r.1.Inv len
  notes : notesOf onDataReceived (fun _ => 0) r.1.heard =
    notesOf onDataReceived (fun _ => 0) p.heard ++ r.2
  alive : p.Alive → r.1.Alive ∨ lost

variable {lost : Prop}

theorem Goes.still (h : p.Inv len) : Goes onDataReceived p len lost (p, []) where
  inv := h
  notes := (List.append_nil _).symm
  alive := .inl

/-- `Holds`, when the ring has moved on. -/
theorem Holds.move {index : Nat} (h : p.Holds len index) {ring : System}
    (hpushed : ring.pushed = p.ring.pushed) (htaken : ring.taken = p.ring.taken)
    (hbuf : ring.ring.buf index = p.ring.ring.buf index) :
    ({ p with ring } : Pipe).Holds len index where
  all := by
    show ring.pushed.length = ring.taken.length
    rw [hpushed, htaken]
    exact h.all
  slot := h.slot
  trb := (congrArg Trb.body hbuf).trans h.trb

/-- The ring moves on, and nobody takes anything. -/
theorem Inv.move (h : p.Inv len) {ring : System} (hring : ring.Inv (transferRingSize - 1))
    (hpushed : ring.pushed = p.ring.pushed) (htaken : ring.taken = p.ring.taken)
    (hbuf : p.ring.pushed.length = p.ring.taken.length →
      ∀ index < transferRingSize - 1, ring.ring.buf index = p.ring.ring.buf index) :
    Goes onDataReceived p len lost ({ p with ring }, []) where
  inv := by
    have hlen : ring.pushed.length = p.ring.pushed.length := congrArg _ hpushed
    have hlen' : ring.taken.length = p.ring.taken.length := congrArg _ htaken
    refine ⟨hring, ?_, h.input, h.size, h.bound, ?_, h.buf, h.previous⟩
    · show ∀ t ∈ ring.pushed, _
      rw [hpushed]
      exact h.normal
    · cases h.stage with
      | unconfigured phase pushed fetched events =>
          exact .unconfigured phase (hpushed.trans pushed) fetched events
      | ready phase pushed fetched events =>
          refine .ready phase ?_ fetched events
          show ring.pushed.length = ring.taken.length + 1
          rw [hlen, hlen']
          exact pushed
      | fetched phase index t holds trb fetched events =>
          exact .fetched phase index t
            (holds.move hpushed htaken (hbuf holds.all index holds.slot)) trb fetched events
      | answered phase e report holds fetched events succeeded reports short residual =>
          exact .answered phase e report
            (holds.move hpushed htaken (hbuf holds.all e.index holds.slot)) fetched events
            succeeded reports short residual
      | failed phase pushed fetched events =>
          refine .failed phase ?_ fetched events
          show ring.pushed.length = ring.taken.length
          rw [hlen, hlen']
          exact pushed
  notes := (List.append_nil _).symm
  alive halive := by
    refine .inl (halive.imp_right fun halive => halive.imp_left fun hone => ?_)
    show ring.pushed.length = ring.taken.length + 1
    rw [hpushed, htaken]
    exact hone

theorem Inv.word (h : p.Inv len) :
    Goes onDataReceived p len lost ({ p with ring := p.ring.step .word }, []) :=
  h.move (h.ring.word (by decide)) rfl rfl fun hall _ hindex => h.ring.word_slots hall hindex

theorem Inv.look (h : p.Inv len) : Goes onDataReceived p len lost (p.look, []) := by
  obtain ⟨hring, hpushed, _⟩ := System.consume_frame p.ring
  have hnext := (h.ring.consume (by decide)).1
  rcases h.ring.consume_cases (by decide) with htaken | ⟨htaken, hindex, t, ht, hbody⟩
  · have hsame : p.look = { p with ring := p.ring.consume } := by
      simp [Pipe.look, htaken]
    rw [hsame]
    exact h.move hnext hpushed htaken fun _ index _ => by rw [hring]
  · have htrb : (p.ring.ring.buf p.ring.index).body = (p.normalTrb len).body :=
      hbody.trans (congrArg Trb.body (h.normal t ht))
    have hlook : p.look = { p with
        ring := p.ring.consume
        fetched := p.fetched ++ [(p.ring.index, p.ring.ring.buf p.ring.index)] } := by
      simp [Pipe.look, htaken]
    have hlen : p.ring.consume.taken.length = p.ring.taken.length + 1 := by
      rw [htaken, List.length_append, List.length_singleton]
    have hle := hnext.taken_le
    rw [hpushed, hlen] at hle
    rw [hlook]
    refine ⟨⟨hnext, hpushed ▸ h.normal, h.input, h.size, h.bound, ?_, h.buf, h.previous⟩,
      (List.append_nil _).symm,
      fun _ => .inl (.inr (.inr (.inl (List.append_ne_nil_of_right_ne_nil _ (by simp)))))⟩
    cases h.stage with
    | unconfigured phase pushed fetched events =>
        rw [pushed] at ht
        cases ht
    | ready phase pushed fetched events =>
        have hholds : ({ p with
            ring := p.ring.consume
            fetched := p.fetched ++ [(p.ring.index, p.ring.ring.buf p.ring.index)] } : Pipe).Holds
              len p.ring.index :=
          ⟨by rw [hpushed, hlen, pushed], hindex, by rw [hring]; exact htrb⟩
        exact .fetched phase _ _ hholds htrb (congrArg (· ++ _) fetched) events
    | fetched phase index t holds trb fetched events =>
        have hall := holds.all
        omega
    | answered phase e report holds fetched events succeeded reports short residual =>
        have hall := holds.all
        omega
    | failed phase pushed fetched events => omega

/-! ### The device -/

/-- What the controller reads of the TRB that it has. -/
theorem Inv.transaction (h : p.Inv len) {t : Trb} (ht : t.body = (p.normalTrb len).body) :
    t.type = Trb.normalType ∧ t.dataPointer = p.bufAddr ∧ t.transferLength.toNat = len := by
  obtain ⟨htype, hpointer, hlength⟩ := read_makeNormal ht
  have hbound := h.bound
  have hlen : len < 2 ^ 17 := hbound.trans_lt (by decide)
  refine ⟨htype, hpointer, ?_⟩
  rw [hlength, BitVec.toNat_setWidth, BitVec.toNat_ofNat]
  omega

/-- A transaction ends without a report. -/
theorem Inv.failing (h : p.Inv len) {e : Nat → TransferEvent}
    (he : ∀ index, (e index).succeeded = false) (hlost : lost) :
    Goes onDataReceived p len lost (p.complete e, []) := by
  cases hf : p.fetched with
  | nil =>
      have hsame : p.complete e = p := by rw [complete, hf]
      rw [hsame]
      exact .still h
  | cons x rest =>
      cases h.stage with
      | fetched phase index t holds trb fetched events =>
          have hsome : p.complete e = { p with fetched := [], events := [e index] } := by
            rw [complete, fetched, events]
            rfl
          have hheard : ({ p with fetched := [], events := [e index] } : Pipe).heard = p.heard := by
            simp [heard, events, he]
          rw [hsome]
          refine ⟨⟨h.ring, h.normal, h.input, h.size, h.bound, ?_, h.buf, ?_⟩, ?_,
            fun _ => .inr hlost⟩
          · refine .failed phase holds.all rfl fun e' he' => ?_
            rw [List.mem_singleton.mp he']
            exact he index
          · rw [hheard]
            exact h.previous
          · rw [hheard, List.append_nil]
      | unconfigured phase pushed fetched events => rw [fetched] at hf; cases hf
      | ready phase pushed fetched events => rw [fetched] at hf; cases hf
      | answered phase e' report holds fetched events succeeded reports short residual =>
          rw [fetched] at hf
          cases hf
      | failed phase pushed fetched events => rw [fetched] at hf; cases hf

theorem Inv.fail (h : p.Inv len) (code : BitVec 8) :
    Goes onDataReceived p len True (p.fail code, []) := by
  rw [Pipe.fail]
  split
  next => exact .still h
  next hcode =>
    refine h.failing (fun index => ?_) trivial
    rw [Bool.not_eq_true] at hcode
    exact hcode

/-- **A report is stored**, and the controller tells how much of it is missing. -/
theorem Inv.answer (h : p.Inv len) (report : List UInt8) :
    Goes onDataReceived p len (len < report.length) (p.answer report, []) := by
  cases h.stage with
  | fetched phase index t holds trb fetched events =>
      obtain ⟨_, hpointer, hlength⟩ := h.transaction trb
      rw [Pipe.answer, fetched]
      simp only [hlength]
      split
      next hle =>
        -- the report is in the buffer, and the driver is told by an event
        rw [store, if_pos hpointer, complete]
        simp only [fetched, events, List.nil_append]
        have hbound := h.bound
        have hbound : len ≤ 1024 := hbound
        have hcode : (⟨index, if report.length = len then 1 else 13,
            BitVec.ofNat 24 (len - report.length)⟩ : TransferEvent).succeeded = true := by
          rw [TransferEvent.succeeded]
          split <;> rfl
        have hold : p.heard = p.reports := by simp [heard, events]
        have hheard : ∀ q : Pipe, q.events = [⟨index, if report.length = len then 1 else 13,
            BitVec.ofNat 24 (len - report.length)⟩] → q.reports = p.reports ++ [report] →
              q.heard = p.heard := fun q he hr => by
          rw [heard, he, hr, hold, List.any_cons, hcode, Bool.true_or, if_pos rfl,
            List.dropLast_concat]
        refine ⟨⟨h.ring, h.normal, h.input, h.size, h.bound, ?_, ?_, ?_⟩, ?_,
          fun _ => .inl (.inr (.inr (.inr ⟨_, List.mem_singleton_self _, hcode⟩)))⟩
        · refine .answered phase _ report ⟨holds.all, holds.slot, holds.trb⟩ rfl rfl hcode ?_ hle ?_
          · exact congrArg (· ++ [report]) List.dropLast_concat.symm
          · show (BitVec.ofNat 24 (len - report.length)).toNat = _
            rw [BitVec.toNat_ofNat]
            omega
        · show overlay p.driver.buf report = image (p.reports ++ [report])
          rw [image_concat, h.buf]
        · rw [hheard _ rfl rfl]
          exact h.previous
        · rw [hheard _ rfl rfl, List.append_nil]
      next hlong => exact h.failing (fun _ => rfl) (Nat.lt_of_not_le hlong)
  | unconfigured phase pushed fetched events => rw [Pipe.answer, fetched]; exact .still h
  | ready phase pushed fetched events => rw [Pipe.answer, fetched]; exact .still h
  | answered phase e report holds fetched events succeeded reports short residual =>
      rw [Pipe.answer, fetched]
      exact .still h
  | failed phase pushed fetched events => rw [Pipe.answer, fetched]; exact .still h

/-! ### The driver -/

/-- A pipe without a transaction, when the driver asks for the next report. -/
structure Idle (p : Pipe) (len : Nat) : Prop where
  ring : p.ring.Inv (transferRingSize - 1)
  normal : ∀ t ∈ p.ring.pushed, t = p.normalTrb len
  input : isIn p.driver.ep_interrupt_in = true
  size : p.driver.in_packet_size = len
  bound : len ≤ kBufferSize
  phase : p.driver.initialize_phase = 2
  pc : p.ring.pc = .idle
  all : p.ring.pushed.length = p.ring.taken.length
  fetched : p.fetched = []
  events : p.events = []
  buf : p.driver.buf = image p.reports
  previous : p.driver.previous_buf = image p.reports

theorem Idle.ask (h : p.Idle len) (ep_id : UInt8) {n : Nat} (hn : n = len) :
    (p.ask (.normalIn ep_id n)).Inv len ∧ (p.ask (.normalIn ep_id n)).heard = p.reports ∧
      (p.ask (.normalIn ep_id n)).Alive := by
  subst hn
  have hadmits : p.ring.admits (.push (p.normalTrb n)) = true := by
    have hsize : p.ring.ring.bufSize = 32 := h.ring.size
    have htype : (p.normalTrb n).type ≠ Trb.linkType := by
      rw [normalTrb, type_makeNormal]
      decide
    simp [System.admits, h.pc, h.all, hsize, htype]
  have hheard : (p.ask (.normalIn ep_id n)).heard = p.reports := by
    simp [heard, Pipe.ask, h.events]
  have hone : (p.ring.pushed ++ [p.normalTrb n]).length = p.ring.taken.length + 1 := by
    rw [List.length_append, h.all, List.length_singleton]
  refine ⟨⟨h.ring.push hadmits, fun t ht => ?_, h.input, h.size, h.bound,
    .ready h.phase hone h.fetched h.events, h.buf, ?_⟩, hheard, .inr (.inl hone)⟩
  · rcases List.mem_append.mp ht with ht | ht
    · exact h.normal t ht
    · exact List.mem_singleton.mp ht
  · rw [hheard]
    exact h.previous

theorem Inv.controlCompleted (h : p.Inv len) :
    Goes onDataReceived p len lost (p.step onDataReceived .controlCompleted) := by
  rw [Pipe.step]
  cases hpc : p.ring.pc with
  | data t i => exact .still h
  | link i => exact .still h
  | idle =>
      rw [HIDBaseDriver.OnControlCompleted]
      cases h.stage with
      | unconfigured phase pushed fetched events =>
          rw [if_pos phase]
          have hall : p.ring.pushed.length = p.ring.taken.length := by
            have hle := h.ring.taken_le
            rw [pushed] at hle ⊢
            exact (Nat.le_zero.mp hle).symm
          have hheard : p.heard = p.reports := by simp [heard, events]
          have hidle : ({ p with
              driver := { p.driver with initialize_phase := 2 } } : Pipe).Idle len :=
            ⟨h.ring, h.normal, h.input, h.size, h.bound, rfl, hpc, hall, fetched, events, h.buf,
              hheard ▸ h.previous⟩
          obtain ⟨hinv, hnow, halive⟩ := hidle.ask p.driver.ep_interrupt_in h.size
          exact ⟨hinv, by rw [hnow, hheard, List.append_nil], fun _ => .inl halive⟩
      | ready phase pushed fetched events => simp only [phase]; exact .still h
      | fetched phase index t holds trb fetched events => simp only [phase]; exact .still h
      | answered phase e report holds fetched events succeeded reports short residual =>
          simp only [phase]
          exact .still h
      | failed phase pushed fetched events => simp only [phase]; exact .still h

/-- What is copied behind a report. -/
theorem copied {d : HIDBaseDriver} {report : List UInt8}
    (hbuf : d.buf = overlay d.previous_buf report) {n : Int} (hn : n = report.length) :
    (d.copyReport n).previous_buf = d.buf := by
  funext i
  show (if (i : Int) < n then d.buf i else d.previous_buf i) = d.buf i
  split
  next => rfl
  next hi =>
    rw [hbuf, overlay, List.getD_eq_getElem?_getD, List.getElem?_eq_none (by omega),
      Option.getD_none]

/-- **The driver looks at a report**, keeps it, and asks for the next. -/
theorem Inv.processEvent (h : p.Inv len) :
    Goes onDataReceived p len lost (p.step onDataReceived .processEvent) := by
  rw [Pipe.step]
  cases hpc : p.ring.pc with
  | data t i => exact .still h
  | link i => exact .still h
  | idle =>
      cases h.stage with
      | unconfigured phase pushed fetched events => rw [events]; exact .still h
      | ready phase pushed fetched events => rw [events]; exact .still h
      | fetched phase index t holds trb fetched events => rw [events]; exact .still h
      | failed phase pushed fetched events =>
          cases hevents : p.events with
          | nil => exact .still h
          | cons e rest =>
              have he : e.succeeded = false := events e (hevents ▸ List.mem_cons_self)
              have hrest : ∀ e' ∈ rest, e'.succeeded = false := fun e' he' =>
                events e' (hevents ▸ List.mem_cons_of_mem e he')
              have hany : rest.any TransferEvent.succeeded = false := by simpa using hrest
              have hheard : ({ p with events := rest } : Pipe).heard = p.heard := by
                rw [heard, heard, hevents, List.any_cons, he, hany]
                rfl
              simp only [onTransferEventReceived, he, Bool.false_eq_true, not_false_eq_true,
                true_or, if_true]
              have hlost : ¬ p.Alive := by
                rintro (hphase | hone | hfetched | ⟨e', he', hsucceeded⟩)
                · rw [phase] at hphase
                  cases hphase
                · omega
                · exact hfetched fetched
                · rw [events e' he'] at hsucceeded
                  cases hsucceeded
              refine ⟨⟨h.ring, h.normal, h.input, h.size, h.bound,
                .failed phase pushed fetched hrest, h.buf, ?_⟩, ?_,
                fun halive => absurd halive hlost⟩
              · rw [hheard]
                exact h.previous
              · rw [hheard, List.append_nil]
      | answered phase e report holds fetched events succeeded reports short residual =>
          obtain ⟨htype, _, hlength⟩ := h.transaction holds.trb
          have hheard : p.heard = p.reports.dropLast := by simp [heard, events, succeeded]
          have hbuf : p.driver.buf = overlay p.driver.previous_buf report := by
            rw [h.buf, h.previous, hheard, ← image_concat, ← reports]
          have hlen : ((p.ring.ring.buf e.index).transferLength.setWidth 32 -
              e.residual_length.setWidth 32).toInt = report.length := by
            have hbound : len ≤ 1024 := h.bound
            rw [BitVec.toInt_eq_toNat_cond, BitVec.toNat_sub, BitVec.toNat_setWidth,
              BitVec.toNat_setWidth, hlength, residual]
            omega
          simp only [events, onTransferEventReceived, succeeded, htype, hlen]
          rw [if_neg (by simp), HIDBaseDriver.OnNormalCompleted, if_pos h.input]
          have hidle : ({ p with
              driver := p.driver.copyReport report.length, events := [] } : Pipe).Idle len :=
            ⟨h.ring, h.normal, h.input, h.size, h.bound, phase, hpc, holds.all, fetched, rfl,
              h.buf, (copied hbuf rfl).trans h.buf⟩
          obtain ⟨hinv, hnow, halive⟩ := hidle.ask p.driver.ep_interrupt_in h.size
          refine ⟨hinv, ?_, fun _ => .inl halive⟩
          rw [hnow, hheard]
          show notesOf onDataReceived (fun _ => 0) p.reports = _
          rw [reports, notesOf_concat, List.dropLast_concat]
          show _ = notesOf onDataReceived (fun _ => 0) p.reports.dropLast ++
            onDataReceived p.driver.buf p.driver.previous_buf
          rw [hbuf, h.previous, hheard]
          rfl

/-- **A step.** -/
theorem Inv.step (h : p.Inv len) (e : PipeEvent) :
    Goes onDataReceived p len (e.Loses len) (p.step onDataReceived e) := by
  cases e with
  | controlCompleted => exact h.controlCompleted
  | word => exact h.word
  | look => exact h.look
  | answer report => exact h.answer report
  | fail completion_code => exact h.fail completion_code
  | processEvent => exact h.processEvent

end Pipe

/-! ### The start -/

/-- A driver that has an endpoint to read from, and has not read yet. -/
structure HIDBaseDriver.Reads (d : HIDBaseDriver) (len : Nat) : Prop where
  input : isIn d.ep_interrupt_in = true
  size : d.in_packet_size = len
  buf : d.buf = fun _ => 0
  previous : d.previous_buf = fun _ => 0

/-- `SetEndpoint` finds the endpoint, if there is one. -/
theorem HIDBaseDriver.reads_setEndpoint {configs : List EndpointConfig} (interface_index : UInt8)
    (len : Nat) (h : ∃ c ∈ configs, c.ep_type = kInterrupt ∧ isIn c.ep_id = true) :
    ((new interface_index len).SetEndpoint configs).Reads len := by
  suffices hall : ∀ d : HIDBaseDriver,
      (isIn d.ep_interrupt_in = true ∨ ∃ c ∈ configs, c.ep_type = kInterrupt ∧ isIn c.ep_id = true) →
        d.in_packet_size = len → (d.buf = fun _ => 0) → (d.previous_buf = fun _ => 0) →
          (d.SetEndpoint configs).Reads len from hall _ (.inr h) rfl rfl rfl
  clear h
  intro d h hsize hbuf hprevious
  induction configs generalizing d with
  | nil => exact ⟨h.resolve_right fun ⟨c, hc, _⟩ => (by cases hc), hsize, hbuf, hprevious⟩
  | cons c configs ih =>
      rw [SetEndpoint, List.foldl_cons]
      split
      next hc => exact ih _ (.inl hc.2) hsize hbuf hprevious
      next hnot =>
        have hrest : isIn d.ep_interrupt_in = true ∨
            ∃ c ∈ configs, c.ep_type = kInterrupt ∧ isIn c.ep_id = true := by
          rcases h with h | ⟨c', hc', hin⟩
          · exact .inl h
          · rcases List.mem_cons.mp hc' with rfl | hc'
            · exact absurd hin hnot
            · exact .inr ⟨c', hc', hin⟩
        split
        next => exact ih _ hrest hsize hbuf hprevious
        next => exact ih d hrest hsize hbuf hprevious

theorem Pipe.Inv.start {d : HIDBaseDriver} {len : Nat} (h : d.Reads len) (hlen : len ≤ kBufferSize) {ringAddr : BitVec 64}
    (haddr : ringAddr >>> 4 <<< 4 = ringAddr) (bufAddr : BitVec 64) :
    (Pipe.start ringAddr bufAddr d).Inv len where
  ring := .start ringAddr haddr (by decide)
  normal t ht := by cases ht
  input := h.input
  size := h.size
  bound := hlen
  stage := .unconfigured rfl rfl rfl rfl
  buf := h.buf
  previous := h.previous

end Laplus.Usb
