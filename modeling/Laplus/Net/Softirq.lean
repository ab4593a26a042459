/-
# `Laplus.Net.Softirq` — the input queues and the messages of task 1

`net_input_handler` appends a packet to the queue of its protocol and sends
task 1 a `kNetInput` message; task 1 answers each `kNetInput` with
`net_softirq_handler`, which takes at most one packet from every queue.  Both
run in task 1 (`e1000_intr` on its own message, the softirq with interrupts
off), so they follow one another in any order but never overlap; interrupts
only add messages.

Seen from one protocol, the system is a `Doorbell`: the messages are the
rings, most of them for other protocols.
-/
import Laplus.Lib.Doorbell
import Laplus.Lib.Run
import Mathlib.Data.List.Induction
import Mathlib.Data.List.Nodup

namespace Laplus.Net

open Lib

/-! ## The model -/

/-- `struct net_protocol_queue_entry` with the data behind it; a device is
known by its index. -/
structure Packet where
  dev : Nat
  data : List UInt8
deriving DecidableEq

/-- `struct net_protocol`; a handler is known by the type it registered for. -/
structure NetProtocol where
  type : UInt16
  queue : List Packet
deriving DecidableEq

/-- The messages of task 1, as far as the network tells them apart. -/
inductive Message where
  | netInput
  | other (kind : Nat)
deriving DecidableEq

/-- The protocol list, the messages of task 1, and the calls of the protocol
handlers so far. -/
structure Stack where
  protocols : List NetProtocol
  msgs : List Message
  calls : List (UInt16 × Packet)

/-- `net_protocol_register`, which refuses a type that is there. -/
def netProtocolRegister (protocols : List NetProtocol) (type : UInt16) : List NetProtocol :=
  if type ∈ protocols.map NetProtocol.type then protocols else ⟨type, []⟩ :: protocols

/-- The stack after these registrations, in order, before `net_run`. -/
def Stack.boot (types : List UInt16) : Stack := ⟨types.foldl netProtocolRegister [], [], []⟩

/-- The loop of `net_input_handler`: the packet goes to the first protocol of
its type, if there is one. -/
def queuePush (type : UInt16) (packet : Packet) : List NetProtocol → Option (List NetProtocol)
  | [] => none
  | proto :: rest =>
      if proto.type = type then
        some ({ proto with queue := proto.queue ++ [packet] } :: rest)
      else (queuePush type packet rest).map (proto :: ·)

/-- `net_input_handler`; `alloc` says whether the entry and its queue link
could be allocated.  `softirq` is the message at the end. -/
def netInputHandler (s : Stack) (type : UInt16) (packet : Packet) (alloc : Bool) : Stack :=
  match queuePush type packet s.protocols with
  | none => s
  | some protocols =>
      if alloc then { s with protocols, msgs := s.msgs ++ [.netInput] } else s

/-- The loop of `net_softirq_handler`: the list afterwards and the calls made. -/
def netSoftirqHandler : List NetProtocol → List NetProtocol × List (UInt16 × Packet)
  | [] => ([], [])
  | proto :: rest =>
      match proto.queue with
      | [] => (proto :: (netSoftirqHandler rest).1, (netSoftirqHandler rest).2)
      | packet :: queue =>
          ({ proto with queue } :: (netSoftirqHandler rest).1,
            (proto.type, packet) :: (netSoftirqHandler rest).2)

/-- What can happen: a packet comes up from a device, anybody sends task 1
another message, task 1 handles its next one. -/
inductive InputEvent where
  | input (type : UInt16) (packet : Packet) (alloc : Bool)
  | post (kind : Nat)
  | handle
deriving DecidableEq

def Stack.step (s : Stack) : InputEvent → Stack
  | .input type packet alloc => netInputHandler s type packet alloc
  | .post kind => { s with msgs := s.msgs ++ [.other kind] }
  | .handle =>
      match s.msgs with
      | [] => s
      | .netInput :: msgs =>
          { protocols := (netSoftirqHandler s.protocols).1
            msgs
            calls := s.calls ++ (netSoftirqHandler s.protocols).2 }
      | .other _ :: msgs => { s with msgs }

/-- The `kNetInput` messages task 1 has not handled yet. -/
def Stack.pending (s : Stack) : Nat := s.msgs.count .netInput

/-- The packets of a type that came up and could be stored, in order. -/
def arrived (type : UInt16) (es : List InputEvent) : List Packet :=
  es.filterMap fun
    | .input type' packet true => if type' = type then some packet else none
    | _ => none

/-- The packets the handler of a type has been called with, in order. -/
def handledBy (type : UInt16) (calls : List (UInt16 × Packet)) : List Packet :=
  calls.filterMap fun call => if call.1 = type then some call.2 else none

/-- The queue of the protocol registered for a type. -/
def queueOf (type : UInt16) : List NetProtocol → List Packet
  | [] => []
  | proto :: rest => if proto.type = type then proto.queue else queueOf type rest

/-- The stack as one protocol sees it. -/
def Stack.view (s : Stack) (type : UInt16) : Doorbell Packet :=
  ⟨queueOf type s.protocols, s.pending, handledBy type s.calls⟩

/-! ## The two loops -/

theorem queueOf_of_mem {protocols : List NetProtocol}
    (hn : (protocols.map NetProtocol.type).Nodup) {proto : NetProtocol} (h : proto ∈ protocols) :
    queueOf proto.type protocols = proto.queue := by
  induction protocols with
  | nil => exact absurd h List.not_mem_nil
  | cons p rest ih =>
      rw [List.map_cons, List.nodup_cons] at hn
      rcases List.mem_cons.mp h with rfl | h
      · exact if_pos rfl
      · have hne : p.type ≠ proto.type := fun he =>
          hn.1 (he ▸ List.mem_map_of_mem h)
        rw [queueOf, if_neg hne, ih hn.2 h]

/-- A push finds its protocol when there is one; it changes that queue only. -/
theorem queuePush_cases (type : UInt16) (packet : Packet) (protocols : List NetProtocol) :
    (type ∉ protocols.map NetProtocol.type ∧ queuePush type packet protocols = none) ∨
      ∃ protocols', queuePush type packet protocols = some protocols' ∧
        protocols'.map NetProtocol.type = protocols.map NetProtocol.type ∧
        ∀ t, queueOf t protocols' =
          if type = t then queueOf t protocols ++ [packet] else queueOf t protocols := by
  induction protocols with
  | nil => exact .inl ⟨List.not_mem_nil, rfl⟩
  | cons p rest ih =>
      by_cases hp : p.type = type
      · refine .inr ⟨_, if_pos hp, rfl, fun t => ?_⟩
        simp only [queueOf, hp]
        split <;> rfl
      · rcases ih with ⟨hn, hnone⟩ | ⟨rest', hsome, htypes, hq⟩
        · refine .inl ⟨?_, ?_⟩
          · rw [List.map_cons, List.mem_cons, not_or]
            exact ⟨fun h => hp h.symm, hn⟩
          · rw [queuePush, if_neg hp, hnone]
            rfl
        · refine .inr ⟨p :: rest', ?_, by rw [List.map_cons, List.map_cons, htypes], fun t => ?_⟩
          · rw [queuePush, if_neg hp, hsome]
            rfl
          · rw [queueOf, queueOf, hq t]
            by_cases ht : p.type = t
            · rw [if_pos ht, if_pos ht, if_neg fun h => hp (ht.trans h.symm)]
            · rw [if_neg ht, if_neg ht]

theorem netSoftirqHandler_types (protocols : List NetProtocol) :
    (netSoftirqHandler protocols).1.map NetProtocol.type = protocols.map NetProtocol.type := by
  induction protocols with
  | nil => rfl
  | cons p rest ih =>
      rw [netSoftirqHandler]
      split <;> simp only [List.map_cons, ih]

/-- Calls are made for registered types only. -/
theorem handledBy_of_notMem {protocols : List NetProtocol} {type : UInt16}
    (h : type ∉ protocols.map NetProtocol.type) :
    handledBy type (netSoftirqHandler protocols).2 = [] := by
  induction protocols with
  | nil => rfl
  | cons p rest ih =>
      rw [List.map_cons, List.mem_cons, not_or] at h
      rw [netSoftirqHandler]
      split
      · exact ih h.2
      · rw [handledBy, List.filterMap_cons, if_neg (Ne.symm h.1)]
        exact ih h.2

/-- One softirq takes the head of every queue and hands it to its handler. -/
theorem netSoftirqHandler_view {protocols : List NetProtocol}
    (hn : (protocols.map NetProtocol.type).Nodup) (type : UInt16) :
    queueOf type (netSoftirqHandler protocols).1 = (queueOf type protocols).tail ∧
      handledBy type (netSoftirqHandler protocols).2 = (queueOf type protocols).head?.toList := by
  induction protocols with
  | nil => exact ⟨rfl, rfl⟩
  | cons p rest ih =>
      rw [List.map_cons, List.nodup_cons] at hn
      obtain ⟨ihq, ihc⟩ := ih hn.2
      by_cases hp : p.type = type
      · have hrest : type ∉ rest.map NetProtocol.type := hp ▸ hn.1
        cases hq : p.queue with
        | nil => simp [netSoftirqHandler, queueOf, hq, hp, handledBy_of_notMem hrest]
        | cons packet queue =>
            have hc := handledBy_of_notMem hrest
            rw [handledBy] at hc
            simp [netSoftirqHandler, queueOf, hq, hp, handledBy, hc]
      · cases hq : p.queue with
        | nil => simp [netSoftirqHandler, queueOf, hq, hp, ihq, ihc]
        | cons packet queue =>
            rw [handledBy] at ihc
            simp [netSoftirqHandler, queueOf, hq, hp, handledBy, ihq, ihc]

/-! ## One step -/

theorem register_nodup {protocols : List NetProtocol}
    (h : (protocols.map NetProtocol.type).Nodup) (type : UInt16) :
    ((netProtocolRegister protocols type).map NetProtocol.type).Nodup := by
  unfold netProtocolRegister
  split
  · exact h
  · rename_i hn
    exact List.nodup_cons.mpr ⟨hn, h⟩

theorem register_empty {protocols : List NetProtocol} (h : ∀ p ∈ protocols, p.queue = [])
    (type : UInt16) : ∀ p ∈ netProtocolRegister protocols type, p.queue = [] := by
  unfold netProtocolRegister
  split
  · exact h
  · intro p hp
    rcases List.mem_cons.mp hp with rfl | hp
    · rfl
    · exact h p hp

/-- After the registrations every type is there once, with an empty queue. -/
theorem boot_protocols (types : List UInt16) :
    ((Stack.boot types).protocols.map NetProtocol.type).Nodup ∧
      ∀ p ∈ (Stack.boot types).protocols, p.queue = [] := by
  have register : ∀ protocols : List NetProtocol, (protocols.map NetProtocol.type).Nodup →
      (∀ p ∈ protocols, p.queue = []) →
        ((types.foldl netProtocolRegister protocols).map NetProtocol.type).Nodup ∧
          ∀ p ∈ types.foldl netProtocolRegister protocols, p.queue = [] := by
    induction types with
    | nil => exact fun _ hn he => ⟨hn, he⟩
    | cons type types ih =>
        exact fun protocols hn he => ih _ (register_nodup hn type) (register_empty he type)
  exact register [] List.nodup_nil fun _ h => absurd h List.not_mem_nil

theorem queueOf_empty {protocols : List NetProtocol} (h : ∀ p ∈ protocols, p.queue = [])
    (type : UInt16) : queueOf type protocols = [] := by
  induction protocols with
  | nil => rfl
  | cons p rest ih =>
      rw [queueOf, h p List.mem_cons_self, ih fun q hq => h q (List.mem_cons_of_mem p hq)]
      exact ite_self _

/-- No event changes the set of protocols. -/
theorem step_types (s : Stack) (e : InputEvent) :
    (s.step e).protocols.map NetProtocol.type = s.protocols.map NetProtocol.type := by
  cases e with
  | input type packet alloc =>
      rcases queuePush_cases type packet s.protocols with ⟨-, hnone⟩ | ⟨protocols', hsome, ht, -⟩
      · simp only [Stack.step, netInputHandler, hnone]
      · simp only [Stack.step, netInputHandler, hsome]
        cases alloc
        · rfl
        · exact ht
  | post kind => rfl
  | handle =>
      rw [Stack.step]
      split
      · rfl
      · exact netSoftirqHandler_types _
      · rfl

theorem arrived_snoc (type : UInt16) (es : List InputEvent) (e : InputEvent) :
    arrived type (es ++ [e]) = arrived type es ++ arrived type [e] :=
  List.filterMap_append

/-- **Step.**  From the point of view of a registered protocol every event is
a push, a ring, an answer or nothing. -/
theorem view_step {s : Stack} (hn : (s.protocols.map NetProtocol.type).Nodup) {type : UInt16}
    (ht : type ∈ s.protocols.map NetProtocol.type) {es : List InputEvent}
    (h : Doorbell.Run (arrived type es) (s.view type)) (e : InputEvent) :
    Doorbell.Run (arrived type (es ++ [e])) ((s.step e).view type) := by
  rw [arrived_snoc]
  -- an event that brings the type nothing and leaves its view alone
  have quiet {e : InputEvent} (hnil : arrived type [e] = [])
      (hview : (s.step e).view type = s.view type) :
      Doorbell.Run (arrived type es ++ arrived type [e]) ((s.step e).view type) := by
    rw [hnil, List.append_nil, hview]
    exact h
  cases e with
  | input type' packet alloc =>
      rcases queuePush_cases type' packet s.protocols with ⟨hnot, hnone⟩ | ⟨ps, hsome, -, hq⟩
      · have hne : type' ≠ type := fun he => hnot (he ▸ ht)
        refine quiet ?_ ?_
        · cases alloc <;> simp [arrived, hne]
        · rw [Stack.step, netInputHandler, hnone]
      cases alloc with
      | false =>
          refine quiet rfl ?_
          rw [Stack.step, netInputHandler, hsome]
          rfl
      | true =>
          have hview : (s.step (.input type' packet true)).view type =
              ⟨if type' = type then queueOf type s.protocols ++ [packet]
                else queueOf type s.protocols, s.pending + 1, handledBy type s.calls⟩ := by
            simp [Stack.step, netInputHandler, hsome, Stack.view, Stack.pending, hq]
          rw [hview]
          by_cases he : type' = type
          · have hone : arrived type [.input type' packet true] = [packet] := by
              simp [arrived, he]
            rw [if_pos he, hone]
            exact .push packet h
          · have hnil : arrived type [.input type' packet true] = [] := by
              simp [arrived, he]
            rw [if_neg he, hnil, List.append_nil]
            exact .ring h
  | post kind => exact quiet rfl (by simp [Stack.step, Stack.view, Stack.pending])
  | handle =>
      cases hm : s.msgs with
      | nil => exact quiet rfl (by rw [Stack.step, hm])
      | cons m msgs =>
          cases m with
          | other kind => exact quiet rfl (by simp [Stack.step, hm, Stack.view, Stack.pending])
          | netInput =>
              have hnil : arrived type [.handle] = [] := rfl
              obtain ⟨hq, hc⟩ := netSoftirqHandler_view hn type
              have hview : (s.step .handle).view type = (s.view type).serve := by
                simp [Stack.step, hm, Stack.view, Stack.pending, Doorbell.serve, hq, ← hc,
                  handledBy]
              rw [hnil, List.append_nil, hview]
              exact .serve h

/-! ## All runs -/

theorem run_types (types : List UInt16) (es : List InputEvent) :
    (run Stack.step (Stack.boot types) es).protocols.map NetProtocol.type =
      (Stack.boot types).protocols.map NetProtocol.type := by
  induction es using List.reverseRecOn with
  | nil => rfl
  | append_singleton es e ih =>
      rw [run_append]
      exact (step_types _ e).trans ih

/-- **Run.**  In every run the stack is a doorbell to each protocol. -/
theorem run_view (types : List UInt16) {type : UInt16}
    (ht : type ∈ (Stack.boot types).protocols.map NetProtocol.type) (es : List InputEvent) :
    Doorbell.Run (arrived type es) ((run Stack.step (Stack.boot types) es).view type) := by
  induction es using List.reverseRecOn with
  | nil =>
      have hview : (Stack.boot types).view type = .empty := by
        rw [Stack.view, queueOf_empty (boot_protocols types).2]
        rfl
      rw [run_nil, hview]
      exact .start
  | append_singleton es e ih =>
      rw [run_append]
      refine view_step ?_ ?_ ih e
      · rw [run_types]
        exact (boot_protocols types).1
      · rw [run_types]
        exact ht

/-- **No packet is stranded, doubled or reordered.**  After every run of
inputs and handled messages, each queue is at most as long as there are
`kNetInput` messages, and what the handler got, followed by the queue, is
what came up; without a message in flight the queue is empty and the handler
has got everything. -/
theorem input_delivered (types : List UInt16) (es : List InputEvent) :
    ∀ proto ∈ (run Stack.step (Stack.boot types) es).protocols,
      proto.queue.length ≤ (run Stack.step (Stack.boot types) es).pending ∧
      handledBy proto.type (run Stack.step (Stack.boot types) es).calls ++ proto.queue =
        arrived proto.type es ∧
      ((run Stack.step (Stack.boot types) es).pending = 0 →
        proto.queue = [] ∧
          handledBy proto.type (run Stack.step (Stack.boot types) es).calls =
            arrived proto.type es) := by
  intro proto hp
  have hn : ((run Stack.step (Stack.boot types) es).protocols.map NetProtocol.type).Nodup := by
    rw [run_types]
    exact (boot_protocols types).1
  have ht : proto.type ∈ (Stack.boot types).protocols.map NetProtocol.type := by
    rw [← run_types types es]
    exact List.mem_map_of_mem hp
  have hview := run_view types ht es
  rw [Stack.view, queueOf_of_mem hn hp] at hview
  exact ⟨hview.enough, hview.fifo, hview.quiet⟩

/-- Two packets for IP and one for ARP, and two messages handled in between. -/
def sampleInputs : List InputEvent :=
  [.input 0x0800 ⟨0, [1]⟩ true, .input 0x0806 ⟨0, [2]⟩ true, .handle,
    .input 0x0800 ⟨0, [3]⟩ true, .handle, .handle]

theorem softirq_sample :
    handledBy 0x0800 (run Stack.step (Stack.boot [0x0806, 0x0800]) sampleInputs).calls =
      [⟨0, [1]⟩, ⟨0, [3]⟩] :=
  ((input_delivered [0x0806, 0x0800] sampleInputs ⟨0x0800, []⟩ (by decide)).2.2 (by decide)).2

end Laplus.Net
