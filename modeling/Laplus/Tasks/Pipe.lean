/-
# `Laplus.Tasks.Pipe` — the pipe between two terminals (`terminal.cpp`)

`PipeDescriptor::Write` cuts a buffer into messages of at most 16 bytes, `Read` takes
them from the queue of the reader's task and keeps what does not fit; a message of
length 0 is the end.  The queue also carries messages that have nothing to do with the
pipe, and `Read` drops them.

A step of the model is one message sent or received.  `Pipe.Inv` says where each byte is that
was written.
-/
import Laplus.Lib.Run
import Mathlib.Data.List.Basic

namespace Laplus.Tasks

open Lib

/-! ## `PipeDescriptor` -/

/-- `Message`: one of type `kPipe`, with the first `len` bytes of its data, or another. -/
inductive Message where
  | pipe (data : List UInt8)
  | other

/-- `sizeof(msg.arg.pipe.data)`. -/
def pipeDataSize : Nat := 16

/-- `PipeDescriptor`, with the first `len_` bytes of `data_`. -/
structure PipeDescriptor where
  data : List UInt8
  closed : Bool

namespace PipeDescriptor

/-- `Read`, up to its loop: what it returns without a message. -/
def read (fd : PipeDescriptor) (len : Nat) : Option (PipeDescriptor × List UInt8) :=
  if 0 < fd.data.length then some ({ fd with data := fd.data.drop len }, fd.data.take len)
  else if fd.closed then some (fd, [])
  else none

/-- `Read`, in its loop: what it returns for a message. -/
def receive (fd : PipeDescriptor) (len : Nat) :
    Message → Option (PipeDescriptor × List UInt8)
  | .other => none
  | .pipe data =>
      if data.length = 0 then some ({ fd with closed := true }, [])
      else some ({ fd with data := data.drop len }, data.take len)

end PipeDescriptor

/-! ## The pipe and its two sides -/

/-- The descriptor, the queue of the reader's task, what `Write` has still to send, the length of
the `Read` that waits, and what was written and returned. -/
structure Pipe where
  fd : PipeDescriptor
  msgs : List Message
  unsent : List UInt8
  reading : Option Nat
  written : List UInt8
  finished : Bool
  returned : List (List UInt8)

/-- `Write` and `FinishWrite` are called, `Write` sends a message, another message comes in, `Read`
is called, and looks for a message. -/
inductive PipeEvent where
  | write (buf : List UInt8)
  | send
  | finishWrite
  | other
  | read (len : Nat)
  | poll

namespace Pipe

/-- A new pipe, and a reader's task with messages. -/
def start (unrelated : Nat) : Pipe where
  fd := ⟨[], false⟩
  msgs := List.replicate unrelated .other
  unsent := []
  reading := none
  written := []
  finished := false
  returned := []

/-- `Read` returns, or waits. -/
def answer (p : Pipe) (len : Nat) : Option (PipeDescriptor × List UInt8) → Pipe
  | some (fd, bytes) => { p with fd, reading := none, returned := p.returned ++ [bytes] }
  | none => { p with reading := some len }

def step (p : Pipe) : PipeEvent → Pipe
  | .write buf => { p with unsent := buf, written := p.written ++ buf }
  | .send =>
      if p.unsent.length = 0 then p
      else { p with
        msgs := p.msgs ++ [.pipe (p.unsent.take pipeDataSize)]
        unsent := p.unsent.drop pipeDataSize }
  | .finishWrite => { p with msgs := p.msgs ++ [.pipe []], finished := true }
  | .other => { p with msgs := p.msgs ++ [.other] }
  | .read len => p.answer len (p.fd.read len)
  | .poll =>
      match p.reading, p.msgs with
      | some len, msg :: msgs => { p with msgs }.answer len (p.fd.receive len msg)
      | _, _ => p

/-- The calls of a side come one after another, and `FinishWrite` is the last of its. -/
def admits (p : Pipe) : PipeEvent → Bool
  | .write _ => decide (p.unsent = []) && !p.finished
  | .finishWrite => decide (p.unsent = []) && !p.finished
  | .read len => decide (p.reading = none) && decide (1 ≤ len)
  | _ => true

end Pipe

/-- The data of the pipe's messages. -/
def pipeData (msgs : List Message) : List (List UInt8) :=
  msgs.filterMap fun
    | .pipe data => some data
    | .other => none

section pipeData

variable (msgs : List Message) (data : List UInt8)

@[simp] theorem pipeData_other : pipeData (.other :: msgs) = pipeData msgs := rfl

@[simp] theorem pipeData_pipe : pipeData (.pipe data :: msgs) = data :: pipeData msgs := rfl

@[simp] theorem pipeData_concat_other : pipeData (msgs ++ [.other]) = pipeData msgs := by
  rw [pipeData, List.filterMap_append]
  exact List.append_nil _

@[simp] theorem pipeData_concat_pipe :
    pipeData (msgs ++ [.pipe data]) = pipeData msgs ++ [data] := by
  rw [pipeData, List.filterMap_append]
  rfl

theorem pipeData_replicate (k : Nat) : pipeData (List.replicate k .other) = [] := by
  induction k with
  | zero => rfl
  | succ k ih => exact ih

end pipeData

/-- The messages of the pipe that are under way: data, and then the end. -/
structure Sent (chunks : List (List UInt8)) (p : Pipe) : Prop where
  data : pipeData p.msgs = chunks ++ if p.finished && !p.fd.closed then [[]] else []
  chunk : ∀ c ∈ chunks, c ≠ [] ∧ c.length ≤ pipeDataSize

/-- What was returned from the first `0` on, which comes when `closed` does. -/
def Ended (returned : List (List UInt8)) (closed : Prop) : Prop :=
  ∀ i : Nat, returned[i]? = some [] → closed ∧ ∀ j ≥ i, ∀ r, returned[j]? = some r → r = []

/-- A `Read` more returns. -/
theorem Ended.concat {returned : List (List UInt8)} {closed : Prop} {r : List UInt8}
    (h : Ended returned closed) (hnil : r = [] → closed) (hne : r ≠ [] → ¬closed) :
    Ended (returned ++ [r]) closed := by
  have hlast : ∀ j x, (returned ++ [r])[j]? = some x → returned[j]? = some x ∨
      j = returned.length ∧ x = r := by
    intro j x hj
    rcases Nat.lt_trichotomy j returned.length with hlt | rfl | hgt
    · rw [List.getElem?_append_left hlt] at hj
      exact .inl hj
    · rw [List.getElem?_concat_length] at hj
      exact .inr ⟨rfl, (Option.some.inj hj).symm⟩
    · rw [List.getElem?_eq_none (by simpa using Nat.succ_le_of_lt hgt)] at hj
      cases hj
  intro i hi
  rcases hlast i [] hi with hold | ⟨rfl, hr⟩
  · obtain ⟨hclosed, hafter⟩ := h i hold
    refine ⟨hclosed, fun j hj x hx => ?_⟩
    rcases hlast j x hx with hx | ⟨_, rfl⟩
    · exact hafter j hj x hx
    · by_contra hx
      exact hne hx hclosed
  · refine ⟨hnil hr.symm, fun j hj x hx => ?_⟩
    rcases hlast j x hx with hx | ⟨_, rfl⟩
    · have hlt := (List.getElem?_eq_some_iff.mp hx).1
      omega
    · exact hr.symm

/-- **Where the bytes are**: returned, carried over, under way, or not yet sent. -/
structure Pipe.Inv (p : Pipe) : Prop where
  sent : ∃ chunks, Sent chunks p ∧
    p.returned.flatten ++ p.fd.data ++ chunks.flatten ++ p.unsent = p.written
  carry : p.fd.data.length ≤ pipeDataSize
  finished : p.finished = true → p.unsent = []
  closed : p.fd.closed = true → p.finished = true ∧ pipeData p.msgs = [] ∧ p.fd.data = []
  reading : ∀ len, p.reading = some len → 1 ≤ len ∧ p.fd.data = [] ∧ p.fd.closed = false
  ended : Ended p.returned (p.fd.closed = true)

namespace Pipe.Inv

variable {p : Pipe}

theorem start (unrelated : Nat) : (Pipe.start unrelated).Inv where
  sent := ⟨[], ⟨pipeData_replicate unrelated, fun c hc => by cases hc⟩, rfl⟩
  carry := Nat.zero_le _
  finished _ := rfl
  closed h := by cases h
  reading len h := by cases h
  ended i h := by cases h

/-- All that was written was returned, once the end has been read. -/
theorem returned_all (h : p.Inv) (hclosed : p.fd.closed = true) :
    p.returned.flatten = p.written := by
  obtain ⟨hfinished, hmsgs, hdata⟩ := h.closed hclosed
  obtain ⟨chunks, hsent, hbytes⟩ := h.sent
  have hchunks := hsent.data
  rw [hmsgs, hclosed, Bool.not_true, Bool.and_false] at hchunks
  rw [← hbytes, hdata, h.finished hfinished, (List.append_eq_nil_iff.mp hchunks.symm).1]
  simp

/-- `Write` is called. -/
theorem write (h : p.Inv) {buf : List UInt8} (hok : p.admits (.write buf) = true) :
    (p.step (.write buf)).Inv := by
  obtain ⟨hunsent, hfinished⟩ : p.unsent = [] ∧ p.finished = false := by simpa [admits] using hok
  obtain ⟨chunks, hsent, hbytes⟩ := h.sent
  refine { h with sent := ⟨chunks, ⟨hsent.data, hsent.chunk⟩, ?_⟩, finished := fun hf => ?_ }
  · rw [step, ← hbytes, hunsent, List.append_nil]
  · exact absurd (hfinished.symm.trans hf) Bool.false_ne_true

/-- `Write` sends a message. -/
theorem send (h : p.Inv) : (p.step .send).Inv := by
  rw [step]
  by_cases hnil : p.unsent.length = 0
  · rw [if_pos hnil]
    exact h
  rw [if_neg hnil]
  have hunsent : p.unsent ≠ [] := fun h0 => hnil (by rw [h0]; rfl)
  have hfinished : p.finished = false := by simpa using mt h.finished hunsent
  have hclosed : p.fd.closed = false := by
    simpa using mt (fun hc => (h.closed hc).1) (by rw [hfinished]; exact Bool.false_ne_true)
  obtain ⟨chunks, hsent, hbytes⟩ := h.sent
  have hdata := hsent.data
  rw [hfinished, Bool.false_and, if_neg Bool.false_ne_true, List.append_nil] at hdata
  refine { h with
    sent := ⟨chunks ++ [p.unsent.take pipeDataSize], ⟨?_, ?_⟩, ?_⟩, finished := ?_, closed := ?_ }
  · rw [pipeData_concat_pipe, hdata, hfinished]
    simp
  · intro c hc
    rcases List.mem_append.mp hc with hc | hc
    · exact hsent.chunk c hc
    · rw [List.mem_singleton.mp hc]
      refine ⟨fun h0 => ?_, List.length_take_le _ _⟩
      rcases List.take_eq_nil_iff.mp h0 with h0 | h0
      · cases h0
      · exact hunsent h0
  · rw [← hbytes]
    simp
  · intro hf
    exact absurd (hfinished.symm.trans hf) Bool.false_ne_true
  · intro hc
    exact absurd (hclosed.symm.trans hc) Bool.false_ne_true

/-- `FinishWrite` is called. -/
theorem finishWrite (h : p.Inv) (hok : p.admits .finishWrite = true) :
    (p.step .finishWrite).Inv := by
  obtain ⟨hunsent, hfinished⟩ : p.unsent = [] ∧ p.finished = false := by simpa [admits] using hok
  have hclosed : p.fd.closed = false := by
    simpa using mt (fun hc => (h.closed hc).1) (by rw [hfinished]; exact Bool.false_ne_true)
  obtain ⟨chunks, hsent, hbytes⟩ := h.sent
  have hdata := hsent.data
  rw [hfinished, Bool.false_and, if_neg Bool.false_ne_true, List.append_nil] at hdata
  refine { h with
    sent := ⟨chunks, ⟨?_, hsent.chunk⟩, hbytes⟩, finished := fun _ => hunsent, closed := ?_ }
  · rw [step, pipeData_concat_pipe, hdata, hclosed]
    simp
  · intro hc
    exact absurd (hclosed.symm.trans hc) Bool.false_ne_true

/-- Another message comes in. -/
theorem other (h : p.Inv) : (p.step .other).Inv := by
  obtain ⟨chunks, hsent, hbytes⟩ := h.sent
  refine { h with sent := ⟨chunks, ⟨?_, hsent.chunk⟩, hbytes⟩, closed := fun hc => ?_ }
  · rw [step, pipeData_concat_other]
    exact hsent.data
  · rw [step, pipeData_concat_other]
    exact h.closed hc

theorem length_drop_le {data : List UInt8} {len n : Nat} (h : data.length ≤ n) :
    (data.drop len).length ≤ n := by
  rw [List.length_drop]
  omega

/-- `Read` is called. -/
theorem read (h : p.Inv) {len : Nat} (hok : p.admits (.read len) = true) :
    (p.step (.read len)).Inv := by
  obtain ⟨_, hlen⟩ : p.reading = none ∧ 1 ≤ len := by simpa [admits] using hok
  obtain ⟨chunks, hsent, hbytes⟩ := h.sent
  rw [step, PipeDescriptor.read]
  by_cases hdata : 0 < p.fd.data.length
  · -- the bytes carried over
    have hne : p.fd.data ≠ [] := List.length_pos_iff.mp hdata
    have hclosed : ¬p.fd.closed = true := fun hc => hne (h.closed hc).2.2
    rw [if_pos hdata]
    refine { h with
      sent := ⟨chunks, ⟨hsent.data, hsent.chunk⟩, ?_⟩, carry := ?_, closed := fun hc => absurd hc hclosed
      reading := fun _ hr => (by cases hr), ended := ?_ }
    · refine Eq.trans ?_ hbytes
      simp [answer]
    · exact length_drop_le h.carry
    · refine h.ended.concat (fun hnil => ?_) fun _ => hclosed
      rcases List.take_eq_nil_iff.mp hnil with h0 | h0
      · omega
      · exact absurd h0 hne
  · have hnil : p.fd.data = [] := List.length_eq_zero_iff.mp (by omega)
    rw [if_neg hdata]
    cases hclosed : p.fd.closed with
    | true =>
        rw [if_pos rfl]
        refine { h with
          sent := ⟨chunks, ⟨hsent.data, hsent.chunk⟩, ?_⟩, reading := fun _ hr => (by cases hr), ended := ?_ }
        · refine Eq.trans ?_ hbytes
          simp [answer]
        · exact h.ended.concat (fun _ => hclosed) fun hne => absurd rfl hne
    | false =>
        rw [if_neg Bool.false_ne_true]
        refine { h with
          sent := ⟨chunks, ⟨hsent.data, hsent.chunk⟩, hbytes⟩, reading := fun len' hr => ?_ }
        obtain rfl := Option.some.inj hr
        exact ⟨hlen, hnil, hclosed⟩

/-- `Read` gets a message of the pipe. -/
theorem poll_pipe (h : p.Inv) {len : Nat} {data : List UInt8} {msgs : List Message}
    (hreading : p.reading = some len) (hmsgs : p.msgs = .pipe data :: msgs) :
    ({ p with msgs }.answer len (p.fd.receive len (.pipe data))).Inv := by
  obtain ⟨hlen, hnil, hclosed⟩ := h.reading len hreading
  obtain ⟨chunks, hsent, hbytes⟩ := h.sent
  have hdata := hsent.data
  rw [hmsgs, pipeData_pipe, hclosed, Bool.not_false, Bool.and_true] at hdata
  have hunended : Ended p.returned False := fun i hi =>
    absurd (hclosed.symm.trans (h.ended i hi).1) Bool.false_ne_true
  rw [PipeDescriptor.receive]
  by_cases hzero : data.length = 0
  · -- the end: there is no data before it
    obtain rfl := List.length_eq_zero_iff.mp hzero
    obtain rfl : chunks = [] := by
      cases chunks with
      | nil => rfl
      | cons c chunks =>
          have hc := (hsent.chunk c List.mem_cons_self).1
          exact absurd (List.cons.inj hdata).1.symm hc
    obtain ⟨hfinished, hempty⟩ : p.finished = true ∧ pipeData msgs = [] := by
      cases hf : p.finished with
      | true =>
          rw [hf, if_pos rfl] at hdata
          exact ⟨rfl, (List.cons.inj hdata).2⟩
      | false =>
          rw [hf, if_neg Bool.false_ne_true] at hdata
          cases hdata
    rw [if_pos hzero]
    refine { h with
      sent := ⟨[], ⟨?_, hsent.chunk⟩, ?_⟩, closed := fun _ => ⟨hfinished, hempty, hnil⟩
      reading := fun _ hr => (by cases hr), ended := ?_ }
    · simpa [answer] using hempty
    · refine Eq.trans ?_ hbytes
      simp [answer]
    · refine Ended.concat (fun i hi => (hunended i hi).1.elim) (fun _ => rfl) fun hne => ?_
      exact absurd rfl hne
  · have hne : data ≠ [] := fun h0 => hzero (by rw [h0]; rfl)
    obtain ⟨chunks, rfl⟩ : ∃ chunks', chunks = data :: chunks' := by
      cases chunks with
      | nil =>
          cases hf : p.finished with
          | true =>
              rw [hf, if_pos rfl] at hdata
              exact absurd (List.cons.inj hdata).1 hne
          | false =>
              rw [hf, if_neg Bool.false_ne_true] at hdata
              cases hdata
      | cons c chunks => exact ⟨chunks, by rw [(List.cons.inj hdata).1]⟩
    have hchunk := hsent.chunk data List.mem_cons_self
    rw [if_neg hzero]
    refine { h with
      sent := ⟨chunks, ⟨?_, fun c hc => hsent.chunk c (List.mem_cons_of_mem _ hc)⟩, ?_⟩
      carry := ?_
      closed := fun hc => absurd (hclosed.symm.trans hc) Bool.false_ne_true
      reading := fun _ hr => (by cases hr), ended := ?_ }
    · simpa [answer, hclosed] using (List.cons.inj hdata).2
    · refine Eq.trans ?_ hbytes
      simp [answer, hnil]
    · exact length_drop_le hchunk.2
    · have hopen : ¬p.fd.closed = true := by rw [hclosed]; exact Bool.false_ne_true
      refine h.ended.concat (fun h0 => ?_) fun _ => hopen
      rcases List.take_eq_nil_iff.mp h0 with h0 | h0
      · omega
      · exact absurd h0 hne

/-- `Read` looks for a message. -/
theorem poll (h : p.Inv) : (p.step .poll).Inv := by
  obtain ⟨chunks, hsent, hbytes⟩ := h.sent
  rw [step]
  cases hreading : p.reading with
  | none => exact h
  | some len =>
      obtain ⟨hlen, hnil, hclosed⟩ := h.reading len hreading
      cases hmsgs : p.msgs with
      | nil => exact h
      | cons msg msgs =>
          have hdata := hsent.data
          rw [hmsgs] at hdata
          cases msg with
          | other =>
              refine { h with
                sent := ⟨chunks, ⟨hdata, hsent.chunk⟩, hbytes⟩
                closed := fun hc => absurd (hclosed.symm.trans hc) Bool.false_ne_true
                reading := fun len' hr => ?_ }
              obtain rfl := Option.some.inj hr
              exact ⟨hlen, hnil, hclosed⟩
          | pipe data => exact h.poll_pipe hreading hmsgs

/-- **A step.** -/
theorem step (h : p.Inv) {e : PipeEvent} (hok : p.admits e = true) : (p.step e).Inv := by
  cases e with
  | write buf => exact h.write hok
  | send => exact h.send
  | finishWrite => exact h.finishWrite hok
  | other => exact h.other
  | read len => exact h.read hok
  | poll => exact h.poll

end Pipe.Inv

/-- Eighteen bytes go in two messages; they are read with other lengths, and then the end. -/
def shortPipeRun : List PipeEvent :=
  [.write (List.replicate 18 1), .read 5, .send, .other, .poll, .poll, .read 20, .send, .finishWrite,
    .read 4, .poll, .poll, .read 1, .poll, .read 7]

end Laplus.Tasks
