/-
# `Laplus.Xhci.EventRing` — the event ring (`ring.cpp`, `xhci.cpp`)

The software keeps its place in the event ring in a device register, `ERDP`,
and a cycle bit of its own; the controller writes each event with its producer cycle
state and never more than a segment ahead of the register.  `ProcessEvents` is split
at every look at the ring; the controller writes between any two.

The segment is a `Laps`, and what has been popped is what has been delivered,
but for the event in hand (`EventRing.Inv`).
-/
import Laplus.Xhci.Ring

namespace Laplus.Xhci

open Lib

/-! ## `ERDP_Bitmap` -/

/-- `Pointer`. -/
def erdpPointer (erdp : BitVec 64) : BitVec 64 := erdp >>> 4 <<< 4

/-- `SetPointer`: the other bits stay. -/
def erdpSetPointer (erdp value : BitVec 64) : BitVec 64 :=
  erdp &&& 0xf#64 ||| value >>> 4 <<< 4

theorem erdpPointer_setPointer (erdp value : BitVec 64) :
    erdpPointer (erdpSetPointer erdp value) = erdpPointer value := by
  have hmask : ∀ i < 64, (0xf#64).getLsbD i = decide (i < 4) := by decide
  refine BitVec.eq_of_getLsbD_eq fun i hi => ?_
  simp only [erdpPointer, erdpSetPointer, BitVec.getLsbD_shiftLeft, BitVec.getLsbD_ushiftRight,
    BitVec.getLsbD_or, BitVec.getLsbD_and]
  by_cases h4 : i < 4
  · simp [h4]
  · have hback : 4 + (i - 4) = i := by omega
    simp only [hback, hmask i hi]
    simp [h4, hi]

/-- The low bits of the register are not the pointer. -/
theorem erdpPointer_flags (erdp : BitVec 64) (low : BitVec 4) :
    erdpPointer (erdpPointer erdp ||| low.setWidth 64) = erdpPointer erdp := by
  refine BitVec.eq_of_getLsbD_eq fun i hi => ?_
  simp only [erdpPointer, BitVec.getLsbD_shiftLeft, BitVec.getLsbD_ushiftRight,
    BitVec.getLsbD_or, BitVec.getLsbD_setWidth]
  by_cases h4 : i < 4
  · simp [h4]
  · have hback : 4 + (i - 4) = i := by omega
    have hlow : low.getLsbD i = false := BitVec.getLsbD_of_ge _ _ (by omega)
    simp only [hback, hlow]
    simp [h4, hi]

theorem erdpPointer_eq_iff {p : BitVec 64} : erdpPointer p = p ↔ p.toNat % 16 = 0 := by
  rw [erdpPointer, ← BitVec.toNat_inj]
  simp only [BitVec.toNat_shiftLeft, BitVec.toNat_ushiftRight, Nat.shiftLeft_eq,
    Nat.shiftRight_eq_div_pow]
  have hlt := p.isLt
  omega

/-! ## `EventRing` -/

/-- `EventRing`, with the memory of its TRBs, the entry of its segment table and the register. -/
structure EventRing where
  mem : BitVec 64 → Trb
  ringSegmentBaseAddress : BitVec 64
  ringSegmentSize : BitVec 16
  erdp : BitVec 64
  cycleBit : Bool

namespace EventRing

/-- `Initialize`, with `buf_` at `buf`. -/
def initialized (mem : BitVec 64 → Trb) (erdp buf : BitVec 64) (bufSize : Nat) : EventRing where
  mem a := if (a - buf).toNat < 16 * bufSize then fun _ => 0 else mem a
  ringSegmentBaseAddress := buf
  ringSegmentSize := BitVec.ofNat 16 bufSize
  erdp := erdpSetPointer erdp buf
  cycleBit := true

/-- `ReadDequeuePointer`. -/
def readDequeuePointer (r : EventRing) : BitVec 64 := erdpPointer r.erdp

/-- `WriteDequeuePointer`. -/
def writeDequeuePointer (r : EventRing) (p : BitVec 64) : EventRing :=
  { r with erdp := erdpSetPointer r.erdp p }

/-- `Front`. -/
def front (r : EventRing) : Trb := r.mem r.readDequeuePointer

/-- `HasFront`. -/
def hasFront (r : EventRing) : Bool := r.front.cycleBit == r.cycleBit

/-- `Pop`. -/
def pop (r : EventRing) : EventRing :=
  let p := r.readDequeuePointer + 16
  let segmentBegin := r.ringSegmentBaseAddress
  let segmentEnd := segmentBegin + r.ringSegmentSize.setWidth 64 * 16
  if p = segmentEnd then
    { r with cycleBit := !r.cycleBit }.writeDequeuePointer segmentBegin
  else r.writeDequeuePointer p

/-- The address of a TRB of the segment. -/
def slot (r : EventRing) (i : Nat) : BitVec 64 :=
  r.ringSegmentBaseAddress + BitVec.ofNat 64 (16 * i)

section slot

variable (r : EventRing)

theorem slot_inj {i j : Nat} (hi : i ≤ 2 ^ 16) (hj : j ≤ 2 ^ 16) (h : r.slot i = r.slot j) :
    i = j := by
  have hofs := (BitVec.add_right_inj _).mp h
  rw [← BitVec.toNat_inj, BitVec.toNat_ofNat, BitVec.toNat_ofNat] at hofs
  omega

theorem slot_zero : r.slot 0 = r.ringSegmentBaseAddress := BitVec.add_zero _

theorem slot_succ (i : Nat) : r.slot i + 16 = r.slot (i + 1) := by
  rw [slot, slot, BitVec.add_assoc, Nat.mul_add, BitVec.ofNat_add]
  rfl

theorem slot_end : r.ringSegmentBaseAddress + r.ringSegmentSize.setWidth 64 * 16 =
    r.slot r.ringSegmentSize.toNat := by
  have hlt := r.ringSegmentSize.isLt
  have hsixteen : (16 : BitVec 64).toNat = 16 := rfl
  rw [slot, BitVec.add_right_inj, ← BitVec.toNat_inj]
  simp only [BitVec.toNat_mul, BitVec.toNat_setWidth, BitVec.toNat_ofNat, hsixteen]
  omega

theorem slot_aligned (h : erdpPointer r.ringSegmentBaseAddress = r.ringSegmentBaseAddress)
    (i : Nat) : erdpPointer (r.slot i) = r.slot i := by
  rw [erdpPointer_eq_iff] at h ⊢
  rw [slot, BitVec.toNat_add, BitVec.toNat_ofNat]
  omega

/-- `Pop` goes to the next slot, and at the end to the first with the cycle bit flipped. -/
theorem pop_eq {i : Nat} (hi : i < r.ringSegmentSize.toNat) (hp : r.readDequeuePointer = r.slot i) :
    r.pop = if i + 1 = r.ringSegmentSize.toNat then
      { r with cycleBit := !r.cycleBit }.writeDequeuePointer (r.slot 0)
      else r.writeDequeuePointer (r.slot (i + 1)) := by
  have hlt := r.ringSegmentSize.isLt
  simp only [pop, hp, slot_succ, slot_end, slot_zero]
  by_cases hend : i + 1 = r.ringSegmentSize.toNat
  · rw [hend, if_pos rfl, if_pos rfl]
  · rw [if_neg hend, if_neg fun h => hend (r.slot_inj (by omega) (by omega) h)]

end slot

/-! ## The event ring and the controller -/

/-- Where `ProcessEvents` is: at its loop, at the look of `ProcessEvent`, about to handle the event
at the front, about to pop it. -/
inductive Pc where
  | idle
  | loop
  | check
  | handle
  | pop

/-- The ring, the software, the enqueue index and the producer cycle state of the controller, the
events that were written and delivered, and the number of times the register was written. -/
structure System where
  ring : EventRing
  pc : Pc
  enqueue : Nat
  producerCycle : Bool
  written : List Trb
  delivered : List Trb
  popped : Nat

/-- A call of `ProcessEvents`, its next step, an event that the controller writes, and a change of
the low bits of `ERDP`. -/
inductive Event where
  | call
  | software
  | write (t : Trb)
  | flags (low : BitVec 4)

namespace System

/-- A ring after `Initialize`, and a controller that has been told of it. -/
def start (mem : BitVec 64 → Trb) (erdp buf : BitVec 64) (bufSize : Nat) : System where
  ring := .initialized mem erdp buf bufSize
  pc := .idle
  enqueue := 0
  producerCycle := true
  written := []
  delivered := []
  popped := 0

/-- `ProcessEvents` and `ProcessEvent`. -/
def software (s : System) : System :=
  match s.pc with
  | .idle => s
  | .loop => { s with pc := if s.ring.hasFront then .check else .idle }
  | .check => { s with pc := if s.ring.hasFront then .handle else .loop }
  | .handle => { s with delivered := s.delivered ++ [s.ring.front], pc := .pop }
  | .pop => { s with ring := s.ring.pop, popped := s.popped + 1, pc := .loop }

/-- The controller writes an event. -/
def write (s : System) (t : Trb) : System :=
  let atEnd := s.enqueue + 1 = s.ring.ringSegmentSize.toNat
  { s with
    ring := { s.ring with
      mem := Function.update s.ring.mem (s.ring.slot s.enqueue) (t.withCycle s.producerCycle) }
    enqueue := if atEnd then 0 else s.enqueue + 1
    producerCycle := if atEnd then !s.producerCycle else s.producerCycle
    written := s.written ++ [t] }

def step (s : System) : Event → System
  | .call => { s with pc := .loop }
  | .software => s.software
  | .write t => s.write t
  | .flags low =>
      { s with ring := { s.ring with
          erdp := erdpPointer s.ring.erdp ||| low.setWidth 64 } }

/-- `ProcessEvents` is called by one task; the controller does not overtake the register. -/
def admits (s : System) : Event → Bool
  | .call => match s.pc with
    | .idle => true
    | _ => false
  | .write _ => decide (s.written.length < s.popped + s.ring.ringSegmentSize.toNat)
  | _ => true

/-- A bound on the steps of `ProcessEvents` until it stops, if nothing more is written. -/
def steps (s : System) : Nat :=
  match s.pc with
  | .idle => 0
  | .loop => 4 * (s.written.length - s.popped) + 4
  | .check => 4 * (s.written.length - s.popped) + 3
  | .handle => 4 * (s.written.length - s.popped) + 2
  | .pop => 4 * (s.written.length - s.popped) + 1

end System

/-- How the events that were delivered and popped differ. -/
def InHand (s : System) : Prop :=
  match s.pc with
  | .pop => s.delivered.length = s.popped + 1
  | .check | .handle => s.delivered.length = s.popped ∧ s.popped < s.written.length
  | _ => s.delivered.length = s.popped

/-- The invariant, for a segment of `n` TRBs. -/
structure Inv (n : Nat) (s : System) : Prop where
  size : s.ring.ringSegmentSize.toNat = n
  aligned : erdpPointer s.ring.ringSegmentBaseAddress = s.ring.ringSegmentBaseAddress
  laps : Laps n (fun i => (s.ring.mem (s.ring.slot i)).body)
    (fun i => (s.ring.mem (s.ring.slot i)).cycleBit) (s.written.map Trb.body) s.popped
  enqueue : s.enqueue = s.written.length % n
  producerCycle : s.producerCycle = lapMark n s.written.length
  pointer : s.ring.readDequeuePointer = s.ring.slot (s.popped % n)
  cycleBit : s.ring.cycleBit = lapMark n s.popped
  order : s.delivered.map Trb.body <+: s.written.map Trb.body
  inHand : InHand s

namespace Inv

variable {n : Nat} {s : System}

theorem start (mem : BitVec 64 → Trb) (erdp buf : BitVec 64) (bufSize : Nat)
    (h : erdpPointer buf = buf) :
    Inv (bufSize % 2 ^ 16) (System.start mem erdp buf bufSize) where
  size := BitVec.toNat_ofNat _ _
  aligned := h
  laps := by
    refine .empty _ fun i hi => ?_
    have hslot : (slot (.initialized mem erdp buf bufSize) i - buf).toNat < 16 * bufSize := by
      have hle := Nat.mod_le bufSize (2 ^ 16)
      have hsub : buf + BitVec.ofNat 64 (16 * i) - buf = BitVec.ofNat 64 (16 * i) := by
        rw [BitVec.add_comm, BitVec.add_sub_cancel]
      rw [slot, initialized, hsub, BitVec.toNat_ofNat]
      omega
    have hzero : (System.start mem erdp buf bufSize).ring.mem
        (slot (.initialized mem erdp buf bufSize) i) = fun _ => 0 := if_pos hslot
    exact (congrArg Trb.cycleBit hzero).trans Trb.cycleBit_zero
  enqueue := (Nat.zero_mod _).symm
  producerCycle := (lapMark_zero _).symm
  pointer := by
    have hslot : (System.start mem erdp buf bufSize).ring.slot (0 % (bufSize % 2 ^ 16)) = buf := by
      rw [Nat.zero_mod]
      exact slot_zero _
    refine Eq.trans ?_ hslot.symm
    exact (erdpPointer_setPointer erdp buf).trans h
  cycleBit := (lapMark_zero _).symm
  order := List.prefix_refl _
  inHand := rfl

/-- **`HasFront`** says whether there is an event that was not popped. -/
theorem hasFront_iff (h : Inv n s) (hn : 0 < n) :
    s.ring.hasFront = true ↔ s.popped < s.written.length := by
  have hfront := h.laps.front_iff hn
  rw [List.length_map] at hfront
  rw [hasFront, front, h.pointer, h.cycleBit, beq_iff_eq, hfront]

/-- **The controller writes an event.** -/
theorem write (h : Inv n s) (hn : 0 < n) {t : Trb} (hok : s.admits (.write t) = true) :
    Inv n (s.write t) := by
  have hsize := h.size
  have hlt := s.ring.ringSegmentSize.isLt
  have hfree : s.written.length < s.popped + n := by
    rw [← hsize]
    exact of_decide_eq_true hok
  have hslot := Nat.mod_lt s.written.length hn
  have hlen : (s.written ++ [t]).length = s.written.length + 1 := by simp
  -- the slots other than the one written
  have hself : (s.write t).ring.mem (s.ring.slot s.enqueue) = t.withCycle s.producerCycle :=
    Function.update_self _ _ _
  have hother : ∀ i, i < n → i ≠ s.enqueue →
      (s.write t).ring.mem (s.ring.slot i) = s.ring.mem (s.ring.slot i) := by
    intro i hi hne
    refine Function.update_of_ne (fun heq => hne ?_) _ _
    rw [h.enqueue] at heq ⊢
    exact s.ring.slot_inj (by omega) (by omega) heq
  have hindex : (s.written.map Trb.body).length % n = s.enqueue := by
    rw [List.length_map, h.enqueue]
  constructor
  case size => exact h.size
  case aligned => exact h.aligned
  case laps =>
    have hmap : (s.write t).written.map Trb.body = s.written.map Trb.body ++ [t.body] :=
      List.map_append
    rw [hmap]
    refine h.laps.write hn (by rwa [List.length_map]) ?_ ?_ ?_ ?_
    · rw [hindex]
      exact (congrArg Trb.body hself).trans (t.withCycle_withCycle _ _)
    · intro i hi hne
      rw [hindex] at hne
      exact congrArg Trb.body (hother i hi hne)
    · rw [hindex, List.length_map, ← h.producerCycle]
      exact (congrArg Trb.cycleBit hself).trans (t.cycleBit_withCycle _)
    · intro i hi hne
      rw [hindex] at hne
      exact congrArg Trb.cycleBit (hother i hi hne)
  case enqueue =>
    have hwritten : (s.write t).written.length = s.written.length + 1 := hlen
    rw [hwritten, System.write, hsize, h.enqueue]
    by_cases hend : s.written.length % n + 1 = n
    · exact (if_pos hend).trans (lap_end hend).1.symm
    · exact (if_neg hend).trans (lap_succ hn hend).1.symm
  case producerCycle =>
    have hwritten : (s.write t).written.length = s.written.length + 1 := hlen
    rw [hwritten, System.write, hsize, h.enqueue, h.producerCycle]
    by_cases hend : s.written.length % n + 1 = n
    · exact (if_pos hend).trans (lap_end hend).2.symm
    · exact (if_neg hend).trans (lap_succ hn hend).2.symm
  case pointer => exact h.pointer
  case cycleBit => exact h.cycleBit
  case order =>
    have hmap : (s.write t).written.map Trb.body = s.written.map Trb.body ++ [t.body] :=
      List.map_append
    rw [hmap]
    exact h.order.trans (List.prefix_append _ _)
  case inHand =>
    have hmore : s.written.length < (s.write t).written.length := by
      rw [System.write, hlen]
      exact Nat.lt_succ_self _
    have hhand := h.inHand
    cases hpc : s.pc with
    | idle => simpa only [InHand, System.write, hpc] using hhand
    | loop => simpa only [InHand, System.write, hpc] using hhand
    | check =>
        simp only [InHand, hpc] at hhand
        simp only [InHand, System.write, hpc]
        exact ⟨hhand.1, hhand.2.trans hmore⟩
    | handle =>
        simp only [InHand, hpc] at hhand
        simp only [InHand, System.write, hpc]
        exact ⟨hhand.1, hhand.2.trans hmore⟩
    | pop => simpa only [InHand, System.write, hpc] using hhand

/-- **`Pop`.** -/
theorem pop (h : Inv n s) (hn : 0 < n) (hpc : s.pc = .pop) : Inv n s.software := by
  have hsize := h.size
  have hslot := Nat.mod_lt s.popped hn
  have hhand := h.inHand
  rw [InHand, hpc] at hhand
  have hle := h.order.length_le
  rw [List.length_map, List.length_map] at hle
  have hpop := s.ring.pop_eq (hsize.symm ▸ hslot) h.pointer
  have hstep : s.software = { s with
      ring := s.ring.pop, popped := s.popped + 1, pc := .loop } := by rw [System.software, hpc]
  have haligned := fun i => s.ring.slot_aligned h.aligned i
  have hlaps : Laps n (fun i => (s.ring.mem (s.ring.slot i)).body)
      (fun i => (s.ring.mem (s.ring.slot i)).cycleBit) (s.written.map Trb.body) (s.popped + 1) :=
    h.laps.take (by rw [List.length_map]; omega)
  rw [hstep, hpop, hsize]
  by_cases hend : s.popped % n + 1 = n
  · obtain ⟨hzero, hmark⟩ := lap_end hend
    rw [if_pos hend]
    refine { h with laps := hlaps, pointer := ?_, cycleBit := ?_, inHand := hhand }
    · rw [hzero]
      exact (erdpPointer_setPointer _ _).trans (haligned 0)
    · rw [hmark, ← h.cycleBit]
      rfl
  · obtain ⟨hsucc, hmark⟩ := lap_succ hn hend
    rw [if_neg hend]
    refine { h with laps := hlaps, pointer := ?_, cycleBit := ?_, inHand := hhand }
    · rw [hsucc]
      exact (erdpPointer_setPointer _ _).trans (haligned _)
    · rw [hmark, ← h.cycleBit]
      rfl

/-- The handler gets the next event. -/
theorem handle (h : Inv n s) (hpc : s.pc = .handle) : Inv n s.software := by
  have hhand := h.inHand
  rw [InHand, hpc] at hhand
  have hstep : s.software = { s with
      delivered := s.delivered ++ [s.ring.front], pc := .pop } := by rw [System.software, hpc]
  have hitem := h.laps.item _ (Nat.le_refl _) (by rw [List.length_map]; exact hhand.2)
  rw [hstep]
  refine { h with order := ?_, inHand := ?_ }
  · rw [List.map_append]
    refine concat_isPrefix h.order ?_
    rw [List.length_map, hhand.1, hitem, ← h.pointer]
    rfl
  · simp [InHand, hhand.1]

/-- **A step of `ProcessEvents`.** -/
theorem software (h : Inv n s) (hn : 0 < n) : Inv n s.software := by
  have hfront := h.hasFront_iff hn
  have hhand := h.inHand
  cases hpc : s.pc with
  | idle =>
      have hstep : s.software = s := by rw [System.software, hpc]
      rw [hstep]
      exact h
  | loop =>
      rw [InHand, hpc] at hhand
      rw [System.software, hpc]
      cases hhas : s.ring.hasFront with
      | true => exact { h with inHand := ⟨hhand, hfront.mp hhas⟩ }
      | false => exact { h with inHand := hhand }
  | check =>
      rw [InHand, hpc] at hhand
      rw [System.software, hpc]
      cases hhas : s.ring.hasFront with
      | true => exact { h with inHand := hhand }
      | false => exact { h with inHand := hhand.1 }
  | handle => exact h.handle hpc
  | pop => exact h.pop hn hpc

/-- **A step.** -/
theorem step (h : Inv n s) (hn : 0 < n) {e : Event} (hok : s.admits e = true) :
    Inv n (s.step e) := by
  cases e with
  | call =>
      have hpc : s.pc = .idle := by
        cases hp : s.pc <;> simp [System.admits, hp] at hok ⊢
      have hhand := h.inHand
      rw [InHand, hpc] at hhand
      exact { h with inHand := hhand }
  | software => exact h.software hn
  | write t => exact h.write hn hok
  | flags low => exact { h with pointer := (erdpPointer_flags _ low).trans h.pointer }

/-- At its loop `ProcessEvents` goes on unless all has been delivered. -/
theorem stops_iff (h : Inv n s) (hn : 0 < n) (hpc : s.pc = .loop) :
    s.software.pc = .idle ↔ s.delivered.map Trb.body = s.written.map Trb.body := by
  have hfront := h.hasFront_iff hn
  have hhand := h.inHand
  rw [InHand, hpc] at hhand
  have hle := h.order.length_le
  have hall : s.delivered.map Trb.body = s.written.map Trb.body ↔ ¬s.popped < s.written.length := by
    constructor
    · intro heq
      have hlen := congrArg List.length heq
      simp only [List.length_map] at hlen
      omega
    · intro hnot
      refine h.order.eq_of_length ?_
      simp only [List.length_map] at hle ⊢
      omega
  rw [hall, ← hfront, System.software, hpc]
  cases hhas : s.ring.hasFront <;> simp

end Inv

theorem System.written_software (s : System) : s.software.written = s.written := by
  rw [software]
  cases s.pc <;> rfl

namespace Inv

variable {n : Nat} {s : System}

/-- A step of `ProcessEvents` brings it closer to its end. -/
theorem steps_software (h : Inv n s) (hn : 0 < n) (hpc : s.pc ≠ .idle) :
    s.software.steps < s.steps := by
  have hfront := h.hasFront_iff hn
  have hhand := h.inHand
  rw [System.software, System.steps, System.steps]
  cases hp : s.pc with
  | idle => exact absurd hp hpc
  | loop =>
      cases s.ring.hasFront with
      | true => exact Nat.lt_succ_self _
      | false => exact Nat.succ_pos _
  | check =>
      rw [InHand, hp] at hhand
      rw [hfront.mpr hhand.2]
      exact Nat.lt_succ_self _
  | handle => exact Nat.lt_succ_self _
  | pop =>
      rw [InHand, hp] at hhand
      have hle := h.order.length_le
      simp only [List.length_map] at hle
      simp only
      omega

/-- **`ProcessEvents` ends**, and then all that is written has been delivered. -/
theorem finishes {m : Nat} (h : Inv n s) (hn : 0 < n) (hpc : s.pc ≠ .idle) (hm : s.steps ≤ m) :
    ∃ m, (System.software^[m] s).pc = .idle ∧
      (System.software^[m] s).delivered.map Trb.body = s.written.map Trb.body := by
  induction m generalizing s with
  | zero =>
      have hless := h.steps_software hn hpc
      omega
  | succ m ih =>
      by_cases hstop : s.software.pc = .idle
      · -- only the loop stops
        have hloop : s.pc = .loop := by
          have hhand := h.inHand
          have hfront := h.hasFront_iff hn
          cases hp : s.pc with
          | idle => exact absurd hp hpc
          | loop => rfl
          | check =>
              rw [InHand, hp] at hhand
              rw [System.software, hp, hfront.mpr hhand.2] at hstop
              cases hstop
          | handle =>
              rw [System.software, hp] at hstop
              cases hstop
          | pop =>
              rw [System.software, hp] at hstop
              cases hstop
        refine ⟨1, hstop, ?_⟩
        have hdelivered : s.software.delivered = s.delivered := by rw [System.software, hloop]
        rw [Function.iterate_one, hdelivered]
        exact (h.stops_iff hn hloop).mp hstop
      · have hless := h.steps_software hn hpc
        obtain ⟨m', hidle, hall⟩ := ih (h.software hn) hstop (by omega)
        refine ⟨m' + 1, ?_⟩
        rw [Function.iterate_succ_apply]
        exact ⟨hidle, hall.trans (by rw [s.written_software])⟩

end Inv

/-- **The event ring is a FIFO.**  Whatever the order of the writes of the controller and of the
steps of `ProcessEvents`: what has been delivered are the first events that were written, each
once; the loop stops exactly when that is all of them, and it gets there. -/
theorem event_ring_fifo (mem : BitVec 64 → Trb) (erdp buf : BitVec 64) (bufSize : Nat)
    (halign : erdpPointer buf = buf) (hsize : (BitVec.ofNat 16 bufSize).toNat ≥ 1)
    (es : List Event)
    (hes : Guarded System.step (fun s e => s.admits e = true) (.start mem erdp buf bufSize) es) :
    let s := run System.step (.start mem erdp buf bufSize) es
    s.delivered.map Trb.body <+: s.written.map Trb.body ∧
      (s.pc = .loop →
        (s.software.pc = .idle ↔ s.delivered.map Trb.body = s.written.map Trb.body)) ∧
      (s.pc ≠ .idle → ∃ m, (System.software^[m] s).pc = .idle ∧
        (System.software^[m] s).delivered.map Trb.body = s.written.map Trb.body) := by
  intro s
  rw [BitVec.toNat_ofNat] at hsize
  have hinv : Inv (bufSize % 2 ^ 16) s :=
    inv_run (Inv (bufSize % 2 ^ 16)) (fun s e h hok => h.step hsize hok)
      (.start mem erdp buf bufSize halign) hes
  exact ⟨hinv.order, hinv.stops_iff hsize, fun hpc => hinv.finishes hsize hpc (Nat.le_refl _)⟩

/-- A segment of one TRB: an event is written, delivered and popped, and a second takes its place
while `ProcessEvents` is at its loop. -/
def shortRun : List Event :=
  [.write fun _ => 1, .call, .software, .flags 8, .software, .software, .software,
    .write fun _ => 2] ++ List.replicate 5 .software

theorem event_ring_fifo_short :
    let s := run System.step (.start (fun _ _ => 0) 0 0x1000 1) shortRun
    s.delivered.map Trb.body <+: s.written.map Trb.body ∧
      (s.pc = .loop →
        (s.software.pc = .idle ↔ s.delivered.map Trb.body = s.written.map Trb.body)) ∧
      (s.pc ≠ .idle → ∃ m, (System.software^[m] s).pc = .idle ∧
        (System.software^[m] s).delivered.map Trb.body = s.written.map Trb.body) :=
  event_ring_fifo (fun _ _ => 0) 0 0x1000 1 (by decide) (by decide) shortRun (by decide +kernel)

end EventRing

end Laplus.Xhci
