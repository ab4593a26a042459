/-
# `Laplus.Net.E1000` — the receive ring of the NIC

The device writes a frame into the buffers of the ring, 2048 bytes to a
descriptor, and marks the last one with EOP; it never passes the tail.
`e1000_receive` goes round the ring behind it, hands up what is in one
descriptor, and moves the tail.  It looks at one descriptor at a time: the
last one of a long frame looks like a frame of its own, unless it is short.

The loop of `e1000_receive` is split where it has looked at a descriptor; the
device writes at any time.
-/
import Laplus.Lib.Run
import Laplus.Lib.Slots

namespace Laplus.Net

open Lib

/-! ## Descriptors -/

/-- `struct rx_desc`, with the buffer at `addr`. -/
structure RxDesc where
  buf : List UInt8
  length : UInt16
  status : UInt8
  errors : UInt8
deriving DecidableEq

/-- `E1000_RXD_STAT_DD`. -/
def rxdStatDd : UInt8 := 0x01

/-- `E1000_RXD_STAT_EOP`. -/
def rxdStatEop : UInt8 := 0x02

/-- `RX_RING_SIZE`. -/
def rxRingSize : UInt32 := 16

/-- What the device writes to one descriptor. -/
structure Piece where
  data : List UInt8
  eop : Bool
  errors : UInt8
deriving DecidableEq

/-- `desc->status & E1000_RXD_STAT_DD`. -/
def RxDesc.done (desc : RxDesc) : Bool := desc.status &&& rxdStatDd ≠ 0

/-- What a descriptor says. -/
def RxDesc.piece (desc : RxDesc) : Piece :=
  ⟨desc.buf.take desc.length.toNat, desc.status &&& rxdStatEop ≠ 0, desc.errors⟩

/-- What one turn of `e1000_receive` hands to `ether_input`. -/
def RxDesc.passed (desc : RxDesc) : List (List UInt8) :=
  if desc.length < 60 then []
  else if desc.status &&& rxdStatEop = 0 then []
  else if desc.errors ≠ 0 then []
  else [desc.buf.take desc.length.toNat]

/-- The device writes a piece; `marks` are the bits of the status nobody reads. -/
def RxDesc.fill (desc : RxDesc) (p : Piece) (marks : UInt8) : RxDesc where
  buf := p.data ++ desc.buf.drop p.data.length
  length := UInt16.ofNat p.data.length
  status := marks &&& 0xfc ||| (if p.eop then rxdStatEop ||| rxdStatDd else rxdStatDd)
  errors := p.errors

/-- The same for what was written. -/
def Piece.passed (p : Piece) : List (List UInt8) :=
  if p.data.length < 60 then []
  else if p.eop = false then []
  else if p.errors ≠ 0 then []
  else [p.data]

section Desc
variable (desc : RxDesc) (p : Piece) (marks : UInt8)

/-- The other bits of the status do not get in the way. -/
theorem marks_and (v bit : UInt8) (hbit : 0xfc &&& bit = 0) :
    (marks &&& 0xfc ||| v) &&& bit = v &&& bit := by
  refine UInt8.eq_of_toBitVec_eq ?_
  have hbit' : (marks.toBitVec &&& 0xfc#8) &&& bit.toBitVec = 0#8 := by
    have hb : 0xfc#8 &&& bit.toBitVec = 0#8 := congrArg UInt8.toBitVec hbit
    rw [BitVec.and_assoc, hb, BitVec.and_zero]
  rw [UInt8.toBitVec_and, UInt8.toBitVec_or, UInt8.toBitVec_and, UInt8.toBitVec_and,
    BitVec.and_or_distrib_right]
  exact (congrArg (· ||| _) hbit').trans (BitVec.zero_or)

@[simp] theorem fill_done : (desc.fill p marks).done = true := by
  simp only [RxDesc.done, RxDesc.fill, marks_and marks _ rxdStatDd (by decide)]
  cases p.eop with
  | false => decide
  | true => decide

variable {desc} in
theorem clear_done (h : desc.status = 0) : desc.done = false := by simp [RxDesc.done, h]

theorem fill_eop : ((desc.fill p marks).status &&& rxdStatEop ≠ 0) ↔ p.eop = true := by
  simp only [RxDesc.fill, marks_and marks _ rxdStatEop (by decide)]
  cases p.eop with
  | false => decide
  | true => decide

/-- A descriptor says what was written to it. -/
theorem fill_piece (hp : p.data.length ≤ 2048) : (desc.fill p marks).piece = p := by
  have hlen : (UInt16.ofNat p.data.length).toNat = p.data.length := by
    rw [UInt16.toNat_ofNat']
    exact Nat.mod_eq_of_lt (by omega)
  have heop := fill_eop desc p marks
  obtain ⟨data, eop, errors⟩ := p
  simp only [RxDesc.piece, Piece.mk.injEq]
  refine ⟨?_, ?_, rfl⟩
  · exact (congrArg (fun n => (data ++ _).take n) hlen).trans List.take_left
  · rw [Bool.eq_iff_iff, decide_eq_true_iff]
    exact heop

variable {desc} in
/-- The driver goes by what the descriptor says. -/
theorem passed_piece (h : desc.length.toNat ≤ desc.buf.length) :
    desc.passed = desc.piece.passed := by
  have hlen : (desc.buf.take desc.length.toNat).length = desc.length.toNat :=
    List.length_take_of_le h
  simp only [RxDesc.passed, RxDesc.piece, Piece.passed, hlen, UInt16.lt_iff_toNat_lt,
    ne_eq, decide_not, Bool.not_eq_false', decide_eq_true_eq]
  rfl

theorem fill_length : (desc.fill p marks).length.toNat ≤ (desc.fill p marks).buf.length := by
  rw [RxDesc.fill, UInt16.toNat_ofNat', List.length_append]
  exact (Nat.mod_le _ _).trans (Nat.le_add_right _ _)

end Desc

/-! ## Frames -/

/-- A frame on the wire, and the error flags of the descriptors it takes. -/
structure EtherFrame where
  data : List UInt8
  errors : Nat → UInt8

namespace EtherFrame
variable (f : EtherFrame)

/-- The number of descriptors it takes. -/
def descs : Nat := (f.data.length - 1) / 2048 + 1

/-- The device writes it in pieces of 2048 bytes. -/
def pieces : List Piece :=
  (List.range f.descs).map fun k =>
    ⟨(f.data.drop (2048 * k)).take 2048, k + 1 = f.descs, f.errors k⟩

/-- A frame `ether_input` is to see: it fits one descriptor, is long enough and has no error. -/
def Good : Prop := f.data.length ≤ 2048 ∧ 60 ≤ f.data.length ∧ f.errors 0 = 0

instance decGood : Decidable f.Good := inferInstanceAs (Decidable (_ ∧ _))

/-- A frame that fits one descriptor, or whose last piece is dropped. -/
def Harmless : Prop :=
  f.data.length ≤ 2048 ∨ f.data.length - 2048 * (f.descs - 1) < 60 ∨ f.errors (f.descs - 1) ≠ 0

instance decHarmless : Decidable f.Harmless := inferInstanceAs (Decidable (_ ∨ _ ∨ _))

/-- The last piece. -/
def lastPiece : Piece := ⟨f.data.drop (2048 * (f.descs - 1)), true, f.errors (f.descs - 1)⟩

@[simp] theorem pieces_length : f.pieces.length = f.descs := by simp [pieces]

theorem descs_eq_one : f.descs = 1 ↔ f.data.length ≤ 2048 := by
  rw [descs]
  omega

theorem mem_pieces_length {p : Piece} (hp : p ∈ f.pieces) : p.data.length ≤ 2048 := by
  obtain ⟨k, -, rfl⟩ := List.mem_map.mp hp
  exact List.length_take_le ..

/-- Only the last piece has EOP. -/
theorem pieces_eq : ∃ front, f.pieces = front ++ [f.lastPiece] ∧ ∀ p ∈ front, p.eop = false := by
  have hd : f.descs = f.descs - 1 + 1 := by simp [descs]
  refine ⟨(List.range (f.descs - 1)).map fun k =>
    ⟨(f.data.drop (2048 * k)).take 2048, k + 1 = f.descs, f.errors k⟩, ?_, ?_⟩
  · have hlast : (f.data.drop (2048 * (f.descs - 1))).take 2048 =
        f.data.drop (2048 * (f.descs - 1)) := by
      refine List.take_of_length_le ?_
      rw [List.length_drop, descs]
      omega
    rw [pieces, hd, List.range_succ, List.map_append, List.map_singleton, ← hd]
    simp [lastPiece, hlast]
  · intro p hp
    obtain ⟨k, hk, rfl⟩ := List.mem_map.mp hp
    rw [List.mem_range] at hk
    simp only [decide_eq_false_iff_not]
    omega

end EtherFrame

/-- The frames all of whose pieces are among the first `n`. -/
def finished : List EtherFrame → Nat → List EtherFrame
  | [], _ => []
  | f :: fs, n => if f.descs ≤ n then f :: finished fs (n - f.descs) else []

/-- The pieces the device writes. -/
def stream (fs : List EtherFrame) : List Piece := fs.flatMap EtherFrame.pieces

/-- What is handed up of the first `n` pieces. -/
def passedUp (fs : List EtherFrame) (n : Nat) : List (List UInt8) :=
  ((stream fs).take n).flatMap Piece.passed

/-- What is to be handed up. -/
def expected (fs : List EtherFrame) (n : Nat) : List (List UInt8) :=
  ((finished fs n).filter fun f => f.Good).map EtherFrame.data

section Frames
variable {f : EtherFrame} {fs : List EtherFrame} {n : Nat}

theorem passed_eop {ps : List Piece} (h : ∀ p ∈ ps, p.eop = false) :
    ps.flatMap Piece.passed = [] := by
  rw [List.flatMap_eq_nil_iff]
  intro p hp
  simp [Piece.passed, h p hp]

/-- Of a frame only the last piece can be handed up. -/
theorem passed_frame (f : EtherFrame) : f.pieces.flatMap Piece.passed = f.lastPiece.passed := by
  obtain ⟨front, heq, hfront⟩ := f.pieces_eq
  rw [heq, List.flatMap_append, passed_eop hfront]
  simp

/-- Of a frame that is not complete nothing is handed up. -/
theorem passed_short (h : n < f.descs) : (f.pieces.take n).flatMap Piece.passed = [] := by
  obtain ⟨front, heq, hfront⟩ := f.pieces_eq
  have hlen : front.length + 1 = f.descs := by
    rw [← f.pieces_length, heq, List.length_append, List.length_singleton]
  refine passed_eop fun p hp => ?_
  rw [heq, List.take_append_of_le_length (by omega)] at hp
  exact hfront p (List.mem_of_mem_take hp)

/-- A frame that fits one descriptor is handed up whole or not at all. -/
theorem passed_single (h : f.data.length ≤ 2048) :
    f.lastPiece.passed = if f.Good then [f.data] else [] := by
  have hd : f.descs - 1 = 0 := by rw [f.descs_eq_one.mpr h]
  simp only [Piece.passed, EtherFrame.lastPiece, hd, Nat.mul_zero, List.drop_zero,
    EtherFrame.Good, h, true_and]
  by_cases hl : f.data.length < 60
  · simp [hl]
  · by_cases he : f.errors 0 = 0
    · simp [hl, he]
    · simp [hl, he]

/-- Of a longer frame nothing is to be handed up, and nothing is when it is harmless. -/
theorem passed_long (h : ¬ f.data.length ≤ 2048) : f.lastPiece.passed = [] ↔ f.Harmless := by
  simp only [Piece.passed, EtherFrame.lastPiece, EtherFrame.Harmless, h, false_or,
    List.length_drop]
  by_cases hl : f.data.length - 2048 * (f.descs - 1) < 60
  · simp [hl]
  · by_cases he : f.errors (f.descs - 1) = 0
    · simp [hl, he]
    · simp [hl, he]

theorem passedUp_cons_short (h : ¬ f.descs ≤ n) : passedUp (f :: fs) n = [] := by
  rw [passedUp, stream, List.flatMap_cons, List.take_append_of_le_length]
  · exact passed_short (Nat.lt_of_not_le h)
  · rw [f.pieces_length]
    omega

theorem passedUp_cons (h : f.descs ≤ n) :
    passedUp (f :: fs) n = f.lastPiece.passed ++ passedUp fs (n - f.descs) := by
  rw [passedUp, stream, List.flatMap_cons, List.take_append, List.take_of_length_le,
    List.flatMap_append, passed_frame, f.pieces_length]
  · rfl
  · rwa [f.pieces_length]

theorem expected_cons (h : f.descs ≤ n) :
    expected (f :: fs) n = (if f.Good then [f.data] else []) ++ expected fs (n - f.descs) := by
  rw [expected, finished, if_pos h, List.filter_cons]
  by_cases hg : f.Good
  · simp [hg, expected]
  · simp [hg, expected]

/-- Nothing that is to be handed up is missing. -/
theorem expected_length (fs : List EtherFrame) (n : Nat) :
    (expected fs n).length ≤ (passedUp fs n).length := by
  induction fs generalizing n with
  | nil => exact Nat.zero_le _
  | cons f fs ih =>
      by_cases hn : f.descs ≤ n
      · rw [expected_cons hn, passedUp_cons hn, List.length_append, List.length_append]
        refine Nat.add_le_add ?_ (ih _)
        by_cases hl : f.data.length ≤ 2048
        · rw [passed_single hl]
        · rw [if_neg fun hg : f.Good => hl hg.1]
          exact Nat.zero_le _
      · simp [expected, finished, hn]

/-- **Exactly** the whole frames are handed up when no long frame ends in a piece that
looks like a frame. -/
theorem passedUp_iff (fs : List EtherFrame) (n : Nat) :
    passedUp fs n = expected fs n ↔ ∀ f ∈ finished fs n, f.Harmless := by
  induction fs generalizing n with
  | nil => simp [passedUp, stream, expected, finished]
  | cons f fs ih =>
      by_cases hn : f.descs ≤ n
      · rw [passedUp_cons hn, expected_cons hn, finished, if_pos hn, List.forall_mem_cons, ← ih]
        by_cases hl : f.data.length ≤ 2048
        · rw [passed_single hl, List.append_cancel_left_eq]
          exact (and_iff_right (.inl hl)).symm
        · rw [if_neg fun hg : f.Good => hl hg.1, List.nil_append, ← passed_long hl]
          constructor
          · intro heq
            have hle := expected_length fs (n - f.descs)
            have hlen := congrArg List.length heq
            rw [List.length_append] at hlen
            have hnil : f.lastPiece.passed = [] := List.length_eq_zero_iff.mp (by omega)
            rw [hnil, List.nil_append] at heq
            exact ⟨hnil, heq⟩
          · rintro ⟨hnil, heq⟩
            rw [hnil, List.nil_append, heq]
      · simp [passedUp_cons_short hn, expected, finished, hn]

/-- Once everything is written every frame is finished. -/
theorem finished_all (h : (stream fs).length ≤ n) : finished fs n = fs := by
  induction fs generalizing n with
  | nil => rfl
  | cons f fs ih =>
      rw [stream, List.flatMap_cons, List.length_append, f.pieces_length] at h
      have hn : f.descs ≤ n := by omega
      rw [finished, if_pos hn, ih]
      rw [stream]
      omega

theorem finished_mem (h : f ∈ finished fs n) : f ∈ fs := by
  induction fs generalizing n with
  | nil => exact h
  | cons g fs ih =>
      rw [finished] at h
      split at h
      · rcases List.mem_cons.mp h with rfl | h
        · exact List.mem_cons_self
        · exact List.mem_cons_of_mem g (ih h)
      · exact (List.not_mem_nil h).elim

end Frames

/-! ## The ring -/

/-- The ring, the head and the tail register, the descriptor `e1000_receive` has in hand and the
pieces the device has still to write; then the frames that came, what was written, which
descriptors were consumed and what they said, and the calls of `ether_input`. -/
structure Nic where
  rxRing : Nat → RxDesc
  rdh : UInt32
  rdt : UInt32
  hand : Option UInt32
  fifo : List Piece
  frames : List EtherFrame
  written : List Piece
  consumed : List (Nat × Piece)
  calls : List (List UInt8)

/-- `e1000_rx_init`. -/
def Nic.boot : Nic where
  rxRing _ := ⟨List.replicate 2048 0, 0, 0, 0⟩
  rdh := 0
  rdt := rxRingSize - 1
  hand := none
  fifo := []
  frames := []
  written := []
  consumed := []
  calls := []

/-- A frame comes, the device writes a piece, `e1000_receive` looks at a descriptor, it gives
the descriptor back. -/
inductive NicEvent where
  | arrive (f : EtherFrame)
  | dma (marks : UInt8)
  | look
  | release

/-- The device writes the next piece, unless the head has come to the tail. -/
def Nic.dma (s : Nic) (marks : UInt8) : Nic :=
  match s.fifo with
  | [] => s
  | p :: fifo =>
      if s.rdh = s.rdt then s
      else { s with
        rxRing := Function.update s.rxRing s.rdh.toNat ((s.rxRing s.rdh.toNat).fill p marks)
        rdh := (s.rdh + 1) % rxRingSize
        fifo
        written := s.written ++ [p] }

/-- The descriptor after the tail. -/
def Nic.tail (s : Nic) : UInt32 := (s.rdt + 1) % rxRingSize

/-- A turn of the loop of `e1000_receive`, up to the end of its checks. -/
def Nic.look (s : Nic) : Nic :=
  if s.hand.isSome then s
  else
    let desc := s.rxRing s.tail.toNat
    if desc.done = false then s
    else { s with
      hand := some s.tail
      consumed := s.consumed ++ [(s.tail.toNat, desc.piece)]
      calls := s.calls ++ desc.passed }

/-- The end of the turn. -/
def Nic.release (s : Nic) : Nic :=
  match s.hand with
  | none => s
  | some tail => { s with
      rxRing := Function.update s.rxRing tail.toNat { s.rxRing tail.toNat with status := 0 }
      rdt := tail
      hand := none }

def Nic.step (s : Nic) : NicEvent → Nic
  | .arrive f => { s with fifo := s.fifo ++ f.pieces, frames := s.frames ++ [f] }
  | .dma marks => s.dma marks
  | .look => s.look
  | .release => s.release

/-- Every filled descriptor is consumed once, in the order of the ring; the loop ends when there
is none left; and `ether_input` is called for the whole frames. -/
structure Nic.Delivered (s : Nic) : Prop where
  wrote : s.written <+: stream s.frames
  order : s.consumed <+: s.written.mapIdx fun k p => (k % 16, p)
  all : s.hand = none →
    ((s.rxRing s.tail.toNat).done = false ↔ s.consumed.length = s.written.length)
  whole : s.calls = expected s.frames s.consumed.length

/-- The number of descriptors that were given back. -/
def Nic.freed (s : Nic) : Nat := s.consumed.length - s.hand.toList.length

structure Nic.Inv (s : Nic) : Prop where
  wrote : s.written ++ s.fifo = stream s.frames
  fits : ∀ p ∈ s.fifo, p.data.length ≤ 2048
  buf : ∀ i, (s.rxRing i).length.toNat ≤ (s.rxRing i).buf.length
  slots : Slots 16 (fun i => (s.rxRing i).piece) (fun i => (s.rxRing i).done) s.written s.freed
  owned : s.written.length ≤ s.freed + 15
  head : s.rdh.toNat = s.written.length % 16
  tail : s.rdt.toNat = (s.freed + 15) % 16
  hand : ∀ t, s.hand = some t →
    t.toNat = s.freed % 16 ∧ s.freed < s.written.length ∧ s.consumed.length = s.freed + 1
  order : s.consumed <+: s.written.mapIdx fun k p => (k % 16, p)
  calls : s.calls = s.consumed.flatMap fun c => c.2.passed

theorem Nic.boot_inv : Nic.boot.Inv where
  wrote := rfl
  fits _ hp := (List.not_mem_nil hp).elim
  buf _ := Nat.zero_le _
  slots := .empty _ fun _ => clear_done rfl
  owned := Nat.zero_le _
  head := rfl
  tail := rfl
  hand _ h := by cases h
  order := List.prefix_rfl
  calls := rfl

section Step
variable {s : Nic}

theorem next_toNat {v : UInt32} (n : Nat) (h : v.toNat = n % 16) :
    ((v + 1) % rxRingSize).toNat = (n + 1) % 16 := by
  have hsize : rxRingSize.toNat = 16 := rfl
  have hone : (1 : UInt32).toNat = 1 := rfl
  rw [UInt32.toNat_mod, UInt32.toNat_add, hsize, hone, h]
  omega

theorem Nic.Inv.tail_toNat (h : s.Inv) : s.tail.toNat = s.freed % 16 := by
  rw [Nic.tail, next_toNat _ h.tail]
  omega

theorem arrive_inv (h : s.Inv) (f : EtherFrame) : (s.step (.arrive f)).Inv where
  wrote := by
    simp only [Nic.step, stream, List.flatMap_append, List.flatMap_singleton]
    rw [← List.append_assoc, h.wrote, stream]
  fits p hp := by
    rcases List.mem_append.mp hp with hp | hp
    · exact h.fits p hp
    · exact f.mem_pieces_length hp
  buf := h.buf
  slots := h.slots
  owned := h.owned
  head := h.head
  tail := h.tail
  hand := h.hand
  order := h.order
  calls := h.calls

/-- The device writes a descriptor it owns. -/
theorem dma_inv (h : s.Inv) (marks : UInt8) : (s.dma marks).Inv := by
  unfold Nic.dma
  split
  · exact h
  · rename_i p fifo hfifo
    split
    · exact h
    · rename_i hne
      -- the head is not at the tail, so that less than fifteen are full
      have hroom : s.written.length < s.freed + 15 := by
        refine lt_of_le_of_ne h.owned fun heq => hne ?_
        rw [← UInt32.toNat_inj, h.head, h.tail, heq]
      have hp : p.data.length ≤ 2048 := h.fits p (hfifo ▸ List.mem_cons_self)
      constructor
      case wrote =>
        rw [← h.wrote, hfifo, List.append_assoc]
        rfl
      case fits => exact fun q hq => h.fits q (hfifo ▸ List.mem_cons_of_mem p hq)
      case buf =>
        intro i
        simp only
        by_cases hi : i = s.rdh.toNat
        · rw [hi, Function.update_self]
          exact fill_length ..
        · rw [Function.update_of_ne hi]
          exact h.buf i
      case slots =>
        refine h.slots.write (by omega) ?_ ?_ (fun i hi => ?_) fun i hi => ?_
        · simp only [← h.head, Function.update_self]
          exact fill_piece _ p marks hp
        · simp only [← h.head, Function.update_self, fill_done]
        · rw [← h.head] at hi
          simp only [Function.update_of_ne hi]
        · rw [← h.head] at hi
          simp only [Function.update_of_ne hi]
      case owned =>
        rw [List.length_append, List.length_singleton]
        exact hroom
      case head =>
        rw [List.length_append, List.length_singleton]
        exact next_toNat _ h.head
      case tail => exact h.tail
      case hand =>
        intro t ht
        obtain ⟨htail, hlt, hc⟩ := h.hand t ht
        refine ⟨htail, ?_, hc⟩
        rw [List.length_append]
        exact Nat.lt_add_right _ hlt
      case order =>
        rw [List.mapIdx_append]
        exact h.order.trans (List.prefix_append ..)
      case calls => exact h.calls

/-- The loop looks at the descriptor that is to be consumed next. -/
theorem done_iff (h : s.Inv) (hh : s.hand = none) :
    (s.rxRing s.tail.toNat).done = true ↔ s.consumed.length < s.written.length := by
  have hfreed : s.freed = s.consumed.length := by simp [Nic.freed, hh]
  rw [h.tail_toNat, ← hfreed]
  exact h.slots.full_iff (Nat.le_refl _) (by omega)

theorem look_inv (h : s.Inv) : s.look.Inv := by
  unfold Nic.look
  split
  · exact h
  · rename_i hhand
    have hh : s.hand = none := by simpa using hhand
    dsimp only
    split
    · exact h
    · rename_i hdone
      have hfreed : s.freed = s.consumed.length := by simp [Nic.freed, hh]
      have hlt : s.freed < s.written.length := by
        rw [hfreed]
        exact (done_iff h hh).mp (by simpa using hdone)
      have hitem := h.slots.item s.freed (Nat.le_refl _) hlt
      have hsame : (s.consumed ++ [(s.tail.toNat, (s.rxRing s.tail.toNat).piece)]).length -
          (some s.tail).toList.length = s.freed := by
        simp [hfreed]
      constructor
      case wrote => exact h.wrote
      case fits => exact h.fits
      case buf => exact h.buf
      case slots =>
        rw [Nic.freed, hsame]
        exact h.slots
      case owned =>
        rw [Nic.freed, hsame]
        exact h.owned
      case head => exact h.head
      case tail =>
        rw [Nic.freed, hsame]
        exact h.tail
      case hand =>
        intro t ht
        obtain rfl := Option.some.inj ht
        rw [Nic.freed, hsame]
        exact ⟨h.tail_toNat, hlt, by simp [hfreed]⟩
      case order =>
        refine concat_isPrefix h.order ?_
        rw [List.getElem?_mapIdx, ← hfreed, hitem, Option.map_some, h.tail_toNat]
      case calls =>
        rw [List.flatMap_append, h.calls, passed_piece (h.buf _), List.flatMap_singleton]

theorem release_inv (h : s.Inv) : s.release.Inv := by
  unfold Nic.release
  split
  · exact h
  · rename_i t hh
    obtain ⟨ht, hlt, hc⟩ := h.hand t hh
    have hfreed : s.consumed.length - (none : Option UInt32).toList.length = s.freed + 1 := by
      simp [hc]
    constructor
    case wrote => exact h.wrote
    case fits => exact h.fits
    case buf =>
      intro i
      simp only
      by_cases hi : i = t.toNat
      · rw [hi, Function.update_self]
        exact h.buf _
      · rw [Function.update_of_ne hi]
        exact h.buf i
    case slots =>
      rw [Nic.freed, hfreed]
      refine h.slots.free hlt (fun i hi => ?_) ?_ fun i hi => ?_
      · rw [← ht] at hi
        simp only [Function.update_of_ne hi]
      · simp only [← ht, Function.update_self]
        exact clear_done rfl
      · rw [← ht] at hi
        simp only [Function.update_of_ne hi]
    case owned =>
      rw [Nic.freed, hfreed]
      exact h.owned.trans (by omega)
    case head => exact h.head
    case tail =>
      rw [Nic.freed, hfreed, ht]
      omega
    case hand => exact fun u hu => by cases hu
    case order => exact h.order
    case calls => exact h.calls

/-- **One event** keeps the ring in order. -/
theorem nic_step_inv (s : Nic) (e : NicEvent) (h : s.Inv) : (s.step e).Inv := by
  cases e with
  | arrive f => exact arrive_inv h f
  | dma marks => exact dma_inv h marks
  | look => exact look_inv h
  | release => exact release_inv h

/-- What was handed up is what the consumed descriptors said. -/
theorem Nic.Inv.calls_eq (h : s.Inv) : s.calls = passedUp s.frames s.consumed.length := by
  have hlen : s.consumed.length ≤ s.written.length := by
    simpa using h.order.length_le
  have hmap : s.consumed.map Prod.snd = s.written.take s.consumed.length := by
    have hall : (s.written.mapIdx fun k p => (k % 16, p)).map Prod.snd = s.written :=
      List.ext_getElem (by simp) fun _ _ _ => by simp
    have hp := h.order.map Prod.snd
    rw [hall] at hp
    rw [List.prefix_iff_eq_take.mp hp, List.length_map]
  rw [passedUp, ← h.wrote, List.take_append_of_le_length hlen, ← hmap, List.flatMap_map, h.calls]

/-- **Exactly when** a state delivers whole frames only. -/
theorem Nic.Inv.delivered_iff (h : s.Inv) :
    s.Delivered ↔ ∀ f ∈ finished s.frames s.consumed.length, f.Harmless := by
  rw [← passedUp_iff, ← h.calls_eq]
  refine ⟨fun hd => hd.whole, fun hwhole => ⟨⟨_, h.wrote⟩, h.order, fun hh => ?_, hwhole⟩⟩
  have hle : s.consumed.length ≤ s.written.length := by
    simpa using h.order.length_le
  rw [← Bool.not_eq_true, done_iff h hh]
  omega

end Step

/-! ## Every run -/

/-- The frames that come in a run. -/
def arrivals (es : List NicEvent) : List EtherFrame :=
  es.filterMap fun e => match e with
    | .arrive f => some f
    | _ => none

theorem step_frames (s : Nic) (e : NicEvent) : (s.step e).frames = s.frames ++ arrivals [e] := by
  cases e with
  | arrive f => rfl
  | dma marks =>
      refine Eq.trans ?_ (List.append_nil _).symm
      simp only [Nic.step, Nic.dma]
      split
      · rfl
      · split
        · rfl
        · rfl
  | look =>
      refine Eq.trans ?_ (List.append_nil _).symm
      simp only [Nic.step, Nic.look]
      split
      · rfl
      · split
        · rfl
        · rfl
  | release =>
      refine Eq.trans ?_ (List.append_nil _).symm
      simp only [Nic.step, Nic.release]
      split
      · rfl
      · rfl

theorem run_frames (s : Nic) (es : List NicEvent) :
    (run Nic.step s es).frames = s.frames ++ arrivals es := by
  induction es generalizing s with
  | nil => exact (List.append_nil _).symm
  | cons e es ih =>
      rw [run_cons, ih, step_frames, List.append_assoc]
      exact congrArg _ (List.filterMap_append (l := [e])).symm

theorem run_inv (es : List NicEvent) : (run Nic.step .boot es).Inv :=
  inv_run Nic.Inv (fun s e h _ => nic_step_inv s e h) Nic.boot_inv (guarded_true _ _ es)

/-- Nothing is in hand, and everything that was written is consumed. -/
structure Nic.Idle (s : Nic) : Prop where
  inv : s.Inv
  hand : s.hand = none
  consumed : s.consumed.length = s.written.length

/-- The device writes one piece and `e1000_receive` takes it. -/
theorem turn_idle {s : Nic} {p : Piece} {fifo : List Piece} (h : s.Idle) (hf : s.fifo = p :: fifo) :
    let s' := run Nic.step s [.dma 0, .look, .release]
    s'.Idle ∧ s'.fifo = fifo ∧ s'.frames = s.frames := by
  have hfreed : s.freed = s.written.length := by simp [Nic.freed, h.hand, h.consumed]
  have hne : s.rdh ≠ s.rdt := fun heq => by
    have hn := congrArg UInt32.toNat heq
    rw [h.inv.head, h.inv.tail, hfreed] at hn
    omega
  obtain ⟨s₁, hs₁⟩ : ∃ s₁, s.dma 0 = s₁ := ⟨_, rfl⟩
  have hinv₁ : s₁.Inv := hs₁ ▸ dma_inv h.inv 0
  have hdma := hs₁
  simp only [Nic.dma, hf, if_neg hne] at hdma
  have hhand₁ : s₁.hand = none := by rw [← hdma]; exact h.hand
  have hwritten₁ : s₁.written.length = s.written.length + 1 := by simp [← hdma]
  have hconsumed₁ : s₁.consumed = s.consumed := by rw [← hdma]
  have hdone : (s₁.rxRing s₁.tail.toNat).done = true := by
    rw [done_iff hinv₁ hhand₁, hconsumed₁, h.consumed, hwritten₁]
    exact Nat.lt_succ_self _
  obtain ⟨s₂, hs₂⟩ : ∃ s₂, s₁.look = s₂ := ⟨_, rfl⟩
  have hinv₂ : s₂.Inv := hs₂ ▸ look_inv hinv₁
  have hlook := hs₂
  simp only [Nic.look, hhand₁, hdone, Option.isSome_none, Bool.false_eq_true, Bool.true_eq_false,
    if_false] at hlook
  have hhand₂ : s₂.hand = some s₁.tail := by rw [← hlook]
  have hrun : run Nic.step s [.dma 0, .look, .release] = s₂.release := by
    rw [← hs₂, ← hs₁]
    rfl
  have hrelease : s₂.release = { s₂ with
      rxRing := Function.update s₂.rxRing s₁.tail.toNat
        { s₂.rxRing s₁.tail.toNat with status := 0 }
      rdt := s₁.tail
      hand := none } := by
    simp only [Nic.release, hhand₂]
  intro s'
  have hs' : s' = s₂.release := hrun
  refine ⟨⟨hs' ▸ release_inv hinv₂, ?_, ?_⟩, ?_, ?_⟩
  · rw [hs', hrelease]
  · rw [hs', hrelease]
    simp [← hlook, hconsumed₁, h.consumed, hwritten₁]
  · rw [hs', hrelease]
    simp [← hlook, ← hdma]
  · rw [hs', hrelease]
    simp [← hlook, ← hdma]

/-- All that is still to be written comes through. -/
theorem drain {s : Nic} (h : s.Idle) :
    ∃ es, arrivals es = [] ∧ (run Nic.step s es).frames = s.frames ∧
      (run Nic.step s es).consumed.length = (stream s.frames).length := by
  obtain ⟨ps, hps⟩ : ∃ ps, s.fifo = ps := ⟨_, rfl⟩
  induction ps generalizing s with
  | nil =>
      refine ⟨[], rfl, rfl, ?_⟩
      rw [run_nil, h.consumed, ← h.inv.wrote, hps, List.append_nil]
  | cons p ps ih =>
      obtain ⟨hidle, hfifo, hframes⟩ := turn_idle h hps
      obtain ⟨es, hes, hsame, hlen⟩ := ih hidle hfifo
      refine ⟨[.dma 0, .look, .release] ++ es, ?_, ?_, ?_⟩
      · rw [arrivals, List.filterMap_append]
        exact hes
      · rw [run_append, hsame, hframes]
      · rw [run_append, hlen, hframes]

/-- The frames come, and nothing else happens. -/
theorem arrive_idle (s : Nic) (h : s.Idle) (fs : List EtherFrame) :
    (run Nic.step s (fs.map .arrive)).Idle := by
  induction fs generalizing s with
  | nil => exact h
  | cons f fs ih => exact ih _ ⟨arrive_inv h.inv f, h.hand, h.consumed⟩

theorem arrivals_map (fs : List EtherFrame) : arrivals (fs.map .arrive) = fs := by
  rw [arrivals, List.filterMap_map]
  exact List.filterMap_some

/-- **Whole frames only.**  The device receives the frames `fs`.  In every order of its writes
and of the turns of `e1000_receive`, every filled descriptor is consumed once and in the order
of the ring, and exactly the whole frames are handed up, if and only if every frame that takes
several descriptors ends in a piece shorter than 60 bytes or with an error. -/
theorem receive_whole_iff (fs : List EtherFrame) :
    (∀ es, arrivals es = fs → (run Nic.step .boot es).Delivered) ↔ ∀ f ∈ fs, f.Harmless := by
  constructor
  · intro hall
    have hboot : Nic.boot.Idle := ⟨Nic.boot_inv, rfl, rfl⟩
    obtain ⟨es, hes, hsame, hlen⟩ := drain (arrive_idle _ hboot fs)
    have harrive : arrivals (fs.map .arrive ++ es) = fs := by
      rw [arrivals, List.filterMap_append]
      exact (congrArg₂ _ (arrivals_map fs) hes).trans (List.append_nil fs)
    have hframes : (run Nic.step .boot (fs.map .arrive ++ es)).frames = fs := by
      rw [run_frames, harrive]
      rfl
    have hd := (run_inv _).delivered_iff.mp (hall _ harrive)
    rw [hframes, finished_all] at hd
    · exact hd
    · rw [run_append] at hframes ⊢
      rw [hlen, ← hsame, hframes]
  · intro hharmless es hes
    refine (run_inv es).delivered_iff.mpr fun f hf => hharmless f ?_
    rw [run_frames, hes] at hf
    exact finished_mem hf

/-- A frame of 2148 bytes. -/
def longFrame : EtherFrame := ⟨List.replicate 2148 0, fun _ => 0⟩

def cutRun : List NicEvent :=
  [.arrive longFrame, .dma 0, .dma 0, .look, .release, .look, .release]

/-- Its last 100 bytes are handed up as a frame. -/
theorem long_frame_cut :
    (run Nic.step .boot cutRun).calls = [List.replicate 100 0] ∧
      ¬ (run Nic.step .boot cutRun).Delivered := by
  refine ⟨by decide +kernel, fun hd => ?_⟩
  have hlen : (run Nic.step .boot cutRun).consumed.length = 2 := by decide +kernel
  have hdescs : longFrame.descs ≤ 2 := by decide +kernel
  have hlong : ¬ longFrame.Harmless := by decide +kernel
  have hharmless := (run_inv cutRun).delivered_iff.mp hd
  rw [run_frames, hlen] at hharmless
  refine hlong (hharmless longFrame ?_)
  show longFrame ∈ finished [longFrame] 2
  rw [finished, if_pos hdescs]
  exact List.mem_cons_self

end Laplus.Net
