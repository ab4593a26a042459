/-
# `Laplus.Xhci.Ring` — the producer ring (`ring.cpp`)

`Ring::Push` writes the four words of a TRB, the word with the cycle bit last,
and at the end of the ring the link TRB.  A step of the model is one word; the
controller may look between any two.  It knows the ring by the cycle bits alone.

The slots before the link are a `Laps`; `Ring.Inv` adds where each side
stands and how much of the link is written.
-/
import Laplus.Lib.Laps
import Laplus.Lib.Run
import Mathlib.Algebra.GroupWithZero.Nat

namespace Laplus.Xhci

open Lib

/-! ## TRBs -/

/-- The number of words in a TRB. -/
instance words_neZero : NeZero 4 := ⟨Nat.succ_ne_zero 3⟩

/-- The words of a TRB. -/
abbrev Trb := Fin 4 → BitVec 32

namespace Trb

/-- `cycle_bit`. -/
def cycleBit (t : Trb) : Bool := (t 3).getLsbD 0

/-- `toggle_cycle`, of a link TRB. -/
def toggleCycle (t : Trb) : Bool := (t 3).getLsbD 1

/-- `trb_type`. -/
def type (t : Trb) : BitVec 6 := (t 3).extractLsb' 10 6

/-- `LinkTRB::Pointer`. -/
def pointer (t : Trb) : BitVec 64 := (t 1 ++ t 0) >>> 4 <<< 4

/-- `data[3]` with a cycle bit. -/
def lastWord (word : BitVec 32) (cycle : Bool) : BitVec 32 :=
  word &&& 0xfffffffe#32 ||| if cycle then 1#32 else 0#32

/-- A TRB with a cycle bit. -/
def withCycle (t : Trb) (cycle : Bool) : Trb := Function.update t 3 (lastWord (t 3) cycle)

/-- `LinkTRB::Type`. -/
def linkType : BitVec 6 := 6

/-- `LinkTRB{buf}` with `toggle_cycle`. -/
def link (buf : BitVec 64) : Trb
  | 0 => (buf >>> 4 <<< 4).extractLsb' 0 32
  | 1 => (buf >>> 4 <<< 4).extractLsb' 32 32
  | 2 => 0
  | 3 => linkType.setWidth 32 <<< 10 ||| 1#32 <<< 1

theorem getLsbD_lastWord (word : BitVec 32) (cycle : Bool) {i : Nat} (hi : i < 32) :
    (lastWord word cycle).getLsbD i = if i = 0 then cycle else word.getLsbD i := by
  have hmask : ∀ i < 32, (0xfffffffe#32).getLsbD i = decide (i ≠ 0) := by decide
  have hone : ∀ i < 32, (1#32).getLsbD i = decide (i = 0) := by decide
  rw [lastWord, BitVec.getLsbD_or, BitVec.getLsbD_and, hmask i hi]
  by_cases h0 : i = 0
  · subst h0
    cases cycle <;> simp
  · cases cycle <;> simp [h0, hone i hi]

theorem lastWord_lastWord (word : BitVec 32) (c c' : Bool) :
    lastWord (lastWord word c) c' = lastWord word c' := by
  refine BitVec.eq_of_getLsbD_eq fun i hi => ?_
  rw [getLsbD_lastWord _ _ hi, getLsbD_lastWord _ _ hi, getLsbD_lastWord _ _ hi]
  split <;> rfl

variable (t : Trb) (c c' : Bool) (buf : BitVec 64)

theorem withCycle_last : t.withCycle c 3 = lastWord (t 3) c := Function.update_self _ _ _

theorem withCycle_word {i : Fin 4} (hi : i ≠ 3) : t.withCycle c i = t i :=
  Function.update_of_ne hi _ _

@[simp] theorem withCycle_withCycle : (t.withCycle c).withCycle c' = t.withCycle c' := by
  rw [withCycle, withCycle_last, lastWord_lastWord, withCycle, withCycle, Function.update_idem]

@[simp] theorem cycleBit_withCycle : (t.withCycle c).cycleBit = c := by
  rw [cycleBit, withCycle_last, getLsbD_lastWord _ _ (by decide), if_pos rfl]

@[simp] theorem type_withCycle : (t.withCycle c).type = t.type := by
  refine BitVec.eq_of_getLsbD_eq fun i hi => ?_
  rw [type, type, BitVec.getLsbD_extractLsb', BitVec.getLsbD_extractLsb', withCycle_last,
    getLsbD_lastWord _ _ (by omega), if_neg (by omega)]

theorem cycleBit_zero : Trb.cycleBit (fun _ => 0) = false := by decide

theorem type_link : (link buf).type = linkType := by
  have hword : link buf 3 = linkType.setWidth 32 <<< 10 ||| 1#32 <<< 1 := rfl
  rw [type, hword]
  decide

theorem toggleCycle_link : ((link buf).withCycle c).toggleCycle = true := by
  have hword : link buf 3 = linkType.setWidth 32 <<< 10 ||| 1#32 <<< 1 := rfl
  rw [toggleCycle, withCycle_last, getLsbD_lastWord _ _ (by decide), if_neg (by decide), hword]
  decide

/-- The link TRB leads to the start of the ring. -/
theorem pointer_link (hbuf : buf >>> 4 <<< 4 = buf) :
    ((link buf).withCycle c).pointer = buf := by
  have happ : link buf 1 ++ link buf 0 = buf := by
    rw [link, link, hbuf]
    refine BitVec.eq_of_getLsbD_eq fun i hi => ?_
    rw [BitVec.getLsbD_append, BitVec.getLsbD_extractLsb', BitVec.getLsbD_extractLsb']
    split
    · simp [*]
    · have hi' : 32 + (i - 32) = i := by omega
      simp [hi', hi]
      omega
  rw [pointer, withCycle_word _ _ (by decide), withCycle_word _ _ (by decide), happ, hbuf]

end Trb

/-! ## `Ring` -/

/-- `Ring`, with the TRBs that `buf_` points to. -/
structure Ring where
  buf : Nat → Trb
  bufAddr : BitVec 64
  bufSize : Nat
  writeIndex : Nat
  cycleBit : Bool

namespace Ring

/-- `Initialize`. -/
def initialized (bufAddr : BitVec 64) (bufSize : Nat) : Ring where
  buf _ _ := 0
  bufAddr
  bufSize
  writeIndex := 0
  cycleBit := true

/-- One word of `CopyToLast`. -/
def copyWord (r : Ring) (data : Trb) (i : Fin 4) : Ring :=
  { r with
    buf := Function.update r.buf r.writeIndex
      (Function.update (r.buf r.writeIndex) i
        (if i = 3 then Trb.lastWord (data 3) r.cycleBit else data i)) }

/-- `CopyToLast`. -/
def copyToLast (r : Ring) (data : Trb) : Ring :=
  (((r.copyWord data 0).copyWord data 1).copyWord data 2).copyWord data 3

/-- `Push`. -/
def push (r : Ring) (data : Trb) : Ring :=
  let r := r.copyToLast data
  let r := { r with writeIndex := r.writeIndex + 1 }
  if r.writeIndex = r.bufSize - 1 then
    let r := r.copyToLast (Trb.link r.bufAddr)
    { r with writeIndex := 0, cycleBit := !r.cycleBit }
  else r

section copyWord

variable (r : Ring) (data : Trb) {i : Fin 4}

theorem copyWord_buf_of_ne {j : Nat} (hj : j ≠ r.writeIndex) :
    (r.copyWord data i).buf j = r.buf j :=
  Function.update_of_ne hj _ _

theorem copyWord_word {j : Fin 4} (hj : j ≠ i) (k : Nat) :
    (r.copyWord data i).buf k j = r.buf k j := by
  by_cases hk : k = r.writeIndex
  · subst hk
    exact (congrFun (Function.update_self _ _ _) j).trans (Function.update_of_ne hj _ _)
  · rw [r.copyWord_buf_of_ne data hk]

/-- Before the last word the cycle bits stay. -/
theorem copyWord_cycleBit (hi : i ≠ 3) (k : Nat) :
    ((r.copyWord data i).buf k).cycleBit = (r.buf k).cycleBit := by
  rw [Trb.cycleBit, r.copyWord_word data hi.symm, Trb.cycleBit]

theorem copyWord_self :
    (r.copyWord data i).buf r.writeIndex i =
      if i = 3 then Trb.lastWord (data 3) r.cycleBit else data i :=
  (congrFun (Function.update_self _ _ _) i).trans (Function.update_self _ _ _)

/-- The words before the last, one more. -/
theorem copyWord_words (hi : i ≠ 3) (h : ∀ j < i, r.buf r.writeIndex j = data j) :
    ∀ j < i + 1, (r.copyWord data i).buf r.writeIndex j = data j := by
  intro j hj
  by_cases hij : j = i
  · subst hij
    rw [copyWord_self, if_neg hi]
  · rw [r.copyWord_word data hij, h j (by omega)]

/-- The last word makes the TRB whole. -/
theorem copyWord_last (h : ∀ j < 3, r.buf r.writeIndex j = data j) :
    (r.copyWord data 3).buf r.writeIndex = data.withCycle r.cycleBit := by
  funext j
  by_cases hj : j = 3
  · subst hj
    rw [copyWord_self, if_pos rfl, Trb.withCycle_last]
  · rw [r.copyWord_word data hj, h j (by omega), Trb.withCycle_word _ _ hj]

end copyWord

end Ring

/-- Where `Push` is: the word of the TRB, or of the link TRB, that it writes next. -/
inductive Pc where
  | idle
  | data (t : Trb) (i : Fin 4)
  | link (i : Fin 4)

/-- `Push` writes its next word. -/
def Ring.produce (r : Ring) : Pc → Ring × Pc
  | .idle => (r, .idle)
  | .data t i =>
      let r := r.copyWord t i
      if i = 3 then
        let r := { r with writeIndex := r.writeIndex + 1 }
        (r, if r.writeIndex = r.bufSize - 1 then .link 0 else .idle)
      else (r, .data t (i + 1))
  | .link i =>
      let r := r.copyWord (Trb.link r.bufAddr) i
      if i = 3 then ({ r with writeIndex := 0, cycleBit := !r.cycleBit }, .idle)
      else (r, .link (i + 1))

/-- The words, one by one, are `Push`. -/
theorem produce_push (r : Ring) (t : Trb) :
    (fun x => x.1.produce x.2)^[8] (r, .data t 0) = (r.push t, .idle) := by
  have hdata : (fun x : Ring × Pc => x.1.produce x.2)^[4] (r, .data t 0) =
      ({ r.copyToLast t with writeIndex := r.writeIndex + 1 },
        if r.writeIndex + 1 = r.bufSize - 1 then .link 0 else .idle) := rfl
  have hlink : ∀ r : Ring, (fun x : Ring × Pc => x.1.produce x.2)^[4] (r, .link 0) =
      ({ r.copyToLast (Trb.link r.bufAddr) with writeIndex := 0, cycleBit := !r.cycleBit },
        .idle) := fun r => rfl
  rw [Function.iterate_add_apply _ 4 4, hdata, Ring.push]
  by_cases hend : r.writeIndex + 1 = r.bufSize - 1
  · rw [if_pos hend, hlink]
    exact congrArg (·, Pc.idle) (if_pos hend).symm
  · rw [if_neg hend]
    exact congrArg (·, Pc.idle) (if_neg hend).symm

/-! ## The ring and the controller -/

/-- The ring, the call of `Push` under way, the index and the cycle state of the controller, and
the TRBs that were pushed and taken. -/
structure System where
  ring : Ring
  pc : Pc
  index : Nat
  cycleState : Bool
  pushed : List Trb
  taken : List Trb

namespace System

/-- A ring after `Initialize`, and a controller that has been told of it. -/
def start (bufAddr : BitVec 64) (bufSize : Nat) : System where
  ring := .initialized bufAddr bufSize
  pc := .idle
  index := 0
  cycleState := true
  pushed := []
  taken := []

/-- The TRB where the controller stands has the cycle bit that it looks for. -/
def hasTrb (s : System) : Bool := (s.ring.buf s.index).cycleBit == s.cycleState

/-- The controller looks at the ring. -/
def consume (s : System) : System :=
  let t := s.ring.buf s.index
  if !s.hasTrb then s
  else if t.type = Trb.linkType then
    { s with
      index := (t.pointer - s.ring.bufAddr).toNat / 16
      cycleState := if t.toggleCycle then !s.cycleState else s.cycleState }
  else { s with taken := s.taken ++ [t], index := s.index + 1 }

/-- The TRBs of the calls of `Push` that have written all four words. -/
def written (s : System) : List Trb :=
  match s.pc with
  | .data _ _ => s.pushed.dropLast
  | _ => s.pushed

end System

/-- A call of `Push`, its next word, or a look of the controller. -/
inductive Event where
  | push (t : Trb)
  | word
  | consume

namespace System

def step (s : System) : Event → System
  | .push t => { s with pc := .data t 0, pushed := s.pushed ++ [t] }
  | .word =>
      let r := s.ring.produce s.pc
      { s with ring := r.1, pc := r.2 }
  | .consume => s.consume

/-- `Push` is called by one caller at a time, while fewer than `buf_size - 2` TRBs are not taken;
the drivers push no link TRBs. -/
def admits (s : System) : Event → Bool
  | .push t =>
      (match s.pc with
        | .idle => true
        | _ => false) &&
      decide (s.pushed.length < s.taken.length + (s.ring.bufSize - 2)) &&
      decide (t.type ≠ Trb.linkType)
  | _ => true

/-- A bound on the looks until all is taken: one for each TRB, and one for the link before it. -/
def looks (n : Nat) (s : System) : Nat :=
  2 * (s.written.length - s.taken.length) + if s.index = n then 1 else 0

end System

/-- A TRB without its cycle bit. -/
abbrev Trb.body (t : Trb) : Trb := t.withCycle false

/-- Where the producer is, with `k` TRBs written to `n` slots. -/
def Producing (n k : Nat) (s : System) : Prop :=
  match s.pc with
  | .idle => s.ring.writeIndex = k % n ∧ s.ring.cycleBit = lapMark n k
  | .data t i => s.ring.writeIndex = k % n ∧ s.ring.cycleBit = lapMark n k ∧
      s.pushed = s.written ++ [t] ∧ ∀ j < i, s.ring.buf (k % n) j = t j
  | .link i => s.ring.writeIndex = n ∧ s.ring.cycleBit = !lapMark n k ∧ k % n = 0 ∧ 0 < k ∧
      ∀ j < i, s.ring.buf n j = Trb.link s.ring.bufAddr j

/-- The link TRB, with `k` TRBs written: its cycle bit says whether it is written for the last lap,
and it is whole whenever it is not being written. -/
def Linked (n k : Nat) (s : System) : Prop :=
  match s.pc with
  | .link _ => (s.ring.buf n).cycleBit = lapMark n k
  | _ => (s.ring.buf n).cycleBit = (!lapMark n k) ∧
      (n ≤ k → s.ring.buf n = (Trb.link s.ring.bufAddr).withCycle (!lapMark n k))

/-- Where the controller is, with `c` TRBs taken: at the next slot, or before the link to it. -/
def Following (n c : Nat) (s : System) : Prop :=
  s.index = c % n ∧ s.cycleState = lapMark n c ∨
    0 < c ∧ c % n = 0 ∧ s.index = n ∧ s.cycleState = !lapMark n c

/-- The invariant, for a ring with `n` slots before the link. -/
structure System.Inv (n : Nat) (s : System) : Prop where
  size : s.ring.bufSize = n + 1
  aligned : s.ring.bufAddr >>> 4 <<< 4 = s.ring.bufAddr
  laps : Laps n (fun i => (s.ring.buf i).body) (fun i => (s.ring.buf i).cycleBit)
    (s.written.map Trb.body) s.taken.length
  room : s.pushed.length ≤ s.taken.length + (n - 1)
  kinds : ∀ t ∈ s.pushed, t.type ≠ Trb.linkType
  order : s.taken.map Trb.body <+: s.written.map Trb.body
  producing : Producing n s.written.length s
  linked : Linked n s.written.length s
  following : Following n s.taken.length s

namespace System.Inv

variable {n : Nat} {s : System}

theorem start (bufAddr : BitVec 64) (h : bufAddr >>> 4 <<< 4 = bufAddr) (hn : 2 ≤ n) :
    (System.start bufAddr (n + 1)).Inv n where
  size := rfl
  aligned := h
  laps := .empty _ fun _ _ => Trb.cycleBit_zero
  room := Nat.zero_le _
  kinds t ht := by cases ht
  order := List.prefix_refl _
  producing := ⟨(Nat.zero_mod n).symm, (lapMark_zero n).symm⟩
  linked := by
    have hmark : (!lapMark n 0) = false := by rw [lapMark_zero]; rfl
    exact ⟨Trb.cycleBit_zero.trans hmark.symm, fun hle => absurd (hn.trans hle) (Nat.not_succ_le_zero 1)⟩
  following := .inl ⟨(Nat.zero_mod n).symm, (lapMark_zero n).symm⟩

theorem written_le (h : s.Inv n) (hn : 2 ≤ n) : s.written.length < s.taken.length + n := by
  have hroom := h.room
  have hle : s.written.length ≤ s.pushed.length := by
    rw [written]
    split <;> simp
  omega

/-- What has been written was pushed. -/
theorem mem_written {t : Trb} (ht : t ∈ s.written) : t ∈ s.pushed := by
  rw [written] at ht
  split at ht
  · exact List.dropLast_subset _ ht
  · exact ht

/-- At a slot: the controller finds the next TRB that was written. -/
theorem slot_takes (h : s.Inv n) (hn : 2 ≤ n) (hindex : s.index = s.taken.length % n)
    (hcycle : s.cycleState = lapMark n s.taken.length) (hhas : s.hasTrb = true) :
    (s.written.map Trb.body)[s.taken.length]? = some (s.ring.buf s.index).body ∧
      s.consume = { s with taken := s.taken ++ [s.ring.buf s.index], index := s.index + 1 } := by
  have hfront := h.laps.front_iff (by omega)
  rw [List.length_map] at hfront
  have hlt : s.taken.length < s.written.length := by
    rw [hasTrb, hindex, hcycle, beq_iff_eq] at hhas
    exact hfront.mp hhas
  have hitem := h.laps.item _ (Nat.le_refl _) (by rwa [List.length_map])
  rw [← hindex] at hitem
  refine ⟨hitem, ?_⟩
  rw [List.getElem?_map] at hitem
  obtain ⟨t, ht, hbody⟩ := Option.map_eq_some_iff.mp hitem
  have htype : (s.ring.buf s.index).type ≠ Trb.linkType := fun hlink => by
    have hkind := h.kinds t (mem_written (List.mem_of_getElem? ht))
    have htypes := congrArg Trb.type hbody
    rw [Trb.type_withCycle, Trb.type_withCycle] at htypes
    exact hkind (htypes.trans hlink)
  rw [consume, hhas, Bool.not_true, if_neg Bool.false_ne_true]
  simp only [htype, if_false]

/-- At a slot without a TRB for it the controller has taken all. -/
theorem slot_empty (h : s.Inv n) (hn : 2 ≤ n) (hindex : s.index = s.taken.length % n)
    (hcycle : s.cycleState = lapMark n s.taken.length) (hhas : s.hasTrb = false) :
    s.taken.map Trb.body = s.written.map Trb.body := by
  have hfront := h.laps.front_iff (by omega)
  rw [List.length_map] at hfront
  have hnot : ¬s.taken.length < s.written.length := fun hlt => by
    rw [hasTrb, hindex, hcycle, hfront.mpr hlt, beq_self_eq_true] at hhas
    cases hhas
  have hle := h.order.length_le
  refine h.order.eq_of_length ?_
  simp only [List.length_map] at hle ⊢
  omega

/-- The link TRB, when it is not being written. -/
theorem link_ready (h : s.Inv n) (hpc : ∀ i, s.pc ≠ .link i) :
    (s.ring.buf n).cycleBit = (!lapMark n s.written.length) ∧
      (n ≤ s.written.length → s.ring.buf n =
        (Trb.link s.ring.bufAddr).withCycle (!lapMark n s.written.length)) := by
  have hlinked := h.linked
  rw [Linked] at hlinked
  cases hp : s.pc with
  | idle => rwa [hp] at hlinked
  | data t i => rwa [hp] at hlinked
  | link i => exact absurd hp (hpc i)

/-- Before the link: it is for the lap of the controller, or it is being written and all has been
taken. -/
theorem link_follows (h : s.Inv n) (hn : 2 ≤ n) (hpos : 0 < s.taken.length)
    (hzero : s.taken.length % n = 0) (hindex : s.index = n)
    (hcycle : s.cycleState = !lapMark n s.taken.length) :
    s.hasTrb = true ∧ s.consume = { s with index := 0, cycleState := !s.cycleState } ∨
      s.hasTrb = false ∧ s.taken.map Trb.body = s.written.map Trb.body := by
  have hle : s.taken.length ≤ s.written.length := by simpa using h.order.length_le
  have hlt := h.written_le hn
  have hmark := lapMark_same hzero hle hlt
  by_cases hpc : ∃ i, s.pc = .link i
  · -- the lap is over for both
    obtain ⟨i, hpc⟩ := hpc
    have hlinked := h.linked
    have hproducing := h.producing
    rw [Linked, hpc] at hlinked
    rw [Producing, hpc] at hproducing
    refine .inr ⟨?_, h.order.eq_of_length ?_⟩
    · rw [hasTrb, hindex, hcycle, hlinked, hmark, beq_eq_false_iff_ne]
      exact fun heq => (Bool.eq_not_self _).mp heq
    · have hend : ¬s.taken.length < s.written.length := fun hlt' =>
        slot_ne hlt' hlt (hzero.trans hproducing.2.2.1.symm)
      simp only [List.length_map]
      omega
  · obtain ⟨hbit, hlink⟩ := h.link_ready (not_exists.mp hpc)
    have hlap : n ≤ s.taken.length := Nat.le_of_dvd hpos (Nat.dvd_of_mod_eq_zero hzero)
    have hlink := hlink (hlap.trans hle)
    have hhas : s.hasTrb = true := by
      rw [hasTrb, hindex, hcycle, hbit, hmark, beq_self_eq_true]
    have htype : (s.ring.buf s.index).type = Trb.linkType := by
      rw [hindex, hlink, Trb.type_withCycle, Trb.type_link]
    have hpointer : ((s.ring.buf s.index).pointer - s.ring.bufAddr).toNat / 16 = 0 := by
      rw [hindex, hlink, Trb.pointer_link _ _ h.aligned, BitVec.sub_self]
      rfl
    have htoggle : (s.ring.buf s.index).toggleCycle = true := by
      rw [hindex, hlink, Trb.toggleCycle_link]
    refine .inl ⟨hhas, ?_⟩
    simp only [consume, hhas, htype, hpointer, htoggle, Bool.not_true, Bool.false_eq_true,
      if_false, if_true]

/-- When the controller finds no TRB it has taken all that are written. -/
theorem taken_all (h : s.Inv n) (hn : 2 ≤ n) (hhas : s.hasTrb = false) :
    s.taken.map Trb.body = s.written.map Trb.body := by
  rcases h.following with ⟨hindex, hcycle⟩ | ⟨hpos, hzero, hindex, hcycle⟩
  · exact h.slot_empty hn hindex hcycle hhas
  · rcases h.link_follows hn hpos hzero hindex hcycle with ⟨hhas', _⟩ | ⟨_, hall⟩
    · rw [hhas] at hhas'
      cases hhas'
    · exact hall

/-- A look that takes a TRB. -/
theorem consume_slot (h : s.Inv n) (hn : 2 ≤ n) (hindex : s.index = s.taken.length % n)
    (hcycle : s.cycleState = lapMark n s.taken.length) (hhas : s.hasTrb = true) :
    s.consume.Inv n := by
  obtain ⟨hitem, hstate⟩ := h.slot_takes hn hindex hcycle hhas
  have hlt : s.taken.length < (s.written.map Trb.body).length :=
    (List.getElem?_eq_some_iff.mp hitem).1
  have hwritten : { s with
      taken := s.taken ++ [s.ring.buf s.index], index := s.index + 1 }.written = s.written :=
    rfl
  have hlen : (s.taken ++ [s.ring.buf s.index]).length = s.taken.length + 1 := by simp
  rw [hstate]
  constructor
  case size => exact h.size
  case aligned => exact h.aligned
  case laps =>
    rw [hwritten, hlen]
    exact h.laps.take hlt
  case room =>
    rw [hlen]
    exact h.room.trans (by omega)
  case kinds => exact h.kinds
  case order =>
    rw [hwritten, List.map_append]
    refine concat_isPrefix h.order ?_
    rw [List.length_map]
    exact hitem
  case producing => exact h.producing
  case linked => exact h.linked
  case following =>
    rw [hlen]
    by_cases hend : s.taken.length % n + 1 = n
    · obtain ⟨hzero, hmark⟩ := lap_end hend
      refine .inr ⟨Nat.succ_pos _, hzero, ?_, ?_⟩
      · exact (congrArg (· + 1) hindex).trans hend
      · rw [hmark, Bool.not_not]
        exact hcycle
    · obtain ⟨hsucc, hmark⟩ := lap_succ (by omega) hend
      refine .inl ⟨?_, ?_⟩
      · exact (congrArg (· + 1) hindex).trans hsucc.symm
      · rw [hmark]
        exact hcycle

theorem written_consume (s : System) : s.consume.written = s.written := by
  rw [System.consume]
  cases s.hasTrb with
  | false => rfl
  | true =>
      rw [Bool.not_true, if_neg Bool.false_ne_true]
      split <;> rfl

/-- **A look of the controller.**  When there is a TRB, it takes it or passes the link. -/
theorem consume (h : s.Inv n) (hn : 2 ≤ n) :
    s.consume.Inv n ∧ (s.hasTrb = true → s.consume.looks n < s.looks n) := by
  cases hhas : s.hasTrb with
  | false =>
      refine ⟨?_, fun hf => by cases hf⟩
      rw [System.consume, hhas, Bool.not_false, if_pos rfl]
      exact h
  | true =>
      rcases h.following with ⟨hindex, hcycle⟩ | ⟨hpos, hzero, hindex, hcycle⟩
      · refine ⟨h.consume_slot hn hindex hcycle hhas, fun _ => ?_⟩
        obtain ⟨hitem, hstate⟩ := h.slot_takes hn hindex hcycle hhas
        have hlt := (List.getElem?_eq_some_iff.mp hitem).1
        rw [List.length_map] at hlt
        have hslot := Nat.mod_lt s.taken.length (by omega : n > 0)
        have hnew : s.consume.looks n = 2 * (s.written.length - (s.taken.length + 1)) +
            if s.index + 1 = n then 1 else 0 := by
          rw [hstate, looks, List.length_append, List.length_singleton]
          rfl
        have hold : s.looks n = 2 * (s.written.length - s.taken.length) := by
          rw [looks, if_neg (by omega)]
          rfl
        rw [hnew, hold]
        split <;> omega
      · rcases h.link_follows hn hpos hzero hindex hcycle with ⟨_, hstate⟩ | ⟨hhas', _⟩
        · rw [hstate]
          refine ⟨{ h with following := .inl ⟨hzero.symm, ?_⟩ }, fun _ => ?_⟩
          · exact (congrArg not hcycle).trans (Bool.not_not _)
          · have hzero : ¬0 = n := by omega
            rw [looks, looks, if_pos hindex, if_neg hzero]
            exact Nat.lt_succ_self _
        · rw [hhas] at hhas'
          cases hhas'

/-- **A call of `Push`.** -/
theorem push (h : s.Inv n) {t : Trb} (hok : s.admits (.push t) = true) :
    (s.step (.push t)).Inv n := by
  have hsize := h.size
  obtain ⟨⟨hidle, hroom⟩, hkind⟩ : ((match s.pc with
      | .idle => true
      | _ => false) = true ∧ s.pushed.length < s.taken.length + (s.ring.bufSize - 2)) ∧
      t.type ≠ Trb.linkType := by simpa [admits] using hok
  have hpc : s.pc = .idle := by
    cases hp : s.pc with
    | idle => rfl
    | data t i => rw [hp] at hidle; cases hidle
    | link i => rw [hp] at hidle; cases hidle
  have hbefore : s.written = s.pushed := by rw [written, hpc]
  have hwritten : (s.step (.push t)).written = s.written := by
    rw [hbefore]
    exact List.dropLast_concat
  have hproducing := h.producing
  rw [Producing, hpc] at hproducing
  constructor
  case size => exact h.size
  case aligned => exact h.aligned
  case laps => rw [hwritten]; exact h.laps
  case room =>
    have hlen : (s.step (.push t)).pushed.length = s.pushed.length + 1 := by simp [step]
    have htaken : (s.step (.push t)).taken = s.taken := rfl
    rw [hlen, htaken]
    omega
  case kinds =>
    intro t' ht'
    rcases List.mem_append.mp ht' with ht' | ht'
    · exact h.kinds t' ht'
    · rwa [List.mem_singleton.mp ht']
  case order => rw [hwritten]; exact h.order
  case producing =>
    rw [hwritten]
    refine ⟨hproducing.1, hproducing.2, ?_, fun j hj => absurd hj (Fin.not_lt_zero j)⟩
    rw [hwritten, hbefore]
    rfl
  case linked =>
    have hready := h.link_ready fun i hi => by rw [hpc] at hi; cases hi
    rw [hwritten]
    exact hready
  case following => exact h.following

/-- A word of the TRB before its last. -/
theorem word_data (h : s.Inv n) (hn : 2 ≤ n) {t : Trb} {i : Fin 4} (hpc : s.pc = .data t i)
    (hi : i ≠ 3) : (s.step .word).Inv n := by
  have hproducing := h.producing
  rw [Producing, hpc] at hproducing
  obtain ⟨hindex, hcycle, hpushed, hwords⟩ := hproducing
  have hlt := h.written_le hn
  have hslot := Nat.mod_lt s.written.length (by omega : n > 0)
  have hstep : s.step .word = { s with
      ring := s.ring.copyWord t i, pc := .data t (i + 1) } := by
    simp only [step, hpc, Ring.produce, if_neg hi]
  have hwritten : (s.step .word).written = s.written := by
    rw [hstep, written, written, hpc]
  rw [hstep] at hwritten ⊢
  constructor
  case size => exact h.size
  case aligned => exact h.aligned
  case laps =>
    rw [hwritten]
    refine h.laps.congr (fun j _ => s.ring.copyWord_cycleBit t hi j) fun k hk hkl => ?_
    rw [List.length_map] at hkl
    have hne : k % n ≠ s.ring.writeIndex := by
      rw [hindex]
      exact slot_ne hkl (by omega)
    simp only [s.ring.copyWord_buf_of_ne t hne]
  case room => exact h.room
  case kinds => exact h.kinds
  case order => rw [hwritten]; exact h.order
  case producing =>
    rw [hwritten]
    refine ⟨hindex, hcycle, by rw [hwritten]; exact hpushed, ?_⟩
    rw [← hindex] at hwords ⊢
    exact s.ring.copyWord_words t hi hwords
  case linked =>
    have hready := h.link_ready fun j hj => by rw [hpc] at hj; cases hj
    have hne : n ≠ s.ring.writeIndex := by omega
    rw [hwritten]
    simp only [Linked, s.ring.copyWord_buf_of_ne t hne]
    exact hready
  case following => exact h.following

/-- The last word of the TRB: the controller may take it. -/
theorem word_last (h : s.Inv n) (hn : 2 ≤ n) {t : Trb} (hpc : s.pc = .data t 3) :
    (s.step .word).Inv n := by
  have hproducing := h.producing
  rw [Producing, hpc] at hproducing
  obtain ⟨hindex, hcycle, hpushed, hwords⟩ := hproducing
  have hsize := h.size
  have hlt := h.written_le hn
  have hslot := Nat.mod_lt s.written.length (by omega : n > 0)
  have hne : n ≠ s.ring.writeIndex := by omega
  have hready := h.link_ready fun j hj => by rw [hpc] at hj; cases hj
  have hself := s.ring.copyWord_last t (hindex.symm ▸ hwords)
  have hstep : s.step .word = { s with
      ring := { s.ring.copyWord t 3 with writeIndex := s.ring.writeIndex + 1 }
      pc := if s.ring.writeIndex + 1 = n then .link 0 else .idle } := by
    have hlast : s.ring.bufSize - 1 = n := by omega
    simp only [step, hpc, Ring.produce, if_true, ← hlast]
    rfl
  have hwritten : (s.step .word).written = s.written ++ [t] := by
    rw [hstep, ← hpushed, written]
    by_cases hend : s.ring.writeIndex + 1 = n
    · rw [if_pos hend]
    · rw [if_neg hend]
  have hlen : (s.written ++ [t]).length = s.written.length + 1 := by simp
  rw [hstep] at hwritten ⊢
  constructor
  case size => exact h.size
  case aligned => exact h.aligned
  case laps =>
    rw [hwritten, List.map_append]
    have hslots : (s.written.map Trb.body).length % n = s.ring.writeIndex := by
      rw [List.length_map, hindex]
    refine h.laps.write (by omega) (by rwa [List.length_map]) ?_ ?_ ?_ ?_
    · rw [hslots]
      simp only [hself, Trb.body, Trb.withCycle_withCycle]
    · intro j _ hj
      rw [hslots] at hj
      simp only [s.ring.copyWord_buf_of_ne t hj]
    · rw [hslots]
      simp only [hself, Trb.cycleBit_withCycle, hcycle, List.length_map]
    · intro j _ hj
      rw [hslots] at hj
      simp only [s.ring.copyWord_buf_of_ne t hj]
  case room => exact h.room
  case kinds => exact h.kinds
  case order =>
    rw [hwritten, List.map_append]
    exact h.order.trans (List.prefix_append _ _)
  case producing =>
    rw [hwritten, hlen]
    by_cases hend : s.ring.writeIndex + 1 = n
    · obtain ⟨hzero, hmark⟩ := lap_end (hindex ▸ hend)
      rw [if_pos hend]
      refine ⟨hend, ?_, hzero, Nat.succ_pos _, fun j hj => absurd hj (Fin.not_lt_zero j)⟩
      rw [hmark, Bool.not_not]
      exact hcycle
    · obtain ⟨hsucc, hmark⟩ := lap_succ (by omega) (hindex ▸ hend)
      rw [if_neg hend]
      refine ⟨?_, hcycle.trans hmark.symm⟩
      rw [hsucc, ← hindex]
  case linked =>
    rw [hwritten, hlen]
    by_cases hend : s.ring.writeIndex + 1 = n
    · obtain ⟨_, hmark⟩ := lap_end (hindex ▸ hend)
      rw [if_pos hend]
      simp only [Linked, s.ring.copyWord_buf_of_ne t hne]
      exact hready.1.trans hmark.symm
    · obtain ⟨hsucc, hmark⟩ := lap_succ (by omega) (hindex ▸ hend)
      rw [if_neg hend]
      simp only [Linked, s.ring.copyWord_buf_of_ne t hne, hmark]
      refine ⟨hready.1, fun hle => hready.2 ?_⟩
      have hlap : n ≠ s.written.length + 1 := fun heq => by
        rw [← heq, Nat.mod_self] at hsucc
        cases hsucc
      omega
  case following => exact h.following

/-- A word of the link TRB before its last. -/
theorem word_link (h : s.Inv n) (hn : 0 < n) {i : Fin 4} (hpc : s.pc = .link i) (hi : i ≠ 3) :
    (s.step .word).Inv n := by
  have hproducing := h.producing
  rw [Producing, hpc] at hproducing
  obtain ⟨hindex, hcycle, hzero, hpos, hwords⟩ := hproducing
  have hstep : s.step .word = { s with
      ring := s.ring.copyWord (Trb.link s.ring.bufAddr) i, pc := .link (i + 1) } := by
    simp only [step, hpc, Ring.produce, if_neg hi]
  have hwritten : (s.step .word).written = s.written := by
    rw [hstep, written, written, hpc]
  rw [hstep] at hwritten ⊢
  constructor
  case size => exact h.size
  case aligned => exact h.aligned
  case laps =>
    rw [hwritten]
    refine h.laps.congr (fun j _ => s.ring.copyWord_cycleBit _ hi j) fun k hk hkl => ?_
    have hne : k % n ≠ s.ring.writeIndex := by
      rw [hindex]
      exact (Nat.mod_lt k hn).ne
    simp only [s.ring.copyWord_buf_of_ne _ hne]
  case room => exact h.room
  case kinds => exact h.kinds
  case order => rw [hwritten]; exact h.order
  case producing =>
    rw [hwritten]
    refine ⟨hindex, hcycle, hzero, hpos, ?_⟩
    rw [← hindex] at hwords ⊢
    exact s.ring.copyWord_words _ hi hwords
  case linked =>
    have hlinked := h.linked
    rw [Linked, hpc] at hlinked
    rw [hwritten]
    exact (s.ring.copyWord_cycleBit _ hi n).trans hlinked
  case following => exact h.following

/-- The last word of the link TRB: the controller may follow it. -/
theorem word_linked (h : s.Inv n) (hn : 0 < n) (hpc : s.pc = .link 3) : (s.step .word).Inv n := by
  have hproducing := h.producing
  rw [Producing, hpc] at hproducing
  obtain ⟨hindex, hcycle, hzero, hpos, hwords⟩ := hproducing
  have hself := s.ring.copyWord_last (Trb.link s.ring.bufAddr) (hindex.symm ▸ hwords)
  have hstep : s.step .word = { s with
      ring := { s.ring.copyWord (Trb.link s.ring.bufAddr) 3 with
        writeIndex := 0, cycleBit := !s.ring.cycleBit }
      pc := .idle } := by
    simp only [step, hpc, Ring.produce, if_true]
    rfl
  have hwritten : (s.step .word).written = s.written := by
    rw [hstep, written, written, hpc]
  rw [hstep] at hwritten ⊢
  constructor
  case size => exact h.size
  case aligned => exact h.aligned
  case laps =>
    rw [hwritten]
    refine h.laps.congr (fun j hj => ?_) fun k hk hkl => ?_
    · have hne : j ≠ s.ring.writeIndex := by omega
      simp only [s.ring.copyWord_buf_of_ne _ hne]
    · have hne : k % n ≠ s.ring.writeIndex := by
        rw [hindex]
        exact (Nat.mod_lt k hn).ne
      simp only [s.ring.copyWord_buf_of_ne _ hne]
  case room => exact h.room
  case kinds => exact h.kinds
  case order => rw [hwritten]; exact h.order
  case producing =>
    rw [hwritten]
    refine ⟨hzero.symm, ?_⟩
    exact (congrArg not hcycle).trans (Bool.not_not _)
  case linked =>
    rw [hwritten]
    rw [hindex, hcycle] at hself
    refine ⟨?_, fun _ => hself⟩
    simp only [hself, Trb.cycleBit_withCycle]
  case following => exact h.following

/-- **A word of `Push`.** -/
theorem word (h : s.Inv n) (hn : 2 ≤ n) : (s.step .word).Inv n := by
  cases hpc : s.pc with
  | idle =>
      have hstep : s.step .word = s := by simp only [step, hpc, Ring.produce]; rw [← hpc]
      rw [hstep]
      exact h
  | data t i =>
      by_cases hi : i = 3
      · subst hi
        exact h.word_last hn hpc
      · exact h.word_data hn hpc hi
  | link i =>
      by_cases hi : i = 3
      · subst hi
        exact h.word_linked (by omega) hpc
      · exact h.word_link (by omega) hpc hi

/-- **A step.** -/
theorem step (h : s.Inv n) (hn : 2 ≤ n) {e : Event} (hok : s.admits e = true) :
    (s.step e).Inv n := by
  cases e with
  | push t => exact h.push hok
  | word => exact h.word hn
  | consume => exact (h.consume hn).1

end System.Inv

/-- Looking on, the controller takes all that is written. -/
theorem System.Inv.drains {n m : Nat} (hn : 2 ≤ n) {s : System} (h : s.Inv n)
    (hm : s.looks n ≤ m) : (System.consume^[m] s).taken.map Trb.body = s.written.map Trb.body := by
  induction m generalizing s with
  | zero =>
      refine h.taken_all hn (Bool.not_eq_true _ ▸ fun hhas => ?_)
      have hless := (h.consume hn).2 hhas
      omega
  | succ m ih =>
      rw [Function.iterate_succ_apply]
      have hwritten := Inv.written_consume s
      cases hhas : s.hasTrb with
      | true =>
          have hless := (h.consume hn).2 hhas
          rw [ih (h.consume hn).1 (by omega), hwritten]
      | false =>
          have hfixed : s.consume = s := by
            rw [System.consume, hhas, Bool.not_false, if_pos rfl]
          rw [hfixed, Function.iterate_fixed hfixed, h.taken_all hn hhas]

/-- **The ring is a FIFO.**  Whatever the order of the calls of `Push`, of their words and of the
controller's looks: what the controller has taken are the first TRBs that were pushed, whole and
each once; when it finds no TRB it has taken all that are written, and it gets there by looking. -/
theorem ring_fifo (bufAddr : BitVec 64) (bufSize : Nat) (halign : bufAddr >>> 4 <<< 4 = bufAddr)
    (hsize : 3 ≤ bufSize) (es : List Event)
    (hes : Guarded System.step (fun s e => s.admits e = true) (.start bufAddr bufSize) es) :
    let s := run System.step (.start bufAddr bufSize) es
    s.taken.map Trb.body <+: s.pushed.map Trb.body ∧
      (s.hasTrb = false → s.taken.map Trb.body = s.written.map Trb.body) ∧
      ∃ m, (System.consume^[m] s).taken.map Trb.body = s.written.map Trb.body := by
  intro s
  obtain ⟨n, rfl⟩ : ∃ n, bufSize = n + 1 := ⟨bufSize - 1, by omega⟩
  have hn : 2 ≤ n := by omega
  have hinv : s.Inv n := inv_run (System.Inv n) (fun s e h hok => h.step hn hok)
    (.start bufAddr halign hn) hes
  refine ⟨hinv.order.trans ?_, hinv.taken_all hn, _, hinv.drains hn (Nat.le_refl _)⟩
  have hprefix : s.written <+: s.pushed := by
    rw [System.written]
    split
    · exact List.dropLast_prefix _
    · exact List.prefix_refl _
  exact hprefix.map _

/-- Two calls of `Push` fill a ring of three TRBs; the controller looks between their words, takes
both TRBs and passes the link. -/
def shortRun : List Event :=
  [.push fun _ => 1, .word, .consume, .word, .word, .word, .consume, .push fun _ => 2] ++
    List.replicate 8 .word ++ [.consume, .consume, .consume]

theorem ring_fifo_short :
    let s := run System.step (.start 0x1000 3) shortRun
    s.taken.map Trb.body <+: s.pushed.map Trb.body ∧
      (s.hasTrb = false → s.taken.map Trb.body = s.written.map Trb.body) ∧
      ∃ m, (System.consume^[m] s).taken.map Trb.body = s.written.map Trb.body :=
  ring_fifo 0x1000 3 (by decide) (by decide) shortRun (by decide +kernel)

end Laplus.Xhci
