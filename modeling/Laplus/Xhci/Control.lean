/-
# `Laplus.Xhci.Control` — control transfers and who waits for them (`usb/device.cpp`, `xhci/device.cpp`)

`ControlIn` and `ControlOut` note the driver under the setup data, push the stages to the ring
of the endpoint, and note the setup stage under the TRB that will be reported.  An event goes
the way back: from the TRB to the setup stage, from its setup data to the driver.
-/
import Laplus.Lib.ArrayMap
import Laplus.Xhci.Stage

namespace Laplus.Xhci

open Lib

/-! ## Pushes -/

/-- The `buf_size` of a transfer ring; the last slot is for the link TRB. -/
def transferRingSize : Nat := 32

namespace Ring

variable (r : Ring) (t : Trb)

theorem copyToLast_self : (r.copyToLast t).buf r.writeIndex = t.withCycle r.cycleBit := by
  have h0 := r.copyWord_words t (i := 0) (by decide) fun j hj => absurd hj (by omega)
  have h1 := (r.copyWord t 0).copyWord_words t (i := 1) (by decide) h0
  have h2 := ((r.copyWord t 0).copyWord t 1).copyWord_words t (i := 2) (by decide) h1
  exact (((r.copyWord t 0).copyWord t 1).copyWord t 2).copyWord_last t h2

theorem copyToLast_of_ne {j : Nat} (hj : j ≠ r.writeIndex) : (r.copyToLast t).buf j = r.buf j := by
  have h2 := ((r.copyWord t 0).copyWord t 1).copyWord_buf_of_ne t (i := 2) hj
  have h3 := (((r.copyWord t 0).copyWord t 1).copyWord t 2).copyWord_buf_of_ne t (i := 3) hj
  have h1 := (r.copyWord t 0).copyWord_buf_of_ne t (i := 1) hj
  exact h3.trans (h2.trans (h1.trans (r.copyWord_buf_of_ne t hj)))

@[simp] theorem push_bufSize : (r.push t).bufSize = r.bufSize := by
  rw [push]
  split <;> rfl

/-- The index goes round before the link TRB. -/
theorem push_writeIndex (hw : r.writeIndex < r.bufSize - 1) :
    (r.push t).writeIndex = (r.writeIndex + 1) % (r.bufSize - 1) := by
  rw [push]
  split
  next he =>
    have he : r.writeIndex + 1 = r.bufSize - 1 := he
    rw [he, Nat.mod_self]
  next hne =>
    have hne : r.writeIndex + 1 ≠ r.bufSize - 1 := hne
    exact (Nat.mod_eq_of_lt (show r.writeIndex + 1 < r.bufSize - 1 by omega)).symm

theorem push_self : (r.push t).buf r.writeIndex = t.withCycle r.cycleBit := by
  rw [push]
  split
  next => exact (copyToLast_of_ne _ _ (Nat.lt_succ_self _).ne).trans (r.copyToLast_self t)
  next => exact r.copyToLast_self t

/-- The other slots before the link TRB stay. -/
theorem push_of_ne {j : Nat} (hj : j ≠ r.writeIndex) (hlt : j < r.bufSize - 1) :
    (r.push t).buf j = r.buf j := by
  rw [push]
  split
  next he =>
    have he : r.writeIndex + 1 = r.bufSize - 1 := he
    exact (copyToLast_of_ne _ _ (he ▸ hlt.ne)).trans (r.copyToLast_of_ne t hj)
  next => exact r.copyToLast_of_ne t hj

/-- A transfer ring to which so many TRBs have been pushed. -/
structure At (m : Nat) : Prop where
  size : r.bufSize = transferRingSize
  index : r.writeIndex = m % 31

namespace At

variable {r} {m : Nat} {ts : List Trb}

theorem slots (h : r.At m) : r.bufSize - 1 = 31 := h.size ▸ rfl

theorem index_lt (h : r.At m) : r.writeIndex < r.bufSize - 1 := by
  rw [h.slots, h.index]
  exact Nat.mod_lt m (by decide)

theorem push (h : r.At m) : (r.push t).At (m + 1) where
  size := (push_bufSize r t).trans h.size
  index := by rw [push_writeIndex r t h.index_lt, h.slots, h.index, Nat.mod_add_mod]

theorem foldl (h : r.At m) : (ts.foldl Ring.push r).At (m + ts.length) := by
  induction ts generalizing r m with
  | nil => exact h
  | cons t ts ih =>
      rw [List.length_cons, Nat.add_comm ts.length, ← Nat.add_assoc]
      exact ih (h.push t)

/-- The slots that the pushes do not come to. -/
theorem foldl_of_ne (h : r.At m) {j : Nat} (hj : j < 31)
    (hne : ∀ i < ts.length, j ≠ (m + i) % 31) : (ts.foldl Ring.push r).buf j = r.buf j := by
  induction ts generalizing r m with
  | nil => rfl
  | cons t ts ih =>
      have hnext := ih (h.push t) fun i hi => by
        rw [Nat.add_assoc, Nat.add_comm 1]
        exact hne (i + 1) (Nat.succ_lt_succ hi)
      have hj0 : j ≠ r.writeIndex := h.index ▸ hne 0 (Nat.succ_pos _)
      exact hnext.trans (r.push_of_ne t hj0 (h.slots ▸ hj))

/-- **What is pushed is there**, until the pushes have come round. -/
theorem foldl_getElem (h : r.At m) {i : Nat} {x : Trb} (hx : ts[i]? = some x)
    (hlen : ts.length ≤ 31) : ∃ c, (ts.foldl Ring.push r).buf ((m + i) % 31) = x.withCycle c := by
  induction ts generalizing r m i with
  | nil => cases hx
  | cons t ts ih =>
      rw [List.length_cons] at hlen
      cases i with
      | zero =>
          obtain rfl : t = x := Option.some.inj hx
          have hold : (ts.foldl Ring.push (r.push t)).buf (m % 31) = (r.push t).buf (m % 31) :=
            (h.push t).foldl_of_ne (Nat.mod_lt m (by decide)) fun i hi => by omega
          refine ⟨r.cycleBit, hold.trans ?_⟩
          rw [← h.index]
          exact r.push_self t
      | succ i =>
          rw [Nat.add_comm i, ← Nat.add_assoc]
          exact ih (h.push t) hx (Nat.le_of_succ_le hlen)

end At

end Ring

/-! ## The source -/

/-- A TRB in the transfer ring of an endpoint. -/
structure TrbPtr where
  dci : Nat
  index : Nat
deriving DecidableEq

/-- The errors of a transfer. -/
inductive TransferError where
  | kInvalidEndpointNumber
  | kTransferRingNotSet
  | kTransferFailed
  | kNoCorrespondingSetupStage
  | kNotImplemented
  | kNoWaiter
deriving DecidableEq

/-- The arguments of `ClassDriver::OnControlCompleted`, and whose it is. -/
structure Completion (Driver : Type) where
  driver : Driver
  ep_id : Nat
  setup_data : SetupData
  buf : BitVec 64
  len : Int
deriving DecidableEq

/-- What comes of a transfer event: an error, a normal transfer, or a call of a driver. -/
inductive Outcome (Driver : Type) where
  | error (err : TransferError)
  | normal
  | completed (c : Completion Driver)

/-- The calls of `ClassDriver::OnControlCompleted`. -/
def Outcome.completions {Driver : Type} : Outcome Driver → List (Completion Driver)
  | .completed c => [c]
  | _ => []

/-- A device, with what both of its classes hold. -/
structure Device (Driver : Type) where
  transfer_rings : Nat → Option Ring
  setup_stage_map : ArrayMap TrbPtr TrbPtr
  event_waiters : ArrayMap SetupData Driver

/-- The TRBs of a control transfer; the one behind the setup stage is reported. -/
structure Stages where
  setup : Trb
  reported : Trb
  rest : List Trb

/-- All of them, in order. -/
def Stages.trbs (st : Stages) : List Trb := st.setup :: st.reported :: st.rest

namespace Device

variable {Driver : Type} (d : Device Driver)

/-- `usb::Device::ControlIn` and `ControlOut`. -/
def wait (setup_data : SetupData) : Option Driver → Device Driver
  | none => d
  | some issuer => { d with event_waiters := d.event_waiters.put setup_data issuer }

/-- The stages are pushed, and the setup stage is noted under the TRB that is reported. -/
def pushStages (ep_id : Nat) (tr : Ring) (st : Stages) : Device Driver :=
  let setup_trb_position := ⟨ep_id, tr.writeIndex⟩
  let tr := tr.push st.setup
  let trb_position := ⟨ep_id, tr.writeIndex⟩
  let tr := tr.push st.reported
  { d with
    transfer_rings := Function.update d.transfer_rings ep_id (some (st.rest.foldl Ring.push tr))
    setup_stage_map := d.setup_stage_map.put trb_position setup_trb_position }

/-- What `ControlIn` and `ControlOut` have in common. -/
def control (ep_id : Nat) (setup_data : SetupData) (st : Stages) (issuer : Option Driver) :
    Device Driver × Option TransferError :=
  let d := d.wait setup_data issuer
  if 15 < ep_id / 2 then (d, some .kInvalidEndpointNumber)
  else
    match d.transfer_rings ep_id with
    | none => (d, some .kTransferRingNotSet)
    | some tr => (d.pushStages ep_id tr st, none)

/-- The stages of `ControlIn`. -/
def stagesIn (setup_data : SetupData) (buf : BitVec 64) (len : BitVec 32) : Stages :=
  if buf ≠ 0 then
    ⟨.makeSetupStage setup_data Trb.kInDataStage, .makeDataStage buf len true true,
      [.statusStage false false]⟩
  else ⟨.makeSetupStage setup_data Trb.kNoDataStage, .statusStage true true, []⟩

/-- The stages of `ControlOut`. -/
def stagesOut (setup_data : SetupData) (buf : BitVec 64) (len : BitVec 32) : Stages :=
  if buf ≠ 0 then
    ⟨.makeSetupStage setup_data Trb.kOutDataStage, .makeDataStage buf len false true,
      [.statusStage true false]⟩
  else ⟨.makeSetupStage setup_data Trb.kNoDataStage, .statusStage true true, []⟩

/-- `ControlIn`. -/
def ControlIn (ep_id : Nat) (setup_data : SetupData) (buf : BitVec 64) (len : BitVec 32)
    (issuer : Option Driver) : Device Driver × Option TransferError :=
  d.control ep_id setup_data (stagesIn setup_data buf len) issuer

/-- `ControlOut`. -/
def ControlOut (ep_id : Nat) (setup_data : SetupData) (buf : BitVec 64) (len : BitVec 32)
    (issuer : Option Driver) : Device Driver × Option TransferError :=
  d.control ep_id setup_data (stagesOut setup_data buf len) issuer

/-- The TRB at an address. -/
def trbAt (p : TrbPtr) : Trb :=
  match d.transfer_rings p.dci with
  | none => fun _ => 0
  | some tr => tr.buf p.index

/-- `usb::Device::OnControlCompleted`, of a device that is initialized. -/
def OnControlCompleted (ep_id : Nat) (setup_data : SetupData) (buf : BitVec 64) (len : Int) :
    Outcome Driver :=
  match d.event_waiters.get setup_data with
  | some w => .completed ⟨w, ep_id, setup_data, buf, len⟩
  | none => .error .kNoWaiter

/-- `OnTransferEventReceived`. -/
def OnTransferEventReceived (issuer_trb : TrbPtr) (ep_id : Nat) (completion_code : BitVec 8)
    (residual_length : BitVec 24) : Device Driver × Outcome Driver :=
  if completion_code ≠ 1 ∧ completion_code ≠ 13 then (d, .error .kTransferFailed)
  else if (d.trbAt issuer_trb).type = Trb.normalType then (d, .normal)
  else
    match d.setup_stage_map.get issuer_trb with
    | none => (d, .error .kNoCorrespondingSetupStage)
    | some setup_stage_trb =>
        let d := { d with setup_stage_map := d.setup_stage_map.delete issuer_trb }
        let setup_data := (d.trbAt setup_stage_trb).setupData
        let trb := d.trbAt issuer_trb
        if trb.type = Trb.dataStageType then
          (d, d.OnControlCompleted ep_id setup_data trb.dataPointer
            (trb.transferLength.setWidth 32 - residual_length.setWidth 32).toInt)
        else if trb.type = Trb.statusStageType then (d, d.OnControlCompleted ep_id setup_data 0 0)
        else (d, .error .kNotImplemented)

end Device

/-! ## Places in a ring -/

namespace TrbPtr

/-- Where the TRB is that is pushed after so many others. -/
def slot (ep_id n : Nat) : TrbPtr := ⟨ep_id, n % 31⟩

/-- The TRB that was pushed before. -/
def before (p : TrbPtr) : TrbPtr := ⟨p.dci, (p.index + 30) % 31⟩

theorem before_slot (ep_id n : Nat) : (slot ep_id (n + 1)).before = slot ep_id n := by
  rw [before, slot, slot, Nat.mod_add_mod, Nat.add_assoc, Nat.add_mod_right]

end TrbPtr

namespace Device

variable {Driver : Type} {d : Device Driver} {ep_id n : Nat} {tr : Ring} {st : Stages}

open TrbPtr

/-- The note of the setup stage. -/
theorem setup_stage_map_pushStages (h : tr.At n) :
    (d.pushStages ep_id tr st).setup_stage_map =
      d.setup_stage_map.put (slot ep_id (n + 1)) (slot ep_id n) := by
  rw [pushStages, slot, slot, ← h.index, ← (h.push st.setup).index]

theorem trbAt_of_ring {p : TrbPtr} (hring : d.transfer_rings p.dci = some tr) :
    d.trbAt p = tr.buf p.index := by
  rw [trbAt, hring]

theorem rings_pushStages :
    (d.pushStages ep_id tr st).transfer_rings =
      Function.update d.transfer_rings ep_id (some (st.trbs.foldl Ring.push tr)) := rfl

/-- What the stages leave of a ring, while it is not full. -/
theorem trbAt_pushStages_old (h : tr.At n) (hring : d.transfer_rings ep_id = some tr)
    {ep_id' m : Nat} (hm : ep_id' = ep_id → m < n ∧ n + st.trbs.length ≤ m + 31) :
    (d.pushStages ep_id tr st).trbAt (slot ep_id' m) = d.trbAt (slot ep_id' m) := by
  by_cases heq : ep_id' = ep_id
  · subst heq
    obtain ⟨hlo, hhi⟩ := hm rfl
    have hnew : (d.pushStages ep_id' tr st).transfer_rings ep_id' =
        some (st.trbs.foldl Ring.push tr) := Function.update_self _ _ _
    rw [trbAt_of_ring (p := slot ep_id' m) hnew, trbAt_of_ring (p := slot ep_id' m) hring]
    have hne : ∀ i < st.trbs.length, m % 31 ≠ (n + i) % 31 := fun i hi => by omega
    exact h.foldl_of_ne (Nat.mod_lt m (by decide)) hne
  · have hother : (d.pushStages ep_id tr st).transfer_rings ep_id' = d.transfer_rings ep_id' :=
      Function.update_of_ne heq _ _
    rw [trbAt, trbAt, slot, hother]

/-- The stages are there. -/
theorem trbAt_pushStages (d : Device Driver) (ep_id : Nat) (h : tr.At n)
    (hlen : st.trbs.length ≤ 31) {i : Nat} {x : Trb} (hx : st.trbs[i]? = some x) :
    ∃ c, (d.pushStages ep_id tr st).trbAt (slot ep_id (n + i)) = x.withCycle c := by
  have hnew : (d.pushStages ep_id tr st).transfer_rings ep_id =
      some (st.trbs.foldl Ring.push tr) := Function.update_self _ _ _
  rw [trbAt_of_ring (p := slot ep_id (n + i)) hnew]
  exact h.foldl_getElem hx hlen

/-- The two ways of a control transfer. -/
theorem control_cases (d : Device Driver) (ep_id : Nat) (setup_data : SetupData) (st : Stages)
    (issuer : Option Driver) :
    (∃ err, d.control ep_id setup_data st issuer = (d.wait setup_data issuer, some err)) ∨
      ∃ tr, ep_id / 2 ≤ 15 ∧ d.transfer_rings ep_id = some tr ∧
        d.control ep_id setup_data st issuer =
          ((d.wait setup_data issuer).pushStages ep_id tr st, none) := by
  have hrings : (d.wait setup_data issuer).transfer_rings = d.transfer_rings := by
    cases issuer <;> rfl
  rw [control]
  split
  next => exact .inl ⟨_, rfl⟩
  next hep =>
    rw [hrings]
    cases hring : d.transfer_rings ep_id with
    | none => exact .inl ⟨_, rfl⟩
    | some tr => exact .inr ⟨tr, Nat.le_of_not_lt hep, rfl, rfl⟩

/-! ## Devices that are initialized -/

/-- What holds of a device from its first ring on: its rings are of one size, a setup stage is in
front of the TRB it is noted under, and of the waiters none was deleted. -/
structure Initialized (d : Device Driver) : Prop where
  ring : ∀ {ep_id tr}, d.transfer_rings ep_id = some tr → tr.At tr.writeIndex
  stage : ∀ {p q}, some (p, q) ∈ d.setup_stage_map → q = p.before
  waiters : d.event_waiters.Packed

/-- A device with the rings of `AllocTransferRing` and nothing else. -/
def allocated (bufAddr : Nat → Option (BitVec 64)) : Device Driver where
  transfer_rings ep_id := (bufAddr ep_id).map fun buf => .initialized buf transferRingSize
  setup_stage_map := List.replicate 16 none
  event_waiters := List.replicate 4 none

theorem initialized_allocated (bufAddr : Nat → Option (BitVec 64)) :
    (allocated bufAddr : Device Driver).Initialized where
  ring h := by
    obtain ⟨buf, -, rfl⟩ := Option.map_eq_some_iff.mp h
    exact ⟨rfl, rfl⟩
  stage h := by cases List.eq_of_mem_replicate h
  waiters := .free fun _ h => List.eq_of_mem_replicate h

namespace Initialized

theorem wait (hd : d.Initialized) (setup_data : SetupData) (issuer : Option Driver) :
    (d.wait setup_data issuer).Initialized := by
  cases issuer with
  | none => exact hd
  | some issuer => exact ⟨hd.ring, hd.stage, hd.waiters.put setup_data issuer⟩

theorem pushStages (hd : d.Initialized) (hring : d.transfer_rings ep_id = some tr) :
    (d.pushStages ep_id tr st).Initialized where
  ring {ep_id' tr'} h := by
    rw [rings_pushStages, Function.update_apply] at h
    split at h
    next =>
      obtain rfl : st.trbs.foldl Ring.push tr = tr' := Option.some.inj h
      have hat : (st.trbs.foldl Ring.push tr).At (tr.writeIndex + st.trbs.length) :=
        (hd.ring hring).foldl
      exact ⟨hat.size, (Nat.mod_eq_of_lt (hat.slots ▸ hat.index_lt)).symm⟩
    next => exact hd.ring h
  stage h := by
    rw [setup_stage_map_pushStages (hd.ring hring)] at h
    rcases ArrayMap.mem_put h with h | h
    · exact hd.stage h
    · cases h
      exact (before_slot _ _).symm
  waiters := hd.waiters

theorem delete (hd : d.Initialized) (p : TrbPtr) :
    ({ d with setup_stage_map := d.setup_stage_map.delete p } : Device Driver).Initialized :=
  ⟨hd.ring, fun h => hd.stage (ArrayMap.mem_delete h), hd.waiters⟩

end Initialized

end Device

end Laplus.Xhci
