/-
# `Laplus.Xhci.Dispatch` — completions to their issuers (`usb/device.cpp`, `xhci/device.cpp`)

Drivers make control transfers and the controller reports them, on each ring in order.  A transfer
that is under way `Stands`: its TRBs are in the ring, its setup stage is noted and its driver
waits.  At most eight on a ring take 24 of its 31 slots, so that what is pushed later does not
come to them.  The maps are what fails: a waiter is never deleted, the note of a transfer that
failed neither.  A call `Fits` if they can still take it.
-/
import Laplus.Xhci.Control

namespace Laplus.Xhci.Control

open Lib TrbPtr

variable {Driver : Type}

/-- The TRB that will be reported. -/
def reportedAt (ep_id : Nat) (tr : Ring) : TrbPtr :=
  ⟨ep_id, (tr.writeIndex + 1) % (tr.bufSize - 1)⟩

/-- A call that is not completed: its arguments, the TRB that will be reported, and how many TRBs
had been pushed to the ring before. -/
structure Transfer (Driver : Type) where
  issuer : Driver
  setup_data : SetupData
  buf : BitVec 64
  len : BitVec 32
  trb : TrbPtr
  first : Nat

/-- What is meant by the completion of a transfer; the controller is told 17 bits of the length. -/
def Transfer.completion (t : Transfer Driver) (ep_id : Nat)
    (residual_length : BitVec 24) : Completion Driver where
  driver := t.issuer
  ep_id
  setup_data := t.setup_data
  buf := t.buf
  len := if t.buf = 0 then 0 else (t.len.setWidth 17).toNat - residual_length.toNat

/-- A device, the transfers that are under way on each of its rings, and the completions that
were dispatched and that were meant. -/
structure Pipes (Driver : Type) where
  device : Device Driver
  pushed : Nat → Nat
  outstanding : Nat → List (Transfer Driver)
  dispatched : List (Completion Driver)
  meant : List (Completion Driver)

/-- A call of a driver, or an event of the transfer that is next on the ring of an endpoint. -/
inductive Op (Driver : Type) where
  | control (dir_in : Bool) (ep_id : Nat) (setup_data : SetupData) (buf : BitVec 64)
      (len : BitVec 32) (issuer : Driver)
  | event (ep_id : Nat) (completion_code : BitVec 8) (residual_length : BitVec 24)

/-- Whether an event is one of success. -/
def succeeds (completion_code : BitVec 8) : Bool := completion_code = 1 || completion_code = 13

namespace Pipes

def start (device : Device Driver) : Pipes Driver where
  device
  pushed ep_id := (device.transfer_rings ep_id).elim 0 Ring.writeIndex
  outstanding _ := []
  dispatched := []
  meant := []

/-- The call of a driver. -/
def call (s : Pipes Driver) (ep_id : Nat) (setup_data : SetupData) (buf : BitVec 64)
    (len : BitVec 32) (issuer : Driver) : Device Driver × Option TransferError → Pipes Driver
  | (device, some _) => { s with device }
  | (device, none) =>
      match s.device.transfer_rings ep_id with
      | none => { s with device }
      | some tr =>
          let t := ⟨issuer, setup_data, buf, len, reportedAt ep_id tr, s.pushed ep_id⟩
          { s with
            device
            pushed := Function.update s.pushed ep_id (s.pushed ep_id + if buf = 0 then 2 else 3)
            outstanding := Function.update s.outstanding ep_id (s.outstanding ep_id ++ [t]) }

/-- The event of a transfer. -/
def report (s : Pipes Driver) (ep_id : Nat) (completion_code : BitVec 8)
    (residual_length : BitVec 24) (t : Transfer Driver) (rest : List (Transfer Driver)) :
    Pipes Driver :=
  let r := s.device.OnTransferEventReceived t.trb ep_id completion_code residual_length
  { s with
    device := r.1
    outstanding := Function.update s.outstanding ep_id rest
    dispatched := s.dispatched ++ r.2.completions
    meant := s.meant ++
      if succeeds completion_code then [t.completion ep_id residual_length] else [] }

def step (s : Pipes Driver) : Op Driver → Pipes Driver
  | .control true ep_id setup_data buf len issuer =>
      s.call ep_id setup_data buf len issuer
        (s.device.ControlIn ep_id setup_data buf len (some issuer))
  | .control false ep_id setup_data buf len issuer =>
      s.call ep_id setup_data buf len issuer
        (s.device.ControlOut ep_id setup_data buf len (some issuer))
  | .event ep_id completion_code residual_length =>
      match s.outstanding ep_id with
      | [] => s
      | t :: rest => s.report ep_id completion_code residual_length t rest

end Pipes

/-! ## A transfer that stands -/

/-- The TRBs of a call. -/
structure Carries (st : Stages) (setup_data : SetupData) (buf : BitVec 64) (len : BitVec 32) :
    Prop where
  setup : ∃ transfer_type, st.setup = .makeSetupStage setup_data transfer_type
  status : buf = 0 → st.rest.length = 0 ∧ ∃ direction, st.reported = .statusStage direction true
  data : buf ≠ 0 → st.rest.length = 1 ∧ ∃ dir_in, st.reported = .makeDataStage buf len dir_in true

theorem carries_in (setup_data : SetupData) (buf : BitVec 64) (len : BitVec 32) :
    Carries (Device.stagesIn setup_data buf len) setup_data buf len := by
  rw [Device.stagesIn]
  split
  next hbuf => exact ⟨⟨_, rfl⟩, fun h => absurd h hbuf, fun _ => ⟨rfl, _, rfl⟩⟩
  next hbuf => exact ⟨⟨_, rfl⟩, fun _ => ⟨rfl, _, rfl⟩, fun h => absurd h hbuf⟩

theorem carries_out (setup_data : SetupData) (buf : BitVec 64) (len : BitVec 32) :
    Carries (Device.stagesOut setup_data buf len) setup_data buf len := by
  rw [Device.stagesOut]
  split
  next hbuf => exact ⟨⟨_, rfl⟩, fun h => absurd h hbuf, fun _ => ⟨rfl, _, rfl⟩⟩
  next hbuf => exact ⟨⟨_, rfl⟩, fun _ => ⟨rfl, _, rfl⟩, fun h => absurd h hbuf⟩

theorem Carries.length {st : Stages} {setup_data : SetupData} {buf : BitVec 64} {len : BitVec 32}
    (h : Carries st setup_data buf len) : st.trbs.length = if buf = 0 then 2 else 3 := by
  rw [Stages.trbs, List.length_cons, List.length_cons]
  split
  next hbuf => rw [(h.status hbuf).1]
  next hbuf => rw [(h.data hbuf).1]

/-- What the TRB that is reported says of its transfer. -/
def Reports (x : Trb) (buf : BitVec 64) (len : BitVec 32) : Prop :=
  if buf = 0 then x.type = Trb.statusStageType
  else x.type = Trb.dataStageType ∧ x.dataPointer = buf ∧ x.transferLength = len.setWidth 17

theorem Carries.reports {st : Stages} {setup_data : SetupData} {buf : BitVec 64} {len : BitVec 32}
    (h : Carries st setup_data buf len) (c : Bool) : Reports (st.reported.withCycle c) buf len := by
  rw [Reports]
  split
  next hbuf =>
    obtain ⟨-, direction, heq⟩ := h.status hbuf
    rw [heq, Trb.type_withCycle, Trb.type_statusStage]
  next hbuf =>
    obtain ⟨-, dir_in, heq⟩ := h.data hbuf
    rw [heq, Trb.type_withCycle, Trb.type_makeDataStage, Trb.dataPointer_make,
      Trb.transferLength_make]
    exact ⟨rfl, rfl, rfl⟩

/-- A transfer that a device can complete. -/
structure Stands (d : Device Driver) (t : Transfer Driver) : Prop where
  waiter : d.event_waiters.get t.setup_data = some t.issuer
  stage : d.setup_stage_map.get t.trb = some t.trb.before
  setup : (d.trbAt t.trb.before).setupData = t.setup_data
  reported : Reports (d.trbAt t.trb) t.buf t.len

/-- The length that was transferred, as an `int`. -/
theorem toInt_transferred (length : BitVec 17) (residual_length : BitVec 24) :
    (length.setWidth 32 - residual_length.setWidth 32).toInt =
      length.toNat - residual_length.toNat := by
  have hl := length.isLt
  have hr := residual_length.isLt
  have hl32 : (length.setWidth 32).toInt = length.toNat := by
    rw [BitVec.toInt_eq_toNat_of_lt, BitVec.toNat_setWidth_of_le (by decide)]
    rw [BitVec.toNat_setWidth_of_le (by decide)]
    omega
  have hr32 : (residual_length.setWidth 32).toInt = residual_length.toNat := by
    rw [BitVec.toInt_eq_toNat_of_lt, BitVec.toNat_setWidth_of_le (by decide)]
    rw [BitVec.toNat_setWidth_of_le (by decide)]
    omega
  rw [BitVec.toInt_sub, hl32, hr32]
  exact Int.bmod_eq_of_le (by omega) (by omega)

theorem failed {completion_code : BitVec 8} (h : succeeds completion_code = false)
    (d : Device Driver) (p : TrbPtr) (ep_id : Nat) (residual_length : BitVec 24) :
    d.OnTransferEventReceived p ep_id completion_code residual_length =
      (d, .error .kTransferFailed) := by
  rw [succeeds, Bool.or_eq_false_iff, decide_eq_false_iff_not, decide_eq_false_iff_not] at h
  exact if_pos h

/-- **A transfer that stands is completed** to its driver. -/
theorem Stands.completed {d : Device Driver} {t : Transfer Driver} (h : Stands d t)
    {completion_code : BitVec 8} (hok : succeeds completion_code = true) (ep_id : Nat)
    (residual_length : BitVec 24) :
    d.OnTransferEventReceived t.trb ep_id completion_code residual_length =
      ({ d with setup_stage_map := d.setup_stage_map.delete t.trb },
        .completed (t.completion ep_id residual_length)) := by
  have hcode : ¬ (completion_code ≠ 1 ∧ completion_code ≠ 13) := by
    rw [succeeds, Bool.or_eq_true, decide_eq_true_eq, decide_eq_true_eq] at hok
    tauto
  let d' : Device Driver := { d with setup_stage_map := d.setup_stage_map.delete t.trb }
  have hdone : ∀ buf len, d'.OnControlCompleted ep_id (d'.trbAt t.trb.before).setupData buf len =
      .completed ⟨t.issuer, ep_id, t.setup_data, buf, len⟩ := fun buf len => by
    have hsetup : (d'.trbAt t.trb.before).setupData = t.setup_data := h.setup
    have hwaiter : d'.event_waiters.get t.setup_data = some t.issuer := h.waiter
    rw [hsetup, Device.OnControlCompleted, hwaiter]
  have htrb : d'.trbAt t.trb = d.trbAt t.trb := rfl
  have hreports := h.reported
  rw [Reports] at hreports
  split at hreports
  next hbuf =>
    have hnormal : (d.trbAt t.trb).type ≠ Trb.normalType := by rw [hreports]; decide
    have hdata : (d'.trbAt t.trb).type ≠ Trb.dataStageType := by rw [htrb, hreports]; decide
    rw [Device.OnTransferEventReceived, if_neg hcode, if_neg hnormal, h.stage]
    refine (if_neg hdata).trans ((if_pos hreports).trans ?_)
    rw [hdone, Transfer.completion, if_pos hbuf, hbuf]
  next hbuf =>
    obtain ⟨htype, hpointer, hlength⟩ := hreports
    have hnormal : (d.trbAt t.trb).type ≠ Trb.normalType := by rw [htype]; decide
    rw [Device.OnTransferEventReceived, if_neg hcode, if_neg hnormal, h.stage]
    refine (if_pos htype).trans ?_
    rw [hdone, htrb, hpointer, hlength, toInt_transferred, Transfer.completion, if_neg hbuf]

/-! ## Calls -/

theorem reportedAt_eq {tr : Ring} {n : Nat} (h : tr.At n) (ep_id : Nat) :
    reportedAt ep_id tr = slot ep_id (n + 1) := by
  rw [reportedAt, slot, h.slots, h.index, Nat.mod_add_mod]

theorem slot_ne {ep_id ep_id' m n : Nat} (h : ep_id' = ep_id → m % 31 ≠ n % 31) :
    slot ep_id' m ≠ slot ep_id n := fun heq =>
  h (congrArg TrbPtr.dci heq) (congrArg TrbPtr.index heq)

/-- A waiter is found, or there is room for one. -/
def Waits (d : Device Driver) (setup_data : SetupData) (issuer : Driver) : Prop :=
  d.event_waiters.get setup_data = some issuer ∨
    d.event_waiters.get setup_data = none ∧ none ∈ d.event_waiters

/-- There is room for the note of a setup stage, or there is an old one. -/
def Noted (d : Device Driver) (p : TrbPtr) : Prop :=
  none ∈ d.setup_stage_map ∨ ∃ q, d.setup_stage_map.get p = some q

/-- The call of a driver with a ring, and what was pushed to the ring before. -/
structure Called (d : Device Driver) (ep_id : Nat) (tr : Ring) (n : Nat) (st : Stages)
    (setup_data : SetupData) (buf : BitVec 64) (len : BitVec 32) : Prop where
  initialized : d.Initialized
  ring : d.transfer_rings ep_id = some tr
  index : tr.At n
  carries : Carries st setup_data buf len

namespace Called

variable {d : Device Driver} {ep_id n : Nat} {tr : Ring} {st : Stages} {setup_data : SetupData}
  {buf : BitVec 64} {len : BitVec 32}

theorem length_le (h : Called d ep_id tr n st setup_data buf len) : st.trbs.length ≤ 3 := by
  rw [h.carries.length]
  split <;> omega

/-- **The transfers before stand.** -/
theorem stands_old (h : Called d ep_id tr n st setup_data buf len) (issuer : Driver)
    {t : Transfer Driver} (ht : Stands d t) {ep_id' m : Nat} (htrb : t.trb = slot ep_id' (m + 1))
    (hm : ep_id' = ep_id → m + 2 ≤ n ∧ n ≤ m + 28) :
    Stands ((d.wait setup_data (some issuer)).pushStages ep_id tr st) t := by
  have hlen := h.length_le
  have hold : ∀ i < 2, ((d.wait setup_data (some issuer)).pushStages ep_id tr st).trbAt
      (slot ep_id' (m + i)) = d.trbAt (slot ep_id' (m + i)) := fun i hi =>
    Device.trbAt_pushStages_old (d := d.wait setup_data (some issuer)) h.index h.ring fun heq => by
      have := hm heq
      omega
  have hkey : slot ep_id' (m + 1) ≠ slot ep_id (n + 1) := slot_ne fun heq => by
    have := hm heq
    omega
  obtain ⟨hwaiter, hstage, hsetup, hreported⟩ := ht
  rw [htrb] at hstage hsetup hreported
  rw [before_slot] at hstage hsetup
  constructor
  · exact h.initialized.waiters.get_put hwaiter setup_data issuer
  · rw [htrb, Device.setup_stage_map_pushStages h.index, before_slot]
    exact (ArrayMap.get_put_of_ne hkey _ _).trans hstage
  · rw [htrb, before_slot]
    exact (congrArg Trb.setupData (hold 0 (by decide))).trans hsetup
  · rw [htrb, hold 1 (by decide)]
    exact hreported

/-- **The new transfer stands.** -/
theorem stands_new (h : Called d ep_id tr n st setup_data buf len) {issuer : Driver}
    (hwaits : Waits d setup_data issuer) (hnoted : Noted d (slot ep_id (n + 1))) (first : Nat) :
    Stands ((d.wait setup_data (some issuer)).pushStages ep_id tr st)
      ⟨issuer, setup_data, buf, len, slot ep_id (n + 1), first⟩ := by
  have hlen : st.trbs.length ≤ 31 := h.length_le.trans (by decide)
  obtain ⟨transfer_type, hsetup⟩ := h.carries.setup
  have hsetup0 : st.trbs[0]? = some st.setup := rfl
  have hreported1 : st.trbs[1]? = some st.reported := rfl
  obtain ⟨c, hc⟩ :=
    Device.trbAt_pushStages (d.wait setup_data (some issuer)) ep_id h.index hlen hsetup0
  obtain ⟨c', hc'⟩ :=
    Device.trbAt_pushStages (d.wait setup_data (some issuer)) ep_id h.index hlen hreported1
  rw [Nat.add_zero] at hc
  constructor
  · rcases hwaits with hold | ⟨hnew, hfree⟩
    · exact h.initialized.waiters.get_put hold setup_data issuer
    · exact ArrayMap.get_put_new hfree hnew issuer
  · rw [Device.setup_stage_map_pushStages h.index, before_slot]
    refine ArrayMap.get_put hnoted fun q hq => ?_
    rw [h.initialized.stage hq, before_slot]
  · rw [before_slot, hc, hsetup, Trb.setupData_make]
  · rw [hc']
    exact h.carries.reports c'

end Called

/-! ## Transfers in line -/

/-- The transfers of a ring, of which so many TRBs were pushed. -/
def Lined (n : Nat) : List (Transfer Driver) → Prop
  | [] => True
  | t :: ts => t.first + 2 ≤ n ∧ n ≤ t.first + 3 * (ts.length + 1) ∧
      (∀ t' ∈ ts, t.first + 2 ≤ t'.first) ∧ Lined n ts

namespace Lined

variable {n : Nat} {t : Transfer Driver} {ts : List (Transfer Driver)}

theorem bounds (h : Lined n ts) (ht : t ∈ ts) :
    t.first + 2 ≤ n ∧ n ≤ t.first + 3 * ts.length := by
  induction ts with
  | nil => cases ht
  | cons t' ts ih =>
      obtain ⟨hlo, hhi, -, hrest⟩ := h
      rw [List.length_cons]
      rcases List.mem_cons.mp ht with rfl | ht
      · exact ⟨hlo, hhi⟩
      · obtain ⟨hlo, hhi⟩ := ih hrest ht
        exact ⟨hlo, by omega⟩

theorem append (h : Lined n ts) {k : Nat} (hk : 2 ≤ k ∧ k ≤ 3) (ht : t.first = n) :
    Lined (n + k) (ts ++ [t]) := by
  induction ts with
  | nil => exact ⟨by omega, by rw [ht]; exact Nat.add_le_add_left hk.2 n, nofun, trivial⟩
  | cons t' ts ih =>
      obtain ⟨hlo, hhi, hfar, hrest⟩ := h
      have hlength : (ts ++ [t]).length = ts.length + 1 := List.length_append
      refine ⟨by omega, ?_, fun u hu => ?_, ih hrest⟩
      · exact hlength ▸ by omega
      · rcases List.mem_append.mp hu with hu | hu
        · exact hfar u hu
        · rw [List.mem_singleton.mp hu, ht]
          exact hlo

end Lined

theorem mem_update_append {α : Type} {f : Nat → List α} {a b : Nat} {x y : α} :
    y ∈ Function.update f a (f a ++ [x]) b ↔ y ∈ f b ∨ b = a ∧ y = x := by
  rw [Function.update_apply]
  split
  next heq => rw [heq, List.mem_append, List.mem_singleton, eq_self, true_and]
  next hne => rw [eq_false hne, false_and, or_false]

/-! ## Runs -/

namespace Pipes

/-- What drivers and the controller keep to: of an endpoint, whose address is not zero, less than
eight transfers are under way, with other setup data, and an event is of one of them. -/
def Admits (s : Pipes Driver) : Op Driver → Prop
  | .control _ ep_id setup_data _ _ _ =>
      0 < ep_id ∧ (s.outstanding ep_id).length < 8 ∧
        ∀ t ∈ s.outstanding ep_id, t.setup_data ≠ setup_data
  | .event ep_id _ _ => 0 < (s.outstanding ep_id).length

/-- A call whose transfer the maps can take. -/
def Fits (s : Pipes Driver) : Op Driver → Prop
  | .control _ ep_id setup_data _ _ issuer =>
      ep_id / 2 ≤ 15 → ∀ tr ∈ s.device.transfer_rings ep_id,
        Waits s.device setup_data issuer ∧ Noted s.device (reportedAt ep_id tr)
  | .event _ _ _ => True

/-- What holds along a run. -/
structure Inv (s : Pipes Driver) : Prop where
  initialized : s.device.Initialized
  index : ∀ {ep_id tr}, s.device.transfer_rings ep_id = some tr → tr.At (s.pushed ep_id)
  lined : ∀ ep_id, Lined (s.pushed ep_id) (s.outstanding ep_id)
  length_le : ∀ ep_id, (s.outstanding ep_id).length ≤ 8
  trb : ∀ ep_id, ∀ t ∈ s.outstanding ep_id, t.trb = slot ep_id (t.first + 1)
  stands : ∀ ep_id, ∀ t ∈ s.outstanding ep_id, Stands s.device t
  dispatched : s.dispatched = s.meant

theorem inv_start {device : Device Driver} (hd : device.Initialized) : Inv (start device) where
  initialized := hd
  index {ep_id tr} hring := by
    have hpushed : (start device).pushed ep_id = tr.writeIndex := by
      show (device.transfer_rings ep_id).elim 0 Ring.writeIndex = tr.writeIndex
      rw [show device.transfer_rings ep_id = some tr from hring]
      rfl
    rw [hpushed]
    exact hd.ring hring
  lined _ := trivial
  length_le _ := Nat.zero_le _
  trb _ _ h := nomatch h
  stands _ _ h := nomatch h
  dispatched := rfl

variable {s : Pipes Driver}

theorem call_done (s : Pipes Driver) {ep_id : Nat} {tr : Ring}
    (hring : s.device.transfer_rings ep_id = some tr) (setup_data : SetupData) (buf : BitVec 64)
    (len : BitVec 32) (issuer : Driver) (device : Device Driver) :
    s.call ep_id setup_data buf len issuer (device, none) =
      { s with
        device
        pushed := Function.update s.pushed ep_id (s.pushed ep_id + if buf = 0 then 2 else 3)
        outstanding := Function.update s.outstanding ep_id (s.outstanding ep_id ++
          [⟨issuer, setup_data, buf, len, reportedAt ep_id tr, s.pushed ep_id⟩]) } := by
  rw [Pipes.call, hring]

/-- A waiter more. -/
theorem Inv.wait (h : Inv s) (setup_data : SetupData) (issuer : Driver) :
    Inv { s with device := s.device.wait setup_data (some issuer) } where
  initialized := h.initialized.wait setup_data (some issuer)
  index := h.index
  lined := h.lined
  length_le := h.length_le
  trb := h.trb
  stands ep t ht :=
    have hold := h.stands ep t ht
    ⟨h.initialized.waiters.get_put hold.waiter setup_data issuer, hold.stage, hold.setup,
      hold.reported⟩
  dispatched := h.dispatched

/-- A transfer more. -/
theorem Inv.pushStages (h : Inv s) {ep_id : Nat} {tr : Ring} {st : Stages} {setup_data : SetupData}
    {buf : BitVec 64} {len : BitVec 32} {issuer : Driver}
    (hcalled : Called s.device ep_id tr (s.pushed ep_id) st setup_data buf len)
    (hlen : (s.outstanding ep_id).length < 8) (hwaits : Waits s.device setup_data issuer)
    (hnoted : Noted s.device (slot ep_id (s.pushed ep_id + 1))) :
    Inv { s with
      device := (s.device.wait setup_data (some issuer)).pushStages ep_id tr st
      pushed := Function.update s.pushed ep_id (s.pushed ep_id + st.trbs.length)
      outstanding := Function.update s.outstanding ep_id (s.outstanding ep_id ++
        [⟨issuer, setup_data, buf, len, slot ep_id (s.pushed ep_id + 1), s.pushed ep_id⟩]) } where
  initialized := (h.initialized.wait setup_data (some issuer)).pushStages hcalled.ring
  index {ep tr'} hr := by
    dsimp only at hr ⊢
    rw [Device.rings_pushStages, Function.update_apply] at hr
    rw [Function.update_apply]
    split at hr
    next heq =>
      obtain rfl : st.trbs.foldl Ring.push tr = tr' := Option.some.inj hr
      rw [if_pos heq]
      exact hcalled.index.foldl
    next hne =>
      rw [if_neg hne]
      exact h.index hr
  lined ep := by
    have hcount : 2 ≤ st.trbs.length ∧ st.trbs.length ≤ 3 :=
      ⟨Nat.le_add_left 2 st.rest.length, hcalled.length_le⟩
    dsimp only
    rw [Function.update_apply, Function.update_apply]
    split
    next => exact (h.lined ep_id).append hcount rfl
    next => exact h.lined ep
  length_le ep := by
    dsimp only
    rw [Function.update_apply]
    split
    next => exact List.length_append.trans_le hlen
    next => exact h.length_le ep
  trb ep t ht := by
    rcases mem_update_append.mp ht with hold | ⟨rfl, rfl⟩
    · exact h.trb ep t hold
    · rfl
  stands ep t ht := by
    rcases mem_update_append.mp ht with hold | ⟨rfl, rfl⟩
    · refine hcalled.stands_old issuer (h.stands ep t hold) (h.trb ep t hold) fun heq => ?_
      -- less than eight transfers, of no more than three TRBs each
      subst heq
      have hbounds := (h.lined ep).bounds hold
      omega
    · exact hcalled.stands_new hwaits hnoted _
  dispatched := h.dispatched

/-- **A call** keeps it. -/
theorem Inv.call (h : Inv s) {ep_id : Nat} {setup_data : SetupData} {buf : BitVec 64}
    {len : BitVec 32} {issuer : Driver} {st : Stages} (hc : Carries st setup_data buf len)
    (hlen : (s.outstanding ep_id).length < 8)
    (hfits : ep_id / 2 ≤ 15 → ∀ tr ∈ s.device.transfer_rings ep_id,
      Waits s.device setup_data issuer ∧ Noted s.device (reportedAt ep_id tr)) :
    Inv (s.call ep_id setup_data buf len issuer
      (s.device.control ep_id setup_data st (some issuer))) := by
  rcases s.device.control_cases ep_id setup_data st (some issuer) with
    ⟨err, heq⟩ | ⟨tr, hep, hring, heq⟩
  · rw [heq]
    exact h.wait setup_data issuer
  · obtain ⟨hwaits, hnoted⟩ := hfits hep tr hring
    have hcalled : Called s.device ep_id tr (s.pushed ep_id) st setup_data buf len :=
      ⟨h.initialized, hring, h.index hring, hc⟩
    rw [reportedAt_eq (h.index hring)] at hnoted
    rw [heq, call_done s hring, reportedAt_eq (h.index hring), ← hc.length]
    exact h.pushStages hcalled hlen hwaits hnoted

/-- The first transfer of a ring is done. -/
theorem Inv.drop (h : Inv s) {ep_id : Nat} {t : Transfer Driver} {rest : List (Transfer Driver)}
    (hnext : s.outstanding ep_id = t :: rest) :
    Inv { s with outstanding := Function.update s.outstanding ep_id rest } := by
  have hmem : ∀ {ep u}, u ∈ Function.update s.outstanding ep_id rest ep → u ∈ s.outstanding ep :=
    fun {ep u} hu => by
      rw [Function.update_apply] at hu
      split at hu
      next heq => exact heq ▸ hnext ▸ List.mem_cons_of_mem t hu
      next => exact hu
  have hlined := h.lined ep_id
  have hlength := h.length_le ep_id
  rw [hnext] at hlined hlength
  refine
    { initialized := h.initialized
      index := h.index
      lined := fun ep => ?_
      length_le := fun ep => ?_
      trb := fun ep u hu => h.trb ep u (hmem hu)
      stands := fun ep u hu => h.stands ep u (hmem hu)
      dispatched := h.dispatched }
  · dsimp only
    rw [Function.update_apply]
    split
    next heq => exact heq ▸ hlined.2.2.2
    next => exact h.lined ep
  · dsimp only
    rw [Function.update_apply]
    split
    next => exact (Nat.le_succ rest.length).trans hlength
    next => exact h.length_le ep

/-- The others are reported at other TRBs. -/
theorem Inv.trb_ne (h : Inv s) {ep_id ep : Nat} {t u : Transfer Driver}
    {rest : List (Transfer Driver)} (hnext : s.outstanding ep_id = t :: rest)
    (hu : u ∈ Function.update s.outstanding ep_id rest ep) : u.trb ≠ t.trb := by
  have ht : t ∈ s.outstanding ep_id := hnext ▸ List.mem_cons_self
  have hlined := h.lined ep_id
  have hlength := h.length_le ep_id
  rw [hnext] at hlined hlength
  rw [(h.drop hnext).trb ep u hu, h.trb ep_id t ht]
  refine slot_ne fun heq => ?_
  subst heq
  rw [Function.update_self] at hu
  have hfar := hlined.2.2.1 u hu
  have hbounds := hlined.bounds (List.mem_cons_of_mem t hu)
  have hfirst := hlined.bounds List.mem_cons_self
  omega

/-- **An event** keeps it. -/
theorem Inv.report (h : Inv s) {ep_id : Nat} {t : Transfer Driver} {rest : List (Transfer Driver)}
    (hnext : s.outstanding ep_id = t :: rest) (completion_code : BitVec 8)
    (residual_length : BitVec 24) :
    Inv (s.report ep_id completion_code residual_length t rest) := by
  have ht : t ∈ s.outstanding ep_id := hnext ▸ List.mem_cons_self
  have hdrop := h.drop hnext
  rw [Pipes.report]
  cases hok : succeeds completion_code with
  | false =>
      rw [failed hok]
      exact { hdrop with dispatched := congrArg (· ++ []) h.dispatched }
  | true =>
      rw [(h.stands ep_id t ht).completed hok]
      exact { hdrop with
        initialized := h.initialized.delete t.trb
        stands := fun ep u hu =>
          have hold := hdrop.stands ep u hu
          have hstage := ArrayMap.get_delete_of_ne (h.trb_ne hnext hu) s.device.setup_stage_map
          ⟨hold.waiter, hstage.trans hold.stage, hold.setup, hold.reported⟩
        dispatched := congrArg (· ++ [t.completion ep_id residual_length]) h.dispatched }

theorem Inv.step (h : Inv s) {op : Op Driver} (hadmits : s.Admits op) (hfits : s.Fits op) :
    Inv (s.step op) := by
  cases op with
  | control dir_in ep_id setup_data buf len issuer =>
      cases dir_in with
      | true => exact h.call (carries_in setup_data buf len) hadmits.2.1 hfits
      | false => exact h.call (carries_out setup_data buf len) hadmits.2.1 hfits
  | event ep_id completion_code residual_length =>
      rw [Pipes.step]
      split
      next => exact h
      next t rest hnext => exact h.report hnext completion_code residual_length

instance decAdmits (s : Pipes Driver) : ∀ op, Decidable (s.Admits op)
  | .control _ _ _ _ _ _ => inferInstanceAs (Decidable (_ ∧ _ ∧ _))
  | .event _ _ _ => inferInstanceAs (Decidable (_ < _))

end Pipes

open Pipes

/-- **Completions to their issuers.**  While every call fits, what is dispatched is what is meant,
whatever was made or failed before. -/
theorem dispatched_eq_meant {device : Device Driver} (hd : device.Initialized)
    {ops : List (Op Driver)}
    (h : Guarded step (fun s op => s.Admits op ∧ s.Fits op) (start device) ops) :
    (run step (start device) ops).dispatched = (run step (start device) ops).meant :=
  (inv_run Inv (fun _ _ hs hop => hs.step hop.1 hop.2) (inv_start hd) h).dispatched

/-- A device with the default control pipe. -/
def defaultPipe : Device Bool := .allocated fun ep_id => if ep_id = 1 then some 0x1000 else none

/-- A request without data, and its completion. -/
def request (value : BitVec 16) : List (Op Bool) :=
  [.control false 1 ⟨0x21, 0x0a, value, 0, 0⟩ 0 0 true, .event 1 1 0]

/-- The first request is completed. -/
theorem dispatched_eq_meant_request :
    (run step (start defaultPipe) (request 0)).dispatched =
      (run step (start defaultPipe) (request 0)).meant :=
  dispatched_eq_meant (Device.initialized_allocated _) (by
    refine ⟨⟨by decide, fun _ tr htr => ?_⟩, ⟨by decide, trivial⟩, trivial⟩
    exact ⟨.inr ⟨by decide, by decide⟩, .inl (by decide)⟩)

/-- The waiters of four requests leave no room: the fifth is completed to nobody. -/
theorem fifth_request_lost :
    Guarded step Admits (start defaultPipe) ([0, 1, 2, 3, 4].flatMap request) ∧
      (run step (start defaultPipe) ([0, 1, 2, 3, 4].flatMap request)).dispatched ≠
        (run step (start defaultPipe) ([0, 1, 2, 3, 4].flatMap request)).meant := by
  decide +kernel

end Laplus.Xhci.Control
