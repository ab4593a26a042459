/-
# `Laplus.Xhci.Stage` — the TRBs of a control transfer (`xhci/trb.hpp`, `xhci/device.cpp`)

A control transfer is a setup stage TRB, a data stage TRB if there is a buffer, and a status
stage TRB.  The setup data and the pointer of the buffer are read back from them as they were
written; of the length there are 17 bits.
-/
import Laplus.Xhci.Ring

namespace Laplus.Xhci

/-- `SetupData`. -/
structure SetupData where
  request_type : BitVec 8
  request : BitVec 8
  value : BitVec 16
  index : BitVec 16
  length : BitVec 16
deriving DecidableEq

namespace Trb

/-- `NormalTRB::Type`, and those of the stages. -/
def normalType : BitVec 6 := 1

def setupStageType : BitVec 6 := 2

def dataStageType : BitVec 6 := 3

def statusStageType : BitVec 6 := 4

/-- `transfer_type` of a setup stage TRB. -/
def kNoDataStage : BitVec 2 := 0

def kOutDataStage : BitVec 2 := 2

def kInDataStage : BitVec 2 := 3

/-- The bit of `interrupt_on_completion`. -/
def interruptBit (interrupt_on_completion : Bool) : BitVec 32 :=
  if interrupt_on_completion then 1#32 <<< 5 else 0

/-- The bit of `direction`. -/
def directionBit (direction : Bool) : BitVec 32 := if direction then 1#32 <<< 16 else 0

/-- `MakeSetupStageTRB`. -/
def makeSetupStage (setup_data : SetupData) (transfer_type : BitVec 2) : Trb
  | 0 => setup_data.value ++ (setup_data.request ++ setup_data.request_type)
  | 1 => setup_data.length ++ setup_data.index
  | 2 => 8
  | 3 => transfer_type.setWidth 32 <<< 16 ||| setupStageType.setWidth 32 <<< 10 ||| 1#32 <<< 6

/-- `MakeDataStageTRB`, and its `interrupt_on_completion`. -/
def makeDataStage (buf : BitVec 64) (len : BitVec 32) (dir_in interrupt_on_completion : Bool) : Trb
  | 0 => buf.extractLsb' 0 32
  | 1 => buf.extractLsb' 32 32
  | 2 => (len.setWidth 17).setWidth 32
  | 3 => directionBit dir_in ||| dataStageType.setWidth 32 <<< 10 |||
      interruptBit interrupt_on_completion

/-- `StatusStageTRB`. -/
def statusStage (direction interrupt_on_completion : Bool) : Trb
  | 3 => directionBit direction ||| statusStageType.setWidth 32 <<< 10 |||
      interruptBit interrupt_on_completion
  | _ => 0

/-! ## What is read -/

/-- The setup data of a setup stage TRB. -/
def setupData (t : Trb) : SetupData where
  request_type := (t 0).extractLsb' 0 8
  request := (t 0).extractLsb' 8 8
  value := (t 0).extractLsb' 16 16
  index := (t 1).extractLsb' 0 16
  length := (t 1).extractLsb' 16 16

/-- `DataStageTRB::Pointer`. -/
def dataPointer (t : Trb) : BitVec 64 := t 1 ++ t 0

/-- `trb_transfer_length`. -/
def transferLength (t : Trb) : BitVec 17 := (t 2).extractLsb' 0 17

variable (setup_data : SetupData) (transfer_type : BitVec 2) (buf : BitVec 64) (len : BitVec 32)
  (dir_in ioc c : Bool)

/-- Bits in their place. -/
theorem getLsbD_extract {n k m : Nat} {x : BitVec n} {y : BitVec m}
    (h : ∀ i < m, x.getLsbD (k + i) = y.getLsbD i) : x.extractLsb' k m = y := by
  refine BitVec.eq_of_getLsbD_eq fun i hi => ?_
  rw [BitVec.getLsbD_extractLsb', h i hi, decide_eq_true hi, Bool.true_and]

/-- **The setup data** is read back. -/
theorem setupData_make :
    ((makeSetupStage setup_data transfer_type).withCycle c).setupData = setup_data := by
  obtain ⟨request_type, request, value, index, length⟩ := setup_data
  have h0 : ∀ tt, makeSetupStage ⟨request_type, request, value, index, length⟩ tt 0 =
      value ++ (request ++ request_type) := fun _ => rfl
  have h1 : ∀ tt, makeSetupStage ⟨request_type, request, value, index, length⟩ tt 1 =
      length ++ index := fun _ => rfl
  simp only [setupData, withCycle_word _ _ (show (0 : Fin 4) ≠ 3 by decide),
    withCycle_word _ _ (show (1 : Fin 4) ≠ 3 by decide), h0, h1, SetupData.mk.injEq]
  refine ⟨getLsbD_extract fun i hi => ?_, getLsbD_extract fun i hi => ?_,
    getLsbD_extract fun i hi => ?_, getLsbD_extract fun i hi => ?_, getLsbD_extract fun i hi => ?_⟩
  · rw [BitVec.getLsbD_append, if_pos (by omega), BitVec.getLsbD_append, if_pos (by omega),
      Nat.zero_add]
  · rw [BitVec.getLsbD_append, if_pos (by omega), BitVec.getLsbD_append, if_neg (by omega),
      Nat.add_sub_cancel_left]
  · rw [BitVec.getLsbD_append, if_neg (by omega), Nat.add_sub_cancel_left]
  · rw [BitVec.getLsbD_append, if_pos (by omega), Nat.zero_add]
  · rw [BitVec.getLsbD_append, if_neg (by omega), Nat.add_sub_cancel_left]

theorem type_makeSetupStage : (makeSetupStage setup_data transfer_type).type = setupStageType := by
  have hword : ∀ tt : BitVec 2, (tt.setWidth 32 <<< 16 ||| setupStageType.setWidth 32 <<< 10 |||
      1#32 <<< 6).extractLsb' 10 6 = setupStageType := by decide
  exact hword transfer_type

theorem type_makeDataStage : (makeDataStage buf len dir_in ioc).type = dataStageType := by
  have hword : ∀ dir ioc, (directionBit dir ||| dataStageType.setWidth 32 <<< 10 |||
      interruptBit ioc).extractLsb' 10 6 = dataStageType := by decide
  exact hword dir_in ioc

theorem type_statusStage : (statusStage dir_in ioc).type = statusStageType := by
  have hword : ∀ dir ioc, (directionBit dir ||| statusStageType.setWidth 32 <<< 10 |||
      interruptBit ioc).extractLsb' 10 6 = statusStageType := by decide
  exact hword dir_in ioc

/-- **The pointer** is read back. -/
theorem dataPointer_make : ((makeDataStage buf len dir_in ioc).withCycle c).dataPointer = buf := by
  rw [dataPointer, withCycle_word _ _ (by decide), withCycle_word _ _ (by decide)]
  refine BitVec.eq_of_getLsbD_eq fun i hi => ?_
  rw [makeDataStage, makeDataStage, BitVec.getLsbD_append]
  split
  next h => rw [BitVec.getLsbD_extractLsb', decide_eq_true h, Bool.true_and, Nat.zero_add]
  next h =>
    rw [BitVec.getLsbD_extractLsb', decide_eq_true (by omega), Bool.true_and,
      Nat.add_sub_cancel' (by omega)]

theorem transferLength_make :
    ((makeDataStage buf len dir_in ioc).withCycle c).transferLength = len.setWidth 17 := by
  rw [transferLength, withCycle_word _ _ (by decide)]
  refine getLsbD_extract fun i hi => ?_
  rw [makeDataStage, BitVec.getLsbD_setWidth, Nat.zero_add, decide_eq_true (by omega), Bool.true_and]

end Trb

end Laplus.Xhci
