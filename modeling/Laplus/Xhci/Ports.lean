/-
# `Laplus.Xhci.Ports` — root-port configuration (`xhci.cpp`, `devmgr.cpp`)

`port_config_phase` and the lock `addressing_port`, under `ConfigurePort` and the handlers of the
port-status, command-completion and transfer events.  What a handler reads of the controller
(`PORTSC`, the device context, the class driver's answer) is part of the event; `connected` alone
is kept, since `ResetPort` asks for it at ports that the event does not name.

`Exclusive` ties the phases to the lock.  The handler of an addressed device lets the lock go, takes
it for another port and moves the first port on, in that order; `Exclusive.handOver` reads it as a
release followed by a reset.
-/
import Laplus.Lib.Run
import Mathlib.Logic.Function.Basic

namespace Laplus.Xhci

open Lib

/-! ## Phases -/

/-- `ConfigPhase`. -/
inductive ConfigPhase where
  | notConnected
  | waitingAddressed
  | resettingPort
  | enablingSlot
  | addressingDevice
  | initializingDevice
  | configuringEndpoints
  | configured
deriving DecidableEq

/-- From the reset to the address, the part that ports go through one at a time. -/
def ConfigPhase.IsAddressing (ph : ConfigPhase) : Prop :=
  ph = .resettingPort ∨ ph = .enablingSlot ∨ ph = .addressingDevice

instance (ph : ConfigPhase) : Decidable ph.IsAddressing :=
  inferInstanceAs (Decidable (_ ∨ _))

/-- `Error`, as far as the handlers return it; `driver` is any error of a class driver. -/
inductive Error where
  | success
  | invalidSlotID
  | alreadyAllocated
  | invalidPhase
  | unknownXHCISpeedID
  | driver (code : Nat)
deriving DecidableEq

/-- The command that a completion event points to. -/
inductive Issuer where
  | enableSlot
  | addressDevice
  | configureEndpoint
  | other

/-- `kDeviceSize`. -/
def kDeviceSize : UInt8 := 8

/-- `kSuperSpeedPlus`. -/
def kSuperSpeedPlus : Nat := 5

/-- The ports of the controller; `devices slot` says that `devices_[slot]` is set. -/
structure Ports where
  phase : UInt8 → ConfigPhase
  addressingPort : UInt8
  devices : UInt8 → Bool
  connected : UInt8 → Bool

namespace Ports

/-- `port_config_phase[port] = ph`. -/
def setPhase (s : Ports) (port : UInt8) (ph : ConfigPhase) : Ports :=
  { s with phase := Function.update s.phase port ph }

/-- `DeviceManager::FindBySlot`. -/
def findBySlot (s : Ports) (slot : UInt8) : Bool := slot ≤ kDeviceSize && s.devices slot

/-- `DeviceManager::AllocDevice`. -/
def allocDevice (s : Ports) (slot : UInt8) : Ports × Error :=
  if kDeviceSize < slot then (s, .invalidSlotID)
  else if s.devices slot then (s, .alreadyAllocated)
  else ({ s with devices := Function.update s.devices slot true }, .success)

/-- `ResetPort`. -/
def resetPort (s : Ports) (port : UInt8) : Ports × Error :=
  if !s.connected port then (s, .success)
  else if s.addressingPort ≠ 0 then (s.setPhase port .waitingAddressed, .success)
  else if s.phase port ≠ .notConnected ∧ s.phase port ≠ .waitingAddressed then (s, .invalidPhase)
  else ({ s.setPhase port .resettingPort with addressingPort := port }, .success)

/-- `EnableSlot`. -/
def enableSlot (s : Ports) (port : UInt8) (isEnabled resetCompleted : Bool) : Ports × Error :=
  if isEnabled && resetCompleted then (s.setPhase port .enablingSlot, .success) else (s, .success)

/-- `AddressDevice`. -/
def addressDevice (s : Ports) (port slot : UInt8) : Ports × Error :=
  let s := (s.allocDevice slot).1
  if !s.findBySlot slot then (s, .invalidSlotID)
  else (s.setPhase port .addressingDevice, .success)

/-- `InitializeDevice`. -/
def initializeDevice (s : Ports) (port slot : UInt8) : Ports × Error :=
  if !s.findBySlot slot then (s, .invalidSlotID)
  else (s.setPhase port .initializingDevice, .success)

/-- `ConfigureEndpoints`. -/
def configureEndpoints (s : Ports) (port : UInt8) (speed : Nat) : Ports × Error :=
  if speed = 0 ∨ kSuperSpeedPlus < speed then (s, .unknownXHCISpeedID)
  else (s.setPhase port .configuringEndpoints, .success)

/-- `CompleteConfiguration`. -/
def completeConfiguration (s : Ports) (port slot : UInt8) : Ports × Error :=
  if !s.findBySlot slot then (s, .invalidSlotID)
  else (s.setPhase port .configured, .success)

/-- `ConfigurePort`. -/
def configurePort (s : Ports) (port : UInt8) : Ports × Error :=
  if s.phase port = .notConnected then s.resetPort port else (s, .success)

/-- The first waiting port, if there is one. -/
def firstWaiting (s : Ports) : Option UInt8 :=
  ((List.range 256).map UInt8.ofNat).find? fun port => s.phase port = .waitingAddressed

/-- The loop of the completion handler, which hands the lock over. -/
def resetWaiting (s : Ports) : Ports × Error :=
  match s.firstWaiting with
  | none => (s, .success)
  | some port => s.resetPort port

/-- `OnEvent(PortStatusChangeEventTRB)`. -/
def onPortStatusChange (s : Ports) (port : UInt8) (isEnabled resetCompleted : Bool) :
    Ports × Error :=
  match s.phase port with
  | .notConnected => s.resetPort port
  | .resettingPort => s.enableSlot port isEnabled resetCompleted
  | _ => (s, .invalidPhase)

/-- `OnEvent(TransferEventTRB)`; `received` is the answer of `OnTransferEventReceived`. -/
def onTransfer (s : Ports) (slot : UInt8) (received : Error) (initialized : Bool) (port : UInt8)
    (speed : Nat) : Ports × Error :=
  if !s.findBySlot slot then (s, .invalidSlotID)
  else if received ≠ .success then (s, received)
  else if initialized = true ∧ s.phase port = .initializingDevice then
    s.configureEndpoints port speed
  else (s, .success)

/-- The completion of an address-device command. -/
def onDeviceAddressed (s : Ports) (slot port : UInt8) : Ports × Error :=
  if !s.findBySlot slot then (s, .invalidSlotID)
  else if port ≠ s.addressingPort then (s, .invalidPhase)
  else if s.phase port ≠ .addressingDevice then (s, .invalidPhase)
  else
    match resetWaiting { s with addressingPort := 0 } with
    | (s, .success) => s.initializeDevice port slot
    | (s, err) => (s, err)

/-- `OnEvent(CommandCompletionEventTRB)`; `port` is the `root_hub_port_num` of the device. -/
def onCommandCompletion (s : Ports) (slot port : UInt8) : Issuer → Ports × Error
  | .enableSlot =>
      if s.phase s.addressingPort ≠ .enablingSlot then (s, .invalidPhase)
      else s.addressDevice s.addressingPort slot
  | .addressDevice => s.onDeviceAddressed slot port
  | .configureEndpoint =>
      if !s.findBySlot slot then (s, .invalidSlotID)
      else if s.phase port ≠ .configuringEndpoints then (s, .invalidPhase)
      else s.completeConfiguration port slot
  | .other => (s, .invalidPhase)

/-- The ports when the controller starts. -/
def start (connected : UInt8 → Bool) : Ports where
  phase _ := .notConnected
  addressingPort := 0
  devices _ := false
  connected

end Ports

/-- What happens to the ports. -/
inductive PortEvent where
  | connect (port : UInt8)
  | disconnect (port : UInt8)
  | configure (port : UInt8)
  | portStatus (port : UInt8) (isEnabled resetCompleted : Bool)
  | commandCompletion (slot port : UInt8) (issuer : Issuer)
  | transfer (slot : UInt8) (received : Error) (initialized : Bool) (port : UInt8) (speed : Nat)

/-- The root port of the event, numbered from 1, is one of the controller's. -/
def PortEvent.Admits (maxPorts : UInt8) : PortEvent → Prop
  | connect port | disconnect port | configure port | portStatus port _ _ =>
      0 < port ∧ port ≤ maxPorts
  | commandCompletion _ _ _ | transfer _ _ _ _ _ => True

instance (maxPorts : UInt8) : (e : PortEvent) → Decidable (e.Admits maxPorts)
  | .connect _ | .disconnect _ | .configure _ | .portStatus _ _ _ =>
      inferInstanceAs (Decidable (_ ∧ _))
  | .commandCompletion _ _ _ | .transfer _ _ _ _ _ => inferInstanceAs (Decidable True)

namespace Ports

/-- One event. -/
def step (s : Ports) : PortEvent → Ports
  | .connect port => { s with connected := Function.update s.connected port true }
  | .disconnect port => { s with connected := Function.update s.connected port false }
  | .configure port => (s.configurePort port).1
  | .portStatus port isEnabled resetCompleted =>
      (s.onPortStatusChange port isEnabled resetCompleted).1
  | .commandCompletion slot port issuer => (s.onCommandCompletion slot port issuer).1
  | .transfer slot received initialized port speed =>
      (s.onTransfer slot received initialized port speed).1

/-! ## The lock -/

/-- The phases and the lock agree; there is no port 0. -/
structure Exclusive (s : Ports) : Prop where
  owner : ∀ port, (s.phase port).IsAddressing → port = s.addressingPort
  held : s.addressingPort ≠ 0 → (s.phase s.addressingPort).IsAddressing
  zero : s.phase 0 = .notConnected

variable {s : Ports} {port slot : UInt8} {ph : ConfigPhase}

@[simp] theorem phase_setPhase (q : UInt8) :
    (s.setPhase port ph).phase q = if q = port then ph else s.phase q :=
  Function.update_apply s.phase port ph q

@[simp] theorem addressingPort_setPhase :
    (s.setPhase port ph).addressingPort = s.addressingPort := rfl

/-- `AllocDevice` leaves the phases and the lock. -/
theorem allocDevice_eq (s : Ports) (slot : UInt8) :
    ∃ devices, (s.allocDevice slot).1 = { s with devices } := by
  unfold allocDevice
  split
  · exact ⟨s.devices, rfl⟩
  split
  · exact ⟨s.devices, rfl⟩
  · exact ⟨_, rfl⟩

theorem firstWaiting_phase (h : s.firstWaiting = some port) : s.phase port = .waitingAddressed := by
  simpa using List.find?_some h

theorem exclusive_start (connected : UInt8 → Bool) : Exclusive (start connected) where
  owner port h := by cases h <;> simp_all [start]
  held h := absurd rfl h
  zero := rfl

namespace Exclusive

theorem ne_zero (h : Exclusive s) (hph : s.phase port ≠ .notConnected) : port ≠ 0 := by
  rintro rfl
  exact hph h.zero

/-- At most one port is between its reset and its address. -/
theorem unique (h : Exclusive s) {p q : UInt8} (hp : (s.phase p).IsAddressing)
    (hq : (s.phase q).IsAddressing) : p = q :=
  (h.owner p hp).trans (h.owner q hq).symm

/-- A port without the lock moves outside the exclusive part. -/
theorem setIdle (h : Exclusive s) (hport : port ≠ 0) (hne : port ≠ s.addressingPort)
    (hph : ¬ ph.IsAddressing) : Exclusive (s.setPhase port ph) where
  owner q hq := by
    rw [phase_setPhase] at hq
    split at hq
    · exact absurd hq hph
    · exact h.owner q hq
  held ha := by
    show (Function.update s.phase port ph s.addressingPort).IsAddressing
    rw [Function.update_of_ne hne.symm]
    exact h.held ha
  zero := by
    rw [phase_setPhase, if_neg hport.symm]
    exact h.zero

/-- The port with the lock moves inside the exclusive part. -/
theorem setOwn (h : Exclusive s) (ha : s.addressingPort ≠ 0) (hph : ph.IsAddressing) :
    Exclusive (s.setPhase s.addressingPort ph) where
  owner q hq := by
    rw [phase_setPhase] at hq
    split at hq
    · assumption
    · exact h.owner q hq
  held _ := by
    show (Function.update s.phase s.addressingPort ph s.addressingPort).IsAddressing
    rw [Function.update_self]
    exact hph
  zero := by
    rw [phase_setPhase, if_neg ha.symm]
    exact h.zero

/-- The port with the lock leaves the exclusive part and lets the lock go. -/
theorem release (h : Exclusive s) (ha : s.addressingPort ≠ 0) (hph : ¬ ph.IsAddressing) :
    Exclusive { s.setPhase s.addressingPort ph with addressingPort := 0 } where
  owner q hq := by
    replace hq : ((s.setPhase s.addressingPort ph).phase q).IsAddressing := hq
    rw [phase_setPhase] at hq
    split at hq
    · exact absurd hq hph
    · exact absurd (h.owner q hq) (by assumption)
  held hne := absurd rfl hne
  zero := by
    show (s.setPhase s.addressingPort ph).phase 0 = _
    rw [phase_setPhase, if_neg ha.symm]
    exact h.zero

/-- A port takes the free lock. -/
theorem take (h : Exclusive s) (ha : s.addressingPort = 0) (hport : port ≠ 0) :
    Exclusive { s.setPhase port .resettingPort with addressingPort := port } where
  owner q hq := by
    replace hq : ((s.setPhase port .resettingPort).phase q).IsAddressing := hq
    rw [phase_setPhase] at hq
    split at hq
    · assumption
    · -- a port in the exclusive part would be port 0
      have hq0 : q = 0 := (h.owner q hq).trans ha
      rw [hq0, h.zero] at hq
      exact absurd hq (by decide)
  held _ := by
    show (Function.update s.phase port .resettingPort port).IsAddressing
    rw [Function.update_self]
    exact .inl rfl
  zero := by
    show (s.setPhase port .resettingPort).phase 0 = _
    rw [phase_setPhase, if_neg hport.symm]
    exact h.zero

theorem resetPort (h : Exclusive s) (hport : port ≠ 0) (hidle : ¬ (s.phase port).IsAddressing) :
    Exclusive (s.resetPort port).1 := by
  unfold Ports.resetPort
  split
  · exact h
  split
  · rename_i ha
    refine h.setIdle hport (fun heq => hidle ?_) (by decide)
    rw [heq]
    exact h.held ha
  split
  · exact h
  · rename_i ha _
    exact h.take (not_not.mp ha) hport

theorem enableSlot (h : Exclusive s) (hph : s.phase port = .resettingPort)
    (isEnabled resetCompleted : Bool) :
    Exclusive (s.enableSlot port isEnabled resetCompleted).1 := by
  have hport : port = s.addressingPort := h.owner port (.inl hph)
  unfold Ports.enableSlot
  split
  · rw [hport]
    refine h.setOwn ?_ (.inr (.inl rfl))
    rw [← hport]
    exact h.ne_zero (by simp [hph])
  · exact h

theorem addressDevice (h : Exclusive s) (hph : s.phase s.addressingPort = .enablingSlot)
    (slot : UInt8) : Exclusive (s.addressDevice s.addressingPort slot).1 := by
  obtain ⟨devices, heq⟩ := allocDevice_eq s slot
  have hs : Exclusive { s with devices } := ⟨h.owner, h.held, h.zero⟩
  unfold Ports.addressDevice
  rw [heq]
  dsimp only
  split
  · exact hs
  · exact hs.setOwn (h.ne_zero (by simp [hph])) (.inr (.inr rfl))

/-- A port without the lock moves outside the exclusive part, from a phase outside it. -/
theorem move (h : Exclusive s) {from' : ConfigPhase} (hfrom : s.phase port = from')
    (hfrom₁ : ¬ from'.IsAddressing) (hfrom₂ : from' ≠ .notConnected) (hph : ¬ ph.IsAddressing) :
    Exclusive (s.setPhase port ph) := by
  subst hfrom
  have hport := h.ne_zero hfrom₂
  refine h.setIdle hport (fun heq => hfrom₁ ?_) hph
  rw [heq]
  exact h.held (heq ▸ hport)

end Exclusive

/-! ## The hand-over -/

/-- The addressed port has moved on and the lock is free. -/
def released (s : Ports) : Ports :=
  { s.setPhase s.addressingPort .initializingDevice with addressingPort := 0 }

/-- The lock is taken. -/
def taken (s : Ports) (port : UInt8) : Ports :=
  { s.setPhase port .resettingPort with addressingPort := port }

/-- The reset of a waiting port, when the lock is free. -/
theorem resetPort_waiting (ha : s.addressingPort = 0) (hwait : s.phase port = .waitingAddressed) :
    s.resetPort port = (if s.connected port then s.taken port else s, .success) := by
  unfold resetPort
  cases hc : s.connected port with
  | false => rfl
  | true => simp [ha, hwait, taken]

theorem onDeviceAddressed_of (s' : Ports) (hslot : s.findBySlot slot = true)
    (hph : s.phase s.addressingPort = .addressingDevice)
    (hreset : resetWaiting { s with addressingPort := 0 } = (s', .success))
    (hdevices : s'.devices = s.devices) :
    (s.onDeviceAddressed slot s.addressingPort).1 =
      s'.setPhase s.addressingPort .initializingDevice := by
  have hslot' : s'.findBySlot slot = true := by
    rw [findBySlot, hdevices]
    exact hslot
  simp [onDeviceAddressed, hslot, hph, hreset, initializeDevice, hslot']

/-- The release and the reset, in the order in which they do not disturb each other. -/
theorem onDeviceAddressed_eq (hslot : s.findBySlot slot = true)
    (hph : s.phase s.addressingPort = .addressingDevice) :
    (s.onDeviceAddressed slot s.addressingPort).1 =
      match s.firstWaiting with
      | some port => if s.connected port then s.released.taken port else s.released
      | none => s.released := by
  have hfirst : firstWaiting { s with addressingPort := 0 } = s.firstWaiting := rfl
  cases hw : s.firstWaiting with
  | none =>
      refine onDeviceAddressed_of { s with addressingPort := 0 } hslot hph ?_ rfl
      rw [resetWaiting, hfirst, hw]
  | some port =>
      have hwait : s.phase port = .waitingAddressed := firstWaiting_phase hw
      have hne : port ≠ s.addressingPort := by
        intro heq
        rw [← heq, hwait] at hph
        cases hph
      have hreset : resetWaiting { s with addressingPort := 0 } =
          (if s.connected port then taken { s with addressingPort := 0 } port
            else { s with addressingPort := 0 }, .success) := by
        rw [resetWaiting, hfirst, hw]
        exact resetPort_waiting rfl hwait
      cases hc : s.connected port with
      | false =>
          rw [if_neg (by simp [hc])] at hreset
          rw [onDeviceAddressed_of _ hslot hph hreset rfl]
          simp [hc, released, setPhase]
      | true =>
          rw [if_pos hc] at hreset
          rw [onDeviceAddressed_of _ hslot hph hreset rfl]
          simp [hc, taken, released, setPhase, Function.update_comm hne]

/-- Only the completion for the addressed port does anything. -/
theorem onDeviceAddressed_cases (s : Ports) (slot port : UInt8) :
    (s.onDeviceAddressed slot port).1 = s ∨
      s.findBySlot slot = true ∧ port = s.addressingPort ∧
        s.phase s.addressingPort = .addressingDevice := by
  by_cases hslot : s.findBySlot slot = true
  · by_cases hport : port = s.addressingPort
    · subst hport
      by_cases hph : s.phase s.addressingPort = .addressingDevice
      · exact .inr ⟨hslot, rfl, hph⟩
      · exact .inl (by simp [onDeviceAddressed, hslot, hph])
    · exact .inl (by simp [onDeviceAddressed, hslot, hport])
  · exact .inl (by simp [onDeviceAddressed, hslot])

/-! ## Every event -/

namespace Exclusive

theorem configurePort (h : Exclusive s) (hport : port ≠ 0) :
    Exclusive (s.configurePort port).1 := by
  unfold Ports.configurePort
  split
  · rename_i hph
    exact h.resetPort hport (by rw [hph]; decide)
  · exact h

theorem onPortStatusChange (h : Exclusive s) (hport : port ≠ 0) (isEnabled resetCompleted : Bool) :
    Exclusive (s.onPortStatusChange port isEnabled resetCompleted).1 := by
  unfold Ports.onPortStatusChange
  split
  · rename_i hph
    exact h.resetPort hport (by rw [hph]; decide)
  · rename_i hph
    exact h.enableSlot hph isEnabled resetCompleted
  · exact h

theorem onDeviceAddressed (h : Exclusive s) (slot port : UInt8) :
    Exclusive (s.onDeviceAddressed slot port).1 := by
  rcases onDeviceAddressed_cases s slot port with heq | ⟨hslot, rfl, hph⟩
  · rw [heq]
    exact h
  · have hfree : Exclusive s.released := h.release (h.ne_zero (by simp [hph])) (by decide)
    rw [onDeviceAddressed_eq hslot hph]
    split
    · rename_i port hfirst
      split
      · exact hfree.take rfl (h.ne_zero (by simp [firstWaiting_phase hfirst]))
      · exact hfree
    · exact hfree

theorem onCommandCompletion (h : Exclusive s) (slot port : UInt8) (issuer : Issuer) :
    Exclusive (s.onCommandCompletion slot port issuer).1 := by
  cases issuer with
  | enableSlot =>
      simp only [Ports.onCommandCompletion]
      split
      · exact h
      · rename_i hph
        exact h.addressDevice (not_not.mp hph) slot
  | addressDevice => exact h.onDeviceAddressed slot port
  | configureEndpoint =>
      simp only [Ports.onCommandCompletion, completeConfiguration]
      split
      · exact h
      split
      · exact h
      · rename_i hph
        exact h.move (not_not.mp hph) (by decide) (by decide) (by decide)
  | other => exact h

theorem onTransfer (h : Exclusive s) (slot : UInt8) (received : Error) (initialized : Bool)
    (port : UInt8) (speed : Nat) :
    Exclusive (s.onTransfer slot received initialized port speed).1 := by
  unfold Ports.onTransfer configureEndpoints
  split
  · exact h
  split
  · exact h
  split
  · rename_i hinit
    split
    · exact h
    · exact h.move hinit.2 (by decide) (by decide) (by decide)
  · exact h

/-- **Step.**  Every event keeps the phases and the lock together. -/
theorem step (h : Exclusive s) {maxPorts : UInt8} {e : PortEvent} (he : e.Admits maxPorts) :
    Exclusive (s.step e) := by
  have hne : ∀ {port : UInt8}, 0 < port ∧ port ≤ maxPorts → port ≠ 0 :=
    fun hport heq => absurd hport.1 (by simp [heq])
  cases e with
  | connect port => exact ⟨h.owner, h.held, h.zero⟩
  | disconnect port => exact ⟨h.owner, h.held, h.zero⟩
  | configure port => exact h.configurePort (hne he)
  | portStatus port isEnabled resetCompleted =>
      exact h.onPortStatusChange (hne he) isEnabled resetCompleted
  | commandCompletion slot port issuer => exact h.onCommandCompletion slot port issuer
  | transfer slot received initialized port speed =>
      exact h.onTransfer slot received initialized port speed

end Exclusive

/-- **Run.**  The phases and the lock agree after every run. -/
theorem exclusive_run {maxPorts : UInt8} {es : List PortEvent}
    (hes : Guarded step (fun _ e => e.Admits maxPorts) s es) (h : Exclusive s) :
    Exclusive (run step s es) :=
  inv_run Exclusive (fun _ _ h he => h.step he) h hes

/-- **One port at a time.**  With any number of ports, connected or not, and after any sequence of
configurations and events, every port between its reset and its address is `addressing_port`,
which, if set, is such a port; so there is at most one. -/
theorem addressing_exclusive (maxPorts : UInt8) (connected : UInt8 → Bool) (es : List PortEvent)
    (hes : ∀ e ∈ es, e.Admits maxPorts) :
    (∀ port, ((run step (start connected) es).phase port).IsAddressing →
      port = (run step (start connected) es).addressingPort) ∧
    ((run step (start connected) es).addressingPort ≠ 0 →
      ((run step (start connected) es).phase
        (run step (start connected) es).addressingPort).IsAddressing) ∧
    ∀ p q, ((run step (start connected) es).phase p).IsAddressing →
      ((run step (start connected) es).phase q).IsAddressing → p = q := by
  have h := exclusive_run (guarded_of_forall step _ hes) (exclusive_start connected)
  exact ⟨h.owner, h.held, fun _ _ hp hq => h.unique hp hq⟩

/-- Two ports, of which the second waits for the address of the first. -/
def twoPorts : List PortEvent :=
  [.configure 1, .configure 2, .portStatus 1 true true, .commandCompletion 1 0 .enableSlot,
    .commandCompletion 1 1 .addressDevice]

theorem twoPorts_exclusive :
    (run step (start fun _ => true) twoPorts).addressingPort = 2 ∧
      ∀ p q, ((run step (start fun _ => true) twoPorts).phase p).IsAddressing →
        ((run step (start fun _ => true) twoPorts).phase q).IsAddressing → p = q :=
  ⟨by decide +kernel, (addressing_exclusive 2 (fun _ => true) twoPorts (by decide)).2.2⟩

end Ports

end Laplus.Xhci
