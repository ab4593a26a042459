/-
# `Laplus.Xhci.Waiting` — the ports that wait (`xhci.cpp`)

A port that is connected while another is being addressed waits, and the handler of the addressed
device hands the lock to the first port that waits.  It looks at no second one if the first is no
longer connected, and nobody hands the lock over if the addressed port disappears.  `Watched` adds
to the ports whether the latter has happened; `Watched.Keeps` is what an event may find, for no
connected port to be left waiting.
-/
import Laplus.Xhci.Ports

namespace Laplus.Xhci

open Lib

namespace Ports

variable {s : Ports} {port slot : UInt8} {ph : ConfigPhase}

/-- A connected port that waits. -/
def Waits (s : Ports) (port : UInt8) : Prop :=
  s.connected port = true ∧ s.phase port = .waitingAddressed

/-! ## Steps that leave the waiting ports -/

/-- The lock, the connections and the waiting ports are the same. -/
structure SameWaits (s s' : Ports) : Prop where
  addressingPort : s'.addressingPort = s.addressingPort
  connected : s'.connected = s.connected
  waits : ∀ port, s'.Waits port ↔ s.Waits port

theorem SameWaits.refl (s : Ports) : SameWaits s s := ⟨rfl, rfl, fun _ => Iff.rfl⟩

theorem SameWaits.setPhase (hold : s.phase port ≠ .waitingAddressed)
    (hph : ph ≠ .waitingAddressed) : SameWaits s (s.setPhase port ph) where
  addressingPort := rfl
  connected := rfl
  waits q := by
    rw [Waits, Waits, phase_setPhase]
    split
    · rename_i heq
      rw [heq]
      exact ⟨fun h => absurd h.2 hph, fun h => absurd h.2 hold⟩
    · exact Iff.rfl

theorem sameWaits_addressDevice (hph : s.phase port = .enablingSlot) (slot : UInt8) :
    SameWaits s (s.addressDevice port slot).1 := by
  obtain ⟨devices, heq⟩ := allocDevice_eq s slot
  unfold addressDevice
  rw [heq]
  dsimp only
  split
  · exact ⟨rfl, rfl, fun _ => Iff.rfl⟩
  · have hset : SameWaits { s with devices } (setPhase { s with devices } port .addressingDevice) :=
      .setPhase (by simp [hph]) (by decide)
    exact ⟨hset.addressingPort, hset.connected, hset.waits⟩

theorem sameWaits_onTransfer (s : Ports) (slot : UInt8) (received : Error) (initialized : Bool)
    (port : UInt8) (speed : Nat) :
    SameWaits s (s.onTransfer slot received initialized port speed).1 := by
  unfold onTransfer configureEndpoints
  split
  · exact .refl s
  split
  · exact .refl s
  split
  · rename_i hinit
    split
    · exact .refl s
    · exact .setPhase (by simp [hinit.2]) (by decide)
  · exact .refl s

theorem sameWaits_configured (s : Ports) (slot port : UInt8) :
    SameWaits s (s.onCommandCompletion slot port .configureEndpoint).1 := by
  simp only [onCommandCompletion, completeConfiguration]
  split
  · exact .refl s
  split
  · exact .refl s
  · rename_i hph
    exact .setPhase (by simp [not_not.mp hph]) (by decide)

theorem sameWaits_slotEnabled (s : Ports) (slot port : UInt8) :
    SameWaits s (s.onCommandCompletion slot port .enableSlot).1 := by
  simp only [onCommandCompletion]
  split
  · exact .refl s
  · rename_i hph
    exact sameWaits_addressDevice (not_not.mp hph) slot

/-- A port-status event leaves the waiting ports, unless it finds a port that is not configured. -/
theorem sameWaits_portStatus (hph : s.phase port ≠ .notConnected)
    (isEnabled resetCompleted : Bool) :
    SameWaits s (s.onPortStatusChange port isEnabled resetCompleted).1 := by
  unfold onPortStatusChange
  split
  · rename_i heq
    exact absurd heq hph
  · rename_i heq
    unfold enableSlot
    split
    · exact .setPhase (by simp [heq]) (by decide)
    · exact .refl s
  · exact .refl s

/-! ## Steps that change the waiting ports -/

/-- The reset of a port that is not configured. -/
theorem resetPort_notConnected (hph : s.phase port = .notConnected) :
    s.connected port = false ∧ (s.resetPort port).1 = s ∨
      s.connected port = true ∧ s.addressingPort ≠ 0 ∧
        (s.resetPort port).1 = s.setPhase port .waitingAddressed ∨
      s.connected port = true ∧ s.addressingPort = 0 ∧ (s.resetPort port).1 = s.taken port := by
  unfold resetPort
  cases hc : s.connected port with
  | false => exact .inl ⟨rfl, rfl⟩
  | true =>
      by_cases ha : s.addressingPort = 0
      · exact .inr (.inr ⟨rfl, ha, by simp [ha, hph, taken]⟩)
      · exact .inr (.inl ⟨rfl, ha, by simp [ha]⟩)

/-- An addressed device leaves the waiting ports, but for the one that gets the lock. -/
theorem waits_released (hph : s.phase s.addressingPort = .addressingDevice) (q : UInt8) :
    s.released.Waits q ↔ s.Waits q :=
  (SameWaits.setPhase (s := s) (by simp [hph]) (by decide)).waits q

theorem firstWaiting_none (h : s.firstWaiting = none) (q : UInt8) :
    s.phase q ≠ .waitingAddressed := by
  have hall := List.find?_eq_none.mp h q (by
    refine List.mem_map.mpr ⟨q.toNat, List.mem_range.mpr q.toNat_lt, ?_⟩
    simp)
  simpa using hall

/-! ## What no handler changes -/

theorem connected_resetPort (s : Ports) (port : UInt8) :
    (s.resetPort port).1.connected = s.connected := by
  unfold resetPort
  split
  · rfl
  split
  · rfl
  split <;> rfl

theorem connected_onPortStatusChange (s : Ports) (port : UInt8) (isEnabled resetCompleted : Bool) :
    (s.onPortStatusChange port isEnabled resetCompleted).1.connected = s.connected := by
  by_cases hph : s.phase port = .notConnected
  · simp only [onPortStatusChange, hph]
    exact connected_resetPort s port
  · exact (sameWaits_portStatus hph isEnabled resetCompleted).connected

theorem connected_configurePort (s : Ports) (port : UInt8) :
    (s.configurePort port).1.connected = s.connected := by
  unfold configurePort
  split
  · exact connected_resetPort s port
  · rfl

theorem connected_onDeviceAddressed (s : Ports) (slot port : UInt8) :
    (s.onDeviceAddressed slot port).1.connected = s.connected := by
  rcases onDeviceAddressed_cases s slot port with heq | ⟨hslot, rfl, hph⟩
  · rw [heq]
  · rw [onDeviceAddressed_eq hslot hph]
    split
    · split <;> rfl
    · rfl

/-- A port-status event takes the lock from nobody. -/
theorem addressingPort_onPortStatusChange (ha : s.addressingPort ≠ 0) (port : UInt8)
    (isEnabled resetCompleted : Bool) :
    (s.onPortStatusChange port isEnabled resetCompleted).1.addressingPort = s.addressingPort := by
  by_cases hph : s.phase port = .notConnected
  · simp only [onPortStatusChange, hph]
    rcases resetPort_notConnected hph with ⟨_, heq⟩ | ⟨_, _, heq⟩ | ⟨_, hzero, _⟩
    · rw [heq]
    · rw [heq]
      rfl
    · exact absurd hzero ha
  · exact (sameWaits_portStatus hph isEnabled resetCompleted).addressingPort

end Ports

/-! ## `Watched` -/

/-- The ports, and whether the port with the lock has been found disconnected, and has been so
since. -/
structure Watched where
  ports : Ports
  lost : Bool

namespace Watched

/-- One event. -/
def step (s : Watched) (e : PortEvent) : Watched where
  ports := s.ports.step e
  lost :=
    match e with
    | .connect port => s.lost && port != s.ports.addressingPort
    | .portStatus port _ _ =>
        s.lost || port == s.ports.addressingPort && !s.ports.connected port
    | _ => s.lost && (s.ports.step e).addressingPort == s.ports.addressingPort

/-- The ports when the controller starts. -/
def start (connected : UInt8 → Bool) : Watched := ⟨.start connected, false⟩

@[simp] theorem ports_step (s : Watched) (e : PortEvent) : (s.step e).ports = s.ports.step e := rfl

/-- No connected port waits when nobody is being addressed: the lock is free, or its port has
disappeared. -/
def TakenUp (s : Watched) : Prop :=
  s.ports.addressingPort = 0 ∨ s.lost = true → ∀ port, ¬ s.ports.Waits port

/-- What an event may find. -/
def Keeps (s : Watched) : PortEvent → Prop
  | .connect port =>
      s.ports.addressingPort = 0 ∨ s.lost = true ∧ port ≠ s.ports.addressingPort →
        s.ports.phase port ≠ .waitingAddressed
  | .configure port =>
      s.lost = true → s.ports.connected port = true → s.ports.phase port ≠ .notConnected
  | .portStatus port _ _ =>
      (s.lost = true → s.ports.connected port = true → s.ports.phase port ≠ .notConnected) ∧
      (port = s.ports.addressingPort → s.ports.connected port = false →
        ∀ q, ¬ s.ports.Waits q)
  | .commandCompletion slot port .addressDevice =>
      s.ports.findBySlot slot = true → port = s.ports.addressingPort →
        s.ports.phase port = .addressingDevice → ∀ first, s.ports.firstWaiting = some first →
          (∃ q, s.ports.Waits q) → s.ports.connected first = true
  | _ => True

/-- The phases and the lock agree, and the lost port is the one with the lock. -/
structure Inv (s : Watched) : Prop where
  exclusive : s.ports.Exclusive
  lost : s.lost = true → s.ports.addressingPort ≠ 0 ∧
    s.ports.connected s.ports.addressingPort = false

variable {s : Watched} {port slot : UInt8}

theorem inv_start (connected : UInt8 → Bool) : Inv (start connected) where
  exclusive := Ports.exclusive_start connected
  lost h := Bool.noConfusion h

/-- A port that is not configured does not hold the lock. -/
theorem Inv.ne_addressingPort (h : Inv s) (hport : port ≠ 0)
    (hph : s.ports.phase port = .notConnected) : port ≠ s.ports.addressingPort := by
  rintro rfl
  have haddressing := h.exclusive.held hport
  rw [hph] at haddressing
  exact absurd haddressing (by decide)

theorem takenUp_congr {s' : Ports} (hsame : s.ports.SameWaits s') :
    TakenUp ⟨s', s.lost⟩ ↔ TakenUp s := by
  simp only [TakenUp, hsame.addressingPort, hsame.waits]

/-! ## One event -/

/-- The reset of a port that is not configured leaves it waiting, when another has the lock. -/
theorem takenUp_resetPort (h : Inv s) (ht : TakenUp s) (hport : port ≠ 0)
    (hph : s.ports.phase port = .notConnected) :
    TakenUp ⟨(s.ports.resetPort port).1, s.lost⟩ ↔
      (s.lost = true → s.ports.connected port = true → s.ports.phase port ≠ .notConnected) := by
  rcases Ports.resetPort_notConnected hph with ⟨hc, heq⟩ | ⟨hc, ha, heq⟩ | ⟨hc, ha, heq⟩
  · rw [heq]
    exact ⟨fun _ _ hc' => by simp [hc] at hc', fun _ => ht⟩
  · rw [heq]
    constructor
    · intro ht' hlost
      exact absurd ⟨hc, by simp⟩ (ht' (.inr hlost) port)
    · rintro hno (hzero | hlost)
      · exact absurd hzero ha
      · exact absurd hph (hno hlost hc)
  · have hlost : s.lost ≠ true := fun hlost => (h.lost hlost).1 ha
    rw [heq]
    constructor
    · intro _ hlost'
      exact absurd hlost' hlost
    · rintro _ (hzero | hlost')
      · exact absurd hzero hport
      · exact absurd hlost' hlost

/-- The lock does not move while its port is disconnected, unless the device is addressed. -/
theorem lost_resetPort (h : Inv s) (hph : s.ports.phase port = .notConnected) :
    (s.lost && (s.ports.resetPort port).1.addressingPort == s.ports.addressingPort) = s.lost := by
  rcases Ports.resetPort_notConnected hph with ⟨_, heq⟩ | ⟨_, _, heq⟩ | ⟨_, ha, heq⟩
  · simp [heq]
  · simp [heq]
  · have hlost : s.lost = false := by
      by_contra hlost
      exact (h.lost (by simpa using hlost)).1 ha
    simp [hlost]

theorem takenUp_configure (h : Inv s) (ht : TakenUp s) (hport : port ≠ 0) :
    TakenUp (s.step (.configure port)) ↔ s.Keeps (.configure port) := by
  by_cases hph : s.ports.phase port = .notConnected
  · have hstep : s.step (.configure port) = ⟨(s.ports.resetPort port).1, s.lost⟩ := by
      simp only [step, Ports.step, Ports.configurePort, hph, if_true, lost_resetPort h hph]
    rw [hstep]
    exact takenUp_resetPort h ht hport hph
  · have hstep : s.step (.configure port) = s := by
      simp [step, Ports.step, Ports.configurePort, hph]
    rw [hstep]
    exact ⟨fun _ _ _ => hph, fun _ => ht⟩

theorem takenUp_portStatus (h : Inv s) (ht : TakenUp s) (hport : port ≠ 0)
    (isEnabled resetCompleted : Bool) :
    TakenUp (s.step (.portStatus port isEnabled resetCompleted)) ↔
      s.Keeps (.portStatus port isEnabled resetCompleted) := by
  by_cases hph : s.ports.phase port = .notConnected
  · have hne := h.ne_addressingPort hport hph
    have hstep : s.step (.portStatus port isEnabled resetCompleted) =
        ⟨(s.ports.resetPort port).1, s.lost⟩ := by
      simp [step, Ports.step, Ports.onPortStatusChange, hph, hne]
    rw [hstep, takenUp_resetPort h ht hport hph]
    exact ⟨fun hno => ⟨hno, fun heq => absurd heq hne⟩, fun hkeeps => hkeeps.1⟩
  · have hsame := Ports.sameWaits_portStatus hph isEnabled resetCompleted
    have hkeeps : s.Keeps (.portStatus port isEnabled resetCompleted) ↔
        (port = s.ports.addressingPort → s.ports.connected port = false →
          ∀ q, ¬ s.ports.Waits q) :=
      ⟨fun hkeeps => hkeeps.2, fun hno => ⟨fun _ _ => hph, hno⟩⟩
    rw [hkeeps, TakenUp]
    simp only [step, Ports.step, hsame.addressingPort, hsame.waits]
    constructor
    · intro ht' heq hc
      exact ht' (.inr (by simp [heq, heq ▸ hc]))
    · rintro hno (hzero | hlost)
      · exact ht (.inl hzero)
      · rcases (Bool.or_eq_true _ _).mp hlost with hlost | hlost
        · exact ht (.inr hlost)
        · obtain ⟨heq, hc⟩ := (Bool.and_eq_true _ _).mp hlost
          exact hno (by simpa using heq) (by simpa using hc)

theorem takenUp_connect (port : UInt8) (ht : TakenUp s) :
    TakenUp (s.step (.connect port)) ↔ s.Keeps (.connect port) := by
  have hold : ∀ q, q ≠ port → ((s.ports.step (.connect port)).Waits q ↔ s.ports.Waits q) := by
    intro q hq
    simp [Ports.Waits, Ports.step, Function.update_of_ne hq]
  have hnew : (s.ports.step (.connect port)).Waits port ↔
      s.ports.phase port = .waitingAddressed := by
    simp [Ports.Waits, Ports.step]
  have hcond : (s.ports.addressingPort = 0 ∨ (s.step (.connect port)).lost = true) ↔
      (s.ports.addressingPort = 0 ∨ s.lost = true ∧ port ≠ s.ports.addressingPort) := by
    simp [step]
  constructor
  · intro ht' hfree hph
    exact ht' (hcond.mpr hfree) port (hnew.mpr hph)
  · intro hkeeps hfree q hq
    by_cases heq : q = port
    · subst heq
      exact hkeeps (hcond.mp hfree) (hnew.mp hq)
    · refine ht ((hcond.mp hfree).imp_right And.left) q ((hold q heq).mp hq)

/-- The lock that an addressed device lets go is taken, or nobody waits for it. -/
theorem takenUp_deviceAddressed (h : Inv s) (ht : TakenUp s) (slot port : UInt8) :
    TakenUp (s.step (.commandCompletion slot port .addressDevice)) ↔
      s.Keeps (.commandCompletion slot port .addressDevice) := by
  by_cases hcond : s.ports.findBySlot slot = true ∧ port = s.ports.addressingPort ∧
      s.ports.phase port = .addressingDevice
  · obtain ⟨hslot, rfl, hph⟩ := hcond
    have hports : s.ports.step (.commandCompletion slot _ .addressDevice) = _ :=
      Ports.onDeviceAddressed_eq hslot hph
    cases hfirst : s.ports.firstWaiting with
    | none =>
        rw [hfirst] at hports
        constructor
        · intro _ _ _ _ first hsome
          rw [hfirst] at hsome
          cases hsome
        · intro _ _ q hq
          rw [ports_step, hports] at hq
          replace hq := (Ports.waits_released hph q).mp hq
          exact Ports.firstWaiting_none hfirst q hq.2
    | some first =>
        have hwait := Ports.firstWaiting_phase hfirst
        rw [hfirst] at hports
        dsimp only at hports
        cases hc : s.ports.connected first with
        | true =>
            rw [if_pos hc] at hports
            refine ⟨fun _ _ _ _ first' hsome _ => ?_, fun _ hfree => ?_⟩
            · rw [hfirst] at hsome
              rw [← Option.some.inj hsome]
              exact hc
            · -- the first waiting port has the lock now
              have hzero : first ≠ 0 := h.exclusive.ne_zero (by simp [hwait])
              have hne : first ≠ s.ports.addressingPort := by
                rintro rfl
                rw [hwait] at hph
                cases hph
              simp [step, hports, Ports.taken, hzero, hne] at hfree
        | false =>
            rw [if_neg (by simp [hc])] at hports
            constructor
            · rintro ht' - - - first' hsome ⟨q, hq⟩
              refine absurd ((Ports.waits_released hph q).mpr hq) ?_
              have hnone := ht' (.inl (by rw [ports_step, hports]; rfl)) q
              rwa [ports_step, hports] at hnone
            · intro hkeeps _ q hq
              rw [ports_step, hports, Ports.waits_released hph] at hq
              have hc' := hkeeps hslot rfl hph first hfirst ⟨q, hq⟩
              rw [hc] at hc'
              cases hc'
  · have hports : s.ports.step (.commandCompletion slot port .addressDevice) = s.ports := by
      rcases Ports.onDeviceAddressed_cases s.ports slot port with heq | ⟨hslot, rfl, hph⟩
      · exact heq
      · exact absurd ⟨hslot, rfl, hph⟩ hcond
    have hstep : s.step (.commandCompletion slot port .addressDevice) = s := by
      simp [step, hports]
    rw [hstep]
    exact ⟨fun _ hslot hport hph => absurd ⟨hslot, hport, hph⟩ hcond, fun _ => ht⟩

/-- An event that leaves the waiting ports keeps nobody waiting. -/
theorem takenUp_same (ht : TakenUp s) {e : PortEvent} (hsame : s.ports.SameWaits (s.ports.step e))
    (hlost : (s.step e).lost = s.lost) : TakenUp (s.step e) := by
  have hstep : s.step e = ⟨s.ports.step e, s.lost⟩ := by
    rw [← hlost]
    rfl
  rw [hstep, takenUp_congr hsame]
  exact ht

/-- **Step.**  An event leaves no connected port waiting for nobody exactly when it finds what it
may. -/
theorem takenUp_step_iff (h : Inv s) (ht : TakenUp s) {maxPorts : UInt8} {e : PortEvent}
    (he : e.Admits maxPorts) : TakenUp (s.step e) ↔ s.Keeps e := by
  have hne : ∀ {port : UInt8}, 0 < port ∧ port ≤ maxPorts → port ≠ 0 :=
    fun hport heq => absurd hport.1 (by simp [heq])
  cases e with
  | connect port => exact takenUp_connect port ht
  | disconnect port =>
      refine iff_of_true (fun hfree q hq => ht ?_ q ⟨?_, hq.2⟩) trivial
      · exact hfree.imp_right fun hlost => ((Bool.and_eq_true _ _).mp hlost).1
      · have hc : Function.update s.ports.connected port false q = true := hq.1
        rw [Function.update_apply] at hc
        split at hc
        · cases hc
        · exact hc
  | configure port => exact takenUp_configure h ht (hne he)
  | portStatus port isEnabled resetCompleted =>
      exact takenUp_portStatus h ht (hne he) isEnabled resetCompleted
  | commandCompletion slot port issuer =>
      cases issuer with
      | enableSlot =>
          have hsame := Ports.sameWaits_slotEnabled s.ports slot port
          refine iff_of_true (takenUp_same ht hsame ?_) trivial
          simp [step, Ports.step, hsame.addressingPort]
      | addressDevice => exact takenUp_deviceAddressed h ht slot port
      | configureEndpoint =>
          have hsame := Ports.sameWaits_configured s.ports slot port
          refine iff_of_true (takenUp_same ht hsame ?_) trivial
          simp [step, Ports.step, hsame.addressingPort]
      | other =>
          refine iff_of_true (takenUp_same ht (.refl _) ?_) trivial
          simp [step, Ports.step, Ports.onCommandCompletion]
  | transfer slot received initialized port speed =>
      have hsame := Ports.sameWaits_onTransfer s.ports slot received initialized port speed
      refine iff_of_true (takenUp_same ht hsame ?_) trivial
      simp [step, Ports.step, hsame.addressingPort]

/-! ## Runs -/

/-- A lost port stays so, with its lock and its connection. -/
theorem Inv.kept (h : Inv s) {e : PortEvent}
    (haddressing : (s.ports.step e).addressingPort = s.ports.addressingPort)
    (hconnected : (s.ports.step e).connected = s.ports.connected) (hlost : s.lost = true) :
    (s.step e).ports.addressingPort ≠ 0 ∧
      (s.step e).ports.connected (s.step e).ports.addressingPort = false := by
  rw [ports_step, haddressing, hconnected]
  exact h.lost hlost

theorem Inv.step (h : Inv s) {maxPorts : UInt8} {e : PortEvent} (he : e.Admits maxPorts) :
    Inv (s.step e) where
  exclusive := h.exclusive.step he
  lost hlost := by
    cases e with
    | connect port =>
        obtain ⟨hlost, hne⟩ := (Bool.and_eq_true _ _).mp hlost
        refine ⟨(h.lost hlost).1, ?_⟩
        show Function.update s.ports.connected port true s.ports.addressingPort = false
        rw [Function.update_of_ne (by simpa using Ne.symm (bne_iff_ne.mp hne))]
        exact (h.lost hlost).2
    | disconnect port =>
        have hlost := ((Bool.and_eq_true _ _).mp hlost).1
        refine ⟨(h.lost hlost).1, ?_⟩
        show Function.update s.ports.connected port false s.ports.addressingPort = false
        rw [Function.update_apply, (h.lost hlost).2]
        split <;> rfl
    | configure port =>
        obtain ⟨hlost, heq⟩ := (Bool.and_eq_true _ _).mp hlost
        exact h.kept (beq_iff_eq.mp heq) (Ports.connected_configurePort _ _) hlost
    | portStatus port isEnabled resetCompleted =>
        have hconnected := Ports.connected_onPortStatusChange s.ports port isEnabled resetCompleted
        rcases (Bool.or_eq_true _ _).mp hlost with hlost | hfound
        · exact h.kept (Ports.addressingPort_onPortStatusChange (h.lost hlost).1 _ _ _) hconnected
            hlost
        · -- the event has just found the port disconnected
          obtain ⟨heq, hc⟩ := (Bool.and_eq_true _ _).mp hfound
          have heq : port = s.ports.addressingPort := beq_iff_eq.mp heq
          have hzero : s.ports.addressingPort ≠ 0 := by
            intro hzero
            have hpos := he.1
            rw [heq, hzero] at hpos
            exact absurd hpos (by decide)
          have hsame : (s.step (.portStatus port isEnabled resetCompleted)).ports.addressingPort =
              s.ports.addressingPort :=
            Ports.addressingPort_onPortStatusChange hzero _ _ _
          rw [hsame]
          refine ⟨hzero, (congrFun hconnected _).trans ?_⟩
          rw [← heq]
          simpa using hc
    | commandCompletion slot port issuer =>
        obtain ⟨hlost, heq⟩ := (Bool.and_eq_true _ _).mp hlost
        refine h.kept (beq_iff_eq.mp heq) ?_ hlost
        cases issuer with
        | enableSlot => exact (Ports.sameWaits_slotEnabled s.ports slot port).connected
        | addressDevice => exact Ports.connected_onDeviceAddressed s.ports slot port
        | configureEndpoint => exact (Ports.sameWaits_configured s.ports slot port).connected
        | other => rfl
    | transfer slot received initialized port speed =>
        obtain ⟨hlost, heq⟩ := (Bool.and_eq_true _ _).mp hlost
        exact h.kept (beq_iff_eq.mp heq)
          (Ports.sameWaits_onTransfer s.ports slot received initialized port speed).connected hlost

/-- **Run.**  For any number of ports, connected or not at the start, and any connections,
disconnections, configurations and events: no connected port ever waits for a free lock, or for a
port that has disappeared, exactly when every event finds what it may. -/
theorem takenUp_run_iff (maxPorts : UInt8) (connected : UInt8 → Bool) (es : List PortEvent)
    (hes : ∀ e ∈ es, e.Admits maxPorts) :
    (∀ es', es' <+: es → TakenUp (run step (start connected) es')) ↔
      Guarded step Keeps (start connected) es :=
  admitted_prefix_iff Inv TakenUp (fun _ _ h _ he _ => h.step he)
    (fun _ _ h ht he => takenUp_step_iff h ht he) (inv_start connected)
    (fun _ _ hwait => by cases hwait.2) (guarded_of_forall step _ hes)

theorem takenUp_twoPorts :
    Guarded step Keeps (start fun _ => true) Ports.twoPorts ∧
      ∀ es', es' <+: Ports.twoPorts → TakenUp (run step (start fun _ => true) es') := by
  have hkeeps : Guarded step Keeps (start fun _ => true) Ports.twoPorts := by
    refine ⟨fun h => (by cases h), fun h => (by cases h), ⟨fun h => (by cases h), ?_⟩, trivial,
      fun _ _ _ _ _ _ => rfl, trivial⟩
    exact fun _ hc => (by cases hc)
  exact ⟨hkeeps, (takenUp_run_iff 2 (fun _ => true) Ports.twoPorts (by decide)).mpr hkeeps⟩

/-- Three ports: the second and the third wait for the first, and the second is unplugged before
the first has its address. -/
def threePorts : List PortEvent :=
  [.configure 1, .configure 2, .configure 3, .portStatus 1 true true,
    .commandCompletion 1 0 .enableSlot, .disconnect 2, .commandCompletion 1 1 .addressDevice]

/-- The third port waits for good. -/
theorem threePorts_stranded :
    ¬ ∀ (maxPorts : UInt8) (connected : UInt8 → Bool) (es : List PortEvent),
      (∀ e ∈ es, e.Admits maxPorts) → TakenUp (run step (start connected) es) := by
  intro h
  have htaken := h 3 (fun _ => true) threePorts (by decide)
  have hfree : (run step (start fun _ => true) threePorts).ports.addressingPort = 0 := by
    decide +kernel
  have hwait : (run step (start fun _ => true) threePorts).ports.phase 3 = .waitingAddressed := by
    decide +kernel
  have hconnected : (run step (start fun _ => true) threePorts).ports.connected 3 = true := by
    decide +kernel
  exact htaken (.inl hfree) 3 ⟨hconnected, hwait⟩

end Watched

end Laplus.Xhci
