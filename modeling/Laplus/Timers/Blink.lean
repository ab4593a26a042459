/-
# `Laplus.Timers.Blink` — the blink timer of a terminal (`terminal.cpp`, `syscall.cpp`)

The cursor of a terminal blinks by a timer that the loop of `TaskTerminal` adds anew for every
timeout that it receives.  The queue of its messages has other readers, who drop timeouts; and the
timers of an application that has exited come to the loop.

An event is a tick, a call of another task, or one turn of a loop that receives a message.
-/
import Laplus.Timers.Calls
import Laplus.Lib.Run

namespace Laplus.Timers

open Lib

variable {P : PriorityQueue Timer Timer.lt}

/-! ## Messages -/

/-- `Message`, as far as the terminal and its applications look at it. -/
inductive Message where
  | timerTimeout (timeout : Nat) (value : Int)
  | keyPush (modifier keycode ascii : UInt8) (press : Bool)
  | mouse
  | windowClose
  | pipe (data : List UInt8)
  | other
deriving DecidableEq

/-- The message that a `Tick` sends. -/
def TimerTimeout.toMessage (m : TimerTimeout) : Message := .timerTimeout m.timeout m.value

/-- A timeout. -/
def Message.isTimeout : Message → Bool
  | .timerTimeout _ _ => true
  | _ => false

/-- The timeout of a blink timer. -/
def Message.isBlink : Message → Bool
  | .timerTimeout _ value => value = 1
  | _ => false

/-- `AppEvent`. -/
inductive AppEvent where
  | quit
  | keyPush (modifier keycode ascii : UInt8) (press : Bool)
  | mouse
  | timerTimeout (timeout : Nat) (value : Int)
deriving DecidableEq

/-- `kLControlBitMask | kRControlBitMask`. -/
def kControlBitMask : UInt8 := 0b00010001

/-- What `ReadEvent` makes of a message. -/
def appEvent : Message → Option AppEvent
  | .keyPush modifier keycode ascii press =>
      if keycode = 20 ∧ modifier &&& kControlBitMask ≠ 0 then some .quit
      else some (.keyPush modifier keycode ascii press)
  | .mouse => some .mouse
  | .timerTimeout timeout value => if value < 0 then some (.timerTimeout timeout (-value)) else none
  | .windowClose => some .quit
  | _ => none

/-- What `TerminalFileDescriptor::Read` returns for a message, if it returns. -/
def terminalInput : Message → Option (List UInt8)
  | .keyPush modifier keycode ascii press =>
      if press = false then none
      else if modifier &&& kControlBitMask ≠ 0 then if keycode = 7 then some [] else none
      else some [ascii]
  | _ => none

/-- What `PipeDescriptor::Read` returns for a message, if it returns. -/
def pipeInput (len : Nat) : Message → Option (List UInt8)
  | .pipe data => some (data.take len)
  | _ => none

/-! ## The terminal -/

/-- A terminal task in its loop: the timers, its messages, whether `InputKey` runs a command,
whether the task has finished, and what the applications were given. -/
structure TerminalTask (P : PriorityQueue Timer Timer.lt) where
  manager : TimerManager P
  msgs : List Message
  running : Bool
  finished : Bool
  events : List AppEvent
  input : List (List UInt8)

/-- A tick, a timer or a message from another task, a turn of the loop of `TaskTerminal`, and what
an application does: `CreateTimer`, a turn of the loops of `ReadEvent` and of the two `Read`s, its
end. -/
inductive TerminalEvent where
  | tick
  | addTimer (t : Timer)
  | message (m : Message)
  | loop
  | createTimer (relative : Bool) (timerValue : Int) (timeout : Nat)
  | readEvent
  | read
  | pipeRead (len : Nat)
  | exit

/-- The timer that `add_blink_timer` adds. -/
def blinkTimer (taskId t : Nat) : Timer := ⟨(t + 50) % 2 ^ 64, 1, taskId⟩

/-- The timer that `CreateTimer` adds. -/
def appTimer (taskId tick : Nat) (relative : Bool) (timerValue : Int) (arg3 : Nat) : Timer :=
  let timeout := arg3 * kTimerFreq % 2 ^ 64 / 1000
  ⟨if relative then (timeout + tick) % 2 ^ 64 else timeout, -timerValue, taskId⟩

namespace TerminalTask

/-- Before the loop: `add_blink_timer(timer_manager->CurrentTick())`. -/
def enterLoop (taskId : Nat) (s : TerminalTask P) : TerminalTask P :=
  { s with manager := s.manager.addTimer (blinkTimer taskId s.manager.tick) }

/-- A turn of the loop, with a message. -/
def handle (taskId : Nat) (s : TerminalTask P) : Message → TerminalTask P
  | .timerTimeout timeout _ =>
      { s with manager := s.manager.addTimer (blinkTimer taskId timeout) }
  | .keyPush _ _ ascii press => { s with running := press && ascii = 10 }
  | .windowClose => { s with finished := true }
  | _ => s

/-- `ReceiveMessage`; without a message the task sleeps. -/
def receive (s : TerminalTask P) (use : TerminalTask P → Message → TerminalTask P) :
    TerminalTask P :=
  match s.msgs with
  | [] => s
  | m :: msgs => use { s with msgs } m

/-- An event, before the task has finished. -/
def act (taskId : Nat) (s : TerminalTask P) : TerminalEvent → TerminalTask P
  | .tick =>
      match s.manager.doTick ((P.contents s.manager.timers).card + 1) with
      | .ok (manager, sent, _) =>
          { s with
            manager
            msgs := s.msgs ++ (sent.filter (·.taskId = taskId)).map TimerTimeout.toMessage }
      | .error _ => s
  | .addTimer t => { s with manager := s.manager.addTimer t }
  | .message m => { s with msgs := s.msgs ++ [m] }
  | .loop => if s.running then s else s.receive (handle taskId)
  | .createTimer relative timerValue timeout =>
      if s.running ∧ 0 < timerValue then
        { s with manager :=
            s.manager.addTimer (appTimer taskId s.manager.tick relative timerValue timeout) }
      else s
  | .readEvent =>
      if s.running then
        s.receive fun s m => { s with events := s.events ++ (appEvent m).toList }
      else s
  | .read => s.receive fun s m => { s with input := s.input ++ (terminalInput m).toList }
  | .pipeRead len => s.receive fun s m => { s with input := s.input ++ (pipeInput len m).toList }
  | .exit => { s with running := false }

/-- An event. -/
def step (taskId : Nat) (s : TerminalTask P) (e : TerminalEvent) : TerminalTask P :=
  if s.finished then s else s.act taskId e

/-- The tick does not overflow; other tasks add timers for themselves, and send no timeouts. -/
def Admits (taskId : Nat) (s : TerminalTask P) : TerminalEvent → Prop
  | .tick => s.manager.tick + 1 + kTaskTimerPeriod < 2 ^ 64
  | .addTimer t => t.taskId ≠ taskId
  | .message m => m.isTimeout = false
  | _ => True

/-- The blink timers that are queued, and the blink timeouts that are not received. -/
def blinks (taskId : Nat) (s : TerminalTask P) : Nat :=
  (P.contents s.manager.timers).countP (fun t => t.taskId = taskId ∧ t.value = 1) +
    s.msgs.countP Message.isBlink

/-- A terminal that is about to enter its loop. -/
structure Fresh (taskId : Nat) (s : TerminalTask P) : Prop where
  sentinel : sentinel ∈ P.contents s.manager.timers
  blinks : s.blinks taskId = 0

/-- The timeouts that the loop receives are those of blink timers, and nobody else receives
those. -/
def Keeps (s : TerminalTask P) : TerminalEvent → Prop
  | .loop => s.finished = false → s.running = false →
      ∀ m ∈ s.msgs.head?, m.isTimeout = true → m.isBlink = true
  | .readEvent => s.finished = false → s.running = true → ∀ m ∈ s.msgs.head?, m.isBlink = false
  | .read => s.finished = false → ∀ m ∈ s.msgs.head?, m.isBlink = false
  | .pipeRead _ => s.finished = false → ∀ m ∈ s.msgs.head?, m.isBlink = false
  | _ => True

end TerminalTask

/-! ## A tick moves timers -/

section

variable {tick : Nat} {before after : Multiset Timer} {sent : List TimerTimeout} {b : Bool}

theorem sentinel_after (h : Drained tick before after sent b) (hmem : sentinel ∈ before)
    (hlast : tick < sentinel.timeout) : sentinel ∈ after := by
  rw [h.left]
  exact Multiset.mem_add.mpr (.inl (Multiset.mem_filter.mpr ⟨hmem, hlast⟩))

/-- What is queued afterwards and what was sent is what was queued. -/
theorem Drained.blinks (h : Drained tick before after sent b) (taskId : Nat) :
    after.countP (fun t => t.taskId = taskId ∧ t.value = 1) +
        ((sent.filter (·.taskId = taskId)).map TimerTimeout.toMessage).countP Message.isBlink =
      before.countP fun t => t.taskId = taskId ∧ t.value = 1 := by
  have hsent : ((sent.filter (·.taskId = taskId)).map TimerTimeout.toMessage).countP
      Message.isBlink = (sent : Multiset TimerTimeout).countP
        fun m => m.taskId = taskId ∧ m.value = 1 := by
    rw [List.countP_map, List.countP_filter, Multiset.coe_countP]
    refine List.countP_congr fun m _ => ?_
    simp only [Function.comp_apply, TimerTimeout.toMessage, Message.isBlink, Bool.and_eq_true,
      decide_eq_true_eq]
    exact and_comm
  have hnew : ∀ n, (Multiset.replicate n (taskTimer tick)).countP
      (fun t => t.taskId = taskId ∧ t.value = 1) = 0 := fun n =>
    Multiset.countP_eq_zero.mpr fun t ht hr => by
      rw [Multiset.eq_of_mem_replicate ht] at hr
      have hvalue : kTaskTimerValue = 1 := hr.2
      exact absurd hvalue (by decide)
  -- a blink timer that is due was sent
  have hdue : (before.filter fun t => t.timeout ≤ tick ∧ t.value ≠ kTaskTimerValue).countP
      (fun t => t.taskId = taskId ∧ t.value = 1) =
        (before.filter fun t => ¬tick < t.timeout).countP
          fun t => t.taskId = taskId ∧ t.value = 1 := by
    rw [Multiset.countP_filter, Multiset.countP_filter]
    refine Multiset.countP_congr rfl fun t _ => propext ?_
    rw [not_lt]
    constructor
    · rintro ⟨hr, hle, -⟩
      exact ⟨hr, hle⟩
    · rintro ⟨hr, hle⟩
      refine ⟨hr, hle, ?_⟩
      rw [hr.2]
      decide
  have hmap : ((before.filter fun t => t.timeout ≤ tick ∧ t.value ≠ kTaskTimerValue).map
      Timer.message).countP (fun m => m.taskId = taskId ∧ m.value = 1) =
        (before.filter fun t => t.timeout ≤ tick ∧ t.value ≠ kTaskTimerValue).countP
          fun t => t.taskId = taskId ∧ t.value = 1 := by
    rw [Multiset.countP_map, Multiset.countP_eq_card_filter]
    rfl
  rw [hsent, h.left, h.messages, Multiset.countP_add, hnew, Nat.add_zero, hmap, hdue]
  exact (Multiset.countP_eq_countP_filter_add before _ (tick < ·.timeout)).symm

end

namespace TerminalTask

variable {taskId : Nat} {s : TerminalTask P}

/-- **A tick** ends, and moves the timers that are due to the messages. -/
theorem act_tick (hs : sentinel ∈ P.contents s.manager.timers)
    (htick : s.manager.tick + 1 + kTaskTimerPeriod < 2 ^ 64) :
    (s.act taskId .tick).blinks taskId = s.blinks taskId ∧
      sentinel ∈ P.contents (s.act taskId .tick).manager.timers := by
  have hmod : (s.manager.tick + 1) % 2 ^ 64 = s.manager.tick + 1 := Nat.mod_eq_of_lt (by omega)
  have hlater : s.manager.tick + 1 < (taskTimer (s.manager.tick + 1)).timeout := by
    show s.manager.tick + 1 < (s.manager.tick + 1 + kTaskTimerPeriod) % 2 ^ 64
    rw [Nat.mod_eq_of_lt htick]
    exact Nat.lt_add_of_pos_right (by decide)
  have hlast : s.manager.tick + 1 < sentinel.timeout := by
    show s.manager.tick + 1 < 2 ^ 64 - 1
    have hperiod : kTaskTimerPeriod = 2 := rfl
    omega
  obtain ⟨timers', sent, returned, hloop, hdrained⟩ :=
    tickLoop_drained hlater ⟨sentinel, hs, hlast⟩ (Multiset.countP_le_card _ _) [] false
  have hact : s.act taskId .tick =
      { s with
        manager := ⟨s.manager.tick + 1, timers'⟩
        msgs := s.msgs ++ (sent.filter (·.taskId = taskId)).map TimerTimeout.toMessage } := by
    rw [act, TimerManager.doTick, hmod, hloop _ (Nat.lt_succ_self _)]
    rfl
  rw [hact]
  refine ⟨?_, sentinel_after hdrained hs hlast⟩
  have hblinks := hdrained.blinks taskId
  rw [blinks, blinks, List.countP_append, ← hblinks]
  dsimp only
  omega

/-! ## The other events -/

theorem blinks_addTimer (s : TerminalTask P) (t : Timer) :
    ({ s with manager := s.manager.addTimer t } : TerminalTask P).blinks taskId =
      s.blinks taskId + if t.taskId = taskId ∧ t.value = 1 then 1 else 0 := by
  rw [blinks, blinks, TimerManager.addTimer]
  dsimp only
  rw [P.contents_push, Multiset.countP_cons]
  omega

theorem blinks_pop (taskId : Nat) {m : Message} {msgs : List Message} (h : s.msgs = m :: msgs) :
    s.blinks taskId =
      ({ s with msgs } : TerminalTask P).blinks taskId + if m.isBlink then 1 else 0 := by
  rw [blinks, blinks, h, List.countP_cons, Nat.add_assoc]

/-- A receiver keeps the number if it adds a blink timer for the blink timeouts, and only for
them. -/
theorem receive_iff {use : TerminalTask P → Message → TerminalTask P} {adds : Message → Bool}
    (huse : ∀ s m, (use s m).blinks taskId = s.blinks taskId + if adds m then 1 else 0)
    (hone : s.blinks taskId = 1) :
    (s.receive use).blinks taskId = 1 ↔ ∀ m ∈ s.msgs.head?, adds m = m.isBlink := by
  rw [receive]
  cases hmsgs : s.msgs with
  | nil => simp [hone]
  | cons m msgs =>
      have hpop := blinks_pop taskId hmsgs
      simp only [huse, List.head?_cons, Option.mem_some_iff, forall_eq']
      cases hadds : adds m <;> cases hblink : m.isBlink <;> simp [hblink] at hpop ⊢ <;> omega

/-- A reader that adds no timer loses what it receives. -/
theorem drop_iff {use : TerminalTask P → Message → TerminalTask P}
    (huse : ∀ s m, (use s m).blinks taskId = s.blinks taskId) (hone : s.blinks taskId = 1) :
    (s.receive use).blinks taskId = 1 ↔ ∀ m ∈ s.msgs.head?, m.isBlink = false := by
  have hadds : ∀ s m, (use s m).blinks taskId =
      s.blinks taskId + if (fun _ : Message => false) m then 1 else 0 := huse
  rw [receive_iff hadds hone]
  simp only [eq_comm]

/-- The loop adds one for any timeout. -/
theorem blinks_handle (s : TerminalTask P) (m : Message) :
    (s.handle taskId m).blinks taskId = s.blinks taskId + if m.isTimeout then 1 else 0 := by
  cases m with
  | timerTimeout timeout value =>
      exact (blinks_addTimer s (blinkTimer taskId timeout)).trans
        (congrArg (s.blinks taskId + ·) (if_pos ⟨rfl, rfl⟩))
  | _ => rfl

theorem isTimeout_eq_isBlink (m : Message) :
    m.isTimeout = m.isBlink ↔ (m.isTimeout = true → m.isBlink = true) := by
  cases m with
  | timerTimeout timeout value => simp [Message.isTimeout, Message.isBlink]
  | _ => simp [Message.isTimeout, Message.isBlink]

/-- **One event.** -/
theorem step_iff {e : TerminalEvent} (hs : sentinel ∈ P.contents s.manager.timers)
    (hone : s.blinks taskId = 1) (he : s.Admits taskId e) :
    (s.step taskId e).blinks taskId = 1 ↔ s.Keeps e := by
  rw [step]
  cases hfinished : s.finished with
  | true =>
      rw [if_pos rfl]
      refine iff_of_true hone ?_
      cases e with
      | loop => exact fun h => by rw [hfinished] at h; cases h
      | readEvent => exact fun h => by rw [hfinished] at h; cases h
      | read => exact fun h => by rw [hfinished] at h; cases h
      | pipeRead len => exact fun h => by rw [hfinished] at h; cases h
      | _ => trivial
  | false =>
      rw [if_neg Bool.false_ne_true]
      cases e with
      | tick => exact iff_of_true ((act_tick hs he).1.trans hone) trivial
      | addTimer t =>
          refine iff_of_true ?_ trivial
          rw [act, blinks_addTimer, if_neg fun h => he h.1, hone]
      | message m =>
          refine iff_of_true ?_ trivial
          have hblink : m.isBlink = false := by
            cases m with
            | timerTimeout timeout value => cases he
            | _ => rfl
          rw [act, ← hone, blinks, blinks, List.countP_append, List.countP_singleton, hblink]
          rfl
      | loop =>
          rw [act]
          cases hrunning : s.running with
          | true => exact iff_of_true hone fun _ h => by rw [hrunning] at h; cases h
          | false =>
              rw [if_neg Bool.false_ne_true, receive_iff blinks_handle hone]
              simp only [isTimeout_eq_isBlink]
              exact ⟨fun h _ _ => h, fun h => h hfinished hrunning⟩
      | createTimer relative timerValue timeout =>
          refine iff_of_true ?_ trivial
          rw [act]
          split
          next happ =>
            have hvalue : ¬-timerValue = 1 := by omega
            rw [blinks_addTimer, if_neg fun h => hvalue h.2, hone]
          next => exact hone
      | readEvent =>
          rw [act]
          cases hrunning : s.running with
          | true =>
              rw [if_pos rfl]
              rw [drop_iff ?_ hone]
              · exact ⟨fun h _ _ => h, fun h => h hfinished hrunning⟩
              · exact fun _ _ => rfl
          | false => exact iff_of_true hone fun _ h => by rw [hrunning] at h; cases h
      | read =>
          rw [act, drop_iff ?_ hone]
          · exact ⟨fun h _ => h, fun h => h hfinished⟩
          · exact fun _ _ => rfl
      | pipeRead len =>
          rw [act, drop_iff ?_ hone]
          · exact ⟨fun h _ => h, fun h => h hfinished⟩
          · exact fun _ _ => rfl
      | exit => exact iff_of_true hone trivial

theorem sentinel_addTimer (hs : sentinel ∈ P.contents s.manager.timers) (t : Timer) :
    sentinel ∈ P.contents (s.manager.addTimer t).timers := by
  rw [TimerManager.addTimer, P.contents_push]
  exact Multiset.mem_cons_of_mem hs

theorem sentinel_receive {use : TerminalTask P → Message → TerminalTask P}
    (huse : ∀ s m, sentinel ∈ P.contents s.manager.timers →
      sentinel ∈ P.contents (use s m).manager.timers)
    (hs : sentinel ∈ P.contents s.manager.timers) :
    sentinel ∈ P.contents (s.receive use).manager.timers := by
  rw [receive]
  cases s.msgs with
  | nil => exact hs
  | cons m msgs => exact huse { s with msgs } m hs

/-- The sentinel stays. -/
theorem step_sentinel {e : TerminalEvent} (hs : sentinel ∈ P.contents s.manager.timers)
    (he : s.Admits taskId e) : sentinel ∈ P.contents (s.step taskId e).manager.timers := by
  rw [step]
  split
  next => exact hs
  next =>
    cases e with
    | tick => exact (act_tick hs he).2
    | addTimer t => exact sentinel_addTimer hs t
    | message m => exact hs
    | loop =>
        rw [act]
        split
        next => exact hs
        next =>
          refine sentinel_receive (fun s m hs => ?_) hs
          cases m with
          | timerTimeout timeout value => exact sentinel_addTimer hs _
          | _ => exact hs
    | createTimer relative timerValue timeout =>
        rw [act]
        split
        next => exact sentinel_addTimer hs _
        next => exact hs
    | readEvent =>
        rw [act]
        split
        next => exact sentinel_receive (fun _ _ h => h) hs
        next => exact hs
    | read => exact sentinel_receive (fun _ _ h => h) hs
    | pipeRead len => exact sentinel_receive (fun _ _ h => h) hs
    | exit => exact hs

/-- **One blink timer.**  A terminal has one blink timer, queued or fired, throughout a run, exactly
when its loop receives no timeouts but its own, and nobody else receives those. -/
theorem one_blink_iff (P : PriorityQueue Timer Timer.lt) (taskId : Nat) (before : TerminalTask P)
    (h : before.Fresh taskId) (es : List TerminalEvent)
    (hes : Guarded (step taskId) (Admits taskId) (before.enterLoop taskId) es) :
    (∀ es', es' <+: es → (run (step taskId) (before.enterLoop taskId) es').blinks taskId = 1) ↔
      Guarded (step taskId) Keeps (before.enterLoop taskId) es := by
  have hone : (before.enterLoop taskId).blinks taskId = 1 := by
    rw [enterLoop, blinks_addTimer, if_pos ⟨rfl, rfl⟩, h.blinks]
  exact admitted_prefix_iff (fun s => sentinel ∈ P.contents s.manager.timers)
    (fun s => s.blinks taskId = 1) (fun _ _ hs _ he _ => step_sentinel hs he)
    (fun _ _ hs hone he => step_iff hs hone he) (sentinel_addTimer h.sentinel _) hone hes

instance (s : TerminalTask P) : (e : TerminalEvent) → Decidable (s.Admits taskId e)
  | .tick => inferInstanceAs (Decidable (_ < _))
  | .addTimer _ => inferInstanceAs (Decidable (_ ≠ _))
  | .message _ => inferInstanceAs (Decidable (_ = _))
  | .loop => isTrue trivial
  | .createTimer .. => isTrue trivial
  | .readEvent => isTrue trivial
  | .read => isTrue trivial
  | .pipeRead _ => isTrue trivial
  | .exit => isTrue trivial

end TerminalTask

/-! ## Runs -/

/-- A terminal at boot. -/
def idleTerminal : TerminalTask sortedTimers := ⟨.new sortedTimers, [], false, false, [], []⟩

theorem idleTerminal_fresh : idleTerminal.Fresh 4 where
  sentinel := List.mem_singleton_self sentinel
  blinks := by decide

/-- An application waits for its timer. -/
def waited : List TerminalEvent :=
  [.message (.keyPush 0 40 10 true), .loop, .createTimer true 1 10, .tick, .readEvent, .exit]

theorem one_blink_waited :
    (∀ es', es' <+: waited →
      (run (TerminalTask.step 4) (idleTerminal.enterLoop 4) es').blinks 4 = 1) ↔
      Guarded (TerminalTask.step 4) TerminalTask.Keeps (idleTerminal.enterLoop 4) waited :=
  TerminalTask.one_blink_iff sortedTimers 4 idleTerminal idleTerminal_fresh waited
    (by decide +kernel)

/-- An application exits before its timer fires. -/
def outlived : List TerminalEvent :=
  [.message (.keyPush 0 40 10 true), .loop, .createTimer true 1 10, .exit, .tick, .loop]

/-- An application reads events when the cursor would blink. -/
def dropped : List TerminalEvent :=
  [.message (.keyPush 0 40 10 true), .loop] ++ List.replicate 50 .tick ++ [.readEvent]

/-- The terminal has two blink timers, or none. -/
theorem blinks_outlived_dropped : idleTerminal.Fresh 4 ∧
    Guarded (TerminalTask.step 4) (TerminalTask.Admits 4) (idleTerminal.enterLoop 4) outlived ∧
    (run (TerminalTask.step 4) (idleTerminal.enterLoop 4) outlived).blinks 4 = 2 ∧
    Guarded (TerminalTask.step 4) (TerminalTask.Admits 4) (idleTerminal.enterLoop 4) dropped ∧
    (run (TerminalTask.step 4) (idleTerminal.enterLoop 4) dropped).blinks 4 = 0 :=
  ⟨idleTerminal_fresh, by decide +kernel, by decide +kernel, by decide +kernel, by decide +kernel⟩

end Laplus.Timers
