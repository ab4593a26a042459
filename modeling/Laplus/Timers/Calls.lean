/-
# `Laplus.Timers.Calls` — every timer fires once

Over any calls of `AddTimer` and `Tick` the queue holds the sentinel, the task timer once it
was added, and the timers that are not due yet (`Holds`).  A timer that was added before its
time is due at its timeout, one that was added late at the next tick; at this tick it is sent, and
at no other.
-/
import Laplus.Timers.Manager
import Mathlib.Data.List.Induction
import Mathlib.Order.Bounds.Defs

namespace Laplus.Timers

open Lib

/-! ## Calls -/

/-- A call of the manager; `InitializeTask` adds the task timer. -/
inductive Call where
  | addTimer (t : Timer)
  | initializeTask
  | tick
deriving DecidableEq

variable {P : PriorityQueue Timer Timer.lt}

/-- One call, with so much fuel for the loop of `Tick`. -/
def TimerManager.step (fuel : Nat) (m : TimerManager P) : Call → Except Stop (TimerManager P)
  | .addTimer t => .ok (m.addTimer t)
  | .initializeTask => .ok m.initializeTask
  | .tick => (m.doTick fuel).map (·.1)

/-- Calls one after the other. -/
def TimerManager.calls (fuel : Nat) (m : TimerManager P) (cs : List Call) :
    Except Stop (TimerManager P) := cs.foldlM (TimerManager.step fuel) m

/-- Timers other than the task timer have another value, and a timeout below the greatest; the task
timer is added once; the tick, and with it the next timeout of the task timer, does not overflow. -/
structure Allowed (cs : List Call) : Prop where
  timers : ∀ t, .addTimer t ∈ cs → t.timeout < ulongMax ∧ t.value ≠ kTaskTimerValue
  once : cs.count .initializeTask ≤ 1
  ticks : cs.count .tick + kTaskTimerPeriod < 2 ^ 64

/-- The timers that were added, each with the tick at which it was. -/
def addedFrom : Nat → List Call → List (Nat × Timer)
  | _, [] => []
  | tick, .addTimer t :: cs => (tick, t) :: addedFrom tick cs
  | tick, .initializeTask :: cs => addedFrom tick cs
  | tick, .tick :: cs => addedFrom (tick + 1) cs

/-- The first tick after a timer was added that is not before its timeout. -/
def dueTick (x : Nat × Timer) : Nat := max (x.1 + 1) x.2.timeout

theorem dueTick_isLeast (x : Nat × Timer) :
    IsLeast {tick | x.1 < tick ∧ x.2.timeout ≤ tick} (dueTick x) :=
  ⟨⟨Nat.le_max_left .., Nat.le_max_right ..⟩, fun _ h => Nat.max_le.mpr h⟩

/-- The timers that are due at a tick. -/
def dueAt (cs : List Call) (tick : Nat) : List Timer :=
  ((addedFrom 0 cs).filter (dueTick · = tick)).map Prod.snd

/-- The timers that are due later. -/
def pending (cs : List Call) (tick : Nat) : List Timer :=
  ((addedFrom 0 cs).filter (tick < dueTick ·)).map Prod.snd

/-- How many task timers are queued. -/
def TimerManager.taskTimers (m : TimerManager P) : Nat :=
  (P.contents m.timers).countP (·.value = kTaskTimerValue)

/-! ## What the queue holds -/

section

variable {cs : List Call} {c : Call} {m : TimerManager P} {tick : Nat} {t : Timer}

theorem Allowed.init (h : Allowed (cs ++ [c])) : Allowed cs where
  timers t ht := h.timers t (List.mem_append_left _ ht)
  once := ((List.sublist_append_left cs [c]).count_le _).trans h.once
  ticks := Nat.lt_of_le_of_lt
    (Nat.add_le_add_right ((List.sublist_append_left cs [c]).count_le _) _) h.ticks

theorem addedFrom_append (tick : Nat) (cs ds : List Call) :
    addedFrom tick (cs ++ ds) = addedFrom tick cs ++ addedFrom (tick + cs.count .tick) ds := by
  induction cs generalizing tick with
  | nil => rfl
  | cons c cs ih =>
      cases c with
      | addTimer t =>
          rw [List.cons_append, addedFrom, addedFrom, ih, List.count_cons_of_ne (by simp),
            List.cons_append]
      | initializeTask =>
          rw [List.cons_append, addedFrom, addedFrom, ih, List.count_cons_of_ne (by simp)]
      | tick =>
          rw [List.cons_append, addedFrom, addedFrom, ih, List.count_cons_self]
          congr 2
          omega

/-- What was added was added by a call, at a tick that has been. -/
theorem mem_addedFrom {x : Nat × Timer} (h : x ∈ addedFrom tick cs) :
    .addTimer x.2 ∈ cs ∧ x.1 ≤ tick + cs.count .tick := by
  induction cs generalizing tick with
  | nil => cases h
  | cons c cs ih =>
      cases c with
      | addTimer t =>
          rw [List.count_cons_of_ne (by simp)]
          rcases List.mem_cons.mp h with rfl | h
          · exact ⟨List.mem_cons_self, Nat.le_add_right _ _⟩
          · obtain ⟨hmem, hle⟩ := ih h
            exact ⟨List.mem_cons_of_mem _ hmem, hle⟩
      | initializeTask =>
          rw [List.count_cons_of_ne (by simp)]
          obtain ⟨hmem, hle⟩ := ih h
          exact ⟨List.mem_cons_of_mem _ hmem, hle⟩
      | tick =>
          rw [List.count_cons_self]
          obtain ⟨hmem, hle⟩ := ih h
          exact ⟨List.mem_cons_of_mem _ hmem, by omega⟩

theorem mem_pending (h : t ∈ pending cs tick) : .addTimer t ∈ cs := by
  obtain ⟨x, hx, rfl⟩ := List.mem_map.mp h
  exact (mem_addedFrom (List.mem_of_mem_filter hx)).1

/-- Until a tick, the calls so far and the tick: a timer that is due now leaves those that are
due later. -/
theorem pending_tick (cs : List Call) :
    (pending cs (cs.count .tick)).filter (cs.count .tick + 1 < ·.timeout) =
        pending cs (cs.count .tick + 1) ∧
      (pending cs (cs.count .tick)).filter (·.timeout ≤ cs.count .tick + 1) =
        dueAt cs (cs.count .tick + 1) := by
  have hadded : ∀ x ∈ addedFrom 0 cs, x.1 ≤ cs.count .tick := fun x hx => by
    have hle := (mem_addedFrom hx).2
    omega
  constructor
  all_goals
    rw [pending, List.filter_map, List.filter_filter]
    refine congrArg (List.map Prod.snd) (List.filter_congr fun x hx => ?_)
    have hle := hadded x hx
    rw [Bool.eq_iff_iff]
    simp only [Function.comp_apply, Bool.and_eq_true, decide_eq_true_eq]
    simp only [dueTick]
    omega

/-- **What the queue holds** after the calls. -/
structure Holds (cs : List Call) (m : TimerManager P) : Prop where
  tick : m.tick = cs.count .tick
  contents : ∃ task : Multiset Timer, task.card = cs.count .initializeTask ∧
    (∀ t ∈ task, t.value = kTaskTimerValue ∧ m.tick < t.timeout) ∧
    P.contents m.timers = sentinel ::ₘ (task + pending cs m.tick)

theorem Holds.new : Holds [] (TimerManager.new P) := by
  refine ⟨rfl, 0, rfl, fun t ht => absurd ht (Multiset.notMem_zero t), ?_⟩
  rw [TimerManager.new, P.contents_push, P.contents_empty]
  rfl

/-- A timer is added. -/
theorem Holds.addTimer (h : Holds cs m) (t : Timer) :
    Holds (cs ++ [.addTimer t]) (m.addTimer t) := by
  obtain ⟨htick, task, hcard, htask, hcontents⟩ := h
  have hadded : addedFrom 0 (cs ++ [.addTimer t]) = addedFrom 0 cs ++ [(m.tick, t)] := by
    rw [addedFrom_append, Nat.zero_add, htick]
    rfl
  have hpending : pending (cs ++ [.addTimer t]) m.tick = pending cs m.tick ++ [t] := by
    have hdue : m.tick < dueTick (m.tick, t) := by
      show m.tick < max (m.tick + 1) t.timeout
      omega
    rw [pending, hadded, List.filter_append, List.map_append, pending,
      List.filter_cons_of_pos (by simpa using hdue)]
    rfl
  refine ⟨?_, task, ?_, htask, ?_⟩
  · rw [List.count_append, List.count_cons_of_ne (by simp), List.count_nil]
    exact htick
  · rw [hcard, List.count_append, List.count_cons_of_ne (by simp), List.count_nil, Nat.add_zero]
  · show P.contents (P.push m.timers t) = _
    rw [P.contents_push, hcontents]
    have hp : pending (cs ++ [.addTimer t]) (m.addTimer t).tick = pending cs m.tick ++ [t] :=
      hpending
    rw [hp, ← Multiset.coe_add, ← add_assoc, Multiset.coe_singleton, Multiset.add_comm (_ + _) {t},
      Multiset.singleton_add, Multiset.cons_swap]

/-- The task timer is added. -/
theorem Holds.initializeTask (h : Holds cs m) (hc : Allowed (cs ++ [.initializeTask])) :
    Holds (cs ++ [.initializeTask]) m.initializeTask := by
  obtain ⟨htick, task, hcard, htask, hcontents⟩ := h
  have hadded : addedFrom 0 (cs ++ [.initializeTask]) = addedFrom 0 cs := by
    rw [addedFrom_append]
    exact List.append_nil _
  have hlater : m.tick < (taskTimer m.tick).timeout := by
    have hticks := hc.init.ticks
    rw [← htick] at hticks
    show m.tick < (m.tick + kTaskTimerPeriod) % 2 ^ 64
    rw [Nat.mod_eq_of_lt hticks]
    exact Nat.lt_add_of_pos_right (by decide)
  refine ⟨?_, taskTimer m.tick ::ₘ task, ?_, fun t ht => ?_, ?_⟩
  · rw [List.count_append, List.count_cons_of_ne (by simp), List.count_nil]
    exact htick
  · rw [Multiset.card_cons, hcard, List.count_append, List.count_singleton_self]
  · rcases Multiset.mem_cons.mp ht with rfl | ht
    · exact ⟨rfl, hlater⟩
    · exact htask t ht
  · show P.contents (P.push m.timers (taskTimer m.tick)) = _
    have hp : pending (cs ++ [.initializeTask]) m.initializeTask.tick = pending cs m.tick := by
      rw [pending, hadded]
      rfl
    rw [P.contents_push, hcontents, hp, Multiset.cons_add, Multiset.cons_swap]

/-- How a `Tick` turns out. -/
structure OnTime (cs : List Call) (m m' : TimerManager P) (sent : List TimerTimeout)
    (returned : Bool) : Prop where
  tick : m'.tick = cs.count .tick + 1
  messages : sent.Perm ((dueAt cs m'.tick).map Timer.message)
  ordered : sent.Pairwise fun a b => a.timeout ≤ b.timeout
  taskTimers : m'.taskTimers = cs.count .initializeTask
  returned : returned = true ↔
    ∃ t ∈ P.contents m.timers, t.value = kTaskTimerValue ∧ t.timeout ≤ m'.tick

theorem Holds.taskTimers (h : Holds cs m) (hc : Allowed cs) :
    m.taskTimers = cs.count .initializeTask := by
  obtain ⟨htick, task, hcard, htask, hcontents⟩ := h
  have hpending : (pending cs m.tick : Multiset Timer).countP (·.value = kTaskTimerValue) = 0 :=
    Multiset.countP_eq_zero.mpr fun t ht => (hc.timers t (mem_pending ht)).2
  have hall : task.countP (·.value = kTaskTimerValue) = task.card :=
    Multiset.countP_eq_card.mpr fun t ht => (htask t ht).1
  rw [TimerManager.taskTimers, hcontents,
    Multiset.countP_cons_of_neg (p := fun t : Timer => t.value = kTaskTimerValue) _ (by decide),
    Multiset.countP_add, hpending, hall, hcard, Nat.add_zero]

/-- What a `Tick` leaves of the sentinel, the task timers and the others. -/
theorem Drained.parts {task others after : Multiset Timer} {sent : List TimerTimeout} {b : Bool}
    (h : Drained tick (sentinel ::ₘ (task + others)) after sent b) (hlast : tick < sentinel.timeout)
    (htask : ∀ t ∈ task, t.value = kTaskTimerValue)
    (hothers : ∀ t ∈ others, t.value ≠ kTaskTimerValue) :
    after = sentinel ::ₘ (task.filter (tick < ·.timeout) +
        .replicate (task.countP (·.timeout ≤ tick)) (taskTimer tick) +
        others.filter (tick < ·.timeout)) ∧
      (sent : Multiset TimerTimeout) = (others.filter (·.timeout ≤ tick)).map Timer.message := by
  have hnot : ¬sentinel.timeout ≤ tick := not_le_of_gt hlast
  have hcount : others.countP (fun t => t.timeout ≤ tick ∧ t.value = kTaskTimerValue) = 0 :=
    Multiset.countP_eq_zero.mpr fun t ht hr => hothers t ht hr.2
  have hnone : task.filter (fun t => t.timeout ≤ tick ∧ t.value ≠ kTaskTimerValue) = 0 :=
    Multiset.filter_eq_nil.mpr fun t ht hr => hr.2 (htask t ht)
  have hdue : task.countP (fun t => t.timeout ≤ tick ∧ t.value = kTaskTimerValue) =
      task.countP (·.timeout ≤ tick) :=
    Multiset.countP_congr rfl fun t ht => by simp [htask t ht]
  have hsend : others.filter (fun t => t.timeout ≤ tick ∧ t.value ≠ kTaskTimerValue) =
      others.filter (·.timeout ≤ tick) :=
    Multiset.filter_congr fun t ht => by simp [hothers t ht]
  constructor
  · rw [h.left, Multiset.filter_cons_of_pos (p := fun x : Timer => tick < x.timeout) _ hlast,
      Multiset.countP_cons_of_neg _ fun hr => hnot hr.1, Multiset.filter_add, Multiset.countP_add,
      hcount, hdue, Multiset.cons_add, Nat.add_zero, add_right_comm]
  · rw [h.messages, Multiset.filter_cons_of_neg _ fun hr => hnot hr.1, Multiset.filter_add, hnone,
      zero_add, hsend]

/-- **A `Tick`** ends, and sends what is due. -/
theorem Holds.doTick (h : Holds cs m) (hc : Allowed (cs ++ [.tick])) :
    ∃ m' sent returned, (∃ enough, ∀ fuel ≥ enough, m.doTick fuel = .ok (m', sent, returned)) ∧
      Holds (cs ++ [.tick]) m' ∧ OnTime cs m m' sent returned := by
  obtain ⟨htick, task, hcard, htask, hcontents⟩ := h
  have hticks := hc.ticks
  rw [List.count_append, List.count_singleton_self, ← htick] at hticks
  have hmod : (m.tick + 1) % 2 ^ 64 = m.tick + 1 := Nat.mod_eq_of_lt (by omega)
  have hlater : m.tick + 1 < (taskTimer (m.tick + 1)).timeout := by
    show m.tick + 1 < (m.tick + 1 + kTaskTimerPeriod) % 2 ^ 64
    rw [Nat.mod_eq_of_lt hticks]
    exact Nat.lt_add_of_pos_right (by decide)
  have hlast : m.tick + 1 < sentinel.timeout := by
    show m.tick + 1 < 2 ^ 64 - 1
    have hperiod : kTaskTimerPeriod = 2 := rfl
    omega
  -- which of the queued timers are due
  obtain ⟨hleft, hdue⟩ := pending_tick cs
  rw [← htick] at hleft hdue
  have hvalue : ∀ t ∈ pending cs m.tick, t.value ≠ kTaskTimerValue := fun t ht =>
    (hc.init.timers t (mem_pending ht)).2
  have hmem : sentinel ∈ P.contents m.timers := by
    rw [hcontents]
    exact Multiset.mem_cons_self ..
  obtain ⟨timers', sent, returned, hloop, hdrained⟩ :=
    tickLoop_drained hlater ⟨sentinel, hmem, hlast⟩ (Nat.le_refl _) [] false
  rw [hcontents] at hdrained
  obtain ⟨hafter, hsent⟩ := hdrained.parts hlast (fun t ht => (htask t ht).1) hvalue
  rw [Multiset.filter_coe, hleft] at hafter
  rw [Multiset.filter_coe, hdue] at hsent
  have hadded : addedFrom 0 (cs ++ [.tick]) = addedFrom 0 cs := by
    rw [addedFrom_append]
    exact List.append_nil _
  have hpending : pending (cs ++ [.tick]) (m.tick + 1) = pending cs (m.tick + 1) := by
    rw [pending, hadded]
    rfl
  rw [← hpending] at hafter
  have hholds : Holds (cs ++ [.tick]) (⟨m.tick + 1, timers'⟩ : TimerManager P) := by
    refine ⟨?_, _, ?_, fun t ht => ?_, hafter⟩
    · rw [List.count_append, List.count_singleton_self, ← htick]
    · -- the task timer is in one of the two parts
      have hsplit := Multiset.card_eq_countP_add_countP (m.tick + 1 < ·.timeout) task
      simp only [not_lt] at hsplit
      rw [Multiset.card_add, Multiset.card_replicate, ← Multiset.countP_eq_card_filter, ← hsplit,
        List.count_append, List.count_cons_of_ne (by simp), List.count_nil, Nat.add_zero, hcard]
    · rcases Multiset.mem_add.mp ht with ht | ht
      · obtain ⟨ht, hlt⟩ := Multiset.mem_filter.mp ht
        exact ⟨(htask t ht).1, hlt⟩
      · rw [Multiset.eq_of_mem_replicate ht]
        exact ⟨rfl, hlater⟩
  refine ⟨⟨m.tick + 1, timers'⟩, sent, returned,
    ⟨(P.contents m.timers).countP (·.timeout ≤ m.tick + 1) + 1, fun fuel hfuel => ?_⟩, hholds, ?_⟩
  · rw [TimerManager.doTick, hmod, hloop fuel hfuel]
    rfl
  · constructor
    case tick => rw [← htick]
    case messages => exact Multiset.coe_eq_coe.mp hsent
    case ordered => exact hdrained.ordered
    case taskTimers =>
      rw [hholds.taskTimers hc, List.count_append, List.count_cons_of_ne (by simp), List.count_nil,
        Nat.add_zero]
    case returned =>
      rw [hdrained.returned, hcontents]
      simp only [and_comm]

/-- **A run** of calls: every `Tick` of it ends. -/
theorem calls_holds (P : PriorityQueue Timer Timer.lt) (h : Allowed cs) :
    ∃ m : TimerManager P,
      (∃ enough, ∀ fuel ≥ enough, (TimerManager.new P).calls fuel cs = .ok m) ∧ Holds cs m := by
  induction cs using List.reverseRecOn with
  | nil => exact ⟨.new P, ⟨0, fun _ _ => rfl⟩, .new⟩
  | append_singleton cs c ih =>
      obtain ⟨m, ⟨enough, hrun⟩, hm⟩ := ih h.init
      have hsnoc : ∀ fuel ≥ enough,
          (TimerManager.new P).calls fuel (cs ++ [c]) = m.step fuel c := by
        intro fuel hfuel
        have hcs := hrun fuel hfuel
        rw [TimerManager.calls] at hcs ⊢
        rw [List.foldlM_append, hcs]
        exact bind_pure (m.step fuel c)
      cases c with
      | addTimer t => exact ⟨_, ⟨enough, hsnoc⟩, hm.addTimer t⟩
      | initializeTask => exact ⟨_, ⟨enough, hsnoc⟩, hm.initializeTask h⟩
      | tick =>
          obtain ⟨m', sent, returned, ⟨enough', htick⟩, hm', -⟩ := hm.doTick h
          refine ⟨m', ⟨max enough enough', fun fuel hfuel => ?_⟩, hm'⟩
          rw [hsnoc fuel (le_of_max_le_left hfuel), TimerManager.step,
            htick fuel (le_of_max_le_right hfuel)]
          rfl

/-- **Timers fire once, and on time.**  After any calls the queue has one task timer if it was
added, and the next `Tick` ends; it sends, in the order of the timeouts, the timers for which it is
the first tick not before their timeout, and returns whether the task timer was due. -/
theorem timers_fire_once (P : PriorityQueue Timer Timer.lt) (cs : List Call) (h : Allowed cs) :
    ∃ m : TimerManager P,
      (∃ enough, ∀ fuel ≥ enough, (TimerManager.new P).calls fuel cs = .ok m) ∧
      m.taskTimers = cs.count .initializeTask ∧
      (Allowed (cs ++ [.tick]) → ∃ m' sent returned,
        (∃ enough, ∀ fuel ≥ enough, m.doTick fuel = .ok (m', sent, returned)) ∧
        OnTime cs m m' sent returned) := by
  obtain ⟨m, hrun, hm⟩ := calls_holds P h
  refine ⟨m, hrun, hm.taskTimers h, fun hc => ?_⟩
  obtain ⟨m', sent, returned, htick, -, hontime⟩ := hm.doTick hc
  exact ⟨m', sent, returned, htick, hontime⟩

end

/-! ## A run -/

/-- Timers in a sorted list. -/
def sortedTimers : PriorityQueue Timer Timer.lt := .sortedList Timer.timeout

/-- Two timers for the second tick, one of them late, and the task timer. -/
def someCalls : List Call :=
  [.initializeTask, .addTimer ⟨2, -5, 4⟩, .tick, .addTimer ⟨0, 1, 7⟩]

theorem someCalls_allowed : Allowed someCalls where
  timers t ht := by
    simp only [someCalls, List.mem_cons, Call.addTimer.injEq, reduceCtorEq, List.not_mem_nil,
      or_false, false_or] at ht
    rcases ht with rfl | rfl <;> exact ⟨by decide, by decide⟩
  once := by decide
  ticks := by decide

theorem timers_fire_once_some : ∃ m : TimerManager sortedTimers,
    (∃ enough, ∀ fuel ≥ enough, (TimerManager.new sortedTimers).calls fuel someCalls = .ok m) ∧
    m.taskTimers = someCalls.count .initializeTask ∧
    (Allowed (someCalls ++ [.tick]) → ∃ m' sent returned,
      (∃ enough, ∀ fuel ≥ enough, m.doTick fuel = .ok (m', sent, returned)) ∧
      OnTime someCalls m m' sent returned) :=
  timers_fire_once sortedTimers someCalls someCalls_allowed

/-- The second tick sends both, the late one first, and the task timer is due. -/
example : (((TimerManager.new sortedTimers).calls 9 someCalls).bind (·.doTick 9)).map (·.2) =
    .ok ([⟨7, 0, 1⟩, ⟨4, 2, -5⟩], true) := by rfl

end Laplus.Timers
