/-
# `Laplus.Timers.Manager` — the timers (`timer.cpp`)

`TimerManager` over any priority queue.  The loop of `Tick` takes timers off the queue it looks
at, and puts the task timer back; its fuel is there for Lean only: the sentinel ends the loop
behind the last timer that is due (`tickLoop_drained`).
-/
import Laplus.Lib.PriorityQueue
import Mathlib.Algebra.Group.Int.Defs
import Mathlib.Algebra.GroupWithZero.Nat
import Mathlib.Algebra.Order.Group.Multiset

namespace Laplus.Timers

open Lib

/-! ## Timers -/

/-- `Timer`. -/
structure Timer where
  timeout : Nat
  value : Int
  taskId : Nat
deriving DecidableEq

/-- `operator<`: what is further away has less priority. -/
def Timer.lt (lhs rhs : Timer) : Prop := rhs.timeout < lhs.timeout

/-- The greatest `unsigned long`. -/
def ulongMax : Nat := 2 ^ 64 - 1

def kTimerFreq : Nat := 100

/-- `kTimerFreq * 0.02`. -/
def kTaskTimerPeriod : Nat := 2

/-- The greatest `int`. -/
def kTaskTimerValue : Int := 2 ^ 31 - 1

/-- A message `kTimerTimeout` and the task that it is sent to. -/
structure TimerTimeout where
  taskId : Nat
  timeout : Nat
  value : Int
deriving DecidableEq

/-- What is sent for a timer. -/
def Timer.message (t : Timer) : TimerTimeout := ⟨t.taskId, t.timeout, t.value⟩

/-- The timer of the scheduler, from a tick on. -/
def taskTimer (tick : Nat) : Timer := ⟨(tick + kTaskTimerPeriod) % 2 ^ 64, kTaskTimerValue, 1⟩

/-- The timer that is never due. -/
def sentinel : Timer := ⟨ulongMax, 0, 0⟩

/-! ## `TimerManager` -/

/-- Why a `Tick` has no outcome: the loop needs more fuel, or there is no top. -/
inductive Stop where
  | fuel
  | emptyTop
deriving DecidableEq

/-- `TimerManager`. -/
structure TimerManager (P : PriorityQueue Timer Timer.lt) where
  tick : Nat
  timers : P.Queue

/-- The loop of `Tick`; `sent` is what `SendMessage` was called with. -/
def tickLoop (P : PriorityQueue Timer Timer.lt) (tick : Nat) :
    Nat → P.Queue → List TimerTimeout → Bool → Except Stop (P.Queue × List TimerTimeout × Bool)
  | 0, _, _, _ => .error .fuel
  | fuel + 1, timers, sent, taskTimerTimeout =>
      match P.top timers with
      | none => .error .emptyTop
      | some t =>
          if t.timeout > tick then .ok (timers, sent, taskTimerTimeout)
          else if t.value = kTaskTimerValue then
            tickLoop P tick fuel (P.push (P.pop timers) (taskTimer tick)) sent true
          else
            tickLoop P tick fuel (P.pop timers) (sent ++ [t.message]) taskTimerTimeout

namespace TimerManager

variable {P : PriorityQueue Timer Timer.lt}

/-- `TimerManager()`. -/
def new (P : PriorityQueue Timer Timer.lt) : TimerManager P := ⟨0, P.push P.empty sentinel⟩

/-- `AddTimer`. -/
def addTimer (m : TimerManager P) (t : Timer) : TimerManager P :=
  { m with timers := P.push m.timers t }

/-- The timer that `InitializeTask` adds. -/
def initializeTask (m : TimerManager P) : TimerManager P := m.addTimer (taskTimer m.tick)

/-- `Tick`: the messages in order, and what it returns. -/
def doTick (m : TimerManager P) (fuel : Nat) :
    Except Stop (TimerManager P × List TimerTimeout × Bool) :=
  let tick := (m.tick + 1) % 2 ^ 64
  (tickLoop P tick fuel m.timers [] false).map fun r => (⟨tick, r.1⟩, r.2)

end TimerManager

/-! ## The loop -/

section tickLoop

variable {P : PriorityQueue Timer Timer.lt} {tick fuel : Nat}

/-- The timers of a `Tick`: those that are due are gone, their messages sent in order; the task
timer is there again. -/
structure Drained (tick : Nat) (before after : Multiset Timer) (sent : List TimerTimeout)
    (taskTimerTimeout : Bool) : Prop where
  left : after = before.filter (tick < ·.timeout) +
    .replicate (before.countP fun t => t.timeout ≤ tick ∧ t.value = kTaskTimerValue)
      (taskTimer tick)
  messages : (sent : Multiset TimerTimeout) =
    (before.filter fun t => t.timeout ≤ tick ∧ t.value ≠ kTaskTimerValue).map Timer.message
  ordered : sent.Pairwise fun a b => a.timeout ≤ b.timeout
  returned : taskTimerTimeout = true ↔ ∃ t ∈ before, t.timeout ≤ tick ∧ t.value = kTaskTimerValue

namespace Drained

variable {before after : Multiset Timer} {t : Timer} {sent : List TimerTimeout} {b : Bool}

/-- No timer is due. -/
theorem none (h : ∀ t ∈ before, tick < t.timeout) : Drained tick before before [] false := by
  have hnot : ∀ t ∈ before, ¬t.timeout ≤ tick := fun t ht => not_le_of_gt (h t ht)
  constructor
  case left =>
    rw [Multiset.filter_eq_self.mpr h,
      Multiset.countP_eq_zero.mpr fun t ht hdue => hnot t ht hdue.1, Multiset.replicate_zero,
      add_zero]
  case messages =>
    rw [Multiset.filter_eq_nil.mpr fun t ht hdue => hnot t ht hdue.1]
    rfl
  case ordered => exact .nil
  case returned =>
    constructor
    · intro hf
      cases hf
    rintro ⟨t, ht, hdue, -⟩
    exact absurd hdue (hnot t ht)

/-- The task timer is due, and comes back. -/
theorem renew (hdue : t.timeout ≤ tick) (ht : t.value = kTaskTimerValue)
    (hlater : tick < (taskTimer tick).timeout)
    (h : Drained tick (taskTimer tick ::ₘ before) after sent b) :
    Drained tick (t ::ₘ before) after sent true := by
  have hnot : ¬(taskTimer tick).timeout ≤ tick := not_le_of_gt hlater
  constructor
  case left =>
    have hafter := h.left
    rw [Multiset.filter_cons_of_pos (p := fun x : Timer => tick < x.timeout) _ hlater,
      Multiset.countP_cons_of_neg _ fun hr => hnot hr.1] at hafter
    rw [hafter,
      Multiset.filter_cons_of_neg (p := fun x : Timer => tick < x.timeout) _ (not_lt_of_ge hdue),
      Multiset.countP_cons_of_pos _ ⟨hdue, ht⟩, Multiset.replicate_succ, Multiset.cons_add,
      Multiset.add_cons]
  case messages =>
    rw [h.messages, Multiset.filter_cons_of_neg _ fun hr => hnot hr.1,
      Multiset.filter_cons_of_neg _ fun hr => hr.2 ht]
  case ordered => exact h.ordered
  case returned => exact ⟨fun _ => ⟨t, Multiset.mem_cons_self t before, hdue, ht⟩, fun _ => rfl⟩

/-- Another timer is due, and comes before the others. -/
theorem send (hdue : t.timeout ≤ tick) (ht : t.value ≠ kTaskTimerValue)
    (hfirst : ∀ t' ∈ before, t.timeout ≤ t'.timeout) (h : Drained tick before after sent b) :
    Drained tick (t ::ₘ before) after (t.message :: sent) b := by
  constructor
  case left =>
    rw [h.left,
      Multiset.filter_cons_of_neg (p := fun x : Timer => tick < x.timeout) _ (not_lt_of_ge hdue),
      Multiset.countP_cons_of_neg _ fun hr => ht hr.2]
  case messages =>
    rw [Multiset.filter_cons_of_pos _ ⟨hdue, ht⟩, Multiset.map_cons, ← h.messages]
    rfl
  case ordered =>
    refine List.pairwise_cons.mpr ⟨fun x hx => ?_, h.ordered⟩
    have hmem : x ∈ (sent : Multiset TimerTimeout) := hx
    rw [h.messages] at hmem
    obtain ⟨t', ht', rfl⟩ := Multiset.mem_map.mp hmem
    exact hfirst t' (Multiset.mem_filter.mp ht').1
  case returned =>
    rw [h.returned]
    constructor
    · rintro ⟨t', ht', hr⟩
      exact ⟨t', Multiset.mem_cons_of_mem ht', hr⟩
    · rintro ⟨t', ht', hr⟩
      rcases Multiset.mem_cons.mp ht' with rfl | ht'
      · exact absurd hr.2 ht
      · exact ⟨t', ht', hr⟩

end Drained

/-- A top that is not due ends the loop. -/
theorem tickLoop_last {timers : P.Queue} {t : Timer} (htop : P.top timers = some t)
    (hlate : tick < t.timeout) (hfuel : 0 < fuel) (sent : List TimerTimeout) (b : Bool) :
    tickLoop P tick fuel timers sent b = .ok (timers, sent, b) := by
  obtain ⟨fuel, rfl⟩ := Nat.exists_eq_succ_of_ne_zero (Nat.ne_of_gt hfuel)
  rw [tickLoop, htop]
  exact if_pos hlate

/-- **The loop of `Tick`** ends behind the timers that are due, if one is not; it needs no more
fuel than there are timers due. -/
theorem tickLoop_drained {timers : P.Queue} {n : Nat} (hlater : tick < (taskTimer tick).timeout)
    (hend : ∃ t ∈ P.contents timers, tick < t.timeout)
    (hn : (P.contents timers).countP (·.timeout ≤ tick) ≤ n) (sent : List TimerTimeout)
    (taskTimerTimeout : Bool) : ∃ timers' sent' b,
      (∀ fuel > n, tickLoop P tick fuel timers sent taskTimerTimeout =
        .ok (timers', sent ++ sent', taskTimerTimeout || b)) ∧
      Drained tick (P.contents timers) (P.contents timers') sent' b := by
  induction n generalizing timers sent taskTimerTimeout with
  | zero =>
      obtain ⟨last, hlast, -⟩ := hend
      obtain ⟨t, htop⟩ := P.top_of_mem hlast
      have hnone := Multiset.countP_eq_zero.mp (Nat.le_zero.mp hn)
      have hlate : ∀ t' ∈ P.contents timers, tick < t'.timeout := fun t' ht' =>
        Nat.lt_of_not_le (hnone t' ht')
      refine ⟨timers, [], false, fun fuel hfuel => ?_, .none hlate⟩
      rw [List.append_nil, Bool.or_false]
      exact tickLoop_last htop (hlate t (P.top_mem htop)) hfuel sent taskTimerTimeout
  | succ n ih =>
      obtain ⟨last, hlast, hlate⟩ := hend
      obtain ⟨t, htop⟩ := P.top_of_mem hlast
      have hfirst : ∀ t' ∈ P.contents timers, t.timeout ≤ t'.timeout := fun t' ht' =>
        Nat.le_of_not_lt (P.top_greatest htop t' ht')
      have hpop := P.contents_pop htop
      by_cases hdue : t.timeout > tick
      · refine ⟨timers, [], false, fun fuel hfuel => ?_, .none fun t' ht' =>
          hdue.trans_le (hfirst t' ht')⟩
        rw [List.append_nil, Bool.or_false]
        exact tickLoop_last htop hdue (Nat.zero_lt_of_lt hfuel) sent taskTimerTimeout
      · have hle : t.timeout ≤ tick := Nat.le_of_not_lt hdue
        rw [hpop, Multiset.countP_cons_of_pos (p := fun x : Timer => x.timeout ≤ tick) _ hle] at hn
        have hrest : last ∈ P.contents (P.pop timers) := by
          rw [hpop] at hlast
          rcases Multiset.mem_cons.mp hlast with rfl | hlast
          · exact absurd hlate hdue
          · exact hlast
        by_cases htask : t.value = kTaskTimerValue
        · have hpush := P.contents_push (P.pop timers) (taskTimer tick)
          have hend' : ∃ t' ∈ P.contents (P.push (P.pop timers) (taskTimer tick)),
              tick < t'.timeout := by
            rw [hpush]
            exact ⟨last, Multiset.mem_cons_of_mem hrest, hlate⟩
          have hn' : (P.contents (P.push (P.pop timers) (taskTimer tick))).countP
              (·.timeout ≤ tick) ≤ n := by
            rw [hpush, Multiset.countP_cons_of_neg (p := fun x : Timer => x.timeout ≤ tick) _
              (not_le_of_gt hlater)]
            exact Nat.le_of_succ_le_succ hn
          obtain ⟨timers', sent', b, heq, hdrained⟩ := ih hend' hn' sent true
          rw [hpush] at hdrained
          refine ⟨timers', sent', true, fun fuel hfuel => ?_,
            hpop ▸ hdrained.renew hle htask hlater⟩
          obtain ⟨fuel, rfl⟩ := Nat.exists_eq_succ_of_ne_zero (Nat.ne_zero_of_lt hfuel)
          rw [tickLoop, htop]
          simp [hdue, htask, heq fuel (Nat.lt_of_succ_lt_succ hfuel)]
        · obtain ⟨timers', sent', b, heq, hdrained⟩ :=
            ih ⟨last, hrest, hlate⟩ (Nat.le_of_succ_le_succ hn) (sent ++ [t.message])
              taskTimerTimeout
          refine ⟨timers', t.message :: sent', b, fun fuel hfuel => ?_,
            hpop ▸ hdrained.send hle htask fun t' ht' => hfirst t' (P.mem_of_mem_pop htop ht')⟩
          obtain ⟨fuel, rfl⟩ := Nat.exists_eq_succ_of_ne_zero (Nat.ne_zero_of_lt hfuel)
          rw [tickLoop, htop]
          simp [hdue, htask, heq fuel (Nat.lt_of_succ_lt_succ hfuel)]

end tickLoop

end Laplus.Timers
