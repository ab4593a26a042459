/-
# `Laplus.Tasks.WaitFinish` — waiting for a task to finish (`task.cpp`)

`WaitFinish` looks for the record of a finished task, and if there is none notes
itself as the task's waiter and sleeps; a message may wake it early, and then it looks
again.  Its callers have interrupts off, so a test and the sleep after it are one step;
other tasks run while it sleeps.

`Waits` is the invariant: a task in `WaitFinish` is the waiter that is noted, or has been
woken and the record is there.
-/
import Laplus.Tasks.Manager

namespace Laplus.Tasks

open Lib

namespace TaskManager

variable {s s' s'' : TaskManager} {t : Nat} {task : Task}

/-! ## What the calls leave -/

/-- No task is erased and the records stay; only `sleeper` stops to run. -/
structure Quiet (sleeper : Option Nat) (s s' : TaskManager) : Prop where
  finishTasks : s'.finishTasks = s.finishTasks
  finishWaiter : s'.finishWaiter = s.finishWaiter
  latestId : s.latestId ≤ s'.latestId
  live : ∀ u, s.Live u → s'.Live u
  dead : ∀ u, s'.Live u → s.Live u ∨ s.latestId < u
  running : ∀ u, sleeper ≠ some u → s.Running u → s'.Running u

/-- The tasks are the same. -/
theorem Quiet.of_tasks {sleeper : Option Nat} (h : s'.tasks = s.tasks)
    (hlatest : s'.latestId = s.latestId) (hfinish : s'.finishTasks = s.finishTasks)
    (hwaiter : s'.finishWaiter = s.finishWaiter) : Quiet sleeper s s' where
  finishTasks := hfinish
  finishWaiter := hwaiter
  latestId := hlatest.ge
  live u hu := by rwa [Live, h]
  dead u hu := .inl (by rwa [Live, h] at hu)
  running u _ hu := by rwa [Running, lane, h]

/-- A live task is set anew, and runs if it did. -/
theorem Quiet.of_set {sleeper : Option Nat} {x : Task} (htask : s.tasks t = some task)
    (h : s'.tasks = Function.update s.tasks t (some x)) (hlatest : s'.latestId = s.latestId)
    (hfinish : s'.finishTasks = s.finishTasks) (hwaiter : s'.finishWaiter = s.finishWaiter)
    (hruns : sleeper ≠ some t → task.lane ≠ none → x.lane ≠ none) : Quiet sleeper s s' where
  finishTasks := hfinish
  finishWaiter := hwaiter
  latestId := hlatest.ge
  live u hu := (live_iff h (live_of_task htask) u).mpr hu
  dead u hu := .inl ((live_iff h (live_of_task htask) u).mp hu)
  running u hne hu := by
    rw [Running, lane_eq h]
    by_cases hut : u = t
    · subst hut
      rw [Function.update_self]
      rw [Running, lane_of_task htask] at hu
      exact hruns hne hu
    · rw [Function.update_of_ne hut]
      exact hu

/-- `RotateCurrentRunQueue` changes the queues and the level. -/
theorem rotate_eq (s : TaskManager) (currentSleep : Bool) :
    ∃ running level changed, s.rotateCurrentRunQueue currentSleep =
      { s with running, currentLevel := level, levelChanged := changed } := by
  have hpick : ∀ s : TaskManager, ∃ level changed,
      s.pickLevel = { s with currentLevel := level, levelChanged := changed } := by
    intro s
    rw [pickLevel]
    cases (s.running s.currentLevel).isEmpty with
    | true => exact ⟨_, _, rfl⟩
    | false =>
        simp only [Bool.false_eq_true, if_false]
        split
        · exact ⟨_, _, rfl⟩
        · exact ⟨_, _, rfl⟩
  rw [rotateCurrentRunQueue]
  split
  · exact ⟨_, _, _, rfl⟩
  · rename_i currentTask queue _
    obtain ⟨level, changed, hstate⟩ := hpick { s with
      running := Function.update s.running s.currentLevel
        (if currentSleep then queue else queue ++ [currentTask]) }
    exact ⟨_, level, changed, hstate⟩

theorem quiet_switchTask (s : TaskManager) : Quiet none s s.switchTask := by
  obtain ⟨running, level, changed, hstate⟩ := s.rotate_eq false
  rw [switchTask, hstate]
  exact .of_tasks rfl rfl rfl rfl

theorem quiet_newTask (h : s.Scheduled) : Quiet none s s.newTask := by
  have hdead : s.tasks (s.latestId + 1) = none := by
    by_contra hlive
    have hle := h.ids (s.latestId + 1) (Option.isSome_iff_ne_none.mpr hlive)
    omega
  have hother : ∀ u, u ≠ s.latestId + 1 → s.newTask.tasks u = s.tasks u := fun u hu =>
    Function.update_of_ne hu _ _
  have hne : ∀ u, s.Live u → u ≠ s.latestId + 1 := by
    rintro u hu rfl
    rw [Live, hdead] at hu
    cases hu
  constructor
  case finishTasks => rfl
  case finishWaiter => rfl
  case latestId => exact Nat.le_succ _
  case live =>
    intro u hu
    rw [Live, hother u (hne u hu)]
    exact hu
  case dead =>
    intro u hu
    by_cases hul : u = s.latestId + 1
    · exact .inr (by omega)
    · rw [Live, hother u hul] at hu
      exact .inl hu
  case running =>
    intro u _ hu
    rw [Running, lane, hother u (hne u (live_of_lane hu))]
    exact hu

theorem quiet_sleep (s : TaskManager) (t : Nat) : Quiet (some t) s (s.sleep t) := by
  cases htask : s.tasks t with
  | none =>
      have hsame : s.sleep t = s := by simp only [sleep, htask]
      rw [hsame]
      exact .of_tasks rfl rfl rfl rfl
  | some task =>
      cases hrunning : task.running with
      | false =>
          have hsame : s.sleep t = s := by
            simp only [sleep, htask, hrunning, Bool.not_false, if_true]
          rw [hsame]
          exact .of_tasks rfl rfl rfl rfl
      | true =>
          simp only [sleep, htask, hrunning, Bool.not_true, Bool.false_eq_true, if_false]
          by_cases hcurrent : s.currentTask = some t
          · rw [if_pos hcurrent]
            obtain ⟨running, level, changed, hstate⟩ := rotate_eq { s with
              tasks := Function.update s.tasks t (some { task with running := false }) } true
            rw [hstate]
            exact .of_set htask rfl rfl rfl rfl fun hne => absurd rfl hne
          · rw [if_neg hcurrent]
            exact .of_set htask rfl rfl rfl rfl fun hne => absurd rfl hne

theorem quiet_changeLevelRunning (s : TaskManager) (t : Nat) (level : Option (Fin 4)) :
    Quiet none s (s.changeLevelRunning t level) := by
  cases htask : s.tasks t with
  | none =>
      have hsame : s.changeLevelRunning t level = s := by
        simp only [changeLevelRunning, htask]
      rw [hsame]
      exact .of_tasks rfl rfl rfl rfl
  | some task =>
      cases level with
      | none =>
          have hsame : s.changeLevelRunning t none = s := by
            simp only [changeLevelRunning, htask]
          rw [hsame]
          exact .of_tasks rfl rfl rfl rfl
      | some level =>
          have hruns : task.lane ≠ none → Task.lane { task with level } ≠ none := by
            rw [Task.lane, Task.lane]
            cases task.running with
            | true => exact fun _ => Option.some_ne_none level
            | false => exact fun hne => absurd rfl hne
          simp only [changeLevelRunning, htask]
          split
          · exact .of_tasks rfl rfl rfl rfl
          · split
            · exact .of_set htask rfl rfl rfl rfl fun _ => hruns
            · exact .of_set htask rfl rfl rfl rfl fun _ => hruns

/-- A wake-up; the task runs after it. -/
theorem quiet_wakeup (s : TaskManager) (t : Nat) (level : Option (Fin 4)) :
    Quiet none s (s.wakeup t level) ∧ (s.Live t → (s.wakeup t level).Running t) := by
  cases htask : s.tasks t with
  | none =>
      have hsame : s.wakeup t level = s := by simp only [wakeup, htask]
      rw [hsame]
      refine ⟨.of_tasks rfl rfl rfl rfl, fun hlive => ?_⟩
      rw [Live, htask] at hlive
      cases hlive
  | some task =>
      cases hrunning : task.running with
      | true =>
          have hstate : s.wakeup t level = s.changeLevelRunning t level := by
            simp only [wakeup, htask, hrunning, if_true]
          have hquiet := s.quiet_changeLevelRunning t level
          rw [hstate]
          refine ⟨hquiet, fun _ => hquiet.running t (Option.some_ne_none t).symm ?_⟩
          rw [Running, lane_of_task htask, Task.lane, hrunning]
          exact Option.some_ne_none task.level
      | false =>
          simp only [wakeup, htask, hrunning, Bool.false_eq_true, if_false]
          refine ⟨.of_set htask rfl rfl rfl rfl fun _ _ => Option.some_ne_none _, fun _ => ?_⟩
          rw [Running, lane_eq (s := s) rfl, Function.update_self]
          exact Option.some_ne_none _

theorem Quiet.trans {sleeper : Option Nat} (h : Quiet sleeper s s') (h' : Quiet sleeper s' s'') :
    Quiet sleeper s s'' where
  finishTasks := h'.finishTasks.trans h.finishTasks
  finishWaiter := h'.finishWaiter.trans h.finishWaiter
  latestId := h.latestId.trans h'.latestId
  live u hu := h'.live u (h.live u hu)
  dead u hu := by
    have hle := h.latestId
    rcases h'.dead u hu with hlive | hlt
    · exact h.dead u hlive
    · exact .inr (by omega)
  running u hne hu := h'.running u hne (h.running u hne hu)

theorem quiet_sendMessage (s : TaskManager) (t : Nat) (msg : Message) :
    Quiet none s (s.sendMessage t msg) := by
  refine Quiet.trans ?_ (quiet_wakeup _ t none).1
  cases htask : s.tasks t with
  | none =>
      have hsame : Function.update s.tasks t (Option.map (fun task => Task.pushBack task msg) none) =
          s.tasks := Function.update_eq_self_iff.mpr htask.symm
      rw [hsame]
      exact .of_tasks rfl rfl rfl rfl
  | some task => exact .of_set htask rfl rfl rfl rfl fun _ hlane => hlane

/-- What `Finish` leaves: its task is erased, with a record, and its waiter runs. -/
structure Finished (exitCode : Int) (s s' : TaskManager) : Prop where
  finishTasks : s'.finishTasks = Function.update s.finishTasks s.executing (some exitCode)
  finishWaiter : s'.finishWaiter = Function.update s.finishWaiter s.executing none
  latestId : s.latestId ≤ s'.latestId
  live : ∀ u, u ≠ s.executing → s.Live u → s'.Live u
  dead : ∀ u, s'.Live u → s.Live u ∧ u ≠ s.executing ∨ s.latestId < u
  running : ∀ u, u ≠ s.executing → s.Running u → s'.Running u
  woken : ∀ waiter, s.finishWaiter s.executing = some waiter → s.Live waiter →
    waiter ≠ s.executing → s'.Running waiter

theorem finished_finish (h : s.Scheduled) (exitCode : Int) :
    Finished exitCode s (s.finish exitCode) := by
  obtain ⟨running, level, changed, hstate⟩ := s.rotate_eq true
  -- the task is erased
  have htasks : ∀ s' : TaskManager, s'.tasks = Function.update s.tasks s.executing none →
      ∀ u, s'.Live u ↔ s.Live u ∧ u ≠ s.executing := by
    intro s' hs' u
    rw [Live, hs']
    by_cases hu : u = s.executing
    · rw [hu, Function.update_self]
      simp
    · rw [Function.update_of_ne hu]
      simp [hu, Live]
  have hruns : ∀ s' : TaskManager, s'.tasks = Function.update s.tasks s.executing none →
      ∀ u, u ≠ s.executing → s.Running u → s'.Running u := by
    intro s' hs' u hu hrun
    rw [Running, lane_eq hs', Function.update_of_ne hu]
    exact hrun
  simp only [finish, h.current, hstate, wakeWaiter, erase]
  cases hwaiter : s.finishWaiter s.executing with
  | none =>
      simp only
      have hnone : s.finishWaiter = Function.update s.finishWaiter s.executing none :=
        (Function.update_eq_self_iff.mpr hwaiter.symm).symm
      exact {
        finishTasks := rfl
        finishWaiter := hnone
        latestId := Nat.le_refl _
        live := fun u hu hlive => (htasks _ rfl u).mpr ⟨hlive, hu⟩
        dead := fun u hlive => .inl ((htasks _ rfl u).mp hlive)
        running := fun u hu hrun => hruns _ rfl u hu hrun
        woken := fun waiter hw => by rw [hwaiter] at hw; cases hw }
  | some waiter =>
      simp only
      obtain ⟨hquiet, hwoken⟩ := quiet_wakeup { s with
        running, currentLevel := level, levelChanged := changed
        tasks := Function.update s.tasks s.executing none
        finishTasks := Function.update s.finishTasks s.executing (some exitCode)
        finishWaiter := Function.update s.finishWaiter s.executing none } waiter none
      exact {
        finishTasks := hquiet.finishTasks
        finishWaiter := hquiet.finishWaiter
        latestId := hquiet.latestId
        live := fun u hu hlive => hquiet.live u ((htasks _ rfl u).mpr ⟨hlive, hu⟩)
        dead := fun u hlive => (hquiet.dead u hlive).imp_left (htasks _ rfl u).mp
        running := fun u hu hrun => hquiet.running u (Option.some_ne_none u).symm
          (hruns _ rfl u hu hrun)
        woken := fun w hw hlive hne => by
          rw [hwaiter] at hw
          obtain rfl := Option.some.inj hw
          exact hwoken ((htasks _ rfl waiter).mpr ⟨hlive, hne⟩) }

end TaskManager

/-! ## The tasks and their calls -/

/-- A return of `WaitFinish`. -/
structure Return where
  waiter : Nat
  task : Nat
  exitCode : Int

/-- The manager, the call of `WaitFinish` that each task is in, the exit codes with which tasks
have finished, the returns of `WaitFinish`, and the tasks it was called for. -/
structure WaitSystem where
  manager : TaskManager
  inside : Nat → Option Nat
  exitCodes : Nat → Option Int
  returned : List Return
  called : List Nat

/-- `WaitFinish` is called for a task, the loop of `WaitFinish` goes round, or something else
happens. -/
inductive WaitEvent where
  | call (t : Nat)
  | resume
  | other (c : TaskCall)

namespace WaitSystem

/-- The first task runs. -/
def start : WaitSystem := ⟨.new, fun _ => none, fun _ => none, [], []⟩

/-- The task that the processor runs goes through the loop of `WaitFinish`. -/
def enter (s : WaitSystem) (t : Nat) : WaitSystem :=
  let u := s.manager.executing
  match s.manager.waitFinish t with
  | (manager, some exitCode) =>
      { s with
        manager
        inside := Function.update s.inside u none
        returned := ⟨u, t, exitCode⟩ :: s.returned }
  | (manager, none) => { s with manager, inside := Function.update s.inside u (some t) }

def step (s : WaitSystem) : WaitEvent → WaitSystem
  | .call t => { s with called := t :: s.called }.enter t
  | .resume =>
      match s.inside s.manager.executing with
      | none => s
      | some t => s.enter t
  | .other c =>
      { s with
        manager := s.manager.step c
        exitCodes := match c with
          | .finish exitCode =>
              Function.update s.exitCodes s.manager.executing (some exitCode)
          | _ => s.exitCodes }

/-- `WaitFinish` is called once for a task, by another; a task that is in it does not finish, and
nobody else puts it to sleep. -/
def Admits (s : WaitSystem) : WaitEvent → Prop
  | .call t => s.inside s.manager.executing = none ∧ s.manager.executing ≠ idleId ∧
      t ≠ s.manager.executing ∧ t ∉ s.called
  | .resume => True
  | .other (.newTask) => True
  | .other (.wakeup t _) => s.manager.Live t
  | .other (.sleep t) => s.manager.Live t ∧ t ≠ idleId ∧ s.inside t = none
  | .other (.switchTask) => True
  | .other (.finish _) => s.manager.executing ≠ idleId ∧ s.inside s.manager.executing = none
  | .other (.changeLevelRunning t _) => s.manager.Running t
  | .other (.sendMessage t _) => s.manager.Live t
  | .other (.waitFinish _) => False

instance (s : WaitSystem) : (e : WaitEvent) → Decidable (s.Admits e)
  | .call t => inferInstanceAs (Decidable (s.inside s.manager.executing = none ∧
      s.manager.executing ≠ idleId ∧ t ≠ s.manager.executing ∧ t ∉ s.called))
  | .resume => isTrue trivial
  | .other (.newTask) => isTrue trivial
  | .other (.wakeup t _) => inferInstanceAs (Decidable (s.manager.Live t))
  | .other (.sleep t) =>
      inferInstanceAs (Decidable (s.manager.Live t ∧ t ≠ idleId ∧ s.inside t = none))
  | .other (.switchTask) => isTrue trivial
  | .other (.finish _) => inferInstanceAs (Decidable
      (s.manager.executing ≠ idleId ∧ s.inside s.manager.executing = none))
  | .other (.changeLevelRunning t _) => inferInstanceAs (Decidable (s.manager.Running t))
  | .other (.sendMessage t _) => inferInstanceAs (Decidable (s.manager.Live t))
  | .other (.waitFinish _) => isFalse not_false

end WaitSystem

/-- **Who waits for whom.** -/
structure Waits (s : WaitSystem) : Prop where
  scheduled : s.manager.Scheduled
  gone : ∀ t c, s.exitCodes t = some c → ¬s.manager.Live t ∧ t ≤ s.manager.latestId
  inside : ∀ u t, s.inside u = some t → s.manager.Live u ∧ u ≠ idleId ∧
    (s.exitCodes t = none ∧ s.manager.finishWaiter t = some u ∨
      ∃ c, s.manager.finishTasks t = some c ∧ s.manager.Running u)
  waiter : ∀ t u, s.manager.finishWaiter t = some u → s.inside u = some t ∧ s.exitCodes t = none
  record : ∀ t c, s.manager.finishTasks t = some c → s.exitCodes t = some c
  kept : ∀ t c, s.exitCodes t = some c →
    s.manager.finishTasks t = some c ∨ ∃ r ∈ s.returned, r.task = t
  returned : ∀ r ∈ s.returned, s.exitCodes r.task = some r.exitCode ∧
    s.manager.finishTasks r.task = none ∧ ∀ u, s.inside u ≠ some r.task
  once : (s.returned.map Return.task).Nodup
  alone : ∀ u v t, s.inside u = some t → s.inside v = some t → u = v

/-- What `WaitFinish` is called for. -/
structure Called (s : WaitSystem) : Prop where
  inside : ∀ u t, s.inside u = some t → t ∈ s.called
  returned : ∀ r ∈ s.returned, r.task ∈ s.called

namespace Waits

variable {s s' : WaitSystem} {t : Nat}

/-- A change that leaves the records and wakes or stops nobody in `WaitFinish`. -/
theorem quiet (h : Waits s) {manager : TaskManager} {sleeper : Option Nat}
    (hquiet : TaskManager.Quiet sleeper s.manager manager) (hscheduled : manager.Scheduled)
    (hsleeper : ∀ u, sleeper = some u → s.inside u = none) : Waits { s with manager } := by
  obtain ⟨hfinish, hwaiter, hlatest, hlive, hdead, hrunning⟩ := hquiet
  constructor
  case scheduled => exact hscheduled
  case gone =>
    intro t c hc
    obtain ⟨hgone, hle⟩ := h.gone t c hc
    refine ⟨fun hl => ?_, hle.trans hlatest⟩
    rcases hdead t hl with hl | hlt
    · exact hgone hl
    · omega
  case inside =>
    intro u t hu
    obtain ⟨hl, hidle, hcase⟩ := h.inside u t hu
    refine ⟨hlive u hl, hidle, ?_⟩
    rw [hwaiter, hfinish]
    refine hcase.imp_right fun ⟨c, hc, hrun⟩ => ⟨c, hc, hrunning u (fun heq => ?_) hrun⟩
    have hnone := hsleeper u heq
    rw [hu] at hnone
    cases hnone
  case waiter => rw [hwaiter]; exact h.waiter
  case record => rw [hfinish]; exact h.record
  case kept => rw [hfinish]; exact h.kept
  case returned => rw [hfinish]; exact h.returned
  case once => exact h.once
  case alone => exact h.alone

theorem start : Waits .start where
  scheduled := TaskManager.scheduled_new
  gone t c hc := by cases hc
  inside u t hu := by cases hu
  waiter t u hu := by cases hu
  record t c hc := by cases hc
  kept t c hc := by cases hc
  returned r hr := by cases hr
  once := List.nodup_nil
  alone u v t hu := by cases hu

/-- The processor runs a live task. -/
theorem executing_live (h : Waits s) : s.manager.Live s.manager.executing := by
  refine TaskManager.live_of_lane ?_
  rw [h.scheduled.lane_executing]
  exact Option.some_ne_none _

/-- The loop finds the record. -/
theorem enter_found (h : Waits s) {c : Int} (hrecord : s.manager.finishTasks t = some c)
    (hidle : s.manager.executing ≠ idleId)
    (hinside : ∀ v, s.inside v = some t → v = s.manager.executing)
    (hself : ∀ t', s.inside s.manager.executing = some t' → t' = t) : Waits (s.enter t) := by
  have hcode := h.record t c hrecord
  have hstate : s.enter t = { s with
      manager := { s.manager with
        finishTasks := Function.update s.manager.finishTasks t none }
      inside := Function.update s.inside s.manager.executing none
      returned := ⟨s.manager.executing, t, c⟩ :: s.returned } := by
    simp only [WaitSystem.enter, TaskManager.waitFinish, hrecord]
  have hscheduled := h.scheduled.waitFinish t hidle
  simp only [TaskManager.waitFinish, hrecord] at hscheduled
  -- the tasks in `WaitFinish` are those that were, without this one
  have hstill : ∀ v t', Function.update s.inside s.manager.executing none v = some t' →
      s.inside v = some t' ∧ v ≠ s.manager.executing := by
    intro v t' hv
    by_cases hve : v = s.manager.executing
    · rw [hve, Function.update_self] at hv
      cases hv
    · rw [Function.update_of_ne hve] at hv
      exact ⟨hv, hve⟩
  rw [hstate]
  constructor
  case scheduled => exact hscheduled
  case gone => exact h.gone
  case inside =>
    intro v t' hv
    obtain ⟨hv, hve⟩ := hstill v t' hv
    obtain ⟨hlive, hvidle, hcase⟩ := h.inside v t' hv
    have htt : t' ≠ t := fun heq => hve (hinside v (heq ▸ hv))
    refine ⟨hlive, hvidle, ?_⟩
    rcases hcase with hwaits | ⟨c', hc', hrun⟩
    · exact .inl hwaits
    · exact .inr ⟨c', (Function.update_of_ne htt _ _).trans hc', hrun⟩
  case waiter =>
    intro t' v hv
    obtain ⟨hin, hnone⟩ := h.waiter t' v hv
    have hve : v ≠ s.manager.executing := fun heq => by
      have htt := hself t' (heq ▸ hin)
      rw [htt, hcode] at hnone
      cases hnone
    exact ⟨(Function.update_of_ne hve _ _).trans hin, hnone⟩
  case record =>
    intro t' c' hc'
    by_cases htt : t' = t
    · subst htt
      simp only [Function.update_self] at hc'
      cases hc'
    · simp only [Function.update_of_ne htt] at hc'
      exact h.record t' c' hc'
  case kept =>
    intro t' c' hc'
    by_cases htt : t' = t
    · exact .inr ⟨_, List.mem_cons_self, htt.symm⟩
    · rcases h.kept t' c' hc' with hold | ⟨r, hr, hrt⟩
      · exact .inl ((Function.update_of_ne htt _ _).trans hold)
      · exact .inr ⟨r, List.mem_cons_of_mem _ hr, hrt⟩
  case returned =>
    intro r hr
    rcases List.mem_cons.mp hr with rfl | hr
    · refine ⟨hcode, Function.update_self _ _ _, fun v hv => ?_⟩
      obtain ⟨hv, hve⟩ := hstill v t hv
      exact hve (hinside v hv)
    · obtain ⟨hc', hnone, hin⟩ := h.returned r hr
      refine ⟨hc', ?_, fun v hv => hin v (hstill v _ hv).1⟩
      by_cases htt : r.task = t
      · rw [htt]
        exact Function.update_self _ _ _
      · exact (Function.update_of_ne htt _ _).trans hnone
  case once =>
    rw [List.map_cons, List.nodup_cons]
    refine ⟨fun hmem => ?_, h.once⟩
    obtain ⟨r, hr, hrt⟩ := List.mem_map.mp hmem
    have hnone := (h.returned r hr).2.1
    simp only at hrt
    rw [hrt, hrecord] at hnone
    cases hnone
  case alone =>
    intro v w t' hv hw
    exact h.alone v w t' (hstill v t' hv).1 (hstill w t' hw).1

/-- The loop finds no record, and the task sleeps. -/
theorem enter_sleeps (h : Waits s) (hrecord : s.manager.finishTasks t = none)
    (hidle : s.manager.executing ≠ idleId) (hcode : s.exitCodes t = none)
    (hinside : ∀ v, s.inside v = some t → v = s.manager.executing)
    (hself : ∀ t', s.inside s.manager.executing = some t' → t' = t) : Waits (s.enter t) := by
  have hstate : s.enter t = { s with
      manager := { s.manager with
        finishWaiter := Function.update s.manager.finishWaiter t
          (some s.manager.executing) }.sleep s.manager.executing
      inside := Function.update s.inside s.manager.executing (some t) } := by
    simp only [WaitSystem.enter, TaskManager.waitFinish, hrecord]
  have hscheduled := h.scheduled.waitFinish t hidle
  simp only [TaskManager.waitFinish, hrecord] at hscheduled
  obtain ⟨hfinish, hwaiter, hlatest, hlive, hdead, hrunning⟩ := TaskManager.quiet_sleep
    { s.manager with
      finishWaiter := Function.update s.manager.finishWaiter t (some s.manager.executing) }
    s.manager.executing
  have hexecuting := h.executing_live
  rw [hstate]
  constructor
  case scheduled => exact hscheduled
  case gone =>
    intro t' c hc
    obtain ⟨hgone, hle⟩ := h.gone t' c hc
    refine ⟨fun hl => ?_, hle.trans hlatest⟩
    rcases hdead t' hl with hl | hlt
    · exact hgone hl
    · exact absurd hlt (Nat.not_lt.mpr hle)
  case inside =>
    intro v t' hv
    by_cases hve : v = s.manager.executing
    · subst hve
      simp only [Function.update_self] at hv
      obtain rfl := Option.some.inj hv
      refine ⟨hlive _ hexecuting, hidle, .inl ⟨hcode, ?_⟩⟩
      rw [hwaiter]
      exact Function.update_self _ _ _
    · simp only [Function.update_of_ne hve] at hv
      obtain ⟨hl, hvidle, hcase⟩ := h.inside v t' hv
      have htt : t' ≠ t := fun heq => hve (hinside v (heq ▸ hv))
      refine ⟨hlive v hl, hvidle, hcase.imp ?_ ?_⟩
      · rintro ⟨hnone, hold⟩
        refine ⟨hnone, ?_⟩
        rw [hwaiter]
        exact (Function.update_of_ne htt _ _).trans hold
      · rintro ⟨c, hc, hrun⟩
        refine ⟨c, ?_, hrunning v (fun heq => hve (Option.some.inj heq).symm) hrun⟩
        rw [hfinish]
        exact hc
  case waiter =>
    intro t' v hv
    rw [hwaiter] at hv
    by_cases htt : t' = t
    · subst htt
      simp only [Function.update_self] at hv
      obtain rfl := Option.some.inj hv
      exact ⟨Function.update_self _ _ _, hcode⟩
    · simp only [Function.update_of_ne htt] at hv
      obtain ⟨hin, hnone⟩ := h.waiter t' v hv
      have hve : v ≠ s.manager.executing := fun heq => htt (hself t' (heq ▸ hin))
      exact ⟨(Function.update_of_ne hve _ _).trans hin, hnone⟩
  case record => rw [hfinish]; exact h.record
  case kept => rw [hfinish]; exact h.kept
  case returned =>
    intro r hr
    obtain ⟨hc, hnone, hin⟩ := h.returned r hr
    rw [hfinish]
    refine ⟨hc, hnone, fun v hv => ?_⟩
    by_cases hve : v = s.manager.executing
    · subst hve
      simp only [Function.update_self] at hv
      rw [← Option.some.inj hv, hcode] at hc
      cases hc
    · simp only [Function.update_of_ne hve] at hv
      exact hin v hv
  case once => exact h.once
  case alone =>
    intro v w t' hv hw
    have hold : ∀ v, Function.update s.inside s.manager.executing (some t) v = some t' →
        v = s.manager.executing ∧ t' = t ∨ v ≠ s.manager.executing ∧ s.inside v = some t' := by
      intro v hv
      by_cases hve : v = s.manager.executing
      · subst hve
        rw [Function.update_self] at hv
        exact .inl ⟨rfl, (Option.some.inj hv).symm⟩
      · rw [Function.update_of_ne hve] at hv
        exact .inr ⟨hve, hv⟩
    rcases hold v hv with ⟨rfl, rfl⟩ | ⟨hve, hv⟩ <;> rcases hold w hw with ⟨rfl, heq⟩ | ⟨hwe, hw⟩
    · rfl
    · exact absurd (hinside w hw) hwe
    · exact absurd (hinside v (heq ▸ hv)) hve
    · exact h.alone v w t' hv hw

/-- **The loop of `WaitFinish`.** -/
theorem enter (h : Waits s) (hidle : s.manager.executing ≠ idleId)
    (hinside : ∀ v, s.inside v = some t → v = s.manager.executing)
    (hself : ∀ t', s.inside s.manager.executing = some t' → t' = t)
    (hreturned : ∀ r ∈ s.returned, r.task ≠ t) : Waits (s.enter t) := by
  cases hrecord : s.manager.finishTasks t with
  | some c => exact h.enter_found hrecord hidle hinside hself
  | none =>
      refine h.enter_sleeps hrecord hidle ?_ hinside hself
      -- a record that is gone has been returned
      by_contra hsome
      obtain ⟨c, hc⟩ := Option.ne_none_iff_exists'.mp hsome
      rcases h.kept t c hc with hkept | ⟨r, hr, hrt⟩
      · rw [hrecord] at hkept
        cases hkept
      · exact hreturned r hr hrt

/-- **`Finish`.** -/
theorem finish (h : Waits s) (c : Int) (hidle : s.manager.executing ≠ idleId)
    (hnot : s.inside s.manager.executing = none) :
    Waits (s.step (.other (.finish c))) := by
  obtain ⟨hfinish, hwaiter, hlatest, hlive, hdead, hrunning, hwoken⟩ :=
    TaskManager.finished_finish h.scheduled c
  have hexecuting := h.executing_live
  have hfresh : s.exitCodes s.manager.executing = none := by
    by_contra hsome
    obtain ⟨c', hc'⟩ := Option.ne_none_iff_exists'.mp hsome
    exact (h.gone _ c' hc').1 hexecuting
  have hcodes : ∀ t, t ≠ s.manager.executing →
      (s.step (.other (.finish c))).exitCodes t = s.exitCodes t := fun t ht =>
    Function.update_of_ne ht _ _
  have hself : (s.step (.other (.finish c))).exitCodes s.manager.executing = some c :=
    Function.update_self _ _ _
  have hmanager : (s.step (.other (.finish c))).manager = s.manager.finish c := rfl
  constructor
  case scheduled => exact h.scheduled.finish c hidle
  case gone =>
    intro t c' hc'
    rw [hmanager]
    by_cases ht : t = s.manager.executing
    · subst ht
      have hle := h.scheduled.ids _ hexecuting
      refine ⟨fun hl => ?_, hle.trans hlatest⟩
      rcases hdead _ hl with ⟨_, hne⟩ | hlt
      · exact hne rfl
      · omega
    · rw [hcodes t ht] at hc'
      obtain ⟨hgone, hle⟩ := h.gone t c' hc'
      refine ⟨fun hl => ?_, hle.trans hlatest⟩
      rcases hdead t hl with ⟨hl, _⟩ | hlt
      · exact hgone hl
      · omega
  case inside =>
    intro u t hu
    obtain ⟨hl, huidle, hcase⟩ := h.inside u t hu
    have hue : u ≠ s.manager.executing := fun heq => by
      rw [← heq] at hnot
      exact absurd (hu.symm.trans hnot) (Option.some_ne_none t)
    refine ⟨hlive u hue hl, huidle, ?_⟩
    rw [hmanager, hfinish, hwaiter]
    by_cases ht : t = s.manager.executing
    · -- the waiter is woken
      subst ht
      rcases hcase with ⟨_, hw⟩ | ⟨c', hc', _⟩
      · exact .inr ⟨c, Function.update_self _ _ _, hwoken u hw hl hue⟩
      · have hc'' := h.record _ c' hc'
        rw [hfresh] at hc''
        cases hc''
    · rw [hcodes t ht, Function.update_of_ne ht, Function.update_of_ne ht]
      exact hcase.imp_right fun ⟨c', hc', hrun⟩ => ⟨c', hc', hrunning u hue hrun⟩
  case waiter =>
    intro t u hu
    rw [hmanager, hwaiter] at hu
    by_cases ht : t = s.manager.executing
    · rw [ht, Function.update_self] at hu
      cases hu
    · rw [Function.update_of_ne ht] at hu
      rw [hcodes t ht]
      exact h.waiter t u hu
  case record =>
    intro t c' hc'
    rw [hmanager, hfinish] at hc'
    by_cases ht : t = s.manager.executing
    · subst ht
      rw [Function.update_self] at hc'
      rw [hself]
      exact hc'
    · rw [Function.update_of_ne ht] at hc'
      rw [hcodes t ht]
      exact h.record t c' hc'
  case kept =>
    intro t c' hc'
    rw [hmanager, hfinish]
    by_cases ht : t = s.manager.executing
    · subst ht
      rw [hself] at hc'
      rw [Function.update_self]
      exact .inl hc'
    · rw [hcodes t ht] at hc'
      rw [Function.update_of_ne ht]
      exact h.kept t c' hc'
  case returned =>
    intro r hr
    obtain ⟨hc', hnone, hin⟩ := h.returned r hr
    have ht : r.task ≠ s.manager.executing := fun heq => by
      rw [heq, hfresh] at hc'
      cases hc'
    rw [hmanager, hfinish, hcodes _ ht, Function.update_of_ne ht]
    exact ⟨hc', hnone, hin⟩
  case once => exact h.once
  case alone => exact h.alone

/-- **A step.** -/
theorem step (h : Waits s) (hcalled : Called s) {e : WaitEvent} (he : s.Admits e) :
    Waits (s.step e) := by
  cases e with
  | call t =>
      obtain ⟨hnot, hidle, _, hnew⟩ := he
      have h' : Waits { s with called := t :: s.called } :=
        ⟨h.scheduled, h.gone, h.inside, h.waiter, h.record, h.kept, h.returned, h.once, h.alone⟩
      refine h'.enter hidle (fun v hv => absurd (hcalled.inside v t hv) hnew) (fun t' ht' => ?_)
        fun r hr hrt => hnew (hrt ▸ hcalled.returned r hr)
      exact absurd (ht'.symm.trans hnot) (Option.some_ne_none t')
  | resume =>
      cases hin : s.inside s.manager.executing with
      | none =>
          have hsame : s.step .resume = s := by simp only [WaitSystem.step, hin]
          rw [hsame]
          exact h
      | some t =>
          have hstate : s.step .resume = s.enter t := by simp only [WaitSystem.step, hin]
          rw [hstate]
          refine h.enter (h.inside _ t hin).2.1 (fun v hv => h.alone v _ t hv hin)
            (fun t' ht' => Option.some.inj (ht'.symm.trans hin)) fun r hr hrt => ?_
          exact (h.returned r hr).2.2 _ (hrt ▸ hin)
  | other c =>
      cases c with
      | newTask =>
          exact h.quiet (TaskManager.quiet_newTask h.scheduled) h.scheduled.newTask
            fun u hu => by cases hu
      | wakeup t level =>
          exact h.quiet (s.manager.quiet_wakeup t level).1 (h.scheduled.wakeup t level)
            fun u hu => by cases hu
      | sleep t =>
          obtain ⟨_, hidle, hnot⟩ := he
          refine h.quiet (s.manager.quiet_sleep t) (h.scheduled.sleep hidle) fun u hu => ?_
          rw [← Option.some.inj hu]
          exact hnot
      | switchTask =>
          exact h.quiet s.manager.quiet_switchTask h.scheduled.switchTask.1 fun u hu => by cases hu
      | finish c => exact h.finish c he.1 he.2
      | changeLevelRunning t level =>
          have hscheduled : (s.manager.step (.changeLevelRunning t level)).Scheduled :=
            h.scheduled.step he
          exact h.quiet (s.manager.quiet_changeLevelRunning t level) hscheduled
            fun u hu => by cases hu
      | sendMessage t msg =>
          exact h.quiet (s.manager.quiet_sendMessage t msg) (h.scheduled.sendMessage t msg)
            fun u hu => by cases hu
      | waitFinish t => exact he.elim

end Waits

namespace Called

variable {s : WaitSystem} {t : Nat}

theorem enter (h : Called s) (ht : t ∈ s.called) : Called (s.enter t) := by
  rw [WaitSystem.enter]
  split
  · constructor
    case inside =>
      intro u t' hu
      by_cases hue : u = s.manager.executing
      · subst hue
        simp only [Function.update_self] at hu
        cases hu
      · simp only [Function.update_of_ne hue] at hu
        exact h.inside u t' hu
    case returned =>
      intro r hr
      rcases List.mem_cons.mp hr with rfl | hr
      · exact ht
      · exact h.returned r hr
  · refine ⟨fun u t' hu => ?_, h.returned⟩
    by_cases hue : u = s.manager.executing
    · subst hue
      simp only [Function.update_self] at hu
      rw [← Option.some.inj hu]
      exact ht
    · simp only [Function.update_of_ne hue] at hu
      exact h.inside u t' hu

theorem step (h : Called s) (e : WaitEvent) : Called (s.step e) := by
  cases e with
  | call t =>
      have h' : Called { s with called := t :: s.called } :=
        ⟨fun u t' hu => List.mem_cons_of_mem _ (h.inside u t' hu),
          fun r hr => List.mem_cons_of_mem _ (h.returned r hr)⟩
      exact h'.enter List.mem_cons_self
  | resume =>
      cases hin : s.inside s.manager.executing with
      | none =>
          have hsame : s.step .resume = s := by simp only [WaitSystem.step, hin]
          rw [hsame]
          exact h
      | some t =>
          have hstate : s.step .resume = s.enter t := by simp only [WaitSystem.step, hin]
          rw [hstate]
          exact h.enter (h.inside _ t hin)
  | other c => exact ⟨h.inside, h.returned⟩

end Called

/-- **The invariant holds in every run.** -/
theorem waits_run (es : List WaitEvent)
    (hes : Guarded WaitSystem.step WaitSystem.Admits .start es) :
    Waits (run WaitSystem.step .start es) := by
  have hboth := inv_run (fun s => Waits s ∧ Called s)
    (fun s e h he => ⟨h.1.step h.2 he, h.2.step e⟩)
    ⟨Waits.start, ⟨fun u t hu => (by cases hu), fun r hr => (by cases hr)⟩⟩ hes
  exact hboth.1

/-- Task 1 makes task 3 and waits for it; a message wakes it too early; task 3 finishes. -/
def shortWait : List WaitEvent :=
  [.other .newTask, .other (.wakeup 3 none), .call 3, .other (.sendMessage 1 .other),
    .other .switchTask, .resume, .other (.finish 5), .other .switchTask, .resume]

end Laplus.Tasks
