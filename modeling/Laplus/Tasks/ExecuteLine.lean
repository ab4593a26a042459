/-
# `Laplus.Tasks.ExecuteLine` — a command line with a pipe (`terminal.cpp`)

`ExecuteLine` makes a sub-task for the command behind `|`, writes to it through a
`PipeDescriptor` that holds a plain reference to the sub-task, ends with `FinishWrite`,
and waits for it to finish.  The sub-task runs its own command, and may be done with it
at any time.

The waiters and the queues only ever name live tasks.  The pipe does as long as no sub-task
finishes before `FinishWrite` (`live_tasks_iff`).
-/
import Laplus.Tasks.WaitFinish

namespace Laplus.Tasks

open Lib

/-! ## `ExecuteLine` -/

/-- Where the `ExecuteLine` of a task is: the sub-task that it writes to, or that it has still to
wait for. -/
inductive Line where
  | idle
  | writing (subtask : Nat)
  | finished (subtask : Nat)
deriving DecidableEq

/-- The sub-task of a line. -/
def Line.Has (l : Line) (t : Nat) : Prop := l = .writing t ∨ l = .finished t

/-- The tasks, the `ExecuteLine` of each, and whether a message was pushed to an erased task or
such a task was woken. -/
structure LineSystem where
  wait : WaitSystem
  line : Nat → Line
  stray : Bool

/-- A pipe is set up, a message of `Write` is sent, `FinishWrite` and `WaitFinish` are called,
`WaitFinish` goes round, the task finishes, or something else happens. -/
inductive LineEvent where
  | pipe
  | write (data : List UInt8)
  | finishWrite
  | waitFinish
  | resume
  | finish (exitCode : Int)
  | other (c : TaskCall)

namespace LineSystem

/-- The first task runs. -/
def start : LineSystem := ⟨.start, fun _ => .idle, false⟩

/-- The task that the processor runs. -/
def executing (s : LineSystem) : Nat := s.wait.manager.executing

/-- `task_.SendMessage`, through the reference of the pipe. -/
def send (s : LineSystem) (t : Nat) (msg : Message) : LineSystem :=
  { s with
    wait := s.wait.step (.other (.sendMessage t msg))
    stray := s.stray || !decide (s.wait.manager.Live t) }

def step (s : LineSystem) : LineEvent → LineSystem
  | .pipe =>
      let subtask := s.wait.manager.latestId + 1
      { s with
        wait := (s.wait.step (.other .newTask)).step (.other (.wakeup subtask none))
        line := Function.update s.line s.executing (.writing subtask) }
  | .write data =>
      match s.line s.executing with
      | .writing subtask => s.send subtask (.pipe data)
      | _ => s
  | .finishWrite =>
      match s.line s.executing with
      | .writing subtask =>
          { s.send subtask (.pipe []) with
            line := Function.update s.line s.executing (.finished subtask) }
      | _ => s
  | .waitFinish =>
      match s.line s.executing with
      | .finished subtask =>
          { s with
            wait := s.wait.step (.call subtask)
            line := Function.update s.line s.executing .idle }
      | _ => s
  | .resume => { s with wait := s.wait.step .resume }
  | .finish exitCode =>
      { s with
        wait := s.wait.step (.other (.finish exitCode))
        stray := s.stray || match s.wait.manager.finishWaiter s.executing with
          | some waiter =>
              !decide (s.wait.manager.Live waiter ∧ waiter ≠ s.executing)
          | none => false }
  | .other c => { s with wait := s.wait.step (.other c) }

/-- A task calls `ExecuteLine` and `Finish` one after another and outside of `WaitFinish`. -/
def Admits (s : LineSystem) : LineEvent → Prop
  | .pipe => s.wait.inside s.executing = none ∧ s.line s.executing = .idle
  | .write _ => s.wait.inside s.executing = none
  | .finishWrite => s.wait.inside s.executing = none
  | .waitFinish => s.wait.inside s.executing = none ∧ s.executing ≠ idleId
  | .resume => True
  | .finish _ => s.executing ≠ idleId ∧ s.wait.inside s.executing = none ∧
      s.line s.executing = .idle
  | .other (.finish _) => False
  | .other c => s.wait.Admits (.other c)

/-- **Only live tasks are named**: by the pipes that are written to, by the waiters and by the
queues; and none was sent to or woken that was not. -/
structure LiveTasks (s : LineSystem) : Prop where
  pipes : ∀ p t, s.line p = .writing t → s.wait.manager.Live t
  waiters : ∀ t u, s.wait.manager.finishWaiter t = some u → s.wait.manager.Live u
  queues : ∀ lv, ∀ t ∈ s.wait.manager.running lv, s.wait.manager.Live t
  stray : s.stray = false

/-- No sub-task finishes while its pipe is written to. -/
def Outlives (s : LineSystem) : LineEvent → Prop
  | .finish _ => ∀ p, s.line p ≠ .writing s.executing
  | _ => True

/-! ## What is kept -/

/-- **The lines**: each has a sub-task of its own, for which `WaitFinish` was not yet called. -/
structure Kept (s : LineSystem) : Prop where
  waits : Waits s.wait
  called : Called s.wait
  calledIds : ∀ t ∈ s.wait.called, t ≤ s.wait.manager.latestId
  lines : ∀ p t, Line.Has (s.line p) t →
    t ∉ s.wait.called ∧ p < t ∧ t ≤ s.wait.manager.latestId
  alone : ∀ p q t, Line.Has (s.line p) t → Line.Has (s.line q) t → p = q

/-- What a step leaves that erases no task. -/
structure Steady (s s' : WaitSystem) : Prop where
  live : ∀ t, s.manager.Live t → s'.manager.Live t
  latestId : s.manager.latestId ≤ s'.manager.latestId

theorem steady_enter (s : WaitSystem) (t : Nat) : Steady s (s.enter t) := by
  cases hrecord : s.manager.finishTasks t with
  | some c =>
      simp only [WaitSystem.enter, TaskManager.waitFinish, hrecord]
      exact ⟨fun t ht => ht, Nat.le_refl _⟩
  | none =>
      simp only [WaitSystem.enter, TaskManager.waitFinish, hrecord]
      have hquiet := TaskManager.quiet_sleep { s.manager with
        finishWaiter := Function.update s.manager.finishWaiter t (some s.manager.executing) }
        s.manager.executing
      exact ⟨hquiet.live, hquiet.latestId⟩

theorem enter_called (s : WaitSystem) (t : Nat) : (s.enter t).called = s.called := by
  rw [WaitSystem.enter]
  split
  · rfl
  · rfl

theorem steady_resume (s : WaitSystem) :
    Steady s (s.step .resume) ∧ (s.step .resume).called = s.called := by
  cases hin : s.inside s.manager.executing with
  | none =>
      simp only [WaitSystem.step, hin]
      exact ⟨⟨fun t ht => ht, Nat.le_refl _⟩, trivial⟩
  | some t =>
      simp only [WaitSystem.step, hin]
      exact ⟨steady_enter s t, enter_called s t⟩

theorem Steady.of_quiet {s : WaitSystem} {manager : TaskManager} {sleeper : Option Nat}
    {exitCodes : Nat → Option Int} (h : TaskManager.Quiet sleeper s.manager manager) :
    Steady s { s with manager, exitCodes } :=
  ⟨h.live, h.latestId⟩

/-- Nothing but `Finish` erases a task. -/
theorem steady_other {s : WaitSystem} (h : Waits s) {c : TaskCall} (hc : s.Admits (.other c))
    (hfinish : ∀ exitCode, c ≠ .finish exitCode) : Steady s (s.step (.other c)) := by
  cases c with
  | newTask => exact .of_quiet (TaskManager.quiet_newTask h.scheduled)
  | wakeup t level => exact .of_quiet (s.manager.quiet_wakeup t level).1
  | sleep t => exact .of_quiet (s.manager.quiet_sleep t)
  | switchTask => exact .of_quiet s.manager.quiet_switchTask
  | finish exitCode => exact absurd rfl (hfinish exitCode)
  | changeLevelRunning t level => exact .of_quiet (s.manager.quiet_changeLevelRunning t level)
  | sendMessage t msg => exact .of_quiet (s.manager.quiet_sendMessage t msg)
  | waitFinish t => exact hc.elim

/-- The other calls do not finish a task. -/
theorem admits_other {s : LineSystem} {c : TaskCall} (he : s.Admits (.other c)) :
    s.wait.Admits (.other c) ∧ ∀ exitCode, c ≠ .finish exitCode := by
  cases c with
  | finish exitCode => exact he.elim
  | newTask => exact ⟨he, fun _ heq => by cases heq⟩
  | wakeup t level => exact ⟨he, fun _ heq => by cases heq⟩
  | sleep t => exact ⟨he, fun _ heq => by cases heq⟩
  | switchTask => exact ⟨he, fun _ heq => by cases heq⟩
  | changeLevelRunning t level => exact ⟨he, fun _ heq => by cases heq⟩
  | sendMessage t msg => exact ⟨he, fun _ heq => by cases heq⟩
  | waitFinish t => exact ⟨he, fun _ heq => by cases heq⟩

namespace Kept

variable {s : LineSystem}

theorem start : Kept .start where
  waits := .start
  called := ⟨fun u t hu => (by cases hu), fun r hr => (by cases hr)⟩
  calledIds t ht := by cases ht
  lines p t ht := by rcases ht with ht | ht <;> cases ht
  alone p q t ht := by rcases ht with ht | ht <;> cases ht

/-- The waiters and the queues name live tasks. -/
theorem live (h : Kept s) : (∀ t u, s.wait.manager.finishWaiter t = some u → s.wait.manager.Live u) ∧
    ∀ lv, ∀ t ∈ s.wait.manager.running lv, s.wait.manager.Live t := by
  constructor
  · intro t u hu
    exact (h.waits.inside u t (h.waits.waiter t u hu).1).1
  · intro lv t ht
    refine TaskManager.live_of_lane ?_
    rw [(h.waits.scheduled.lanes.mem_iff t lv).mp ht]
    exact Option.some_ne_none lv

/-- The lines stay, and no task is erased. -/
theorem steady (h : Kept s) {wait : WaitSystem} (hwaits : Waits wait) (hcalled : Called wait)
    (hsteady : s.wait.manager.latestId ≤ wait.manager.latestId)
    (hcalls : wait.called = s.wait.called) (stray : Bool) : Kept { s with wait, stray } where
  waits := hwaits
  called := hcalled
  calledIds t ht := (h.calledIds t (hcalls ▸ ht)).trans hsteady
  lines p t ht := by
    obtain ⟨hnew, hlt, hle⟩ := h.lines p t ht
    exact ⟨hcalls ▸ hnew, hlt, hle.trans hsteady⟩
  alone := h.alone

/-- The line of a task goes on with the sub-task it has, or is over. -/
theorem setLine (h : Kept s) {l : Line} (p : Nat) (hl : ∀ t, l.Has t → Line.Has (s.line p) t) :
    Kept { s with line := Function.update s.line p l } := by
  have hhas : ∀ q t, Line.Has (Function.update s.line p l q) t → Line.Has (s.line q) t := by
    intro q t ht
    by_cases hq : q = p
    · subst hq
      rw [Function.update_self] at ht
      exact hl t ht
    · rwa [Function.update_of_ne hq] at ht
  exact ⟨h.waits, h.called, h.calledIds, fun q t ht => h.lines q t (hhas q t ht),
    fun q r t hq hr => h.alone q r t (hhas q t hq) (hhas r t hr)⟩

/-- A message is sent to a live task. -/
theorem send (h : Kept s) {t : Nat} (msg : Message) (hlive : s.wait.manager.Live t) :
    Kept (s.send t msg) := by
  have hquiet := s.wait.manager.quiet_sendMessage t msg
  exact h.steady (h.waits.step h.called (e := .other (.sendMessage t msg)) hlive)
    (h.called.step (.other (.sendMessage t msg))) hquiet.latestId rfl _

/-- **A pipe is set up.** -/
theorem pipe (h : Kept s) : Kept (s.step .pipe) ∧
    Steady s.wait (s.step .pipe).wait ∧
    (s.step .pipe).wait.manager.Live (s.wait.manager.latestId + 1) := by
  have hnew := h.waits.step h.called (e := .other .newTask) trivial
  have hnewTask := TaskManager.quiet_newTask h.waits.scheduled
  have hlive : (s.wait.step (.other .newTask)).manager.Live (s.wait.manager.latestId + 1) := by
    have hself : (s.wait.step (.other .newTask)).manager.tasks (s.wait.manager.latestId + 1) =
        some .new := Function.update_self _ _ _
    exact TaskManager.live_of_task hself
  obtain ⟨hwakeup, _⟩ := TaskManager.quiet_wakeup (s.wait.step (.other .newTask)).manager
    (s.wait.manager.latestId + 1) none
  have hlatest : (s.wait.step (.other .newTask)).manager.latestId = s.wait.manager.latestId + 1 :=
    rfl
  have hlatest' := hwakeup.latestId
  rw [hlatest] at hlatest'
  have hcalled := (h.called.step (.other .newTask)).step
    (.other (.wakeup (s.wait.manager.latestId + 1) none))
  have hwaits := hnew.step (h.called.step (.other .newTask))
    (e := .other (.wakeup (s.wait.manager.latestId + 1) none)) hlive
  have hexecuting : s.executing ≤ s.wait.manager.latestId :=
    h.waits.scheduled.ids _ h.waits.executing_live
  have hfresh : ∀ q t, Line.Has (s.line q) t → t ≠ s.wait.manager.latestId + 1 := by
    intro q t ht heq
    have hle := (h.lines q t ht).2.2
    omega
  -- the line of the task has the new one
  have hhas : ∀ q t, Line.Has ((s.step .pipe).line q) t →
      q = s.executing ∧ t = s.wait.manager.latestId + 1 ∨ Line.Has (s.line q) t := by
    intro q t ht
    by_cases hq : q = s.executing
    · subst hq
      rw [step] at ht
      simp only [Function.update_self] at ht
      rcases ht with ht | ht
      · exact .inl ⟨rfl, (Line.writing.inj ht).symm⟩
      · cases ht
    · rw [step] at ht
      simp only [Function.update_of_ne hq] at ht
      exact .inr ht
  refine ⟨⟨hwaits, hcalled, fun t ht => ?_, fun q t ht => ?_,
    fun q r t hq hr => ?_⟩, ⟨fun t ht => ?_, ?_⟩, ?_⟩
  · exact (h.calledIds t ht).trans ((Nat.le_succ _).trans hlatest')
  · rcases hhas q t ht with ⟨rfl, rfl⟩ | hold
    · refine ⟨fun hmem => ?_, Nat.lt_succ_of_le hexecuting, hlatest'⟩
      have hle := h.calledIds _ hmem
      omega
    · obtain ⟨hnot, hlt, hle⟩ := h.lines q t hold
      exact ⟨hnot, hlt, hle.trans ((Nat.le_succ _).trans hlatest')⟩
  · rcases hhas q t hq with ⟨rfl, rfl⟩ | hq' <;> rcases hhas r _ hr with ⟨rfl, heq⟩ | hr'
    · rfl
    · exact absurd rfl (hfresh r _ hr')
    · exact absurd heq (hfresh q t hq')
    · exact h.alone q r t hq' hr'
  · exact hwakeup.live t (hnewTask.live t ht)
  · exact (Nat.le_succ _).trans hlatest'
  · exact hwakeup.live _ hlive

/-- A sub-task that finishes. -/
theorem finish (h : Kept s) {exitCode : Int} (he : s.Admits (.finish exitCode)) :
    Kept (s.step (.finish exitCode)) := by
  obtain ⟨hidle, hinside, _⟩ := he
  have hwaits := h.waits.step h.called (e := .other (.finish exitCode)) ⟨hidle, hinside⟩
  have hfinished := TaskManager.finished_finish h.waits.scheduled exitCode
  exact h.steady hwaits (h.called.step (.other (.finish exitCode))) hfinished.latestId rfl _

/-- `WaitFinish` is called for the sub-task. -/
theorem waitFinish (h : Kept s) (he : s.Admits .waitFinish) {t : Nat}
    (hline : s.line s.executing = .finished t) :
    Kept { s with
      wait := s.wait.step (.call t)
      line := Function.update s.line s.executing .idle } ∧
    Steady s.wait (s.wait.step (.call t)) := by
  obtain ⟨hinside, hidle⟩ := he
  obtain ⟨hnew, hlt, hle⟩ := h.lines _ t (.inr hline)
  obtain ⟨hkeep, hlatest⟩ := steady_enter { s.wait with called := t :: s.wait.called } t
  have hsteady : Steady s.wait (s.wait.step (.call t)) := ⟨hkeep, hlatest⟩
  have hcalls : (s.wait.step (.call t)).called = t :: s.wait.called :=
    enter_called { s.wait with called := t :: s.wait.called } t
  -- the other lines have other sub-tasks
  have hhas : ∀ q u, Line.Has (Function.update s.line s.executing .idle q) u →
      Line.Has (s.line q) u ∧ u ≠ t := by
    intro q u hu
    by_cases hq : q = s.executing
    · rw [hq, Function.update_self] at hu
      rcases hu with hu | hu <;> cases hu
    · rw [Function.update_of_ne hq] at hu
      exact ⟨hu, fun heq => hq (h.alone _ _ t (heq ▸ hu) (.inr hline))⟩
  refine ⟨?_, hsteady⟩
  constructor
  case waits => exact h.waits.step h.called (e := .call t) ⟨hinside, hidle, hlt.ne', hnew⟩
  case called => exact h.called.step (.call t)
  case calledIds =>
    intro u hu
    simp only [hcalls, List.mem_cons] at hu
    refine Nat.le_trans ?_ hsteady.latestId
    rcases hu with rfl | hu
    · exact hle
    · exact h.calledIds u hu
  case lines =>
    intro q u hu
    obtain ⟨hu, hne⟩ := hhas q u hu
    obtain ⟨hnot, hqu, hule⟩ := h.lines q u hu
    refine ⟨fun hmem => ?_, hqu, hule.trans hsteady.latestId⟩
    simp only [hcalls, List.mem_cons] at hmem
    exact hmem.elim hne hnot
  case alone =>
    intro q r u hq hr
    exact h.alone q r u (hhas q u hq).1 (hhas r u hr).1

/-- **A step.**  Nothing but `Finish` erases a task. -/
theorem step (h : Kept s) (hpipes : ∀ p t, s.line p = .writing t → s.wait.manager.Live t)
    {e : LineEvent} (he : s.Admits e) : Kept (s.step e) := by
  cases e with
  | pipe => exact h.pipe.1
  | write data =>
      cases hline : s.line s.executing with
      | writing t =>
          simp only [LineSystem.step, hline]
          exact h.send _ (hpipes _ t hline)
      | idle => simpa only [LineSystem.step, hline] using h
      | finished t => simpa only [LineSystem.step, hline] using h
  | finishWrite =>
      cases hline : s.line s.executing with
      | writing t =>
          simp only [LineSystem.step, hline]
          refine (h.send (.pipe []) (hpipes _ t hline)).setLine s.executing fun u hu => ?_
          rcases hu with hu | hu
          · cases hu
          · rw [← Line.finished.inj hu]
            exact .inl hline
      | idle => simpa only [LineSystem.step, hline] using h
      | finished t => simpa only [LineSystem.step, hline] using h
  | waitFinish =>
      cases hline : s.line s.executing with
      | finished t =>
          simp only [LineSystem.step, hline]
          exact (h.waitFinish he hline).1
      | idle => simpa only [LineSystem.step, hline] using h
      | writing t => simpa only [LineSystem.step, hline] using h
  | resume =>
      have hwaits := h.waits.step h.called (e := .resume) trivial
      exact h.steady hwaits (h.called.step .resume) (steady_resume s.wait).1.latestId
        (steady_resume s.wait).2 _
  | finish exitCode => exact h.finish he
  | other c =>
      obtain ⟨hadmits, hfinish⟩ := admits_other he
      have hwaits := h.waits.step h.called (e := .other c) hadmits
      exact h.steady hwaits (h.called.step (.other c))
        (steady_other h.waits hadmits hfinish).latestId rfl _

end Kept

/-! ## The exact condition -/

variable {s : LineSystem}

/-- What is kept names only live tasks, when the pipes do and no other was sent to or woken. -/
theorem LiveTasks.of_kept (h : Kept s)
    (hpipes : ∀ p t, s.line p = .writing t → s.wait.manager.Live t) (hstray : s.stray = false) :
    LiveTasks s :=
  ⟨hpipes, h.live.1, h.live.2, hstray⟩

/-- The tasks of a pipe stay when no task is erased. -/
theorem LiveTasks.of_steady {s' : LineSystem} (hk : LiveTasks s) (h' : Kept s')
    (hsteady : Steady s.wait s'.wait) (hstray : s'.stray = s.stray)
    (hline : ∀ p t, s'.line p = .writing t → s.line p = .writing t) : LiveTasks s' :=
  .of_kept h' (fun p t ht => hsteady.live t (hk.pipes p t (hline p t ht)))
    (hstray.trans hk.stray)

/-- A message through the pipe is sent to a live task. -/
theorem LiveTasks.send (hk : LiveTasks s) (h : Kept s) {t : Nat} (msg : Message)
    (hlive : s.wait.manager.Live t) : LiveTasks (s.send t msg) := by
  have hstray : (s.send t msg).stray = s.stray := by
    simp only [LineSystem.send, hlive, decide_true, Bool.not_true, Bool.or_false]
  have hquiet := s.wait.manager.quiet_sendMessage t msg
  exact hk.of_steady (h.send msg hlive) ⟨hquiet.live, hquiet.latestId⟩ hstray
    fun p u hu => hu

/-- **`Finish`** leaves the pipes with live tasks when no pipe is written to the task. -/
theorem liveTasks_finish_iff (h : Kept s) (hk : LiveTasks s) {exitCode : Int}
    (he : s.Admits (.finish exitCode)) :
    LiveTasks (s.step (.finish exitCode)) ↔ s.Outlives (.finish exitCode) := by
  have hfinished := TaskManager.finished_finish h.waits.scheduled exitCode
  have hexecuting := h.waits.executing_live
  constructor
  · intro hnext p hline
    have hlive : (s.wait.manager.finish exitCode).Live s.executing := hnext.pipes p _ hline
    rcases hfinished.dead _ hlive with ⟨_, hne⟩ | hlt
    · exact hne rfl
    · exact absurd hlt (Nat.not_lt.mpr (h.waits.scheduled.ids _ hexecuting))
  · intro hout
    refine .of_kept (h.finish he) (fun p t ht => ?_) ?_
    · exact hfinished.live t (fun heq => hout p (ht.trans (congrArg _ heq))) (hk.pipes p t ht)
    · simp only [step, hk.stray, Bool.false_or]
      cases hwaiter : s.wait.manager.finishWaiter s.executing with
      | none => rfl
      | some u =>
          -- the waiter is another task, which sleeps in `WaitFinish`
          have hinside := (h.waits.waiter _ u hwaiter).1
          have hne : u ≠ s.executing := by
            rintro rfl
            rw [he.2.1] at hinside
            cases hinside
          have hlive := hk.waiters _ u hwaiter
          simp only [hlive, hne, ne_eq, not_false_eq_true, and_self, decide_true, Bool.not_true]

/-- **A step** keeps the live tasks exactly when no sub-task is outlived by its pipe. -/
theorem liveTasks_step_iff (h : Kept s) (hk : LiveTasks s) {e : LineEvent} (he : s.Admits e) :
    LiveTasks (s.step e) ↔ s.Outlives e := by
  have h' := h.step hk.pipes he
  cases e with
  | pipe =>
      refine iff_of_true (.of_kept h' (fun p t ht => ?_) hk.stray) trivial
      obtain ⟨_, hsteady, hlive⟩ := h.pipe
      by_cases hp : p = s.executing
      · subst hp
        simp only [step, Function.update_self] at ht
        rw [← Line.writing.inj ht]
        exact hlive
      · simp only [step, Function.update_of_ne hp] at ht
        exact hsteady.live t (hk.pipes p t ht)
  | write data =>
      refine iff_of_true ?_ trivial
      cases hline : s.line s.executing with
      | writing t =>
          simp only [step, hline]
          exact hk.send h _ (hk.pipes _ t hline)
      | idle => simpa only [step, hline] using hk
      | finished t => simpa only [step, hline] using hk
  | finishWrite =>
      refine iff_of_true ?_ trivial
      cases hline : s.line s.executing with
      | writing t =>
          have hsent := hk.send h (.pipe []) (hk.pipes _ t hline)
          simp only [step, hline] at h' ⊢
          refine .of_kept h' (fun p u hu => hsent.pipes p u ?_) hsent.stray
          by_cases hp : p = s.executing
          · subst hp
            simp only [Function.update_self] at hu
            cases hu
          · simp only [Function.update_of_ne hp] at hu
            exact hu
      | idle => simpa only [step, hline] using hk
      | finished t => simpa only [step, hline] using hk
  | waitFinish =>
      refine iff_of_true ?_ trivial
      cases hline : s.line s.executing with
      | finished t =>
          obtain ⟨hkept, hsteady⟩ := h.waitFinish he hline
          simp only [step, hline]
          refine hk.of_steady hkept hsteady rfl fun p u hu => ?_
          by_cases hp : p = s.executing
          · subst hp
            simp only [Function.update_self] at hu
            cases hu
          · simp only [Function.update_of_ne hp] at hu
            exact hu
      | idle => simpa only [step, hline] using hk
      | writing t => simpa only [step, hline] using hk
  | resume =>
      exact iff_of_true (hk.of_steady h' (steady_resume s.wait).1 rfl fun p t ht => ht) trivial
  | finish exitCode => exact liveTasks_finish_iff h hk he
  | other c =>
      obtain ⟨hadmits, hfinish⟩ := admits_other he
      exact iff_of_true (hk.of_steady h' (steady_other h.waits hadmits hfinish) rfl
        fun p t ht => ht) trivial

instance (s : LineSystem) : (e : LineEvent) → Decidable (s.Admits e)
  | .pipe => inferInstanceAs (Decidable
      (s.wait.inside s.executing = none ∧ s.line s.executing = .idle))
  | .write _ => inferInstanceAs (Decidable (s.wait.inside s.executing = none))
  | .finishWrite => inferInstanceAs (Decidable (s.wait.inside s.executing = none))
  | .waitFinish => inferInstanceAs (Decidable
      (s.wait.inside s.executing = none ∧ s.executing ≠ idleId))
  | .resume => isTrue trivial
  | .finish _ => inferInstanceAs (Decidable
      (s.executing ≠ idleId ∧ s.wait.inside s.executing = none ∧ s.line s.executing = .idle))
  | .other (.newTask) => isTrue trivial
  | .other (.wakeup t level) => inferInstanceAs (Decidable (s.wait.Admits (.other (.wakeup t level))))
  | .other (.sleep t) => inferInstanceAs (Decidable (s.wait.Admits (.other (.sleep t))))
  | .other (.switchTask) => isTrue trivial
  | .other (.finish _) => isFalse id
  | .other (.changeLevelRunning t level) =>
      inferInstanceAs (Decidable (s.wait.Admits (.other (.changeLevelRunning t level))))
  | .other (.sendMessage t msg) =>
      inferInstanceAs (Decidable (s.wait.Admits (.other (.sendMessage t msg))))
  | .other (.waitFinish _) => isFalse id

theorem liveTasks_start : LiveTasks .start :=
  .of_kept .start (fun p t ht => (by cases ht)) rfl

end LineSystem

open LineSystem in
/-- **Only live tasks are named and sent to, in every state of a run, exactly when in the run no
sub-task finishes while its pipe is written to.** -/
theorem live_tasks_iff (es : List LineEvent) (hes : Guarded LineSystem.step Admits .start es) :
    (∀ es', es' <+: es → LiveTasks (run LineSystem.step .start es')) ↔
      Guarded LineSystem.step Outlives .start es :=
  admitted_prefix_iff Kept LiveTasks
    (fun _ _ h hk he _ => h.step hk.pipes he)
    (fun _ _ h hk he => liveTasks_step_iff h hk he) Kept.start liveTasks_start hes

/-- Task 3 pipes to task 4, and waits for it. -/
def shortPipe : List LineEvent :=
  [.other .newTask, .other (.wakeup 3 none), .other (.sleep 1), .pipe, .write [65], .finishWrite,
    .waitFinish, .finish 0, .resume]

theorem live_tasks_short :
    (∀ es', es' <+: shortPipe →
      LineSystem.LiveTasks (run LineSystem.step LineSystem.start es')) ↔
        Guarded LineSystem.step LineSystem.Outlives LineSystem.start shortPipe :=
  live_tasks_iff shortPipe (by decide +kernel)

/-- Task 4 does not read from its pipe, and finishes before task 3 writes to it. -/
def earlyFinish : List LineEvent :=
  [.other .newTask, .other (.wakeup 3 none), .other (.sleep 1), .pipe, .other .switchTask,
    .finish 0, .write [65]]

/-- **The message of task 3 goes to an erased task.** -/
theorem earlyFinish_stray :
    Guarded LineSystem.step LineSystem.Admits LineSystem.start earlyFinish ∧
      ¬LineSystem.LiveTasks (run LineSystem.step LineSystem.start earlyFinish) := by
  refine ⟨by decide +kernel, fun h => ?_⟩
  have hstray : (run LineSystem.step LineSystem.start earlyFinish).stray = true := by
    decide +kernel
  rw [h.stray] at hstray
  cases hstray

end Laplus.Tasks
