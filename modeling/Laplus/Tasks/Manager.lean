/-
# `Laplus.Tasks.Manager` — the run queues (`task.cpp`)

`TaskManager` with its four queues.  A `Task*` is the id of the task, and `tasks`
holds the tasks that have not been erased.  `executing` is the task whose
context the processor runs: the code changes it by `SwitchContext` and `RestoreContext` only,
and takes the front of the current queue for it.

The queues are `Lanes`; with a level that is right or about to be set, and a front that is
the running task, they are the invariant `Scheduled`.
-/
import Laplus.Tasks.Pipe
import Laplus.Lib.Lanes
import Mathlib.Data.List.Rotate

namespace Laplus.Tasks

open Lib

/-! ## `TaskManager` -/

/-- `Task`. -/
structure Task where
  level : Fin 4
  running : Bool
  msgs : List Message

/-- A task as `NewTask` makes it. -/
def Task.new : Task := ⟨1, false, []⟩

/-- The queue it belongs to. -/
def Task.lane (task : Task) : Option (Fin 4) := if task.running then some task.level else none

/-- `msgs_.push_back`. -/
def Task.pushBack (task : Task) (msg : Message) : Task := { task with msgs := task.msgs ++ [msg] }

/-- `TaskManager`. -/
structure TaskManager where
  tasks : Nat → Option Task
  latestId : Nat
  running : Fin 4 → List Nat
  currentLevel : Fin 4
  levelChanged : Bool
  finishTasks : Nat → Option Int
  finishWaiter : Nat → Option Nat
  executing : Nat

/-- The idle task is the second that is made. -/
def idleId : Nat := 2

namespace TaskManager

/-- `CurrentTask`. -/
def currentTask (s : TaskManager) : Option Nat := (s.running s.currentLevel).head?

/-- The processor goes on with the current task. -/
def restoreContext (s : TaskManager) : TaskManager :=
  { s with executing := s.currentTask.getD s.executing }

/-- `TaskManager()`. -/
def new : TaskManager where
  tasks := Function.update (Function.update (fun _ => none) 1 (some ⟨3, true, []⟩))
    idleId (some ⟨0, true, []⟩)
  latestId := 2
  running := Function.update (Function.update (fun _ => []) 3 [1]) 0 [idleId]
  currentLevel := 3
  levelChanged := false
  finishTasks _ := none
  finishWaiter _ := none
  executing := 1

/-- `NewTask`. -/
def newTask (s : TaskManager) : TaskManager :=
  { s with
    tasks := Function.update s.tasks (s.latestId + 1) (some .new)
    latestId := s.latestId + 1 }

/-- The highest level with a task. -/
def highestLevel (running : Fin 4 → List Nat) : Option (Fin 4) :=
  [3, 2, 1, 0].find? fun lv => !(running lv).isEmpty

/-- The end of `RotateCurrentRunQueue`: the level is set anew. -/
def pickLevel (s : TaskManager) : TaskManager :=
  let s := if (s.running s.currentLevel).isEmpty then { s with levelChanged := true } else s
  if s.levelChanged then
    { s with
      levelChanged := false
      currentLevel := (highestLevel s.running).getD s.currentLevel }
  else s

/-- `RotateCurrentRunQueue`. -/
def rotateCurrentRunQueue (s : TaskManager) (currentSleep : Bool) : TaskManager :=
  match s.running s.currentLevel with
  | [] => s
  | currentTask :: queue =>
      { s with
        running := Function.update s.running s.currentLevel
          (if currentSleep then queue else queue ++ [currentTask]) }.pickLevel

/-- `SwitchTask`. -/
def switchTask (s : TaskManager) : TaskManager := (s.rotateCurrentRunQueue false).restoreContext

/-- `Sleep`. -/
def sleep (s : TaskManager) (t : Nat) : TaskManager :=
  match s.tasks t with
  | none => s
  | some task =>
      if !task.running then s
      else
        let tasks := Function.update s.tasks t (some { task with running := false })
        if s.currentTask = some t then
          ({ s with tasks }.rotateCurrentRunQueue true).restoreContext
        else
          { s with
            tasks
            running := Function.update s.running task.level
              ((s.running task.level).filter (· != t)) }

/-- `ChangeLevelRunning`; `none` is a negative level. -/
def changeLevelRunning (s : TaskManager) (t : Nat) (level : Option (Fin 4)) : TaskManager :=
  match s.tasks t, level with
  | some task, some level =>
      if level = task.level then s
      else
        let tasks := Function.update s.tasks t (some { task with level })
        if s.currentTask ≠ some t then
          let running := Function.update s.running task.level
            ((s.running task.level).filter (· != t))
          { s with
            tasks
            running := Function.update running level (running level ++ [t])
            levelChanged := if s.currentLevel < level then true else s.levelChanged }
        else
          let running := Function.update s.running s.currentLevel
            (s.running s.currentLevel).tail
          { s with
            tasks
            running := Function.update running level (t :: running level)
            currentLevel := level
            levelChanged := if s.currentLevel ≤ level then s.levelChanged else true }
  | _, _ => s

/-- `Wakeup`. -/
def wakeup (s : TaskManager) (t : Nat) (level : Option (Fin 4)) : TaskManager :=
  match s.tasks t with
  | none => s
  | some task =>
      if task.running then s.changeLevelRunning t level
      else
        let level := level.getD task.level
        { s with
          tasks := Function.update s.tasks t (some { task with level, running := true })
          running := Function.update s.running level (s.running level ++ [t])
          levelChanged := if s.currentLevel < level then true else s.levelChanged }

/-- `Task::SendMessage`. -/
def sendMessage (s : TaskManager) (t : Nat) (msg : Message) : TaskManager :=
  { s with
    tasks := Function.update s.tasks t ((s.tasks t).map fun task => Task.pushBack task msg) }.wakeup t none

/-- `Finish`: the task is erased, and its exit code recorded. -/
def erase (s : TaskManager) (t : Nat) (exitCode : Int) : TaskManager :=
  { s with
    tasks := Function.update s.tasks t none
    finishTasks := Function.update s.finishTasks t (some exitCode) }

/-- `Finish`: its waiter is woken. -/
def wakeWaiter (s : TaskManager) (t : Nat) : TaskManager :=
  match s.finishWaiter t with
  | none => s
  | some waiter =>
      { s with finishWaiter := Function.update s.finishWaiter t none }.wakeup waiter none

/-- `Finish`. -/
def finish (s : TaskManager) (exitCode : Int) : TaskManager :=
  match s.currentTask with
  | none => s
  | some t =>
      (((s.rotateCurrentRunQueue true).erase t exitCode).wakeWaiter t).restoreContext

/-- `WaitFinish`, once through its loop: interrupts are off from the test to the sleep. -/
def waitFinish (s : TaskManager) (t : Nat) : TaskManager × Option Int :=
  match s.finishTasks t with
  | some exitCode => ({ s with finishTasks := Function.update s.finishTasks t none }, some exitCode)
  | none =>
      ({ s with
        finishWaiter := Function.update s.finishWaiter t (some s.executing) }.sleep s.executing,
        none)

/-! ## The invariant -/

/-- A task that has not been erased. -/
def Live (s : TaskManager) (t : Nat) : Prop := (s.tasks t).isSome = true

instance (s : TaskManager) (t : Nat) : Decidable (s.Live t) :=
  inferInstanceAs (Decidable (_ = true))

/-- The queue that a task belongs to. -/
def lane (s : TaskManager) (t : Nat) : Option (Fin 4) := (s.tasks t).bind Task.lane

/-- No level above the current one has a task. -/
def Highest (s : TaskManager) : Prop := ∀ lv, s.currentLevel < lv → s.running lv = []

/-- The queues hold the tasks that run, the idle task among them. -/
structure Laid (s : TaskManager) : Prop where
  lanes : Lanes s.running s.lane
  idle : s.lane idleId ≠ none
  ids : ∀ t, s.Live t → t ≤ s.latestId

/-- **The run queues**, whatever the processor runs. -/
structure Queued (s : TaskManager) : Prop extends s.Laid where
  front : s.running s.currentLevel ≠ []
  highest : s.levelChanged = true ∨ s.Highest

/-- The front of the current level is what the processor runs. -/
structure Scheduled (s : TaskManager) : Prop extends s.Queued where
  current : s.currentTask = some s.executing

variable {s s' : TaskManager} {t : Nat} {task : Task}

/-- A task is set. -/
theorem lane_eq {x : Option Task} (h : s'.tasks = Function.update s.tasks t x) :
    s'.lane = Function.update s.lane t (x.bind Task.lane) := by
  funext u
  rw [lane, h]
  by_cases hu : u = t
  · subst hu
    rw [Function.update_self, Function.update_self]
  · rw [Function.update_of_ne hu, Function.update_of_ne hu]
    rfl

theorem lane_of_task (h : s.tasks t = some task) : s.lane t = task.lane := by
  rw [lane, h]
  rfl

/-- A task that belongs to a queue is live. -/
theorem live_of_lane (h : s.lane t ≠ none) : s.Live t := by
  rw [lane] at h
  rw [Live]
  cases ht : s.tasks t with
  | none => rw [ht] at h; exact absurd rfl h
  | some task => rfl

/-! ## `RotateCurrentRunQueue` -/

/-- The highest level that is not empty. -/
theorem highestLevel_eq {running : Fin 4 → List Nat} (h : ∃ lv, running lv ≠ []) :
    ∃ lv, highestLevel running = some lv ∧ running lv ≠ [] ∧ ∀ l, lv < l → running l = [] := by
  have hmem : ∀ lv : Fin 4, lv ∈ [3, 2, 1, 0] := by decide
  have hsorted : ([3, 2, 1, 0] : List (Fin 4)).Pairwise (· > ·) := by decide
  have hfind : (highestLevel running).isSome = true := by
    obtain ⟨lv, hlv⟩ := h
    rw [highestLevel, List.find?_isSome]
    exact ⟨lv, hmem lv, by simpa using hlv⟩
  obtain ⟨lv, hlv⟩ := Option.isSome_iff_exists.mp hfind
  have hsome := List.find?_some hlv
  refine ⟨lv, hlv, by simpa using hsome, fun l hl => ?_⟩
  obtain ⟨_, before, after, hsplit, hbefore⟩ := List.find?_eq_some_iff_append.mp hlv
  -- what is above `lv` comes before it
  have hl' := hmem l
  rw [hsplit] at hl' hsorted
  rcases List.mem_append.mp hl' with hin | hin
  · have hempty := hbefore l hin
    simpa using hempty
  · obtain ⟨_, hafter, _⟩ := List.pairwise_append.mp hsorted
    rcases List.mem_cons.mp hin with rfl | hin
    · exact absurd hl (Nat.lt_irrefl _)
    · exact absurd hl (Nat.lt_asymm ((List.pairwise_cons.mp hafter).1 l hin))

/-- `pickLevel` changes the level only. -/
theorem pickLevel_eq (s : TaskManager) (hne : ∃ lv, s.running lv ≠ [])
    (h : s.levelChanged = true ∨ s.Highest) :
    ∃ lv b, s.pickLevel = { s with currentLevel := lv, levelChanged := b } ∧
      s.running lv ≠ [] ∧ ∀ l, lv < l → s.running l = [] := by
  obtain ⟨lv, hlv, hfront, habove⟩ := highestLevel_eq hne
  cases hempty : (s.running s.currentLevel).isEmpty with
  | true =>
      refine ⟨lv, false, ?_, hfront, habove⟩
      simp [pickLevel, hempty, hlv]
  | false =>
      cases hchanged : s.levelChanged with
      | true =>
          refine ⟨lv, false, ?_, hfront, habove⟩
          simp [pickLevel, hempty, hchanged, hlv]
      | false =>
          refine ⟨s.currentLevel, s.levelChanged, ?_, by simpa using hempty, ?_⟩
          · rw [pickLevel, hempty, if_neg Bool.false_ne_true, if_neg (by simp [hchanged])]
          · rcases h with h | h
            · rw [hchanged] at h
              cases h
            · exact h

/-- **`RotateCurrentRunQueue` sets the level**: the current task is the front of the highest level. -/
theorem Laid.pickLevel (h : s.Laid) (hlevel : s.levelChanged = true ∨ s.Highest) :
    s.pickLevel.Queued ∧ s.pickLevel.Highest := by
  have hne : ∃ lv, s.running lv ≠ [] := by
    obtain ⟨lv, hlv⟩ := Option.ne_none_iff_exists'.mp h.idle
    exact ⟨lv, List.ne_nil_of_mem ((h.lanes.mem_iff idleId lv).mpr hlv)⟩
  obtain ⟨lv, b, hstate, hfront, habove⟩ := s.pickLevel_eq hne hlevel
  rw [hstate]
  exact ⟨{ lanes := h.lanes, idle := h.idle, ids := h.ids, front := hfront,
           highest := .inr habove }, habove⟩

/-- The processor goes on with the front. -/
theorem Queued.restoreContext (h : s.Queued) : s.restoreContext.Scheduled := by
  obtain ⟨t, queue, hqueue⟩ := List.exists_cons_of_ne_nil h.front
  have hcurrent : s.currentTask = some t := by rw [currentTask, hqueue, List.head?_cons]
  refine { lanes := h.lanes, idle := h.idle, ids := h.ids, front := h.front,
           highest := h.highest, current := ?_ }
  rw [TaskManager.restoreContext, hcurrent]
  exact hcurrent

/-- The front of the current queue. -/
theorem Scheduled.queue (h : s.Scheduled) :
    ∃ rest, s.running s.currentLevel = s.executing :: rest := by
  have hcurrent := h.current
  rw [currentTask] at hcurrent
  exact ⟨_, List.eq_cons_of_mem_head? hcurrent⟩

/-- The task that the processor runs. -/
theorem Scheduled.lane_executing (h : s.Scheduled) : s.lane s.executing = some s.currentLevel := by
  obtain ⟨rest, hqueue⟩ := h.queue
  rw [← h.lanes.mem_iff, hqueue]
  exact List.mem_cons_self

/-- **`SwitchTask`.** -/
theorem Scheduled.switchTask (h : s.Scheduled) :
    s.switchTask.Scheduled ∧ s.switchTask.Highest := by
  obtain ⟨rest, hqueue⟩ := h.queue
  rw [TaskManager.switchTask, rotateCurrentRunQueue, hqueue]
  have hlevel : s.levelChanged = true ∨ ∀ lv, s.currentLevel < lv →
      Function.update s.running s.currentLevel (rest ++ [s.executing]) lv = [] := by
    refine h.highest.imp_right fun hhigh lv hlv => ?_
    rw [Function.update_of_ne (Fin.ne_of_gt hlv), hhigh lv hlv]
  have hperm : (rest ++ [s.executing]).Perm (s.running s.currentLevel) := by
    rw [hqueue]
    exact List.perm_append_singleton _ _
  have hlaid : Laid { s with
      running := Function.update s.running s.currentLevel (rest ++ [s.executing]) } :=
    ⟨h.lanes.perm hperm, h.idle, h.ids⟩
  obtain ⟨hqueued, hhighest⟩ := hlaid.pickLevel hlevel
  exact ⟨hqueued.restoreContext, hhighest⟩

/-! ## `NewTask`, `Sleep` and `Wakeup` -/

theorem live_of_task (h : s.tasks t = some task) : s.Live t := Option.isSome_iff_exists.mpr ⟨_, h⟩

/-- A live task is set anew. -/
theorem live_iff {x : Task} (h : s'.tasks = Function.update s.tasks t (some x)) (ht : s.Live t)
    (u : Nat) : s'.Live u ↔ s.Live u := by
  rw [Live, h]
  by_cases hu : u = t
  · subst hu
    rw [Function.update_self]
    exact iff_of_true rfl ht
  · rw [Function.update_of_ne hu]
    rfl

/-- A task is set anew, and moved to its queue. -/
theorem Laid.set (h : s.Laid) {x : Task} (hset : s'.tasks = Function.update s.tasks t (some x))
    (ht : s.Live t) (hlatest : s'.latestId = s.latestId)
    (hlanes : Lanes s'.running (Function.update s.lane t x.lane))
    (hidle : t = idleId → x.lane ≠ none) : s'.Laid := by
  have hlane : s'.lane = Function.update s.lane t x.lane := lane_eq hset
  constructor
  case lanes =>
    rw [hlane]
    exact hlanes
  case idle =>
    rw [hlane]
    by_cases hti : t = idleId
    · rw [← hti, Function.update_self]
      exact hidle hti
    · rw [Function.update_of_ne (Ne.symm hti)]
      exact h.idle
  case ids =>
    intro u hu
    rw [hlatest]
    exact h.ids u ((live_iff hset ht u).mp hu)

/-- **`NewTask`.** -/
theorem Scheduled.newTask (h : s.Scheduled) : s.newTask.Scheduled := by
  have hdead : s.tasks (s.latestId + 1) = none := by
    by_contra hlive
    have hle := h.ids (s.latestId + 1) (Option.isSome_iff_ne_none.mpr hlive)
    omega
  have hlane : s.newTask.lane = s.lane := by
    have htasks : s.newTask.tasks =
        Function.update s.tasks (s.latestId + 1) (some .new) := rfl
    rw [lane_eq htasks]
    refine Function.update_eq_self_iff.mpr ?_
    rw [lane, hdead]
    rfl
  refine { lanes := hlane ▸ h.lanes, idle := hlane ▸ h.idle, ids := fun t ht => ?_,
           front := h.front, highest := h.highest, current := h.current }
  by_cases htl : t = s.latestId + 1
  · exact htl.le
  · have hold : s.Live t := by
      have ht' : (Function.update s.tasks (s.latestId + 1) (some .new) t).isSome = true := ht
      rwa [Function.update_of_ne htl] at ht'
    exact (h.ids t hold).trans (Nat.le_succ _)

/-- Taking a task other than the front out of its queue leaves the front. -/
theorem Scheduled.head_filter (h : s.Scheduled) (ht : s.currentTask ≠ some t) (lv : Fin 4) :
    (Function.update s.running lv ((s.running lv).filter (· != t)) s.currentLevel).head? =
      some s.executing := by
  obtain ⟨rest, hqueue⟩ := h.queue
  have hne : s.executing ≠ t := fun heq => ht (heq ▸ h.current)
  by_cases hlv : s.currentLevel = lv
  · subst hlv
    rw [Function.update_self, hqueue, List.filter_cons_of_pos (by simpa using hne)]
    rfl
  · rw [Function.update_of_ne hlv, hqueue]
    rfl

theorem front_of_head {l : List Nat} {x : Nat} (h : l.head? = some x) : l ≠ [] := by
  rintro rfl
  cases h

/-- **`Sleep`.** -/
theorem Scheduled.sleep (h : s.Scheduled) (hidle : t ≠ idleId) : (s.sleep t).Scheduled := by
  rw [TaskManager.sleep]
  cases htask : s.tasks t with
  | none => exact h
  | some task =>
      cases hrunning : task.running with
      | false => simpa [hrunning] using h
      | true =>
          have hlane : s.lane t = some task.level := by
            rw [lane_of_task htask, Task.lane, hrunning, if_pos rfl]
          have hlive := live_of_task htask
          simp only [hrunning, Bool.not_true, Bool.false_eq_true, if_false]
          by_cases hcurrent : s.currentTask = some t
          · -- the task itself: the next one goes on
            rw [if_pos hcurrent]
            obtain ⟨rest, hqueue⟩ := h.queue
            obtain rfl : s.executing = t := Option.some.inj (h.current.symm.trans hcurrent)
            simp only [rotateCurrentRunQueue, hqueue]
            have hlevel : s.levelChanged = true ∨ ∀ lv, s.currentLevel < lv →
                Function.update s.running s.currentLevel rest lv = [] := by
              refine h.highest.imp_right fun hhigh lv hlv => ?_
              rw [Function.update_of_ne (Fin.ne_of_gt hlv), hhigh lv hlv]
            have hlanes : Lanes (Function.update s.running s.currentLevel rest)
                (Function.update s.lane s.executing none) :=
              h.lanes.leave (by rw [hqueue])
            have hlaid : Laid { s with
                tasks := Function.update s.tasks s.executing (some { task with running := false })
                running := Function.update s.running s.currentLevel rest } :=
              Laid.set h.toLaid rfl hlive rfl hlanes fun hid => absurd hid hidle
            exact (hlaid.pickLevel hlevel).1.restoreContext
          · rw [if_neg hcurrent]
            have hlanes := h.lanes.leave (h.lanes.perm_filter hlane)
            have hhead := h.head_filter hcurrent task.level
            refine { toLaid := Laid.set h.toLaid rfl hlive rfl hlanes fun hid => absurd hid hidle
                     front := front_of_head hhead, highest := ?_, current := hhead }
            refine h.highest.imp_right fun hhigh lv hlv => ?_
            by_cases hlevel : lv = task.level
            · subst hlevel
              have hempty := hhigh task.level hlv
              simp [hempty]
            · exact (Function.update_of_ne hlevel _ _).trans (hhigh lv hlv)

/-- A queue that is empty above the current level stays so when another task leaves it. -/
theorem Highest.filter (h : s.Highest) (lv : Fin 4) {l : Fin 4} (hl : s.currentLevel < l) :
    Function.update s.running lv ((s.running lv).filter (· != t)) l = [] := by
  have hempty := h l hl
  by_cases hlv : l = lv
  · subst hlv
    rw [Function.update_self, hempty, List.filter_nil]
  · rw [Function.update_of_ne hlv, hempty]

section back

variable {running : Fin 4 → List Nat} {cur level : Fin 4} {x : Nat} {changed : Bool}

/-- A task joins a queue at its back: the front stays. -/
theorem head_back (t : Nat) (level : Fin 4) (h : (running cur).head? = some x) :
    (Function.update running level (running level ++ [t]) cur).head? = some x := by
  by_cases hcur : cur = level
  · subst hcur
    rw [Function.update_self, List.head?_append, h]
    rfl
  · rwa [Function.update_of_ne hcur]

/-- A task joins a queue at its back: above the current level this is noted. -/
theorem highest_back (h : changed = true ∨ ∀ l, cur < l → running l = []) :
    (if cur < level then true else changed) = true ∨
      ∀ l, cur < l → Function.update running level (running level ++ [t]) l = [] := by
  by_cases hlevel : cur < level
  · exact .inl (if_pos hlevel)
  · rw [if_neg hlevel]
    refine h.imp_right fun hhigh l hl => ?_
    have hne : l ≠ level := fun heq => hlevel (heq ▸ hl)
    rw [Function.update_of_ne hne, hhigh l hl]

end back

/-- **`ChangeLevelRunning`** of a task that runs. -/
theorem Scheduled.changeLevelRunning (h : s.Scheduled) (htask : s.tasks t = some task)
    (hrunning : task.running = true) (level : Option (Fin 4)) :
    (s.changeLevelRunning t level).Scheduled := by
  cases level with
  | none =>
      have hsame : s.changeLevelRunning t none = s := by
        simp only [TaskManager.changeLevelRunning, htask]
      rw [hsame]
      exact h
  | some level =>
      have hlane : s.lane t = some task.level := by
        rw [lane_of_task htask, Task.lane, hrunning, if_pos rfl]
      have hlane' : Task.lane { task with level } = some level := if_pos hrunning
      have hlive := live_of_task htask
      simp only [TaskManager.changeLevelRunning, htask]
      by_cases hsame : level = task.level
      · rw [if_pos hsame]
        exact h
      rw [if_neg hsame]
      by_cases hcurrent : s.currentTask = some t
      · -- the task itself: its new level is the current one
        rw [if_neg (not_not.mpr hcurrent)]
        obtain ⟨rest, hqueue⟩ := h.queue
        obtain rfl : s.executing = t := Option.some.inj (h.current.symm.trans hcurrent)
        rw [hqueue, List.tail_cons]
        have hleave : Lanes (Function.update s.running s.currentLevel rest)
            (Function.update s.lane s.executing none) :=
          h.lanes.leave (by rw [hqueue])
        have hjoin := hleave.join (i := level) (Function.update_self _ _ _) (List.Perm.refl _)
        rw [Function.update_idem, ← hlane'] at hjoin
        have hhead : (Function.update (Function.update s.running s.currentLevel rest) level
            (s.executing :: Function.update s.running s.currentLevel rest level) level).head? =
            some s.executing := by
          rw [Function.update_self, List.head?_cons]
        refine { toLaid := Laid.set h.toLaid rfl hlive rfl hjoin fun _ => ?_
                 front := front_of_head hhead, highest := ?_, current := hhead }
        · rw [hlane']
          exact Option.some_ne_none level
        · by_cases hle : s.currentLevel ≤ level
          · simp only [if_pos hle]
            refine h.highest.imp_right fun hhigh l hl => ?_
            have hlt : s.currentLevel < l := Nat.lt_of_le_of_lt hle hl
            simp only [Function.update_of_ne (Fin.ne_of_gt hl),
              Function.update_of_ne (Fin.ne_of_gt hlt), hhigh l hlt]
          · simp only [if_neg hle]
            exact .inl trivial
      · rw [if_pos hcurrent]
        have hleave := h.lanes.leave (h.lanes.perm_filter hlane)
        have hjoin := hleave.join (i := level) (Function.update_self _ _ _)
          (List.perm_append_singleton t _)
        rw [Function.update_idem, ← hlane'] at hjoin
        have hhead := head_back t level (h.head_filter hcurrent task.level)
        refine { toLaid := Laid.set h.toLaid rfl hlive rfl hjoin fun _ => ?_
                 front := front_of_head hhead, highest := ?_, current := hhead }
        · rw [hlane']
          exact Option.some_ne_none level
        · exact highest_back (h.highest.imp_right fun hhigh l hl => hhigh.filter task.level hl)

/-- **`Wakeup`.** -/
theorem Scheduled.wakeup (h : s.Scheduled) (t : Nat) (level : Option (Fin 4)) :
    (s.wakeup t level).Scheduled := by
  cases htask : s.tasks t with
  | none =>
      have hsame : s.wakeup t level = s := by simp only [TaskManager.wakeup, htask]
      rw [hsame]
      exact h
  | some task =>
      cases hrunning : task.running with
      | true =>
          have hstate : s.wakeup t level = s.changeLevelRunning t level := by
            simp only [TaskManager.wakeup, htask, hrunning, if_true]
          rw [hstate]
          exact h.changeLevelRunning htask hrunning level
      | false =>
          have hlane : s.lane t = none := by
            rw [lane_of_task htask, Task.lane, hrunning, if_neg Bool.false_ne_true]
          have hlive := live_of_task htask
          simp only [TaskManager.wakeup, htask, hrunning, Bool.false_eq_true, if_false]
          have hjoin := h.lanes.join (i := level.getD task.level) hlane
            (List.perm_append_singleton t _)
          have hhead := head_back t (level.getD task.level) h.current
          refine { toLaid := Laid.set h.toLaid rfl hlive rfl hjoin fun _ => ?_
                   front := front_of_head hhead, highest := ?_, current := hhead }
          · exact Option.some_ne_none _
          · exact highest_back h.highest

/-- **`Task::SendMessage`.** -/
theorem Scheduled.sendMessage (h : s.Scheduled) (t : Nat) (msg : Message) :
    (s.sendMessage t msg).Scheduled := by
  rw [TaskManager.sendMessage]
  refine Scheduled.wakeup ?_ t none
  cases htask : s.tasks t with
  | none =>
      have hsame : Function.update s.tasks t (Option.map (fun task => Task.pushBack task msg) none) =
          s.tasks := Function.update_eq_self_iff.mpr htask.symm
      rw [hsame]
      exact h
  | some task =>
      have hlane : Function.update s.lane t (Task.lane (task.pushBack msg)) = s.lane := by
        refine Function.update_eq_self_iff.mpr ?_
        rw [lane_of_task htask]
        rfl
      refine { toLaid := Laid.set h.toLaid rfl (live_of_task htask) rfl ?_ fun hid => ?_
               front := h.front, highest := h.highest, current := h.current }
      · rw [hlane]
        exact h.lanes
      · have hidle := h.idle
        rw [← hid, lane_of_task htask] at hidle
        exact hidle

/-! ## `Finish` and `WaitFinish` -/

/-- A task is erased. -/
theorem Laid.erase (h : s.Laid) (hset : s'.tasks = Function.update s.tasks t none)
    (hlatest : s'.latestId = s.latestId)
    (hlanes : Lanes s'.running (Function.update s.lane t none)) (hidle : t ≠ idleId) :
    s'.Laid := by
  have hlane : s'.lane = Function.update s.lane t none := lane_eq hset
  constructor
  case lanes =>
    rw [hlane]
    exact hlanes
  case idle =>
    rw [hlane, Function.update_of_ne hidle.symm]
    exact h.idle
  case ids =>
    intro u hu
    rw [hlatest]
    rw [Live, hset] at hu
    by_cases hut : u = t
    · subst hut
      rw [Function.update_self] at hu
      cases hu
    · rw [Function.update_of_ne hut] at hu
      exact h.ids u hu

/-- The level does not depend on the tasks. -/
theorem pickLevel_erase (s : TaskManager) (t : Nat) (exitCode : Int) :
    s.pickLevel.erase t exitCode = (s.erase t exitCode).pickLevel := by
  cases hempty : (s.running s.currentLevel).isEmpty <;> cases hchanged : s.levelChanged <;>
    simp [pickLevel, erase, hempty, hchanged]

/-- Whom the processor runs makes no difference to a wake-up. -/
theorem restoreContext_wakeup {x : Nat} (hcurrent : s.currentTask = some x) (t : Nat) :
    (s.wakeup t none).restoreContext = s.restoreContext.wakeup t none := by
  cases htask : s.tasks t with
  | none => simp only [wakeup, restoreContext, htask]
  | some task =>
      cases hrunning : task.running with
      | true => simp only [wakeup, changeLevelRunning, restoreContext, htask, hrunning, if_true]
      | false =>
          have hback : (Function.update s.running task.level (s.running task.level ++ [t])
              s.currentLevel).head? = some x := head_back _ _ hcurrent
          simp only [wakeup, restoreContext, htask, hrunning, Bool.false_eq_true, if_false,
            Option.getD_none, currentTask, hback]
          rw [currentTask] at hcurrent
          rw [hcurrent]
          rfl

/-- `Finish`, up to the waiter. -/
theorem Scheduled.erase (h : s.Scheduled) (exitCode : Int) (hidle : s.executing ≠ idleId) :
    ((s.rotateCurrentRunQueue true).erase s.executing exitCode).Queued := by
  obtain ⟨rest, hqueue⟩ := h.queue
  simp only [rotateCurrentRunQueue, hqueue, if_true, pickLevel_erase]
  have hlevel : s.levelChanged = true ∨ ∀ lv, s.currentLevel < lv →
      Function.update s.running s.currentLevel rest lv = [] := by
    refine h.highest.imp_right fun hhigh lv hlv => ?_
    rw [Function.update_of_ne (Fin.ne_of_gt hlv), hhigh lv hlv]
  have hlanes : Lanes (Function.update s.running s.currentLevel rest)
      (Function.update s.lane s.executing none) :=
    h.lanes.leave (by rw [hqueue])
  have hlaid : ({ s with
      running := Function.update s.running s.currentLevel rest }.erase s.executing exitCode).Laid :=
    Laid.erase h.toLaid rfl rfl hlanes hidle
  exact (hlaid.pickLevel hlevel).1

/-- A task is woken before the processor goes on. -/
theorem Queued.wakeup (h : s.Queued) (t : Nat) : (s.wakeup t none).restoreContext.Scheduled := by
  obtain ⟨x, rest, hqueue⟩ := List.exists_cons_of_ne_nil h.front
  have hcurrent : s.currentTask = some x := by rw [currentTask, hqueue, List.head?_cons]
  rw [restoreContext_wakeup hcurrent]
  exact h.restoreContext.wakeup t none

/-- **`Finish`.** -/
theorem Scheduled.finish (h : s.Scheduled) (exitCode : Int) (hidle : s.executing ≠ idleId) :
    (s.finish exitCode).Scheduled := by
  have herase := h.erase exitCode hidle
  simp only [TaskManager.finish, h.current, wakeWaiter]
  split
  · exact herase.restoreContext
  · -- the queues do not depend on the waiters
    refine Queued.wakeup ?_ _
    exact { lanes := herase.lanes, idle := herase.idle, ids := herase.ids, front := herase.front,
            highest := herase.highest }

/-- **`WaitFinish`**, once through its loop. -/
theorem Scheduled.waitFinish (h : s.Scheduled) (t : Nat) (hidle : s.executing ≠ idleId) :
    (s.waitFinish t).1.Scheduled := by
  rw [TaskManager.waitFinish]
  split
  · exact { lanes := h.lanes, idle := h.idle, ids := h.ids, front := h.front,
            highest := h.highest, current := h.current }
  · refine Scheduled.sleep ?_ hidle
    exact { lanes := h.lanes, idle := h.idle, ids := h.ids, front := h.front,
            highest := h.highest, current := h.current }

/-- **`TaskManager()`.** -/
theorem scheduled_new : new.Scheduled := by
  have hempty : Lanes (fun _ : Fin 4 => ([] : List Nat)) fun _ => none :=
    ⟨fun t lv => by simp, fun lv => List.nodup_nil⟩
  have hmain := hempty.join (a := 1) (i := 3) rfl (List.Perm.refl [1])
  have hlanes := hmain.join (a := idleId) (i := 0)
    (Function.update_of_ne (by decide) _ _) (List.Perm.refl [idleId])
  have hlane : new.lane =
      Function.update (Function.update (fun _ => none) 1 (some 3)) idleId (some 0) := by
    funext t
    simp only [lane, new]
    by_cases h2 : t = idleId
    · subst h2
      rw [Function.update_self, Function.update_self]
      rfl
    · rw [Function.update_of_ne h2, Function.update_of_ne h2]
      by_cases h1 : t = 1
      · subst h1
        rw [Function.update_self, Function.update_self]
        rfl
      · rw [Function.update_of_ne h1, Function.update_of_ne h1]
        rfl
  refine { lanes := ?_, idle := ?_, ids := fun t ht => ?_, front := ?_
           highest := .inr fun lv hlv => ?_, current := rfl }
  · rw [hlane]
    exact hlanes
  · rw [hlane, Function.update_self]
    exact Option.some_ne_none 0
  · by_contra hgt
    have h1 : t ≠ 1 := by rintro rfl; exact hgt (by decide)
    have h2 : t ≠ idleId := by rintro rfl; exact hgt (by decide)
    rw [Live, new] at ht
    simp only [Function.update_of_ne h1, Function.update_of_ne h2] at ht
    cases ht
  · exact List.cons_ne_nil 1 []
  · exact absurd hlv (Nat.not_lt.mpr (Fin.le_last lv))

end TaskManager

/-! ## Runs -/

/-- A call of `TaskManager`. -/
inductive TaskCall where
  | newTask
  | wakeup (t : Nat) (level : Option (Fin 4))
  | sleep (t : Nat)
  | switchTask
  | finish (exitCode : Int)
  | changeLevelRunning (t : Nat) (level : Option (Fin 4))
  | sendMessage (t : Nat) (msg : Message)
  | waitFinish (t : Nat)

namespace TaskManager

def step (s : TaskManager) : TaskCall → TaskManager
  | .newTask => s.newTask
  | .wakeup t level => s.wakeup t level
  | .sleep t => s.sleep t
  | .switchTask => s.switchTask
  | .finish exitCode => s.finish exitCode
  | .changeLevelRunning t level => s.changeLevelRunning t level
  | .sendMessage t msg => s.sendMessage t msg
  | .waitFinish t => (s.waitFinish t).1

/-- A task that runs. -/
def Running (s : TaskManager) (t : Nat) : Prop := s.lane t ≠ none

instance (s : TaskManager) (t : Nat) : Decidable (s.Running t) :=
  inferInstanceAs (Decidable (¬_))

/-- The tasks that are named are live, and the idle task is not put to sleep; `ChangeLevelRunning`
is called by `Wakeup`, for a task that runs. -/
def Admits (s : TaskManager) : TaskCall → Prop
  | .newTask => True
  | .wakeup t _ => s.Live t
  | .sleep t => s.Live t ∧ t ≠ idleId
  | .switchTask => True
  | .finish _ => s.executing ≠ idleId ∧
      ∀ waiter ∈ s.finishWaiter s.executing, s.Live waiter ∧ waiter ≠ s.executing
  | .changeLevelRunning t _ => s.Running t
  | .sendMessage t _ => s.Live t
  | .waitFinish _ => s.executing ≠ idleId

instance (s : TaskManager) : (c : TaskCall) → Decidable (s.Admits c)
  | .newTask => isTrue trivial
  | .wakeup t _ => inferInstanceAs (Decidable (s.Live t))
  | .sleep t => inferInstanceAs (Decidable (s.Live t ∧ t ≠ idleId))
  | .switchTask => isTrue trivial
  | .finish _ => inferInstanceAs (Decidable (s.executing ≠ idleId ∧
      ∀ waiter ∈ s.finishWaiter s.executing, s.Live waiter ∧ waiter ≠ s.executing))
  | .changeLevelRunning t _ => inferInstanceAs (Decidable (s.Running t))
  | .sendMessage t _ => inferInstanceAs (Decidable (s.Live t))
  | .waitFinish _ => inferInstanceAs (Decidable (s.executing ≠ idleId))

/-- **A call.** -/
theorem Scheduled.step {s : TaskManager} (h : s.Scheduled) {c : TaskCall} (hc : s.Admits c) :
    (s.step c).Scheduled := by
  cases c with
  | newTask => exact h.newTask
  | wakeup t level => exact h.wakeup t level
  | sleep t => exact h.sleep hc.2
  | switchTask => exact h.switchTask.1
  | finish exitCode => exact h.finish exitCode hc.1
  | changeLevelRunning t level =>
      obtain ⟨lv, hlv⟩ := Option.ne_none_iff_exists'.mp hc
      obtain ⟨task, htask, hlane⟩ := Option.bind_eq_some_iff.mp hlv
      have hrunning : task.running = true := by
        by_contra hnot
        rw [Task.lane, if_neg hnot] at hlane
        cases hlane
      exact h.changeLevelRunning htask hrunning level
  | sendMessage t msg => exact h.sendMessage t msg
  | waitFinish t => exact h.waitFinish t hc

/-- What `Scheduled` says of each task. -/
theorem Scheduled.queue_iff {s : TaskManager} (h : s.Scheduled) {t : Nat} {task : Task}
    (htask : s.tasks t = some task) (lv : Fin 4) :
    (s.running lv).count t = if task.running ∧ lv = task.level then 1 else 0 := by
  rw [h.lanes.count, lane_of_task htask, Task.lane]
  cases task.running with
  | true => simp [eq_comm]
  | false => simp

/-- **`RotateCurrentRunQueue`** goes on with the front of the highest level, as long as there is a
task left. -/
theorem Scheduled.rotate {s : TaskManager} (h : s.Scheduled) (currentSleep : Bool)
    (hsleep : currentSleep = true → s.executing ≠ idleId) :
    let s' := s.rotateCurrentRunQueue currentSleep
    s'.running s'.currentLevel ≠ [] ∧ s'.Highest := by
  intro s'
  obtain ⟨rest, hqueue⟩ := h.queue
  obtain ⟨lv, hlv⟩ := Option.ne_none_iff_exists'.mp h.idle
  have hidle : idleId ∈ s.running lv := (h.lanes.mem_iff idleId lv).mpr hlv
  -- the idle task stays in its queue
  have hstays : idleId ∈ Function.update s.running s.currentLevel
      (if currentSleep then rest else rest ++ [s.executing]) lv := by
    by_cases hcur : lv = s.currentLevel
    · subst hcur
      rw [hqueue] at hidle
      rw [Function.update_self]
      cases currentSleep with
      | true =>
          rcases List.mem_cons.mp hidle with heq | hrest
          · exact absurd heq.symm (hsleep rfl)
          · exact hrest
      | false => simpa [or_comm] using hidle
    · rwa [Function.update_of_ne hcur]
  have hlevel : s.levelChanged = true ∨ ∀ l, s.currentLevel < l →
      Function.update s.running s.currentLevel
        (if currentSleep then rest else rest ++ [s.executing]) l = [] := by
    refine h.highest.imp_right fun hhigh l hl => ?_
    rw [Function.update_of_ne (Fin.ne_of_gt hl), hhigh l hl]
  obtain ⟨lv', b, hstate, hfront, habove⟩ := pickLevel_eq
    { s with
      running := Function.update s.running s.currentLevel
        (if currentSleep then rest else rest ++ [s.executing]) }
    ⟨lv, List.ne_nil_of_mem hstays⟩ hlevel
  have hs' : s' = pickLevel { s with
      running := Function.update s.running s.currentLevel
        (if currentSleep then rest else rest ++ [s.executing]) } := by
    simp only [s', rotateCurrentRunQueue, hqueue]
  rw [hs', hstate]
  exact ⟨hfront, habove⟩

/-- `SwitchTask` with the level as it is: the front goes to the back. -/
theorem switchTask_eq {s : TaskManager} {t : Nat} {rest : List Nat}
    (hchanged : s.levelChanged = false) (hqueue : s.running s.currentLevel = t :: rest) :
    ∃ x, (rest ++ [t]).head? = some x ∧ s.switchTask = { s with
      running := Function.update s.running s.currentLevel (rest ++ [t]), executing := x } := by
  obtain ⟨x, hx⟩ : ∃ x, (rest ++ [t]).head? = some x := by
    cases rest with
    | nil => exact ⟨t, rfl⟩
    | cons y rest => exact ⟨y, rfl⟩
  refine ⟨x, hx, ?_⟩
  have hempty : (rest ++ [t]).isEmpty = false := by simp
  simp [switchTask, rotateCurrentRunQueue, hqueue, pickLevel, hempty, hchanged, restoreContext,
    currentTask, hx]

/-- `n` calls of `SwitchTask` turn the queue by `n` places. -/
theorem switchTask_iterate {s : TaskManager} (h : s.Scheduled) (hchanged : s.levelChanged = false)
    (n : Nat) :
    ∃ x, ((s.running s.currentLevel).rotate n).head? = some x ∧
      TaskManager.switchTask^[n] s = { s with
        running := Function.update s.running s.currentLevel
          ((s.running s.currentLevel).rotate n)
        executing := x } := by
  induction n generalizing s with
  | zero =>
      rw [List.rotate_zero, Function.update_eq_self]
      exact ⟨s.executing, h.current, rfl⟩
  | succ n ih =>
      obtain ⟨rest, hqueue⟩ := h.queue
      obtain ⟨x, hx, hstep⟩ := switchTask_eq hchanged hqueue
      have hnext := h.switchTask.1
      rw [hstep] at hnext
      obtain ⟨y, hy, hrest⟩ := ih hnext hchanged
      simp only [Function.update_self, Function.update_idem] at hy hrest
      rw [Function.iterate_succ_apply, hstep, hqueue, List.rotate_cons_succ]
      exact ⟨y, hy, hrest⟩

end TaskManager

/-- **The run queues.**  After any calls each task that runs stands once in all queues, in that of
its level, and a task that does not run stands in none; the front of the current queue is the task
that the processor runs; and the current level is the highest with a task, or is about to be set.
So `RotateCurrentRunQueue` goes on with the front of the highest level, and while no level
changes, `n` calls of `SwitchTask` let each of `n` tasks run and restore the queue. -/
theorem run_queues (calls : List TaskCall)
    (hcalls : Guarded TaskManager.step TaskManager.Admits .new calls) :
    let s := run TaskManager.step .new calls
    (∀ t task, s.tasks t = some task → ∀ lv,
      (s.running lv).count t = if task.running ∧ lv = task.level then 1 else 0) ∧
    (∀ lv, ∀ t ∈ s.running lv, s.Live t) ∧
    (s.running s.currentLevel).head? = some s.executing ∧
    (s.levelChanged = true ∨ ∀ lv, s.currentLevel < lv → s.running lv = []) ∧
    (∀ currentSleep, (currentSleep = true → s.executing ≠ idleId) →
      let s' := s.rotateCurrentRunQueue currentSleep
      s'.running s'.currentLevel ≠ [] ∧ ∀ lv, s'.currentLevel < lv → s'.running lv = []) ∧
    (s.levelChanged = false →
      let queue := s.running s.currentLevel
      TaskManager.switchTask^[queue.length] s = s ∧
        ∀ n (hn : n < queue.length),
          (TaskManager.switchTask^[n] s).executing = queue.get ⟨n, hn⟩) := by
  intro s
  have h : s.Scheduled :=
    inv_run TaskManager.Scheduled (fun s c h hc => h.step hc) TaskManager.scheduled_new hcalls
  refine ⟨fun t task htask lv => h.queue_iff htask lv, fun lv t ht => ?_, h.current, h.highest,
    fun currentSleep hsleep => ?_, fun hchanged => ⟨?_, fun n hn => ?_⟩⟩
  · refine TaskManager.live_of_lane ?_
    rw [(h.lanes.mem_iff t lv).mp ht]
    exact Option.some_ne_none lv
  · exact h.rotate currentSleep hsleep
  · obtain ⟨x, hx, hstate⟩ := TaskManager.switchTask_iterate h hchanged
      (s.running s.currentLevel).length
    rw [List.rotate_length] at hx hstate
    obtain rfl : s.executing = x := Option.some.inj (h.current.symm.trans hx)
    rw [hstate, Function.update_eq_self]
  · obtain ⟨x, hx, hstate⟩ := TaskManager.switchTask_iterate h hchanged n
    rw [List.head?_rotate hn, List.getElem?_eq_getElem hn] at hx
    rw [hstate]
    exact (Option.some.inj hx).symm

/-- A task is made, woken above the current level, and changes its level; the main task sleeps and
is woken, and the new task finishes. -/
def shortCalls : List TaskCall :=
  [.newTask, .wakeup 3 none, .sleep 1, .changeLevelRunning 3 (some 2), .wakeup 1 (some 3),
    .switchTask, .sleep 1, .finish 7, .wakeup 1 none]

theorem run_queues_short :
    let s := run TaskManager.step .new shortCalls
    (∀ t task, s.tasks t = some task → ∀ lv,
      (s.running lv).count t = if task.running ∧ lv = task.level then 1 else 0) ∧
    (∀ lv, ∀ t ∈ s.running lv, s.Live t) ∧
    (s.running s.currentLevel).head? = some s.executing ∧
    (s.levelChanged = true ∨ ∀ lv, s.currentLevel < lv → s.running lv = []) ∧
    (∀ currentSleep, (currentSleep = true → s.executing ≠ idleId) →
      let s' := s.rotateCurrentRunQueue currentSleep
      s'.running s'.currentLevel ≠ [] ∧ ∀ lv, s'.currentLevel < lv → s'.running lv = []) ∧
    (s.levelChanged = false →
      let queue := s.running s.currentLevel
      TaskManager.switchTask^[queue.length] s = s ∧
        ∀ n (hn : n < queue.length),
          (TaskManager.switchTask^[n] s).executing = queue.get ⟨n, hn⟩) :=
  run_queues shortCalls (by decide +kernel)

end Laplus.Tasks
