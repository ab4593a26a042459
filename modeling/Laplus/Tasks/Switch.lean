/-
# `Laplus.Tasks.Switch` — time sharing (`task.cpp`, `timer.cpp`, `asmfunc.asm`)

The processor, the memory and the run queues together.  Kernel code and programs compute as
they like, at any address, as long as they leave the contexts of the other tasks alone; the
processor is taken from a task by the code of `asmfunc.asm`, when it sleeps, when it finishes and at
an interrupt of the timer.

Against this stand tasks with a processor each: what one of them does is done with its own, and
nothing else changes it.  `Shares` relates the two, and is kept by every step.
-/
import Laplus.Tasks.Interrupt
import Laplus.Tasks.WaitFinish

namespace Laplus.Tasks

open Lib Lib.Amd64

/-! ## What the calls do to the tasks -/

namespace TaskManager

variable {s : TaskManager} {t : Nat} {c : TaskCall}

/-- The task that calls is put to sleep. -/
def Sleeps (s : TaskManager) : TaskCall → Prop
  | .sleep t => t = s.executing
  | .waitFinish t => s.finishTasks t = none
  | _ => False

/-- The task that calls goes on. -/
def GoesOn (s : TaskManager) : TaskCall → Prop
  | .sleep t => t ≠ s.executing
  | .waitFinish t => s.finishTasks t ≠ none
  | .newTask | .finish _ | .switchTask => False
  | .wakeup _ _ | .changeLevelRunning _ _ | .sendMessage _ _ => True

/-- What a call that makes no task leaves. -/
structure Stays (s s' : TaskManager) : Prop where
  latestId : s'.latestId = s.latestId
  executing : s'.executing = s.executing

theorem stays_changeLevelRunning (s : TaskManager) (t : Nat) (level : Option (Fin 4)) :
    Stays s (s.changeLevelRunning t level) := by
  unfold changeLevelRunning
  split
  · split
    · exact ⟨rfl, rfl⟩
    · dsimp only
      split
      · exact ⟨rfl, rfl⟩
      · exact ⟨rfl, rfl⟩
  · exact ⟨rfl, rfl⟩

theorem stays_wakeup (s : TaskManager) (t : Nat) (level : Option (Fin 4)) :
    Stays s (s.wakeup t level) := by
  rw [wakeup]
  split
  · exact ⟨rfl, rfl⟩
  · split
    · exact s.stays_changeLevelRunning t level
    · exact ⟨rfl, rfl⟩

theorem stays_sendMessage (s : TaskManager) (t : Nat) (msg : Message) :
    Stays s (s.sendMessage t msg) :=
  ⟨(stays_wakeup _ t none).1, (stays_wakeup _ t none).2⟩

theorem latestId_sleep (s : TaskManager) (t : Nat) : (s.sleep t).latestId = s.latestId := by
  rw [sleep]
  split
  · rfl
  · split
    · rfl
    · simp only
      split
      · obtain ⟨running, level, changed, hstate⟩ := rotate_eq { s with
          tasks := Function.update s.tasks t _ } true
        rw [hstate]
        rfl
      · rfl

theorem latestId_switchTask (s : TaskManager) : s.switchTask.latestId = s.latestId := by
  obtain ⟨running, level, changed, hstate⟩ := s.rotate_eq false
  rw [switchTask, hstate]
  rfl

theorem latestId_finish (s : TaskManager) (exitCode : Int) :
    (s.finish exitCode).latestId = s.latestId := by
  rw [finish]
  split
  · rfl
  · obtain ⟨running, level, changed, hstate⟩ := s.rotate_eq true
    rw [hstate, wakeWaiter]
    split
    · rfl
    · exact (stays_wakeup _ _ none).1

/-- Another task is put to sleep. -/
theorem Scheduled.sleep_other (h : s.Scheduled) (ht : t ≠ s.executing) :
    (s.sleep t).executing = s.executing := by
  have hcurrent : s.currentTask ≠ some t := by
    rw [h.current]
    exact fun heq => ht (Option.some.inj heq).symm
  rw [TaskManager.sleep]
  split
  · rfl
  · split
    · rfl
    · rfl

/-- The task that the processor runs. -/
theorem Scheduled.live_executing (h : s.Scheduled) : s.Live s.executing := by
  refine live_of_lane ?_
  rw [h.lane_executing]
  exact Option.some_ne_none _

/-- A task that sleeps is left. -/
theorem Scheduled.sleep_executing (h : s.Scheduled) (hidle : s.executing ≠ idleId) :
    (s.sleep s.executing).executing ≠ s.executing := by
  intro heq
  have hlane := (h.sleep hidle).lane_executing
  obtain ⟨task, htask, hrun⟩ := Option.bind_eq_some_iff.mp h.lane_executing
  have hrunning : task.running = true := by
    by_contra hnot
    rw [Task.lane, if_neg hnot] at hrun
    cases hrun
  obtain ⟨running, level, changed, hstate⟩ := rotate_eq { s with
    tasks := Function.update s.tasks s.executing (some { task with running := false }) } true
  have htasks : (s.sleep s.executing).tasks =
      Function.update s.tasks s.executing (some { task with running := false }) := by
    simp only [TaskManager.sleep, htask, hrunning, Bool.not_true, Bool.false_eq_true, if_false,
      if_pos h.current, hstate]
    rfl
  rw [heq, lane_eq htasks, Function.update_self] at hlane
  cases hlane

/-- The processor is kept. -/
theorem Scheduled.executing_step (h : s.Scheduled) (hc : s.GoesOn c) :
    (s.step c).executing = s.executing := by
  cases c with
  | newTask => exact hc.elim
  | wakeup t level => exact (s.stays_wakeup t level).2
  | sleep t => exact h.sleep_other hc
  | switchTask => exact hc.elim
  | finish exitCode => exact hc.elim
  | changeLevelRunning t level => exact (s.stays_changeLevelRunning t level).2
  | sendMessage t msg => exact (s.stays_sendMessage t msg).2
  | waitFinish t =>
      obtain ⟨c, hrecord⟩ := Option.ne_none_iff_exists'.mp hc
      rw [TaskManager.step, TaskManager.waitFinish, hrecord]

/-- The processor is given to another task. -/
theorem Scheduled.executing_sleeps (h : s.Scheduled) (hc : s.Admits c) (hsleeps : s.Sleeps c) :
    (s.step c).executing ≠ s.executing := by
  cases c with
  | sleep t =>
      obtain rfl : t = s.executing := hsleeps
      exact h.sleep_executing hc.2
  | waitFinish t =>
      have hrecord : s.finishTasks t = none := hsleeps
      rw [TaskManager.step, TaskManager.waitFinish, hrecord]
      refine Scheduled.sleep_executing (s := { s with
        finishWaiter := Function.update s.finishWaiter t (some s.executing) }) ?_ hc
      exact { lanes := h.lanes, idle := h.idle, ids := h.ids, front := h.front,
              highest := h.highest, current := h.current }
  | newTask => exact hsleeps.elim
  | wakeup t level => exact hsleeps.elim
  | switchTask => exact hsleeps.elim
  | finish exitCode => exact hsleeps.elim
  | changeLevelRunning t level => exact hsleeps.elim
  | sendMessage t msg => exact hsleeps.elim

/-- The same tasks. -/
def SameTasks (s s' : TaskManager) : Prop := ∀ u, s'.Live u ↔ s.Live u

theorem SameTasks.of_quiet {sleeper : Option Nat} {s' : TaskManager} (h : Quiet sleeper s s')
    (h' : s'.Scheduled) (hlatest : s'.latestId = s.latestId) : SameTasks s s' := by
  refine fun u => ⟨fun hu => (h.dead u hu).resolve_right fun hlt => ?_, h.live u⟩
  have hle := h'.ids u hu
  omega

/-- **The tasks stay** in a call that makes and erases none. -/
theorem Scheduled.sameTasks_step (h : s.Scheduled) (hc : s.Admits c)
    (hkind : s.GoesOn c ∨ s.Sleeps c) : SameTasks s (s.step c) := by
  have h' := h.step hc
  cases c with
  | newTask => exact (or_self_iff.mp hkind).elim
  | wakeup t level => exact .of_quiet (s.quiet_wakeup t level).1 h' (s.stays_wakeup t level).1
  | sleep t => exact .of_quiet (s.quiet_sleep t) h' (s.latestId_sleep t)
  | switchTask => exact (or_self_iff.mp hkind).elim
  | finish exitCode => exact (or_self_iff.mp hkind).elim
  | changeLevelRunning t level =>
      exact .of_quiet (s.quiet_changeLevelRunning t level) h'
        (s.stays_changeLevelRunning t level).1
  | sendMessage t msg =>
      exact .of_quiet (s.quiet_sendMessage t msg) h' (s.stays_sendMessage t msg).1
  | waitFinish t =>
      cases hrecord : s.finishTasks t with
      | some c =>
          intro u
          rw [TaskManager.step, TaskManager.waitFinish, hrecord]
          exact Iff.rfl
      | none =>
          rw [TaskManager.step, TaskManager.waitFinish, hrecord] at h' ⊢
          have hsleep := quiet_sleep { s with
            finishWaiter := Function.update s.finishWaiter t (some s.executing) } s.executing
          intro u
          exact SameTasks.of_quiet hsleep h' (latestId_sleep _ _) u

theorem Scheduled.sameTasks_switchTask (h : s.Scheduled) : SameTasks s s.switchTask :=
  .of_quiet s.quiet_switchTask h.switchTask.1 s.latestId_switchTask

/-- The messages of `Tick`. -/
def sendAll (s : TaskManager) (sent : List (Nat × Message)) : TaskManager :=
  sent.foldl (fun s x => s.sendMessage x.1 x.2) s

theorem Scheduled.sendAll (h : s.Scheduled) (sent : List (Nat × Message)) :
    (s.sendAll sent).Scheduled ∧ Stays s (s.sendAll sent) ∧ SameTasks s (s.sendAll sent) := by
  induction sent generalizing s with
  | nil => exact ⟨h, ⟨rfl, rfl⟩, fun _ => Iff.rfl⟩
  | cons x sent ih =>
      have hnext := h.sendMessage x.1 x.2
      have hstays := s.stays_sendMessage x.1 x.2
      obtain ⟨hscheduled, hrest, hsame⟩ := ih hnext
      have hfirst : SameTasks s (s.sendMessage x.1 x.2) :=
        .of_quiet (s.quiet_sendMessage x.1 x.2) hnext hstays.1
      exact ⟨hscheduled, ⟨hrest.1.trans hstays.1, hrest.2.trans hstays.2⟩,
        fun u => (hsame u).trans (hfirst u)⟩

/-- **The task that finishes** is erased, and no other. -/
theorem Scheduled.live_finish (h : s.Scheduled) {exitCode : Int} (hc : s.Admits (.finish exitCode))
    (u : Nat) : (s.finish exitCode).Live u ↔ s.Live u ∧ u ≠ s.executing := by
  have hfinished := finished_finish h exitCode
  refine ⟨fun hu => (hfinished.dead u hu).resolve_right fun hlt => ?_, fun hu =>
    hfinished.live u hu.2 hu.1⟩
  have hle := (h.step hc).ids u hu
  have hlatest : (s.step (.finish exitCode)).latestId = s.latestId := s.latestId_finish exitCode
  omega

/-- **The new task.** -/
theorem Scheduled.live_newTask (h : s.Scheduled) (u : Nat) :
    s.newTask.Live u ↔ s.Live u ∨ u = s.latestId + 1 := by
  have hquiet := quiet_newTask h
  refine ⟨fun hu => (hquiet.dead u hu).imp_right fun hlt => ?_, ?_⟩
  · have hle := h.newTask.ids u hu
    exact Nat.le_antisymm hle hlt
  · rintro (hu | rfl)
    · exact hquiet.live u hu
    · have htask : s.newTask.tasks (s.latestId + 1) = some .new := Function.update_self _ _ _
      exact live_of_task htask

end TaskManager

/-! ## The kernel -/

/-- The run queues, where the tasks have their contexts, and the processor with the memory that all
address spaces share. -/
structure Kernel where
  manager : TaskManager
  context : Nat → Word
  state : State

/-- `IntHandlerLAPICTimer`, and the top of `kISTForTimer`. -/
structure Gate where
  handler : Word
  top : Word

/-- Where the handler builds the context. -/
def Gate.frame (g : Gate) : Word := g.top - BitVec.ofNat 64 timerSize

/-- What the kernel does.  A state is one that code leaves: what it computes is not looked at.

- `newTask`: `NewTask` and `InitContext`.
- `sleep`: a call in which the task is put to sleep, by `SwitchContext`.
- `finish`: `Finish`, which goes on with `RestoreContext`.
- `timer`: an interrupt, with the messages that `Tick` sends, and whether the task timer is up. -/
inductive Event where
  | compute (state : State)
  | call (c : TaskCall)
  | newTask (context f data stackEnd : Word)
  | sleep (c : TaskCall) (state : State)
  | finish (exitCode : Int) (state : State)
  | timer (sent : List (Nat × Message)) (taskTimer : Bool) (state : State)

namespace Kernel

/-- `call`, with the address behind it in `rip`. -/
def called (s : State) : State := s.pushWord s.rip

/-- `IntHandlerLAPICTimer`, where it calls `LAPICTimerOnInterrupt`. -/
def entered (g : Gate) (s : State) : State :=
  (interrupted s (g.frame + BitVec.ofNat 64 timerSize) g.handler kernelCS).run timerEntry

/-- `TaskManager::SwitchTask`: the context on the stack is copied. -/
def copied (g : Gate) (s : State) (a : Word) : State :=
  { s with mem := s.mem.put a (s.mem.get g.frame contextSize) }

def step (g : Gate) (k : Kernel) : Event → Kernel
  | .compute state => { k with state }
  | .call c => { k with manager := k.manager.step c }
  | .newTask context f data stackEnd =>
      let id := k.manager.latestId + 1
      { manager := k.manager.newTask
        context := Function.update k.context id context
        state := { k.state with
          mem := initContext k.state.mem context
            ⟨f, data, BitVec.ofNat 64 id, stackEnd, k.state.cr3⟩ } }
  | .sleep c state =>
      { k with manager := k.manager.step c, state := (called state).run switchContext }
  | .finish exitCode state =>
      { k with
        manager := k.manager.finish exitCode
        state := (called state).run restoreContext }
  | .timer sent taskTimer state =>
      let manager := k.manager.sendAll sent
      if taskTimer then
        let state := copied g state (k.context manager.executing)
        if manager.switchTask.executing ≠ manager.executing then
          { k with manager := manager.switchTask, state := (called state).run restoreContext }
        else { k with manager := manager.switchTask, state := state.run timerExit }
      else { k with manager, state := state.run timerExit }

/-- The contexts of the tasks that the processor does not run are left alone. -/
def Keeps (k : Kernel) (m m' : Memory) : Prop :=
  ∀ t, k.manager.Live t → t ≠ k.manager.executing →
    m'.get (k.context t) contextSize = m.get (k.context t) contextSize

/-- Where a call pushes, and `RestoreContext` after it, there is no context. -/
def Above (k : Kernel) (s : State) : Prop :=
  ∀ t, k.manager.Live t → Clear (s.reg .rsp - 8) (k.context t)

/-- Code leaves the contexts alone, and calls `SwitchContext` and `RestoreContext` with those of the
tasks; a function gives back what its caller relies on. -/
def Admits (g : Gate) (k : Kernel) : Event → Prop
  | .compute state => k.Keeps k.state.mem state.mem
  | .call c => k.manager.Admits c ∧ k.manager.GoesOn c
  | .newTask context _ _ _ =>
      (∀ t, k.manager.Live t → Apart context contextSize (k.context t) contextSize) ∧
      Apart g.frame timerSize context contextSize
  | .sleep c state =>
      k.manager.Admits c ∧ k.manager.Sleeps c ∧ k.Keeps k.state.mem state.mem ∧ k.Above state ∧
      state.reg .rdi = k.context (k.manager.step c).executing ∧
      state.reg .rsi = k.context k.manager.executing
  | .finish exitCode state =>
      k.manager.Admits (.finish exitCode) ∧ k.Keeps k.state.mem state.mem ∧ k.Above state ∧
      state.reg .rdi = k.context (k.manager.finish exitCode).executing
  | .timer sent taskTimer state =>
      let s := entered g k.state
      let next := (k.manager.sendAll sent).switchTask.executing
      k.Keeps s.mem state.mem ∧
      state.mem.get g.frame timerSize = s.mem.get g.frame timerSize ∧
      if taskTimer ∧ next ≠ k.manager.executing then
        k.Above state ∧ state.reg .rdi = k.context next
      else
        state.reg .rsp = s.reg .rsp ∧ state.reg .rbp = s.reg .rbp ∧ state.seg .fs = s.seg .fs ∧
        state.seg .gs = s.seg .gs ∧ state.cr3 = s.cr3

/-- `TaskManager()`: the main task runs, and the idle task has a context. -/
def start (context : Nat → Word) (s : State) (taskIdle stackEnd : Word) : Kernel where
  manager := .new
  context
  state := { s with
    mem := initContext s.mem (context idleId)
      ⟨taskIdle, 0, BitVec.ofNat 64 idleId, stackEnd, s.cr3⟩ }

end Kernel

/-! ## A processor for each task -/

/-- The run queues say whose turn it is. -/
structure Private where
  manager : TaskManager
  cpu : Nat → Cpu

namespace Private

/-- The task whose turn it is computes with its own processor. -/
def computes (p : Private) (state : State) : Private :=
  { p with cpu := Function.update p.cpu p.manager.executing state.toCpu }

def step (p : Private) : Event → Private
  | .compute state => p.computes state
  | .call c => { p with manager := p.manager.step c }
  | .newTask _ f data stackEnd =>
      let id := p.manager.latestId + 1
      { manager := p.manager.newTask
        cpu := Function.update p.cpu id
          (Fresh.cpu ⟨f, data, BitVec.ofNat 64 id, stackEnd, (p.cpu p.manager.executing).cr3⟩) }
  | .sleep c state => { p.computes state with manager := p.manager.step c }
  | .finish exitCode _ => { p with manager := p.manager.finish exitCode }
  | .timer sent taskTimer _ =>
      let manager := p.manager.sendAll sent
      { p with manager := if taskTimer then manager.switchTask else manager }

def start (s : State) (taskIdle stackEnd : Word) : Private where
  manager := .new
  cpu := Function.update (fun _ => s.toCpu) idleId
    (Fresh.cpu ⟨taskIdle, 0, BitVec.ofNat 64 idleId, stackEnd, s.cr3⟩)

end Private

/-! ## The two levels -/

/-- The processor is that of the task that runs; the contexts are those of the others. -/
structure Shares (g : Gate) (k : Kernel) (p : Private) : Prop where
  manager : p.manager = k.manager
  scheduled : k.manager.Scheduled
  cpu : k.state.toCpu = p.cpu k.manager.executing
  context : ∀ t, k.manager.Live t → t ≠ k.manager.executing →
    Context k.state.mem (k.context t) (p.cpu t)
  apart : ∀ t u, k.manager.Live t → k.manager.Live u → t ≠ u →
    Apart (k.context t) contextSize (k.context u) contextSize
  stack : ∀ t, k.manager.Live t → Apart g.frame timerSize (k.context t) contextSize

namespace Shares

variable {g : Gate} {k : Kernel} {p : Private}

/-- The contexts stay where they are. -/
theorem keep (h : Shares g k p) {manager : TaskManager} {state : State} {cpu : Nat → Cpu}
    (hscheduled : manager.Scheduled) (hlive : k.manager.SameTasks manager)
    (hcpu : state.toCpu = cpu manager.executing)
    (hcontext : ∀ t, k.manager.Live t → t ≠ manager.executing →
      Context state.mem (k.context t) (cpu t)) :
    Shares g { k with manager, state } ⟨manager, cpu⟩ where
  manager := rfl
  scheduled := hscheduled
  cpu := hcpu
  context t ht hne := hcontext t ((hlive t).mp ht) hne
  apart t u ht hu hne := h.apart t u ((hlive t).mp ht) ((hlive u).mp hu) hne
  stack t ht := h.stack t ((hlive t).mp ht)

/-- The other tasks have their contexts in a memory that keeps these. -/
theorem keeps (h : Shares g k p) {m : Memory} (hkeeps : k.Keeps k.state.mem m) (t : Nat)
    (ht : k.manager.Live t) (hne : t ≠ k.manager.executing) : Context m (k.context t) (p.cpu t) :=
  (h.context t ht hne).of_get (hkeeps t ht hne)

theorem compute (h : Shares g k p) {state : State} (he : k.Admits g (.compute state)) :
    Shares g (k.step g (.compute state)) (p.step (.compute state)) := by
  rw [Private.step, Private.computes, h.manager]
  refine h.keep h.scheduled (fun _ => Iff.rfl) ?_ ?_
  · rw [Function.update_self]
  · intro t ht hne
    rw [Function.update_of_ne hne]
    exact h.keeps he t ht hne

theorem call (h : Shares g k p) {c : TaskCall} (he : k.Admits g (.call c)) :
    Shares g (k.step g (.call c)) (p.step (.call c)) := by
  obtain ⟨hc, hgoes⟩ := he
  have hexecuting := h.scheduled.executing_step hgoes
  rw [Private.step, h.manager]
  refine h.keep (h.scheduled.step hc) (h.scheduled.sameTasks_step hc (.inl hgoes)) ?_ ?_
  · rw [hexecuting]
    exact h.cpu
  · intro t ht hne
    rw [hexecuting] at hne
    exact h.context t ht hne

theorem newTask (h : Shares g k p) {context f data stackEnd : Word}
    (he : k.Admits g (.newTask context f data stackEnd)) :
    Shares g (k.step g (.newTask context f data stackEnd))
      (p.step (.newTask context f data stackEnd)) := by
  obtain ⟨hapart, hstack⟩ := he
  -- the id is not that of a task
  have hfresh : ∀ t, k.manager.Live t → t ≠ k.manager.latestId + 1 := by
    rintro t ht rfl
    exact absurd (h.scheduled.ids _ ht) (Nat.not_succ_le_self _)
  have hrest : ∀ t, k.manager.newTask.Live t → t ≠ k.manager.latestId + 1 → k.manager.Live t :=
    fun t ht hne => ((h.scheduled.live_newTask t).mp ht).resolve_right hne
  have hexecuting := hfresh _ h.scheduled.live_executing
  simp only [Private.step, Kernel.step, h.manager, ← h.cpu]
  constructor
  case manager => rfl
  case scheduled => exact h.scheduled.newTask
  case cpu =>
    exact h.cpu.trans (Function.update_of_ne hexecuting _ _).symm
  case context =>
    intro t ht hne
    by_cases htn : t = k.manager.latestId + 1
    · subst htn
      simp only [Function.update_self]
      exact context_initContext _ _ _
    · simp only [Function.update_of_ne htn]
      have hold := hrest t ht htn
      refine (h.context t hold hne).of_get ?_
      exact get_initContext_of_apart (hapart t hold) (by decide)
  case apart =>
    intro t u ht hu hne
    by_cases htn : t = k.manager.latestId + 1
    · have hun : u ≠ k.manager.latestId + 1 := fun hun => hne (htn.trans hun.symm)
      subst htn
      simp only [Function.update_self, Function.update_of_ne hun]
      exact hapart u (hrest u hu hun)
    · by_cases hun : u = k.manager.latestId + 1
      · subst hun
        simp only [Function.update_self, Function.update_of_ne htn]
        exact (hapart t (hrest t ht htn)).symm
      · simp only [Function.update_of_ne htn, Function.update_of_ne hun]
        exact h.apart t u (hrest t ht htn) (hrest u hu hun) hne
  case stack =>
    intro t ht
    by_cases htn : t = k.manager.latestId + 1
    · subst htn
      simp only [Function.update_self]
      exact hstack
    · simp only [Function.update_of_ne htn]
      exact h.stack t (hrest t ht htn)

/-- A call of `SwitchContext` returns with the registers as they are. -/
theorem returned_called (s : State) : returned (Kernel.called s) = s.toCpu := by
  refine Cpu.ext ?_ Memory.load_store_self rfl rfl rfl rfl
  have hreg : (returned (Kernel.called s)).reg =
      Function.update (Function.update s.reg .rsp (s.reg .rsp - 8)) .rsp
        (Function.update s.reg .rsp (s.reg .rsp - 8) .rsp + 8) := rfl
  rw [hreg, Function.update_idem, Function.update_self, sub_add_cancel, Function.update_eq_self]

/-- The return address is pushed. -/
theorem get_called {s : State} {a : Word} (h : Clear (s.reg .rsp - 8) a) :
    (Kernel.called s).mem.get a contextSize = s.mem.get a contextSize := by
  have hslot := h.part (i := 40) (k := 8) (by decide) (by decide)
  have hplace : s.reg .rsp - 8 - 40 + BitVec.ofNat 64 40 = s.reg .rsp - 8 := sub_add_cancel _ _
  rw [hplace] at hslot
  exact Memory.get_store_of_apart hslot

/-- A task that is not the one before holds its context where it is called. -/
theorem called (h : Shares g k p) {state : State} (hkeeps : k.Keeps k.state.mem state.mem)
    (habove : k.Above state) {t : Nat} (ht : k.manager.Live t) (hne : t ≠ k.manager.executing) :
    Context (Kernel.called state).mem (k.context t) (p.cpu t) :=
  (h.keeps hkeeps t ht hne).of_get (get_called (habove t ht))

theorem sleep (h : Shares g k p) {c : TaskCall} {state : State} (he : k.Admits g (.sleep c state)) :
    Shares g (k.step g (.sleep c state)) (p.step (.sleep c state)) := by
  obtain ⟨hc, hsleeps, hkeeps, habove, hdi, hsi⟩ := he
  have hsame := h.scheduled.sameTasks_step hc (.inr hsleeps)
  have hne := h.scheduled.executing_sleeps hc hsleeps
  have hnext := (hsame _).mp (h.scheduled.step hc).live_executing
  have hcurrent := h.scheduled.live_executing
  have hdi' : (Kernel.called state).reg .rdi = k.context (k.manager.step c).executing := hdi
  have hsi' : (Kernel.called state).reg .rsi = k.context k.manager.executing := hsi
  have hsp : (Kernel.called state).reg .rsp = state.reg .rsp - 8 := rfl
  obtain ⟨m, hrun, hsaved, hframe⟩ := run_switchContext (s := Kernel.called state)
    (c := p.cpu (k.manager.step c).executing)
    (by rw [hdi']; exact h.called hkeeps habove hnext hne)
    (by rw [hsi', hdi']; exact h.apart _ _ hcurrent hnext hne.symm)
    (by rw [hsi', hsp]; exact habove _ hcurrent)
    (by rw [hdi', hsp]; exact habove _ hnext)
  rw [hsi', returned_called] at hsaved
  rw [Private.step, Private.computes, h.manager]
  simp only [Kernel.step, hrun]
  refine h.keep (h.scheduled.step hc) hsame ?_ ?_
  · exact (Function.update_of_ne hne _ _).symm
  · intro t ht htn
    by_cases hte : t = k.manager.executing
    · subst hte
      rw [Function.update_self]
      exact hsaved
    · rw [Function.update_of_ne hte]
      refine (h.called hkeeps habove ht hte).of_get (hframe _ _ (by decide) ?_ ?_)
      · rw [hsi']
        exact h.apart _ _ hcurrent ht (Ne.symm hte)
      · have hpart := (habove t ht).part (i := 0) (k := 40) (by decide) (by decide)
        rwa [BitVec.add_zero] at hpart

/-- The processor goes on with another task. -/
theorem restore (h : Shares g k p) {manager : TaskManager} {state : State}
    (hscheduled : manager.Scheduled) (hlive : ∀ t, manager.Live t → k.manager.Live t)
    (hcontext : ∀ t, manager.Live t → Context state.mem (k.context t) (p.cpu t))
    (habove : k.Above state) (hdi : state.reg .rdi = k.context manager.executing) :
    Shares g { k with manager, state := (Kernel.called state).run restoreContext }
      ⟨manager, p.cpu⟩ := by
  have hbelow : ∀ t, k.manager.Live t →
      Apart ((Kernel.called state).reg .rsp - 40) 40 (k.context t) contextSize := by
    intro t ht
    have hpart := (habove t ht).part (i := 0) (k := 40) (by decide) (by decide)
    rwa [BitVec.add_zero] at hpart
  have hnext := hscheduled.live_executing
  have hdi' : (Kernel.called state).reg .rdi = k.context manager.executing := hdi
  have hframe : FrameApart (Kernel.called state) := by
    rw [FrameApart, hdi']
    exact hbelow _ (hlive _ hnext)
  have hrun := run_restoreContext (s := Kernel.called state) (c := p.cpu manager.executing)
    (by
      rw [hdi']
      exact (hcontext _ hnext).of_get (get_called (habove _ (hlive _ hnext))))
    hframe
  rw [hrun]
  constructor
  case manager => rfl
  case scheduled => exact hscheduled
  case cpu => rfl
  case context =>
    intro t ht _
    have hold := hlive t ht
    refine ((hcontext t ht).of_get (get_called (habove t hold))).of_get ?_
    exact get_framedMem (hbelow t hold) (by decide)
  case apart => exact fun t u ht hu hne => h.apart t u (hlive t ht) (hlive u hu) hne
  case stack => exact fun t ht => h.stack t (hlive t ht)

theorem finish (h : Shares g k p) {exitCode : Int} {state : State}
    (he : k.Admits g (.finish exitCode state)) :
    Shares g (k.step g (.finish exitCode state)) (p.step (.finish exitCode state)) := by
  obtain ⟨hc, hkeeps, habove, hdi⟩ := he
  have hlive := h.scheduled.live_finish hc
  rw [Private.step, h.manager]
  refine h.restore (h.scheduled.step hc) (fun t ht => ((hlive t).mp ht).1) ?_ habove hdi
  intro t ht
  obtain ⟨hold, hne⟩ := (hlive t).mp ht
  exact h.keeps hkeeps t hold hne

/-- Where the handler calls `LAPICTimerOnInterrupt`. -/
theorem entered_eq (g : Gate) (s : State) :
    let s' := Kernel.entered g s
    OnStack s'.mem g.frame s.toCpu ∧ s'.reg .rsp = g.frame ∧
      s'.reg .rbp = g.frame + BitVec.ofNat 64 704 ∧ s'.seg .fs = s.seg .fs ∧
      s'.seg .gs = s.seg .gs ∧ s'.cr3 = s.cr3 ∧
      ∀ b k, 0 < k → Apart g.frame timerSize b k → s'.mem.get b k = s.mem.get b k := by
  intro s'
  have hentered := entered_interrupted s g.frame g.handler kernelCS
  obtain ⟨hmem, hsp, hbp, hseg, hcr3⟩ := run_timerEntry hentered.rsp
  refine ⟨?_, hsp, hbp, ?_, ?_, hcr3.trans hentered.cr3, fun b k hk hb => ?_⟩
  · exact hmem ▸ onStack_timerMem hentered
  · exact (congrFun hseg .fs).trans hentered.fs
  · exact (congrFun hseg .gs).trans hentered.gs
  · have hget := get_timerMem_of_apart (s := interrupted s (g.frame + BitVec.ofNat 64 timerSize)
      g.handler kernelCS) hb hk
    rw [← hmem] at hget
    exact hget.trans (get_interrupted_of_apart hb hk)

theorem timer (h : Shares g k p) {sent : List (Nat × Message)} {taskTimer : Bool} {state : State}
    (he : k.Admits g (.timer sent taskTimer state)) :
    Shares g (k.step g (.timer sent taskTimer state)) (p.step (.timer sent taskTimer state)) := by
  obtain ⟨hkeeps, hframe, hleave⟩ := he
  obtain ⟨hstack, hsp, hbp, hfs, hgs, hcr3, hget⟩ := entered_eq g k.state
  obtain ⟨hsent, hstays, hsame⟩ := h.scheduled.sendAll sent
  have hcurrent := h.scheduled.live_executing
  -- the handler and `Tick` leave the contexts
  have hcontext : ∀ t, k.manager.Live t → t ≠ k.manager.executing →
      Context state.mem (k.context t) (p.cpu t) := fun t ht hne =>
    (h.context t ht hne).of_get
      ((hkeeps t ht hne).trans (hget _ _ (by decide) (h.stack t ht)))
  have honStack := hstack.of_get hframe
  -- what the interrupted task had, where the handler returns
  have hreturns : (taskTimer = true → (k.manager.sendAll sent).switchTask.executing =
        k.manager.executing) → ∀ m : Memory, OnStack m g.frame k.state.toCpu →
      State.run { state with mem := m } timerExit = { k.state.toCpu with mem := m } := by
    intro hsame m hm
    rw [if_neg fun hboth => hboth.2 (hsame hboth.1)] at hleave
    obtain ⟨hsp', hbp', hfs', hgs', hcr3'⟩ := hleave
    exact run_timerExit (s := { state with mem := m }) hm (hsp'.trans hsp) (hbp'.trans hbp)
      (hfs'.trans hfs) (hgs'.trans hgs) (hcr3'.trans hcr3)
  cases taskTimer with
  | false =>
      have hrun := hreturns (fun hup => by cases hup) state.mem honStack
      simp only [Private.step, Kernel.step, h.manager, Bool.false_eq_true, if_false]
      rw [hrun]
      refine h.keep hsent hsame ?_ ?_
      · rw [hstays.executing]
        exact h.cpu
      · intro t ht hne
        rw [hstays.executing] at hne
        exact hcontext t ht hne
  | true =>
      have hswitched := hsent.switchTask.1
      have hsame' : k.manager.SameTasks (k.manager.sendAll sent).switchTask := fun u =>
        (hsent.sameTasks_switchTask u).trans (hsame u)
      have hcopied : ∀ t, k.manager.Live t →
          Context (Kernel.copied g state (k.context k.manager.executing)).mem (k.context t)
            (p.cpu t) := by
        intro t ht
        by_cases hte : t = k.manager.executing
        · -- the frame on the stack
          subst hte
          rw [← h.cpu]
          exact honStack.context.of_get (Memory.get_put_self (by decide))
        · refine (hcontext t ht hte).of_get ?_
          exact Memory.get_put_of_apart (h.apart _ _ hcurrent ht (Ne.symm hte))
      simp only [Private.step, Kernel.step, h.manager, if_true, hstays.executing]
      by_cases hnext : (k.manager.sendAll sent).switchTask.executing = k.manager.executing
      · rw [if_neg (not_not.mpr hnext)]
        have hkept : (Kernel.copied g state (k.context k.manager.executing)).mem.get g.frame
            timerSize = state.mem.get g.frame timerSize :=
          Memory.get_put_of_apart (h.stack _ hcurrent).symm
        have hrun := hreturns (fun _ => hnext) _ (honStack.of_get hkept)
        rw [Kernel.copied] at hrun ⊢
        rw [hrun]
        refine h.keep hswitched hsame' ?_ ?_
        · rw [hnext]
          exact h.cpu
        · exact fun t ht _ => hcopied t ht
      · rw [if_pos hnext]
        rw [if_pos ⟨rfl, hnext⟩] at hleave
        refine h.restore hswitched (fun t ht => (hsame' t).mp ht) ?_ hleave.1 hleave.2
        exact fun t ht => hcopied t ((hsame' t).mp ht)

/-- **What the kernel does is done with the private processor of the task.** -/
theorem step (h : Shares g k p) {e : Event} (he : k.Admits g e) :
    Shares g (k.step g e) (p.step e) := by
  cases e with
  | compute state => exact h.compute he
  | call c => exact h.call he
  | newTask context f data stackEnd => exact h.newTask he
  | sleep c state => exact h.sleep he
  | finish exitCode state => exact h.finish he
  | timer sent taskTimer state => exact h.timer he

/-- `TaskManager()`. -/
theorem start {context : Nat → Word} (s : State) (taskIdle stackEnd : Word)
    (hapart : Apart (context 1) contextSize (context idleId) contextSize)
    (hmain : Apart g.frame timerSize (context 1) contextSize)
    (hidle : Apart g.frame timerSize (context idleId) contextSize) :
    Shares g (.start context s taskIdle stackEnd) (.start s taskIdle stackEnd) := by
  have htwo : ∀ t, TaskManager.new.Live t → t = 1 ∨ t = idleId := by
    intro t ht
    by_contra hnone
    obtain ⟨h1, h2⟩ := not_or.mp hnone
    rw [TaskManager.Live, TaskManager.new] at ht
    simp only [Function.update_of_ne h1, Function.update_of_ne h2] at ht
    cases ht
  constructor
  case manager => rfl
  case scheduled => exact TaskManager.scheduled_new
  case cpu =>
    have hmain : (1 : Nat) ≠ idleId := by decide
    simp only [Private.start, Kernel.start, TaskManager.new, Function.update_of_ne hmain]
  case context =>
    intro t ht hne
    rcases htwo t ht with rfl | rfl
    · exact absurd rfl hne
    · simp only [Private.start, Function.update_self]
      exact context_initContext _ _ _
  case apart =>
    intro t u ht hu hne
    rcases htwo t ht with rfl | rfl
    · rcases htwo u hu with rfl | rfl
      · exact absurd rfl hne
      · exact hapart
    · rcases htwo u hu with rfl | rfl
      · exact hapart.symm
      · exact absurd rfl hne
  case stack =>
    intro t ht
    rcases htwo t ht with rfl | rfl
    · exact hmain
    · exact hidle

end Shares

/-! ## A task goes on -/

/-- What the task whose turn it is holds when it loses the processor. -/
def Event.left (s : State) : Event → Cpu
  | .compute state | .sleep _ state => state.toCpu
  | _ => s.toCpu

namespace Private

variable {p : Private} {t : Nat}

theorem latestId_step (p : Private) (e : Event) :
    p.manager.latestId ≤ (p.step e).manager.latestId := by
  have hsent : ∀ (s : TaskManager) (sent : List (Nat × Message)),
      s.latestId ≤ (s.sendAll sent).latestId := by
    intro s sent
    induction sent generalizing s with
    | nil => exact Nat.le_refl _
    | cons x sent ih => exact (s.quiet_sendMessage x.1 x.2).latestId.trans (ih _)
  have hcall : ∀ (s : TaskManager) (c : TaskCall), s.latestId ≤ (s.step c).latestId := by
    intro s c
    cases c with
    | newTask => exact Nat.le_succ _
    | wakeup t level => exact (s.stays_wakeup t level).1.ge
    | sleep t => exact (s.latestId_sleep t).ge
    | switchTask => exact s.latestId_switchTask.ge
    | finish exitCode => exact (s.latestId_finish exitCode).ge
    | changeLevelRunning t level => exact (s.stays_changeLevelRunning t level).1.ge
    | sendMessage t msg => exact (s.stays_sendMessage t msg).1.ge
    | waitFinish t =>
        rw [TaskManager.step, TaskManager.waitFinish]
        split
        · exact Nat.le_refl _
        · exact (TaskManager.latestId_sleep { s with
            finishWaiter := Function.update s.finishWaiter t (some s.executing) } s.executing).ge
  cases e with
  | compute state => exact Nat.le_refl _
  | call c => exact hcall _ c
  | newTask context f data stackEnd => exact Nat.le_succ _
  | sleep c state => exact hcall _ c
  | finish exitCode state => exact hcall _ (.finish exitCode)
  | timer sent taskTimer state =>
      rw [Private.step]
      cases taskTimer with
      | false => exact hsent _ sent
      | true => exact (hsent _ sent).trans (hcall _ .switchTask)

/-- Nobody else changes what a task holds. -/
theorem cpu_step (ht : t ≤ p.manager.latestId) (hne : p.manager.executing ≠ t) (e : Event) :
    (p.step e).cpu t = p.cpu t := by
  cases e with
  | newTask context f data stackEnd =>
      exact Function.update_of_ne (Nat.ne_of_lt (Nat.lt_succ_of_le ht)) _ _
  | compute state => exact Function.update_of_ne hne.symm _ _
  | sleep c state => exact Function.update_of_ne hne.symm _ _
  | call c => rfl
  | finish exitCode state => rfl
  | timer sent taskTimer state => rfl

theorem cpu_run {es : List Event} (ht : t ≤ p.manager.latestId)
    (haway : ∀ q e, q ++ [e] <+: es → (run Private.step p q).manager.executing ≠ t) :
    (run Private.step p es).cpu t = p.cpu t := by
  induction es generalizing p with
  | nil => rfl
  | cons e es ih =>
      have hfirst := haway [] e ⟨es, rfl⟩
      rw [run_cons, ih (ht.trans (p.latestId_step e)) fun q e' hq =>
        haway (e :: q) e' (List.cons_prefix_cons.mpr ⟨rfl, hq⟩)]
      exact cpu_step ht hfirst e

end Private

theorem Shares.left_step {g : Gate} {k : Kernel} {p : Private} (h : Shares g k p) (e : Event) :
    (p.step e).cpu k.manager.executing = e.left k.state := by
  have hle := h.scheduled.ids _ h.scheduled.live_executing
  have hcomputes : ∀ state : State, (p.computes state).cpu k.manager.executing = state.toCpu := by
    intro state
    rw [Private.computes, h.manager]
    exact Function.update_self _ _ _
  cases e with
  | compute state => exact hcomputes state
  | sleep c state => exact hcomputes state
  | newTask context f data stackEnd =>
      simp only [Private.step, h.manager]
      rw [Function.update_of_ne (Nat.ne_of_lt (Nat.lt_succ_of_le hle))]
      exact h.cpu.symm
  | call c => exact h.cpu.symm
  | finish exitCode state => exact h.cpu.symm
  | timer sent taskTimer state => exact h.cpu.symm

/-- **Time sharing.**  Whatever calls, interrupts and computations there are, in any order, the
processor holds what the task that runs would hold if it had a processor to itself, and each other
task has this in its context.  So a task that loses the processor, by a call or at any instruction,
goes on with all registers, segments, flags, the address space and the coprocessor as they were. -/
theorem time_sharing (g : Gate) (context : Nat → Word) (s : State) (taskIdle stackEnd : Word)
    (es : List Event) (hapart : Apart (context 1) contextSize (context idleId) contextSize)
    (hmain : Apart g.frame timerSize (context 1) contextSize)
    (hidle : Apart g.frame timerSize (context idleId) contextSize)
    (hes : Guarded (Kernel.step g) (Kernel.Admits g) (.start context s taskIdle stackEnd) es) :
    let after := run (Kernel.step g) (.start context s taskIdle stackEnd)
    Shares g (after es) (run Private.step (.start s taskIdle stackEnd) es) ∧
    ∀ before e away, es = before ++ e :: away →
      (∀ q e', q ++ [e'] <+: away → (after (before ++ e :: q)).manager.executing ≠
        (after before).manager.executing) →
      (after es).manager.executing = (after before).manager.executing →
      (after es).state.toCpu = e.left (after before).state := by
  intro after
  have hrun : ∀ es, Guarded (Kernel.step g) (Kernel.Admits g) (.start context s taskIdle stackEnd) es →
      Shares g (after es) (run Private.step (.start s taskIdle stackEnd) es) := fun es hes => by
    refine sim_run (Shares g) ?_ ?_ hes
    · intro k p e h he
      exact h.step he
    · exact Shares.start s taskIdle stackEnd hapart hmain hidle
  refine ⟨hrun es hes, ?_⟩
  rintro before e away rfl haway hback
  have hbefore := hrun before (guarded_append.mp hes).1
  have hall := hrun _ hes
  have hshares : ∀ q, q <+: away →
      Shares g (after (before ++ e :: q)) (run Private.step (.start s taskIdle stackEnd)
        (before ++ e :: q)) := by
    rintro q ⟨q', rfl⟩
    have hpart : before ++ e :: (q ++ q') = (before ++ e :: q) ++ q' :=
      (List.append_assoc before (e :: q) q').symm
    rw [hpart] at hes
    exact hrun _ (guarded_append.mp hes).1
  have hcurrent := hbefore.scheduled.ids _ hbefore.scheduled.live_executing
  rw [← hbefore.manager] at hcurrent
  have hlost := Private.cpu_run (hcurrent.trans (Private.latestId_step _ e))
    fun q e' (hq : q ++ [e'] <+: away) => by
      have hmanager := (hshares q ((List.prefix_append q [e']).trans hq)).manager
      rw [run_append, run_cons] at hmanager
      rw [hmanager, hbefore.manager]
      exact haway q e' hq
  rw [hall.cpu, hback, ← hbefore.left_step e, run_append, run_cons, ← hbefore.manager]
  exact hlost

/-! ## A short run -/

section short

def shortGate : Gate := ⟨0x8000, 0x20000⟩

def shortContext (t : Nat) : Word := 0x100000 + BitVec.ofNat 64 (0x1000 * t)

/-- The state with which `f(di, si)` is called. -/
def args (s : State) (di si : Word) : State :=
  { s with
    reg
      | .rdi => di
      | .rsi => si
      | _ => 0x90000 }

def shortState : State :=
  { reg := fun _ => 0x90000, rip := 0x4000, rflags := 0x202, cr3 := 0x1000, seg := fun _ => kernelCS,
    fx := fun _ => 0, mem := fun _ => 0 }

def shortStart : Kernel := .start shortContext shortState 0x5000 0xa0000

def short1 : Kernel := shortStart.step shortGate (.newTask (shortContext 3) 0x6000 7 0xb0000)

def short2 : Kernel := short1.step shortGate (.call (.wakeup 3 none))

/-- The main task sleeps. -/
def mainSleeps (k : Kernel) : Event :=
  .sleep (.sleep 1) (args k.state (shortContext 3) (shortContext 1))

def short3 : Kernel := short2.step shortGate (mainSleeps short2)

/-- A message for the main task, at an interrupt. -/
def mainTimer (k : Kernel) : Event :=
  .timer [(1, .other)] true
    (args (Kernel.entered shortGate k.state) (shortContext 1) 0)

def short4 : Kernel := short3.step shortGate (mainTimer short3)

def shortRun : List Event :=
  [.newTask (shortContext 3) 0x6000 7 0xb0000, .call (.wakeup 3 none), mainSleeps short2,
    mainTimer short3, mainSleeps short4]

/-- No context is below `0x90000`. -/
theorem above_short {k : Kernel} {p : Private} (h : Shares shortGate k p)
    (hlatest : k.manager.latestId = 3)
    (hcontext : k.context = Function.update shortContext 3 (shortContext 3)) {s : State}
    (hsp : s.reg .rsp = 0x90000) : k.Above s := by
  have habove : ∀ t ≤ 3, Clear (0x90000 - 8) (shortContext t) := by decide
  intro t ht
  rw [hsp, hcontext, Function.update_eq_self]
  exact habove t (hlatest ▸ h.scheduled.ids t ht)

theorem admits_mainSleeps {k : Kernel} {p : Private} (h : Shares shortGate k p)
    (hlatest : k.manager.latestId = 3)
    (hcontext : k.context = Function.update shortContext 3 (shortContext 3))
    (hcurrent : k.manager.executing = 1) (hnext : (k.manager.step (.sleep 1)).executing = 3) :
    k.Admits shortGate (mainSleeps k) := by
  have hlive := h.scheduled.live_executing
  rw [hcurrent] at hlive
  rw [Function.update_eq_self] at hcontext
  refine ⟨⟨hlive, by decide⟩, hcurrent.symm, fun _ _ _ => rfl, ?_, ?_, ?_⟩
  · refine above_short h hlatest ?_ rfl
    rw [Function.update_eq_self]
    exact hcontext
  · rw [hnext, hcontext]
    rfl
  · rw [hcurrent, hcontext]
    rfl

theorem guarded_short :
    Guarded (Kernel.step shortGate) (Kernel.Admits shortGate) shortStart shortRun := by
  have h0 : Shares shortGate shortStart (.start shortState 0x5000 0xa0000) :=
    Shares.start shortState 0x5000 0xa0000 (by decide) (by decide) (by decide)
  have e1 : shortStart.Admits shortGate (.newTask (shortContext 3) 0x6000 7 0xb0000) := by
    have hapart : ∀ t ≤ 2, Apart (shortContext 3) contextSize (shortContext t) contextSize := by
      decide
    exact ⟨fun t ht => hapart t (h0.scheduled.ids t ht), by decide⟩
  have h1 := h0.step e1
  have e2 : short1.Admits shortGate (.call (.wakeup 3 none)) := ⟨by decide, trivial⟩
  have h2 := h1.step e2
  have e3 : short2.Admits shortGate (mainSleeps short2) :=
    admits_mainSleeps h2 rfl rfl rfl (by decide)
  have h3 := h2.step e3
  have e4 : short3.Admits shortGate (mainTimer short3) := by
    have hnext : (short3.manager.sendAll [(1, .other)]).switchTask.executing = 1 := by decide
    have hcurrent : short3.manager.executing = 3 := by decide
    refine ⟨fun _ _ _ => rfl, rfl, ?_⟩
    rw [hnext, hcurrent, if_pos (by decide)]
    exact ⟨above_short h3 (by decide) rfl rfl, rfl⟩
  have h4 := h3.step e4
  have hcontext : short4.context = short3.context := by
    simp only [short4, Kernel.step, mainTimer, if_true]
    split
    · rfl
    · rfl
  have e5 : short4.Admits shortGate (mainSleeps short4) :=
    admits_mainSleeps h4 (by decide) hcontext (by decide) (by decide)
  exact ⟨e1, e2, e3, e4, e5, trivial⟩

/-- Task 3 is interrupted for the main task, and goes on when that sleeps again. -/
theorem time_sharing_short :
    let after := run (Kernel.step shortGate) (.start shortContext shortState 0x5000 0xa0000)
    Shares shortGate (after shortRun) (run Private.step (.start shortState 0x5000 0xa0000) shortRun) ∧
    ∀ before e away, shortRun = before ++ e :: away →
      (∀ q e', q ++ [e'] <+: away → (after (before ++ e :: q)).manager.executing ≠
        (after before).manager.executing) →
      (after shortRun).manager.executing = (after before).manager.executing →
      (after shortRun).state.toCpu = e.left (after before).state :=
  time_sharing shortGate shortContext shortState 0x5000 0xa0000 shortRun (by decide) (by decide)
    (by decide) guarded_short

end short

end Laplus.Tasks
