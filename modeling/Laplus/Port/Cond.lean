/-
# `Laplus.Port.Cond` — condition variables over the task manager

`cond_t` of `connectOS.cpp` keeps the id of the task that entered `cond_wait`
last and the number of tasks inside.  A task inside runs three pieces of
code, and the other tasks run between any two of them: the two stores, the
call of `TaskManager::Sleep` on the id stored by then, and the decrement.

The counter is right in every state.  A broadcast wakes the task stored last,
whoever that is by then.
-/
import Laplus.Lib.Census
import Laplus.Lib.Run
import Laplus.Tcp.Pcb

namespace Laplus.Port

open Lib Tcp

abbrev TaskId := UInt64

/-! ## Tasks -/

/-- How far a task is in `cond_wait`; `κ` names the condition variables. -/
inductive Place (κ : Type*) where
  | outside
  | entered (c : κ)
  | slept (c : κ)
deriving DecidableEq

/-- A task of the task manager. -/
structure Task (κ : Type*) where
  running : Bool
  place : Place κ
deriving DecidableEq

/-- The task inside `cond_wait` is inside this one. -/
def Place.isIn {κ : Type*} [DecidableEq κ] (c : κ) : Place κ → Bool
  | .outside => false
  | .entered d | .slept d => d = c

structure Machine (κ : Type*) where
  task : TaskId → Option (Task κ)
  cond : κ → Cond

section Model
variable {κ : Type*}

/-- All tasks are running and outside; ids start at 1. -/
def Machine.boot (alive : TaskId → Bool) : Machine κ where
  task t := if alive t && decide (t ≠ 0) then some ⟨true, .outside⟩ else none
  cond _ := .zero

/-- Change one task, if there is such a task. -/
def Machine.modify (m : Machine κ) (id : TaskId) (f : Task κ → Task κ) : Machine κ :=
  { m with task := Function.update m.task id ((m.task id).map f) }

/-- `TaskManager::Sleep`. -/
def Machine.sleep (m : Machine κ) (id : TaskId) : Machine κ :=
  m.modify id fun t => { t with running := false }

/-- `TaskManager::Wakeup`. -/
def Machine.wakeup (m : Machine κ) (id : TaskId) : Machine κ :=
  m.modify id fun t => { t with running := true }

/-- `cond_broadcast`. -/
def Machine.condBroadcast (m : Machine κ) (c : κ) : Machine κ := m.wakeup (m.cond c).taskid

/-- The task is running. -/
def Machine.runs (m : Machine κ) (id : TaskId) : Prop := ∃ t, m.task id = some t ∧ t.running

/-- The task exists and does not run. -/
def Machine.asleep (m : Machine κ) (id : TaskId) : Prop :=
  ∃ t, m.task id = some t ∧ t.running = false

section Change
variable (m : Machine κ) (id : TaskId) (f : Task κ → Task κ)

@[simp] theorem modify_cond : (m.modify id f).cond = m.cond := rfl

theorem modify_task (j : TaskId) :
    (m.modify id f).task j = if j = id then (m.task id).map f else m.task j := by
  simp only [Machine.modify, Function.update_apply]

theorem modify_zero {m : Machine κ} {id : TaskId} {f : Task κ → Task κ} (h : m.task 0 = none) :
    (m.modify id f).task 0 = none := by
  rw [modify_task]
  split
  · rename_i h0
    rw [← h0, h]
    rfl
  · exact h

end Change

/-- A broadcast makes the stored task run and changes nothing else. -/
theorem broadcast_runs (m : Machine κ) (c : κ) (id : TaskId) :
    (m.condBroadcast c).runs id ↔
      m.runs id ∨ id = (m.cond c).taskid ∧ ∃ t, m.task id = some t := by
  simp only [Machine.runs, Machine.condBroadcast, Machine.wakeup, modify_task]
  by_cases hid : id = (m.cond c).taskid
  · rw [if_pos hid, hid]
    cases h : m.task (m.cond c).taskid <;> simp
  · simp [hid]

theorem runs_or_asleep {m : Machine κ} {id : TaskId} {t : Task κ} (h : m.task id = some t) :
    m.runs id ∨ m.asleep id := by
  cases hr : t.running with
  | true => exact .inl ⟨t, h, hr⟩
  | false => exact .inr ⟨t, h, hr⟩

theorem not_runs_of_asleep {m : Machine κ} {id : TaskId} (h : m.asleep id) : ¬ m.runs id := by
  obtain ⟨t, ht, hr⟩ := h
  rintro ⟨t', ht', hr'⟩
  rw [ht] at ht'
  cases ht'
  rw [hr] at hr'
  cases hr'

/-! ## The code -/

variable [DecidableEq κ]

/-- `cond->taskid = task_manager->CurrentTask().ID(); cond->num++`. -/
def Machine.condEnter (m : Machine κ) (id : TaskId) (c : κ) : Machine κ :=
  { m.modify id fun t => { t with place := .entered c } with
    cond := Function.update m.cond c ⟨id, (m.cond c).num + 1⟩ }

/-- `task_manager->Sleep(cond->taskid)`. -/
def Machine.condSleep (m : Machine κ) (id : TaskId) (c : κ) : Machine κ :=
  (m.modify id fun t => { t with place := .slept c }).sleep (m.cond c).taskid

/-- `cond->num--`. -/
def Machine.condLeave (m : Machine κ) (id : TaskId) (c : κ) : Machine κ :=
  { m.modify id fun t => { t with place := .outside } with
    cond := Function.update m.cond c { m.cond c with num := (m.cond c).num - 1 } }

/-- What can happen: a task calls `cond_wait`, a task inside runs on, somebody
broadcasts, and tasks are put to sleep and woken for other reasons. -/
inductive Event (κ : Type*) where
  | wait (id : TaskId) (c : κ)
  | proceed (id : TaskId)
  | broadcast (c : κ)
  | wakeup (id : TaskId)
  | sleep (id : TaskId)
deriving DecidableEq

/-- The task enters `cond_wait` on `c`: it is running and not inside one. -/
def Machine.enters (m : Machine κ) (id : TaskId) : Bool :=
  m.task id = some ⟨true, .outside⟩

/-- One event. -/
def Machine.step (m : Machine κ) : Event κ → Machine κ
  | .wait id c => if m.enters id then m.condEnter id c else m
  | .proceed id =>
      match m.task id with
      | some ⟨true, .entered c⟩ => m.condSleep id c
      | some ⟨true, .slept c⟩ => m.condLeave id c
      | _ => m
  | .broadcast c => m.condBroadcast c
  | .wakeup id => m.wakeup id
  | .sleep id => m.sleep id

/-- The tasks inside `cond_wait` on `c`. -/
def Machine.inside (m : Machine κ) (c : κ) : Set TaskId :=
  {id | ∃ t, m.task id = some t ∧ t.place.isIn c}

/-- The task that enters `cond_wait` on `c` with this event. -/
def Machine.entrant (c : κ) (m : Machine κ) : Event κ → Option TaskId
  | .wait id d => if d = c ∧ m.enters id then some id else none
  | _ => none

/-- The task that entered `cond_wait` on `c` last in these events. -/
def Machine.lastIn (c : κ) : Machine κ → List (Event κ) → Option TaskId
  | _, [] => none
  | m, e :: es => (Machine.lastIn c (m.step e) es).or (m.entrant c e)

/-! ## The counter -/

section Step
variable (m : Machine κ) (id : TaskId) (f : Task κ → Task κ)

/-- A change that leaves the task where it is changes no set of waiters. -/
theorem modify_inside (hf : ∀ t, (f t).place = t.place) (c : κ) :
    (m.modify id f).inside c = m.inside c := by
  ext j
  simp only [Machine.inside, Set.mem_ofPred_eq, modify_task]
  by_cases hj : j = id
  · subst hj
    rw [if_pos rfl]
    constructor
    · rintro ⟨t, ht, hin⟩
      obtain ⟨t₀, h₀, rfl⟩ := Option.map_eq_some_iff.mp ht
      exact ⟨t₀, h₀, by rwa [hf] at hin⟩
    · rintro ⟨t, ht, hin⟩
      exact ⟨f t, by rw [ht]; rfl, by rwa [hf]⟩
  · rw [if_neg hj]

/-- A task moves: it is in where it goes and nowhere else. -/
theorem modify_moves {t : Task κ} (ht : m.task id = some t) (c : κ) :
    (m.modify id f).inside c =
      if (f t).place.isIn c then insert id (m.inside c) else m.inside c \ {id} := by
  ext j
  by_cases hj : j = id
  · subst hj
    have hmem : j ∈ (m.modify j f).inside c ↔ (f t).place.isIn c := by
      simp [Machine.inside, modify_task, ht]
    rw [hmem]
    split <;> simp_all
  · have hmem : j ∈ (m.modify id f).inside c ↔ j ∈ m.inside c := by
      simp only [Machine.inside, Set.mem_ofPred_eq, modify_task, if_neg hj]
    rw [hmem]
    split <;> simp [hj]

end Step

/-- Every counter counts, and no task has the id 0. -/
structure Machine.Counted (m : Machine κ) : Prop where
  num : ∀ c, Census (m.inside c) (m.cond c).num
  zero : m.task 0 = none

theorem boot_counted (alive : TaskId → Bool) : (Machine.boot alive : Machine κ).Counted := by
  refine ⟨fun c => ?_, by simp [Machine.boot]⟩
  have hempty : (Machine.boot alive : Machine κ).inside c = ∅ := by
    ext id
    simp only [Machine.inside, Machine.boot, Set.mem_ofPred_eq, Set.mem_empty_iff_false, iff_false]
    rintro ⟨t, ht, hin⟩
    split at ht
    · cases ht
      cases hin
    · cases ht
  rw [hempty]
  exact census_empty

/-- Sleeping and waking leave everybody where they are. -/
theorem Machine.Counted.still {m : Machine κ} (h : m.Counted) (id : TaskId) (b : Bool) :
    (m.modify id fun t => { t with running := b }).Counted where
  num c := by
    rw [modify_inside m id (fun t => { t with running := b }) (fun _ => rfl) c]
    exact h.num c
  zero := modify_zero h.zero

/-- **One event** keeps the counters right. -/
theorem step_counted (m : Machine κ) (e : Event κ) (h : m.Counted) : (m.step e).Counted := by
  cases e with
  | wait id d =>
      simp only [Machine.step]
      split
      · rename_i hin
        have ht : m.task id = some ⟨true, .outside⟩ := by simpa [Machine.enters] using hin
        have hout (c : κ) : id ∉ m.inside c := by
          rintro ⟨t, ht', hc⟩
          rw [ht] at ht'
          cases ht'
          cases hc
        refine ⟨fun c => ?_, modify_zero h.zero⟩
        have hset : (m.condEnter id d).inside c =
            (m.modify id fun t => { t with place := .entered d }).inside c := rfl
        rw [hset, modify_moves m id _ ht c]
        by_cases hc : d = c
        · subst hc
          simpa [Machine.condEnter, Place.isIn] using (h.num d).enter (hout d)
        · have hd : m.inside c \ {id} = m.inside c := Set.sdiff_singleton_eq_self (hout c)
          simpa [Machine.condEnter, Place.isIn, hc, Ne.symm hc, hd] using h.num c
      · exact h
  | proceed id =>
      simp only [Machine.step]
      split
      · rename_i d ht
        refine Machine.Counted.still (m := m.modify id fun t => { t with place := .slept d })
          ⟨fun c => ?_, modify_zero h.zero⟩ _ false
        have hin (c : κ) : id ∈ m.inside c ↔ d = c := by
          simp [Machine.inside, ht, Place.isIn]
        rw [modify_moves m id _ ht c]
        by_cases hc : d = c
        · have hmem : insert id (m.inside c) = m.inside c := Set.insert_eq_of_mem ((hin c).mpr hc)
          simpa [Place.isIn, hc, hmem] using h.num c
        · have hd : m.inside c \ {id} = m.inside c :=
            Set.sdiff_singleton_eq_self fun h' => hc ((hin c).mp h')
          simpa [Place.isIn, hc, hd] using h.num c
      · rename_i d ht
        have hin (c : κ) : id ∈ m.inside c ↔ d = c := by
          simp [Machine.inside, ht, Place.isIn]
        refine ⟨fun c => ?_, modify_zero h.zero⟩
        have hset : (m.condLeave id d).inside c =
            (m.modify id fun t => { t with place := .outside }).inside c := rfl
        rw [hset, modify_moves m id _ ht c]
        by_cases hc : d = c
        · subst hc
          simpa [Machine.condLeave, Place.isIn] using (h.num d).leave ((hin d).mpr rfl)
        · have hd : m.inside c \ {id} = m.inside c :=
            Set.sdiff_singleton_eq_self fun h' => hc ((hin c).mp h')
          simpa [Machine.condLeave, Place.isIn, hc, Ne.symm hc, hd] using h.num c
      · exact h
  | broadcast c => exact h.still _ true
  | wakeup id => exact h.still id true
  | sleep id => exact h.still id false

/-! ## The task stored -/

theorem step_taskid (m : Machine κ) (e : Event κ) (c : κ) :
    ((m.step e).cond c).taskid = (m.entrant c e).getD (m.cond c).taskid := by
  cases e with
  | wait id d =>
      simp only [Machine.step, Machine.entrant]
      by_cases hin : m.enters id
      · by_cases hc : d = c
        · subst hc
          simp [hin, Machine.condEnter]
        · simp [hin, hc, Ne.symm hc, Machine.condEnter]
      · simp [hin]
  | proceed id =>
      simp only [Machine.step, Machine.entrant]
      split
      · rfl
      · rename_i d ht
        by_cases hc : c = d
        · subst hc
          simp [Machine.condLeave]
        · simp [Machine.condLeave, hc]
      · rfl
  | broadcast d => rfl
  | wakeup id => rfl
  | sleep id => rfl

/-- The variable stores the task that entered last. -/
theorem run_taskid (c : κ) (es : List (Event κ)) : ∀ m : Machine κ,
    ((run Machine.step m es).cond c).taskid = (m.lastIn c es).getD (m.cond c).taskid := by
  induction es with
  | nil =>
      intro m
      rfl
  | cons e es ih =>
      intro m
      rw [run_cons, ih, step_taskid]
      show _ = ((Machine.lastIn c (m.step e) es).or (m.entrant c e)).getD _
      cases Machine.lastIn c (m.step e) es <;> rfl

/-! ## Broadcasts -/

/-- **Who a broadcast wakes.**  In every state the counter is the number of
tasks inside `cond_wait`.  A broadcast makes every task asleep there run, and
nobody else, exactly when no task but the one that entered last is asleep
there and that one is not asleep elsewhere. -/
theorem broadcast_wakes_iff (alive : TaskId → Bool) (es : List (Event κ)) (c : κ) :
    let m := run Machine.step (Machine.boot alive) es
    (m.cond c).num.toNat = (m.inside c).ncard ∧
      (((∀ id ∈ m.inside c, m.asleep id → (m.condBroadcast c).runs id) ∧
          ∀ id, (m.condBroadcast c).runs id → ¬ m.runs id → id ∈ m.inside c) ↔
        (∀ id ∈ m.inside c, m.asleep id → (Machine.boot alive).lastIn c es = some id) ∧
          ∀ id, (Machine.boot alive).lastIn c es = some id → m.asleep id → id ∈ m.inside c) := by
  intro m
  have hm : m.Counted :=
    inv_run Machine.Counted (fun m e h (_ : True) => step_counted m e h)
      (boot_counted alive) (guarded_true _ _ es)
  have hzero : (0 : TaskId) ∉ m.inside c := by
    rintro ⟨t, ht, -⟩
    rw [hm.zero] at ht
    cases ht
  have hid (id : TaskId) (h : ∃ t, m.task id = some t) :
      id = (m.cond c).taskid ↔ (Machine.boot alive).lastIn c es = some id := by
    rw [show (m.cond c).taskid = _ from run_taskid c es (Machine.boot alive)]
    cases hl : (Machine.boot alive : Machine κ).lastIn c es with
    | some j => simp [eq_comm]
    | none =>
        -- nobody has entered, and there is no task 0
        simp only [Option.getD_none, reduceCtorEq, iff_false]
        rintro rfl
        obtain ⟨t, ht⟩ := h
        have ht : m.task 0 = some t := ht
        rw [hm.zero] at ht
        cases ht
  refine ⟨(hm.num c).toNat (ncard_lt hzero), ?_⟩
  constructor
  · rintro ⟨hall, honly⟩
    constructor
    · intro id hin hs
      rcases (broadcast_runs m c id).mp (hall id hin hs) with h | ⟨h, ht⟩
      · exact absurd h (not_runs_of_asleep hs)
      · exact (hid id ht).mp h
    · intro id hl hs
      have ht : ∃ t, m.task id = some t := hs.imp fun t h => h.1
      exact honly id ((broadcast_runs m c id).mpr (.inr ⟨(hid id ht).mpr hl, ht⟩))
        (not_runs_of_asleep hs)
  · rintro ⟨hall, honly⟩
    constructor
    · intro id hin hs
      have ht : ∃ t, m.task id = some t := hs.imp fun t h => h.1
      exact (broadcast_runs m c id).mpr (.inr ⟨(hid id ht).mpr (hall id hin hs), ht⟩)
    · intro id hr hn
      rcases (broadcast_runs m c id).mp hr with h | ⟨h, ht⟩
      · exact absurd h hn
      · have hl := (hid id ht).mp h
        obtain ⟨t, ht⟩ := ht
        exact honly id hl ((runs_or_asleep ht).resolve_left hn)

end Model

/-! ## Two waiters -/

/-- Tasks 1 and 2 go to sleep on one variable. -/
def twoWaiters : List (Event Unit) :=
  [.wait 1 (), .proceed 1, .wait 2 (), .proceed 2]

/-- The broadcast leaves task 1 asleep. -/
theorem broadcast_misses :
    let m : Machine Unit := run Machine.step (Machine.boot fun _ => true) twoWaiters
    (1 : TaskId) ∈ m.inside () ∧ m.asleep 1 ∧ ¬ (m.condBroadcast ()).runs 1 := by
  have ht : (run Machine.step (Machine.boot fun _ => true) twoWaiters).task 1 =
      some ⟨false, .slept ()⟩ := by decide +kernel
  have hb : ((run Machine.step (Machine.boot fun _ => true) twoWaiters).condBroadcast ()).task 1 =
      some ⟨false, .slept ()⟩ := by decide +kernel
  refine ⟨⟨_, ht, rfl⟩, ⟨_, ht, rfl⟩, ?_⟩
  exact not_runs_of_asleep ⟨_, hb, rfl⟩

end Laplus.Port
