/-
# `Laplus.Udp.Receive` — receiving until the block is closed

A call of `udp_recvfrom` takes the first datagram of the queue of its block or
sleeps in `cond_wait`.  `udp_close` releases the block at once when nobody
sleeps on it; else it marks the block and wakes the sleeper, which finds the
mark and releases the block itself.

The calls run under the UDP mutex up to `cond_wait`, and from there on once the
task is running again.  A task is made running by `cond_broadcast`, which wakes
the task that the condition variable names, or for reasons of its own.  What
was queued for the owner of a slot, and what was given to it, is recorded
beside the table; the code keeps neither.
-/
import Laplus.Udp.Ports

namespace Laplus.Udp

open Net Lib
open Tcp (TaskId)

/-! ## The machine -/

/-- A call of `udp_recvfrom` inside `cond_wait`, and whether its task is running again. -/
structure Sleeper where
  pcb : PcbId
  size : UInt64
  running : Bool
deriving DecidableEq

/-- What `udp_recvfrom` gives its caller: the endpoint and the bytes, or -1. -/
inductive Answer where
  | received (foreign : Endpoint) (data : List UInt8)
  | failed
deriving DecidableEq

/-- The answer to a caller with `size` bytes, once the call returns. -/
def Recv.answer (size : UInt64) : Recv → Option Answer
  | .asleep => none
  | .returned none => some .failed
  | .returned (some entry) => some (.received entry.foreign (entry.data.take size.toNat))

/-- What was queued for the owner of a slot, and what its calls returned. -/
structure Inbox where
  arrived : List QueueEntry
  given : List QueueEntry
deriving DecidableEq

/-- A call returns, or goes to sleep. -/
def Inbox.record (b : Inbox) : Recv → Inbox
  | .returned (some entry) => { b with given := b.given ++ [entry] }
  | _ => b

/-- The table, the calls inside `cond_wait`, and what the last event answered to whom. -/
structure Service where
  tab : Table
  tasks : TaskId → Option Sleeper
  inbox : PcbId → Inbox
  answer : Option (TaskId × Answer)

def Service.boot : Service := ⟨fun _ => .zero, fun _ => none, fun _ => ⟨[], []⟩, none⟩

/-- `Wakeup` of the task. -/
def wakeup (tasks : TaskId → Option Sleeper) (tid : TaskId) : TaskId → Option Sleeper :=
  Function.update tasks tid ((tasks tid).map fun s => { s with running := true })

/-- `cond_broadcast`. -/
def Service.broadcast (w : Service) (i : PcbId) : Service :=
  { w with tasks := wakeup w.tasks (w.tab i).cond.taskid }

/-- `udp_pcb_release`. -/
def Service.release (w : Service) (i : PcbId) : Service :=
  let w' := { w with tab := udpPcbRelease w.tab i }
  if (Tcp.condDestroy (w.tab i).cond).2 = Tcp.eBusy then w'.broadcast i else w'

/-- A call got so far. -/
def Service.give (w : Service) (tid : TaskId) (s : Sleeper) (r : Table × Recv) : Service where
  tab := r.1
  tasks := Function.update w.tasks tid
    (if r.2 = .asleep then some { s with running := false } else none)
  inbox := Function.update w.inbox s.pcb ((w.inbox s.pcb).record r.2)
  answer := (r.2.answer s.size).map fun a => (tid, a)

/-- The end of `cond_wait`. -/
def Service.leave (w : Service) (i : PcbId) : Service :=
  let cond := { (w.tab i).cond with num := (w.tab i).cond.num - 1 }
  { w with tab := Function.update w.tab i { w.tab i with cond } }

/-- `udp_recvfrom` from where it sleeps. -/
def Service.awake (w : Service) (tid : TaskId) (s : Sleeper) : Service :=
  let w := w.leave s.pcb
  if (w.tab s.pcb).state = .open then w.give tid s (recvLoop w.tab tid s.pcb)
  else if (w.tab s.pcb).state = .closing then
    let w := w.release s.pcb
    w.give tid s (w.tab, .returned none)
  else w.give tid s (w.tab, .returned none)

/-- `udp_input` puts the datagram into the queue of a block. -/
def Service.queue (w : Service) (i : PcbId) (a : Arrival) : Service :=
  let b := { w.inbox i with arrived := (w.inbox i).arrived ++ [⟨a.src, a.data⟩] }
  { w with tab := udpDeliver true w.tab a, inbox := Function.update w.inbox i b }

/-- A user command of a task that is running, a task that runs for a reason of its own, a call
that goes on, a datagram that passed the checks of `udp_input`. -/
inductive Happening where
  | open
  | bind (id : Int) (localEp : Endpoint)
  | sendto (id : Int) (foreign : Endpoint) (routes : List IpRoute)
  | close (id : Int)
  | recvfrom (tid : TaskId) (id : Int) (size : UInt64)
  | wake (tid : TaskId)
  | resume (tid : TaskId)
  | input (a : Arrival) (alloc : Bool)

/-- One event, from a state without an answer. -/
def Service.next (w : Service) : Happening → Service
  | .open =>
      match udpPcbAlloc w.tab with
      | none => w
      | some (i, t) => { w with tab := t, inbox := Function.update w.inbox i ⟨[], []⟩ }
  | .bind id localEp => { w with tab := (udpBind w.tab id localEp).1 }
  | .sendto id foreign routes =>
      { w with tab := ((udpSendto routes w.tab id foreign).map Prod.fst).getD w.tab }
  | .close id =>
      match udpPcbGet w.tab id with
      | none => w
      | some i => w.release i
  | .recvfrom tid id size =>
      if (w.tasks tid).isSome then w
      else
        match udpPcbGet w.tab id with
        | none => { w with answer := some (tid, .failed) }
        | some i => w.give tid ⟨i, size, false⟩ (recvLoop w.tab tid i)
  | .wake tid => { w with tasks := wakeup w.tasks tid }
  | .resume tid =>
      match w.tasks tid with
      | none => w
      | some s => if s.running then w.awake tid s else w
  | .input a alloc =>
      match udpPcbSelect w.tab a.dst.addr a.dst.port with
      | none => w
      | some i => if alloc then (w.queue i a).broadcast i else w

def Service.step (w : Service) (e : Happening) : Service := { w with answer := none }.next e

/-- No call of `udp_recvfrom` sleeps on the slot. -/
def Vacant (tasks : TaskId → Option Sleeper) (i : PcbId) : Prop :=
  ∀ tid s, tasks tid = some s → s.pcb ≠ i

/-- At most one task is inside `udp_recvfrom` on a block. -/
def Alone (w : Service) : Happening → Prop
  | .recvfrom _ id _ => ∀ i, udpPcbGet w.tab id = some i → Vacant w.tasks i
  | _ => True

/-! ## Waking -/

section Wake
variable {tasks : TaskId → Option Sleeper} {tid u : TaskId} {s : Sleeper} {i : PcbId}

/-- Waking a task makes it run, and moves nobody. -/
theorem wakeup_some (h : wakeup tasks tid u = some s) :
    ∃ s', tasks u = some s' ∧ s'.pcb = s.pcb ∧ s'.size = s.size ∧
      s.running = (s'.running || decide (u = tid)) := by
  by_cases hu : u = tid
  · subst hu
    rw [wakeup, Function.update_self, Option.map_eq_some_iff] at h
    obtain ⟨s', hs', rfl⟩ := h
    exact ⟨s', hs', rfl, rfl, by simp⟩
  · rw [wakeup, Function.update_of_ne hu] at h
    exact ⟨s, h, rfl, rfl, by simp [hu]⟩

theorem wakeup_asleep (h : tasks u = some s) (tid : TaskId) :
    wakeup tasks tid u = some { s with running := s.running || decide (u = tid) } := by
  by_cases hu : u = tid
  · subst hu
    simp [wakeup, h]
  · simp [wakeup, h, hu]

theorem Vacant.wakeup (h : Vacant tasks i) (tid : TaskId) : Vacant (wakeup tasks tid) i := by
  intro u s hs
  obtain ⟨s', hs', hpcb, -⟩ := wakeup_some hs
  exact hpcb ▸ h u s' hs'

end Wake

/-! ## Who is inside a slot -/

/-- A slot and the call that sleeps on it: nobody, or one task that its condition
variable names, which runs again when there is something for it. -/
inductive Occupied (p : Pcb) (tasks : TaskId → Option Sleeper) (i : PcbId) : Prop
  | idle (hout : Vacant tasks i) (hnum : p.cond.num = 0) (hs : p.state ≠ .closing)
      (hfree : p.state = .free → p.queue = []) : Occupied p tasks i
  | busy (tid : TaskId) (s : Sleeper) (hin : tasks tid = some s) (hpcb : s.pcb = i)
      (honly : ∀ u s', tasks u = some s' → s'.pcb = i → u = tid) (hcond : p.cond = ⟨tid, 1⟩)
      (hs : p.state = .open ∧ (p.queue ≠ [] → s.running = true) ∨
        p.state = .closing ∧ s.running = true) : Occupied p tasks i

section Occupied
variable {p p' : Pcb} {tasks : TaskId → Option Sleeper} {tid : TaskId} {i : PcbId}
  {o : Option Sleeper}

/-- A wake-up changes nothing. -/
theorem Occupied.wakeup (h : Occupied p tasks i) (tid : TaskId) :
    Occupied p (wakeup tasks tid) i := by
  cases h with
  | idle hout hnum hs hfree => exact .idle (hout.wakeup tid) hnum hs hfree
  | busy u s hin hpcb honly hcond hs =>
      refine .busy u _ (wakeup_asleep hin tid) hpcb (fun v s' hv hpcb' => ?_) hcond ?_
      · obtain ⟨s₀, hs₀, hpcb₀, -⟩ := wakeup_some hv
        exact honly v s₀ hs₀ (hpcb₀.trans hpcb')
      · rcases hs with ⟨hopen, hq⟩ | ⟨hclosing, hr⟩
        · exact .inl ⟨hopen, fun hne => by simp [hq hne]⟩
        · exact .inr ⟨hclosing, by simp [hr]⟩

/-- Nor does a task that comes from another slot and goes to another slot. -/
theorem Occupied.elsewhere (h : Occupied p tasks i) (hold : ∀ s, tasks tid = some s → s.pcb ≠ i)
    (hnew : ∀ s, o = some s → s.pcb ≠ i) : Occupied p (Function.update tasks tid o) i := by
  have hother {u : TaskId} {s : Sleeper} (hu : Function.update tasks tid o u = some s)
      (hpcb : s.pcb = i) : tasks u = some s := by
    by_cases hut : u = tid
    · subst hut
      rw [Function.update_self] at hu
      exact absurd hpcb (hnew s hu)
    · rwa [Function.update_of_ne hut] at hu
  cases h with
  | idle hout hnum hs hfree =>
      exact .idle (fun u s hu hpcb => hout u s (hother hu hpcb) hpcb) hnum hs hfree
  | busy u s hin hpcb honly hcond hs =>
      have hut : u ≠ tid := by
        rintro rfl
        exact hold s hin hpcb
      refine .busy u s (by rwa [Function.update_of_ne hut]) hpcb ?_ hcond hs
      exact fun v s' hv hpcb' => honly v s' (hother hv hpcb') hpcb'

theorem Occupied.same (h : Occupied p tasks i) (hs : p'.state = p.state)
    (hq : p'.queue = p.queue) (hc : p'.cond = p.cond) : Occupied p' tasks i := by
  cases h with
  | idle hout hnum hcl hfree =>
      exact .idle hout (by rw [hc, hnum]) (by rwa [hs]) (by rwa [hs, hq])
  | busy u s hin hpcb honly hcond h =>
      exact .busy u s hin hpcb honly (by rw [hc, hcond]) (by rwa [hs, hq])

/-- Nobody sleeps on a slot that is free. -/
theorem Occupied.of_free (h : Occupied p tasks i) (hs : p.state = .free) :
    Vacant tasks i ∧ p.queue = [] := by
  cases h with
  | idle hout _ _ hfree => exact ⟨hout, hfree hs⟩
  | busy u s _ _ _ _ h =>
      rcases h with ⟨hopen, -⟩ | ⟨hclosing, -⟩
      · rw [hs] at hopen
        cases hopen
      · rw [hs] at hclosing
        cases hclosing

theorem Occupied.of_vacant (h : Occupied p tasks i) (hv : Vacant tasks i) :
    p.cond.num = 0 ∧ p.state ≠ .closing := by
  cases h with
  | idle _ hnum hs _ => exact ⟨hnum, hs⟩
  | busy u s hin hpcb => exact absurd hpcb (hv u s hin)

/-- The call that sleeps on a slot. -/
theorem Occupied.of_inside {s : Sleeper} (h : Occupied p tasks i) (hin : tasks tid = some s)
    (hpcb : s.pcb = i) :
    p.cond = ⟨tid, 1⟩ ∧ (∀ u s', tasks u = some s' → s'.pcb = i → u = tid) ∧
      (p.state = .open ∧ (p.queue ≠ [] → s.running = true) ∨
        p.state = .closing ∧ s.running = true) := by
  cases h with
  | idle hout => exact absurd hpcb (hout tid s hin)
  | busy u s' hin' hpcb' honly hcond hs =>
      obtain rfl : tid = u := honly tid s hin hpcb
      cases hin.symm.trans hin'
      exact ⟨hcond, honly, hs⟩

/-- The only call on a slot leaves it. -/
theorem vacant_left (honly : ∀ u s, tasks u = some s → s.pcb = i → u = tid) :
    Vacant (Function.update tasks tid none) i := by
  intro u s hu hpcb
  by_cases hut : u = tid
  · subst hut
    rw [Function.update_self] at hu
    cases hu
  · rw [Function.update_of_ne hut] at hu
    exact hut (honly u s hu hpcb)

/-- A call goes to sleep on a slot where no other call is. -/
theorem Occupied.fallAsleep {s : Sleeper}
    (honly : ∀ u s', tasks u = some s' → s'.pcb = i → u = tid) (hpcb : s.pcb = i)
    (hcond : p.cond = ⟨tid, 1⟩) (hs : p.state = .open) (hq : p.queue = []) :
    Occupied p (Function.update tasks tid (some s)) i := by
  refine .busy tid s (Function.update_self ..) hpcb (fun u s' hu hpcb' => ?_) hcond
    (.inl ⟨hs, fun hne => absurd hq hne⟩)
  by_cases hut : u = tid
  · exact hut
  · rw [Function.update_of_ne hut] at hu
    exact honly u s' hu hpcb'

end Occupied

/-! ## The invariant -/

/-- The calls were given what arrived, in the order in which it arrived; while the block is
open the rest is in its queue. -/
structure Inbox.Of (b : Inbox) (p : Pcb) : Prop where
  order : b.given <+: b.arrived
  rest : p.state = .open → b.given ++ p.queue = b.arrived

structure Service.SlotOk (w : Service) (i : PcbId) : Prop where
  occ : Occupied (w.tab i) w.tasks i
  box : (w.inbox i).Of (w.tab i)

def Service.Ok (w : Service) : Prop := ∀ i, w.SlotOk i

theorem boot_ok : Service.boot.Ok := fun _ =>
  ⟨.idle (fun _ _ h => by cases h) rfl (fun h => by cases h) fun _ => rfl,
    ⟨List.prefix_rfl, fun h => by cases h⟩⟩

section Invariant
variable {w w' : Service} {i : PcbId}

/-- An event that changes one slot. -/
theorem Service.Ok.edit (h : ∀ j, j ≠ i → w.SlotOk j) (htab : ∀ j, j ≠ i → w'.tab j = w.tab j)
    (hbox : ∀ j, j ≠ i → w'.inbox j = w.inbox j)
    (htasks : ∀ j, j ≠ i → ∀ p, Occupied p w.tasks j → Occupied p w'.tasks j)
    (hi : w'.SlotOk i) : w'.Ok := by
  intro j
  by_cases hj : j = i
  · rwa [hj]
  · refine ⟨?_, ?_⟩
    · rw [htab j hj]
      exact htasks j hj _ (h j hj).occ
    · rw [htab j hj, hbox j hj]
      exact (h j hj).box

/-- An event that binds blocks and does nothing else. -/
theorem Service.Ok.rebound (h : w.Ok) {t : Table}
    (ht : ∀ i, ∃ localEp, t i = { w.tab i with localEp }) : Service.Ok { w with tab := t } := by
  intro i
  obtain ⟨localEp, hi⟩ := ht i
  refine ⟨?_, ?_⟩
  · simp only [hi]
    exact (h i).occ.same rfl rfl rfl
  · simp only [hi]
    exact ⟨(h i).box.order, (h i).box.rest⟩

theorem Service.Ok.wake (h : w.Ok) (tid : TaskId) :
    Service.Ok { w with tasks := wakeup w.tasks tid } :=
  fun i => ⟨(h i).occ.wakeup tid, (h i).box⟩

end Invariant

/-! ## One event -/

section Calls
variable {t t' : Table} {i : PcbId} {id : Int}

theorem alloc_spec (h : udpPcbAlloc t = some (i, t')) :
    (t i).state = .free ∧ t' = Function.update t i { t i with state := .open, cond := .zero } := by
  obtain ⟨j, hj, he⟩ := Option.map_eq_some_iff.mp h
  cases he
  exact ⟨by simpa using List.find?_some hj, rfl⟩

theorem update_rebound (t : Table) (i : PcbId) (localEp : Endpoint) (j : PcbId) :
    ∃ e, Function.update t i { t i with localEp } j = { t j with localEp := e } := by
  by_cases hj : j = i
  · subst hj
    exact ⟨localEp, Function.update_self ..⟩
  · exact ⟨(t j).localEp, Function.update_of_ne hj ..⟩

theorem bind_rebound (t : Table) (id : Int) (localEp : Endpoint) (j : PcbId) :
    ∃ e, (udpBind t id localEp).1 j = { t j with localEp := e } := by
  unfold udpBind
  split
  · exact ⟨_, rfl⟩
  · split
    · exact ⟨_, rfl⟩
    · exact update_rebound t _ localEp j

theorem sendto_rebound (routes : List IpRoute) (t : Table) (id : Int) (f : Endpoint) (j : PcbId) :
    ∃ e, ((udpSendto routes t id f).map Prod.fst).getD t j = { t j with localEp := e } := by
  cases hsend : udpSendto routes t id f with
  | none => exact ⟨_, rfl⟩
  | some r =>
      simp only [udpSendto, Option.bind_eq_some_iff] at hsend
      obtain ⟨i, -, a, -, hr⟩ := hsend
      split at hr
      · obtain ⟨p, -, rfl⟩ := Option.map_eq_some_iff.mp hr
        exact update_rebound t i _ j
      · cases hr
        exact ⟨_, rfl⟩

end Calls

section Step
variable {w : Service} {i : PcbId} {tid : TaskId} {s : Sleeper}

/-- `udp_open`. -/
theorem open_ok (h : w.Ok) : (w.next .open).Ok := by
  simp only [Service.next]
  cases halloc : udpPcbAlloc w.tab with
  | none => exact h
  | some r =>
      obtain ⟨i, t⟩ := r
      obtain ⟨hfree, rfl⟩ := alloc_spec halloc
      obtain ⟨hv, hq⟩ := (h i).occ.of_free hfree
      refine .edit (w := w) (i := i) (fun j _ => h j) (fun j hj => Function.update_of_ne hj ..)
        (fun j hj => Function.update_of_ne hj ..) (fun _ _ _ ho => ho) ⟨?_, ?_⟩
      · simp only [Function.update_self]
        exact .idle hv rfl (by simp) (by simp)
      · simp only [Function.update_self]
        exact ⟨List.prefix_rfl, fun _ => by simp [hq]⟩

/-- `udp_pcb_release` of a block that nobody sleeps on. -/
theorem release_vacant (hnum : (w.tab i).cond.num = 0) :
    w.release i = { w with tab := Function.update w.tab i .zero } := by
  simp [Service.release, udpPcbRelease, Tcp.condDestroy, hnum, Tcp.eBusy]

/-- `udp_pcb_release` of a block that a task sleeps on. -/
theorem release_inside (hcond : (w.tab i).cond = ⟨tid, 1⟩) :
    w.release i = { w with
      tab := Function.update w.tab i { w.tab i with state := .closing }
      tasks := wakeup w.tasks tid } := by
  simp [Service.release, udpPcbRelease, Tcp.condDestroy, hcond, Service.broadcast]

/-- Nobody is inside a slot that is zeroed. -/
theorem zero_slot {tasks : TaskId → Option Sleeper} {b : Inbox} (hv : Vacant tasks i)
    (hb : b.given <+: b.arrived) : Occupied .zero tasks i ∧ b.Of .zero :=
  ⟨.idle hv rfl (by simp [Pcb.zero]) fun _ => rfl, ⟨hb, by simp [Pcb.zero]⟩⟩

/-- `udp_close`. -/
theorem close_ok (h : w.Ok) (id : Int) : (w.next (.close id)).Ok := by
  simp only [Service.next]
  cases hid : udpPcbGet w.tab id with
  | none => exact h
  | some i =>
      have hopen := udpPcbGet_open hid
      by_cases hv : Vacant w.tasks i
      · have hz := zero_slot hv (h i).box.order
        simp only [release_vacant ((h i).occ.of_vacant hv).1]
        refine .edit (w := w) (i := i) (fun j _ => h j) (fun j hj => Function.update_of_ne hj ..)
          (fun _ _ => rfl) (fun _ _ _ ho => ho) ⟨?_, ?_⟩
        · simpa only [Function.update_self] using hz.1
        · simpa only [Function.update_self] using hz.2
      · obtain ⟨tid, s, hin, hpcb⟩ : ∃ tid s, w.tasks tid = some s ∧ s.pcb = i := by
          simpa [Vacant] using hv
        obtain ⟨hcond, honly, -⟩ := (h i).occ.of_inside hin hpcb
        simp only [release_inside hcond]
        refine .edit (w := w) (i := i) (fun j _ => h j) (fun j hj => Function.update_of_ne hj ..)
          (fun _ _ => rfl) (fun _ _ _ ho => ho.wakeup tid) ⟨?_, ?_⟩
        · simp only [Function.update_self]
          refine .busy tid _ (wakeup_asleep hin tid) hpcb (fun u s' hu hpcb' => ?_) hcond
            (.inr ⟨rfl, by simp⟩)
          obtain ⟨s₀, hs₀, hpcb₀, -⟩ := wakeup_some hu
          exact honly u s₀ hs₀ (hpcb₀.trans hpcb')
        · simp only [Function.update_self]
          exact ⟨(h i).box.order, by simp⟩

/-- The loop of `udp_recvfrom`, in a block where no other call sleeps. -/
theorem loop_ok (h : ∀ j, j ≠ s.pcb → w.SlotOk j)
    (hcall : ∀ s', w.tasks tid = some s' → s'.pcb = s.pcb)
    (honly : ∀ u s', w.tasks u = some s' → s'.pcb = s.pcb → u = tid)
    (hopen : (w.tab s.pcb).state = .open) (hnum : (w.tab s.pcb).cond.num = 0)
    (hrest : (w.inbox s.pcb).given ++ (w.tab s.pcb).queue = (w.inbox s.pcb).arrived) :
    (w.give tid s (recvLoop w.tab tid s.pcb)).Ok := by
  have helse {o : Option Sleeper} (ho : ∀ s', o = some s' → s'.pcb = s.pcb) (j : PcbId)
      (hj : j ≠ s.pcb) (p : Pcb) (hocc : Occupied p w.tasks j) :
      Occupied p (Function.update w.tasks tid o) j :=
    hocc.elsewhere (fun s' hs' hpcb => hj (hpcb.symm.trans (hcall s' hs')))
      fun s' hs' hpcb => hj (hpcb.symm.trans (ho s' hs'))
  cases hq : (w.tab s.pcb).queue with
  | nil =>
      simp only [recvLoop, hq, Service.give, if_true, Inbox.record]
      refine .edit (i := s.pcb) h (fun j hj => Function.update_of_ne hj ..)
        (fun j hj => Function.update_of_ne hj ..)
        (helse fun s' hs' => by rw [← Option.some.inj hs']) ⟨?_, ?_⟩
      · simp only [Function.update_self]
        exact .fallAsleep honly rfl (by simp [hnum]) hopen rfl
      · simp only [Function.update_self]
        rw [hq] at hrest
        exact ⟨⟨_, hrest⟩, fun _ => hrest⟩
  | cons entry queue =>
      simp only [recvLoop, hq, Service.give, reduceCtorEq, if_false, Inbox.record]
      have hrest' : (w.inbox s.pcb).given ++ [entry] ++ queue = (w.inbox s.pcb).arrived := by
        rw [← hrest, hq, List.append_assoc, List.singleton_append]
      refine .edit (i := s.pcb) h (fun j hj => Function.update_of_ne hj ..)
        (fun j hj => Function.update_of_ne hj ..) (helse fun s' hs' => by cases hs') ⟨?_, ?_⟩
      · simp only [Function.update_self]
        refine .idle (vacant_left honly) hnum ?_ ?_
        · simp [hopen]
        · simp [hopen]
      · simp only [Function.update_self]
        exact ⟨⟨_, hrest'⟩, fun _ => hrest'⟩

/-- `udp_recvfrom`. -/
theorem recvfrom_ok (h : w.Ok) (tid : TaskId) (id : Int) (size : UInt64)
    (halone : ∀ i, udpPcbGet w.tab id = some i → Vacant w.tasks i) :
    (w.next (.recvfrom tid id size)).Ok := by
  simp only [Service.next]
  split
  · exact h
  · rename_i hidle
    cases hid : udpPcbGet w.tab id with
    | none => exact fun i => ⟨(h i).occ, (h i).box⟩
    | some i =>
        have hopen := udpPcbGet_open hid
        have hv := halone i hid
        refine loop_ok (fun j _ => h j) (fun s' hs' => ?_) (fun u s' hs' hpcb => ?_) hopen
          ((h i).occ.of_vacant hv).1 ((h i).box.rest hopen)
        · simp [hs'] at hidle
        · exact absurd hpcb (hv u s' hs')

/-- A call that was woken goes on. -/
theorem resume_ok (h : w.Ok) (tid : TaskId) : (w.next (.resume tid)).Ok := by
  simp only [Service.next]
  cases hin : w.tasks tid with
  | none => exact h
  | some s =>
      simp only
      split
      · obtain ⟨hcond, honly, hs⟩ := (h s.pcb).occ.of_inside hin rfl
        have hcall : ∀ s', w.tasks tid = some s' → s'.pcb = s.pcb := fun s' hs' => by
          rw [Option.some.inj (hs'.symm.trans hin)]
        have hself : (w.leave s.pcb).tab s.pcb = { w.tab s.pcb with cond := ⟨tid, 0⟩ } := by
          simp [Service.leave, hcond]
        have hother : ∀ j, j ≠ s.pcb → (w.leave s.pcb).SlotOk j := fun j hj => by
          have hj' : (w.leave s.pcb).tab j = w.tab j := Function.update_of_ne hj ..
          exact ⟨hj' ▸ (h j).occ, hj' ▸ (h j).box⟩
        rcases hs with ⟨hopen, -⟩ | ⟨hclosing, -⟩
        · simp only [Service.awake, hself, hopen, if_true]
          exact loop_ok hother hcall honly (by rw [hself]; exact hopen) (by rw [hself])
            (by rw [hself]; exact (h s.pcb).box.rest hopen)
        · have hnum : ((w.leave s.pcb).tab s.pcb).cond.num = 0 := by rw [hself]
          simp only [Service.awake, hself, hclosing, reduceCtorEq, if_false, if_true,
            release_vacant hnum]
          refine .edit (i := s.pcb) hother (fun j hj => Function.update_of_ne hj ..)
            (fun j hj => Function.update_of_ne hj ..) (fun j hj p hocc => ?_) ?_
          · refine hocc.elsewhere (fun s' hs' hpcb => hj ?_) fun s' hs' => by cases hs'
            exact hpcb.symm.trans (hcall s' hs')
          · have hz := zero_slot (vacant_left honly) (h s.pcb).box.order
            refine ⟨?_, ?_⟩
            · simpa [Service.give, Service.leave] using hz.1
            · simpa [Service.give, Service.leave, Inbox.record] using hz.2
      · exact h

/-- `udp_input`. -/
theorem input_ok (h : w.Ok) (a : Arrival) (alloc : Bool) : (w.next (.input a alloc)).Ok := by
  simp only [Service.next]
  cases hsel : udpPcbSelect w.tab a.dst.addr a.dst.port with
  | none => exact h
  | some i =>
      simp only
      split
      · have hopen := (select_finds (f := a.dst) hsel).1
        have htab : (w.queue i a).tab = Function.update w.tab i
            { w.tab i with queue := (w.tab i).queue ++ [⟨a.src, a.data⟩] } := by
          simp [Service.queue, udpDeliver, hsel]
        simp only [Service.broadcast, htab, Function.update_self]
        refine .edit (w := w) (i := i) (fun j _ => h j)
          (fun j hj => Function.update_of_ne hj ..)
          (fun j hj => Function.update_of_ne hj ..) (fun _ _ _ ho => ho.wakeup _) ⟨?_, ?_⟩
        · simp only [Function.update_self]
          cases (h i).occ with
          | idle hout hnum hs hfree => exact .idle (hout.wakeup _) hnum hs (by simp [hopen])
          | busy tid s hin hpcb honly hcond hs =>
              simp only [Service.queue, hcond]
              refine .busy tid _ (wakeup_asleep hin tid) hpcb (fun u s' hu hpcb' => ?_) rfl
                (.inl ⟨hopen, by simp⟩)
              obtain ⟨s₀, hs₀, hpcb₀, -⟩ := wakeup_some hu
              exact honly u s₀ hs₀ (hpcb₀.trans hpcb')
        · simp only [Service.queue, Function.update_self]
          have hrest := (h i).box.rest hopen
          refine ⟨(h i).box.order.trans (List.prefix_append ..), fun _ => ?_⟩
          rw [← List.append_assoc, hrest]
      · exact h

theorem next_ok (h : w.Ok) {e : Happening} (halone : Alone w e) : (w.next e).Ok := by
  cases e with
  | «open» => exact open_ok h
  | bind id localEp => exact h.rebound (bind_rebound w.tab id localEp)
  | sendto id foreign routes => exact h.rebound (sendto_rebound routes w.tab id foreign)
  | close id => exact close_ok h id
  | recvfrom tid id size => exact recvfrom_ok h tid id size halone
  | wake tid => exact h.wake tid
  | resume tid => exact resume_ok h tid
  | input a alloc => exact input_ok h a alloc

theorem Service.Ok.unanswered (h : w.Ok) : Service.Ok { w with answer := none } :=
  fun i => ⟨(h i).occ, (h i).box⟩

/-- **One event** keeps every slot in order. -/
theorem step_ok (w : Service) (e : Happening) (h : w.Ok) (halone : Alone w e) : (w.step e).Ok := by
  cases e <;> exact next_ok h.unanswered halone

end Step

/-! ## The machine of the ports -/

/-- The table and the blocks the calls sleep on. -/
def Service.world (w : Service) : World := ⟨w.tab, fun tid => (w.tasks tid).map Sleeper.pcb⟩

/-- The event of the machine of the ports, when the task `caller` calls. -/
def Happening.event (caller : TaskId) : Happening → Option Event
  | .open => some (.call caller .open)
  | .bind id localEp => some (.call caller (.bind id localEp))
  | .sendto id foreign routes => some (.call caller (.sendto id foreign routes))
  | .close id => some (.call caller (.close id))
  | .recvfrom tid id _ => some (.call tid (.recvfrom id))
  | .wake _ => none
  | .resume tid => some (.resume tid)
  | .input a alloc => some (.input a alloc)

section World
variable {w : Service} {caller tid : TaskId} {s : Sleeper}

theorem world_ext {w' : World} (htab : w.tab = w'.tab)
    (htasks : ∀ tid, (w.tasks tid).map Sleeper.pcb = w'.tasks tid) : w.world = w' := by
  obtain ⟨tab, tasks⟩ := w'
  obtain rfl : w.tab = tab := htab
  obtain rfl : w.world.tasks = tasks := funext htasks
  rfl

theorem wakeup_pcb (tasks : TaskId → Option Sleeper) (tid u : TaskId) :
    (wakeup tasks tid u).map Sleeper.pcb = (tasks u).map Sleeper.pcb := by
  by_cases hu : u = tid
  · subst hu
    rw [wakeup, Function.update_self, Option.map_map]
    rfl
  · rw [wakeup, Function.update_of_ne hu]

@[simp] theorem release_tab (w : Service) (i : PcbId) :
    (w.release i).tab = udpPcbRelease w.tab i := by
  unfold Service.release
  dsimp only
  split
  · rfl
  · rfl

theorem release_world (w : Service) (i : PcbId) :
    (w.release i).world = ⟨udpPcbRelease w.tab i, w.world.tasks⟩ := by
  unfold Service.release
  dsimp only
  split
  · exact world_ext rfl fun u => wakeup_pcb w.tasks _ u
  · rfl

theorem give_world (w : Service) (tid : TaskId) (s : Sleeper) (r : Table × Recv) :
    (w.give tid s r).world = w.world.received tid (some s.pcb) r := by
  refine world_ext rfl fun u => ?_
  simp only [Service.give, World.received, Service.world]
  by_cases hu : u = tid
  · subst hu
    rw [Function.update_self, Function.update_self]
    split
    · rfl
    · rfl
  · rw [Function.update_of_ne hu, Function.update_of_ne hu]

theorem awake_world (w : Service) (tid : TaskId) (s : Sleeper) :
    (w.awake tid s).world = w.world.received tid (some s.pcb) (recvAwake w.tab tid s.pcb) := by
  have hrecv : recvAwake w.tab tid s.pcb =
      if ((w.leave s.pcb).tab s.pcb).state = .open then recvLoop (w.leave s.pcb).tab tid s.pcb
      else if ((w.leave s.pcb).tab s.pcb).state = .closing then
        (udpPcbRelease (w.leave s.pcb).tab s.pcb, .returned none)
      else ((w.leave s.pcb).tab, .returned none) := rfl
  rw [hrecv]
  unfold Service.awake
  dsimp only
  split
  · exact give_world ..
  · split
    · rw [give_world, release_world, release_tab]
      rfl
    · exact give_world ..

/-- **Refinement.**  Without the wake-ups it is the machine of the ports: a call goes on there
whenever it likes, here when its task is running. -/
theorem step_world (e : Happening) (hcaller : w.tasks caller = none)
    (hrun : ∀ tid s, e = .resume tid → w.tasks tid = some s → s.running = true) :
    (w.step e).world = (e.event caller).elim w.world w.world.step := by
  have hidle : ((w.world.tasks caller).isSome = true) ↔ False := by
    simp [Service.world, hcaller]
  cases e with
  | wake tid => exact world_ext rfl fun u => wakeup_pcb w.tasks tid u
  | bind id localEp => exact (if_neg hidle.mp).symm
  | sendto id foreign routes => exact (if_neg hidle.mp).symm
  | «open» =>
      refine Eq.trans ?_ (if_neg hidle.mp).symm
      simp only [Command.run, udpOpen, Service.step, Service.next, Service.world]
      cases udpPcbAlloc w.tab with
      | none => rfl
      | some r => rfl
  | close id =>
      refine Eq.trans ?_ (if_neg hidle.mp).symm
      simp only [Command.run, udpClose, Service.step, Service.next, Service.world]
      cases udpPcbGet w.tab id with
      | none => rfl
      | some i => exact release_world _ i
  | recvfrom tid id size =>
      cases hin : w.tasks tid with
      | some s =>
          have hasleep : (w.world.tasks tid).isSome = true := by simp [Service.world, hin]
          refine Eq.trans ?_ (if_pos hasleep).symm
          simp [Service.step, Service.next, hin, Service.world]
      | none =>
          have hawake : ¬ (w.world.tasks tid).isSome = true := by simp [Service.world, hin]
          refine Eq.trans ?_ (if_neg hawake).symm
          simp only [Command.run, udpRecvfrom, Service.step, Service.next, hin]
          cases hid : udpPcbGet w.tab id with
          | none =>
              refine world_ext ?_ fun u => ?_
              · simp [Service.world, World.received, hid]
              · by_cases hu : u = tid
                · subst hu
                  simp [Service.world, World.received, hid, hin]
                · simp [Service.world, World.received, hu]
          | some i =>
              simp only [Service.world, hid]
              exact give_world _ tid _ _
  | resume tid =>
      cases hin : w.tasks tid with
      | none => simp [Happening.event, World.step, Service.step, Service.next, hin, Service.world]
      | some s =>
          have hs := hrun tid s rfl hin
          simp only [Happening.event, Option.elim_some, World.step, Service.step, Service.next, hin,
            hs, if_true]
          rw [awake_world]
          simp [Service.world, hin]
  | input a alloc =>
      simp only [Happening.event, Option.elim_some, World.step, Service.step, Service.next]
      cases hsel : udpPcbSelect w.tab a.dst.addr a.dst.port with
      | none => simp [Service.world, udpDeliver, hsel]
      | some i =>
          dsimp only
          split
          · rename_i halloc
            rw [halloc]
            exact world_ext rfl fun u => wakeup_pcb w.tasks _ u
          · rename_i halloc
            simp [Service.world, udpDeliver, hsel, halloc]

end World

/-! ## A block that is being closed -/

section Closing
variable {w : Service} {i j : PcbId} {tid : TaskId} {s : Sleeper} {e : Happening}

theorem release_other (t : Table) (hj : j ≠ i) : udpPcbRelease t i j = t j := by
  unfold udpPcbRelease
  split
  · exact Function.update_of_ne hj ..
  · exact Function.update_of_ne hj ..

theorem recvLoop_other (t : Table) (tid : TaskId) (hj : j ≠ i) : (recvLoop t tid i).1 j = t j := by
  unfold recvLoop
  split
  · exact Function.update_of_ne hj ..
  · exact Function.update_of_ne hj ..

@[simp] theorem leave_tab_other (w : Service) (hj : j ≠ i) : (w.leave i).tab j = w.tab j :=
  Function.update_of_ne hj ..

theorem awake_other (w : Service) (tid : TaskId) (hj : j ≠ s.pcb) :
    (w.awake tid s).tab j = w.tab j := by
  unfold Service.awake
  dsimp only
  split
  · exact (recvLoop_other _ tid hj).trans (leave_tab_other w hj)
  · split
    · simp only [Service.give, release_tab]
      exact (release_other _ hj).trans (leave_tab_other w hj)
    · exact leave_tab_other w hj

/-- Only the call that sleeps on a CLOSING slot touches it. -/
theorem closing_kept (hj : (w.tab j).state = .closing)
    (he : ∀ tid s, e = .resume tid → w.tasks tid = some s → s.pcb ≠ j) :
    (w.next e).tab j = w.tab j := by
  have hne {i : PcbId} (hi : (w.tab i).state = .open) : j ≠ i := by
    rintro rfl
    rw [hi] at hj
    cases hj
  cases e with
  | wake tid => rfl
  | «open» =>
      simp only [Service.next]
      cases halloc : udpPcbAlloc w.tab with
      | none => rfl
      | some r =>
          obtain ⟨i, t⟩ := r
          obtain ⟨hfree, rfl⟩ := alloc_spec halloc
          refine Function.update_of_ne ?_ ..
          rintro rfl
          rw [hj] at hfree
          cases hfree
  | bind id localEp =>
      simp only [Service.next, udpBind]
      cases hid : udpPcbGet w.tab id with
      | none => rfl
      | some i =>
          dsimp only
          split
          · rfl
          · exact Function.update_of_ne (hne (udpPcbGet_open hid)) ..
  | sendto id foreign routes =>
      simp only [Service.next]
      cases hsend : udpSendto routes w.tab id foreign with
      | none => rfl
      | some r =>
          simp only [udpSendto, Option.bind_eq_some_iff] at hsend
          obtain ⟨i, hid, a, -, hr⟩ := hsend
          split at hr
          · obtain ⟨p, -, rfl⟩ := Option.map_eq_some_iff.mp hr
            exact Function.update_of_ne (hne (udpPcbGet_open hid)) ..
          · cases hr
            rfl
  | close id =>
      simp only [Service.next]
      cases hid : udpPcbGet w.tab id with
      | none => rfl
      | some i =>
          simp only [release_tab]
          exact release_other _ (hne (udpPcbGet_open hid))
  | recvfrom tid id size =>
      simp only [Service.next]
      split
      · rfl
      · cases hid : udpPcbGet w.tab id with
        | none => rfl
        | some i => exact recvLoop_other _ tid (hne (udpPcbGet_open hid))
  | resume tid =>
      simp only [Service.next]
      cases hin : w.tasks tid with
      | none => rfl
      | some s =>
          dsimp only
          split
          · exact awake_other w tid (he tid s rfl hin).symm
          · rfl
  | input a alloc =>
      simp only [Service.next]
      cases hsel : udpPcbSelect w.tab a.dst.addr a.dst.port with
      | none => rfl
      | some i =>
          dsimp only
          split
          · simp only [Service.broadcast, Service.queue, udpDeliver, hsel, if_true]
            exact Function.update_of_ne (hne (select_finds (f := a.dst) hsel).1) ..
          · rfl

theorem wakeup_running {tasks : TaskId → Option Sleeper} (h : tasks tid = some s)
    (hr : s.running = true) (u : TaskId) : wakeup tasks u tid = some s := by
  rw [wakeup_asleep h u, hr, Bool.true_or]
  exact congrArg some (by cases s; cases hr; rfl)

theorem release_running (h : w.tasks tid = some s) (hr : s.running = true) (i : PcbId) :
    (w.release i).tasks tid = some s := by
  unfold Service.release
  dsimp only
  split
  · exact wakeup_running h hr _
  · exact h

theorem open_tasks (w : Service) : (w.next .open).tasks = w.tasks := by
  simp only [Service.next]
  split
  · rfl
  · rfl

/-- A call that was woken stays woken until it goes on. -/
theorem running_kept (h : w.tasks tid = some s) (hr : s.running = true) (he : e ≠ .resume tid) :
    (w.next e).tasks tid = some s := by
  cases e with
  | «open» => rwa [open_tasks]
  | bind id localEp => exact h
  | sendto id foreign routes => exact h
  | wake u => exact wakeup_running h hr u
  | close id =>
      simp only [Service.next]
      split
      · exact h
      · exact release_running h hr _
  | recvfrom u id size =>
      simp only [Service.next]
      split
      · exact h
      · rename_i hidle
        have hu : tid ≠ u := by
          rintro rfl
          simp [h] at hidle
        split
        · exact h
        · exact (Function.update_of_ne hu ..).trans h
  | resume u =>
      have hu : tid ≠ u := by
        rintro rfl
        exact he rfl
      simp only [Service.next]
      split
      · exact h
      · split
        · unfold Service.awake
          dsimp only
          split
          · exact (Function.update_of_ne hu ..).trans h
          · split
            · exact (Function.update_of_ne hu ..).trans (release_running (w := w.leave _) h hr _)
            · exact (Function.update_of_ne hu ..).trans h
        · exact h
  | input a alloc =>
      simp only [Service.next]
      split
      · exact h
      · split
        · exact wakeup_running h hr _
        · exact h

/-- A call that will find its block closed. -/
structure Doomed (w : Service) (tid : TaskId) (s : Sleeper) : Prop where
  inside : w.tasks tid = some s
  running : s.running = true
  closing : (w.tab s.pcb).state = .closing

theorem step_doomed (h : w.Ok) (hd : Doomed w tid s) (he : e ≠ .resume tid) :
    Doomed (w.step e) tid s := by
  have hd' : Doomed { w with answer := none } tid s := ⟨hd.inside, hd.running, hd.closing⟩
  refine ⟨running_kept hd'.inside hd.running he, hd.running, ?_⟩
  have hkept := closing_kept (e := e) hd'.closing fun u s' hu hs' hpcb => by
    obtain ⟨-, honly, -⟩ := (h s.pcb).occ.of_inside hd.inside rfl
    obtain rfl := honly u s' hs' hpcb
    exact he hu
  exact (congrArg Pcb.state hkept).trans hd.closing

theorem run_doomed {es : List Happening} (h : w.Ok) (hd : Doomed w tid s)
    (hg : Guarded Service.step Alone w es) (hes : .resume tid ∉ es) :
    (run Service.step w es).Ok ∧ Doomed (run Service.step w es) tid s := by
  induction es generalizing w with
  | nil => exact ⟨h, hd⟩
  | cons e es ih =>
      obtain ⟨he, hes'⟩ := not_or.mp (mt List.mem_cons.mpr hes)
      exact ih (step_ok w e h hg.1) (step_doomed h hd fun h => he h.symm) hg.2 hes'

/-- It gives the slot back and answers -1. -/
theorem resume_doomed (h : w.Ok) (hd : Doomed w tid s) :
    let w' := w.step (.resume tid)
    w'.answer = some (tid, .failed) ∧ w'.tab s.pcb = .zero ∧ w'.tasks tid = none := by
  obtain ⟨hcond, -, -⟩ := (h s.pcb).occ.of_inside hd.inside rfl
  simp only [Service.step, Service.next, hd.inside, hd.running, if_true, Service.awake,
    Service.leave, Function.update_self, hd.closing, reduceCtorEq, if_false]
  rw [release_vacant (by simp [hcond])]
  exact ⟨rfl, Function.update_self .., Function.update_self ..⟩

end Closing

/-! ## What a call returns -/

/-- A call of `udp_recvfrom` of the task begins, or goes on. -/
inductive Receiving (w : Service) (tid : TaskId) (i : PcbId) (size : UInt64) : Happening → Prop
  | call (id : Int) (hidle : w.tasks tid = none) (hid : udpPcbGet w.tab id = some i) :
      Receiving w tid i size (.recvfrom tid id size)
  | woken (hin : w.tasks tid = some ⟨i, size, true⟩) : Receiving w tid i size (.resume tid)

/-- The call returns the next datagram of the slot, cut to its size. -/
structure Returns (w w' : Service) (i : PcbId) (size : UInt64) (foreign : Endpoint)
    (data : List UInt8) (entry : QueueEntry) : Prop where
  foreign_eq : foreign = entry.foreign
  data_eq : data = entry.data.take (min size.toNat entry.data.length)
  next : (w.inbox i).given ++ [entry] <+: (w.inbox i).arrived
  given : (w'.inbox i).given = (w.inbox i).given ++ [entry]
  arrived : (w'.inbox i).arrived = (w.inbox i).arrived

section Answers
variable {w : Service} {i : PcbId} {tid u : TaskId} {s : Sleeper} {e : Happening}
  {foreign : Endpoint} {data : List UInt8}

/-- The loop of `udp_recvfrom` returns the first datagram of the queue. -/
theorem loop_returns (h : (w.give u s (recvLoop w.tab u s.pcb)).answer =
      some (tid, .received foreign data))
    (hrest : (w.inbox s.pcb).given ++ (w.tab s.pcb).queue = (w.inbox s.pcb).arrived) :
    u = tid ∧ ∃ entry,
      Returns w (w.give u s (recvLoop w.tab u s.pcb)) s.pcb s.size foreign data entry := by
  cases hq : (w.tab s.pcb).queue with
  | nil => simp [recvLoop, hq, Service.give, Recv.answer] at h
  | cons entry queue =>
      simp only [recvLoop, hq, Service.give, Recv.answer, Option.map_some, Option.some.injEq,
        Prod.mk.injEq, Answer.received.injEq] at h ⊢
      obtain ⟨hu, hf, hd⟩ := h
      refine ⟨hu, entry, hf.symm, ?_, ?_, ?_, ?_⟩
      · rw [← hd, List.take_eq_take_min]
      · exact ⟨queue, by rw [← hrest, hq, List.append_assoc, List.singleton_append]⟩
      · simp [Inbox.record]
      · simp [Inbox.record]

theorem release_answer (w : Service) (i : PcbId) : (w.release i).answer = w.answer := by
  unfold Service.release
  dsimp only
  split
  · rfl
  · rfl

/-- A call that returns a datagram returns the next one. -/
theorem answer_returns (h : w.Ok) (ha : (w.step e).answer = some (tid, .received foreign data)) :
    ∃ i size entry, Receiving w tid i size e ∧
      Returns w (w.step e) i size foreign data entry := by
  cases e with
  | «open» =>
      simp only [Service.step, Service.next] at ha
      split at ha
      · cases ha
      · cases ha
  | bind id localEp => cases ha
  | sendto id f routes => cases ha
  | wake u => cases ha
  | close id =>
      simp only [Service.step, Service.next] at ha
      split at ha
      · cases ha
      · rw [release_answer] at ha
        cases ha
  | input a alloc =>
      simp only [Service.step, Service.next] at ha
      split at ha
      · cases ha
      · split at ha
        · cases ha
        · cases ha
  | recvfrom u id size =>
      cases hin : w.tasks u with
      | some s => simp [Service.step, Service.next, hin] at ha
      | none =>
          cases hid : udpPcbGet w.tab id with
          | none => simp [Service.step, Service.next, hin, hid] at ha
          | some i =>
              have hstep : w.step (.recvfrom u id size) =
                  { w with answer := none }.give u ⟨i, size, false⟩ (recvLoop w.tab u i) := by
                simp [Service.step, Service.next, hin, hid]
              rw [hstep] at ha ⊢
              obtain ⟨rfl, entry, hr⟩ := loop_returns ha ((h i).box.rest (udpPcbGet_open hid))
              exact ⟨i, size, entry, .call id hin hid, hr.1, hr.2, hr.3, hr.4, hr.5⟩
  | resume u =>
      cases hin : w.tasks u with
      | none => simp [Service.step, Service.next, hin] at ha
      | some s =>
          obtain ⟨i, size, running⟩ := s
          cases running with
          | false => simp [Service.step, Service.next, hin] at ha
          | true =>
              obtain ⟨hcond, -, hs⟩ := (h i).occ.of_inside hin rfl
              let w₀ := { w with answer := none }.leave i
              have hself : w₀.tab i = { w.tab i with cond := ⟨u, 0⟩ } := by
                simp [w₀, Service.leave, hcond]
              have hstep :
                  w.step (.resume u) = { w with answer := none }.awake u ⟨i, size, true⟩ := by
                simp [Service.step, Service.next, hin]
              rcases hs with ⟨hopen, -⟩ | ⟨hclosing, -⟩
              · have hgive : w.step (.resume u) =
                    w₀.give u ⟨i, size, true⟩ (recvLoop w₀.tab u i) := by
                  rw [hstep]
                  exact if_pos (by rw [hself]; exact hopen)
                rw [hgive] at ha ⊢
                obtain ⟨rfl, entry, hr⟩ := loop_returns ha
                  (by rw [hself]; exact (h i).box.rest hopen)
                exact ⟨i, size, entry, .woken hin, hr.1, hr.2, hr.3, hr.4, hr.5⟩
              · have hfailed : (w.step (.resume u)).answer = some (u, .failed) :=
                  (resume_doomed h ⟨hin, rfl, hclosing⟩).1
                rw [hfailed] at ha
                cases ha

end Answers

/-! ## Every run -/

section Runs
variable {w : Service} {i : PcbId} {id : Int}

/-- A slot is given back exactly when nobody sleeps on it. -/
theorem free_iff_vacant (h : w.Ok) (hs : (w.tab i).state ≠ .open) :
    (w.tab i).state = .free ∧ (w.tab i).queue = [] ↔ Vacant w.tasks i := by
  constructor
  · exact fun ⟨hfree, _⟩ => ((h i).occ.of_free hfree).1
  · intro hv
    have hclosing := ((h i).occ.of_vacant hv).2
    have hfree : (w.tab i).state = .free := by
      cases hst : (w.tab i).state with
      | free => rfl
      | «open» => exact absurd hst hs
      | closing => exact absurd hst hclosing
    exact ⟨hfree, ((h i).occ.of_free hfree).2⟩

/-- `udp_close` of a block on which nobody sleeps. -/
theorem close_vacant (h : w.Ok) (hid : udpPcbGet w.tab id = some i) (hv : Vacant w.tasks i) :
    (w.step (.close id)).tab i = .zero := by
  have hnum : (w.tab i).cond.num = 0 := ((h i).occ.of_vacant hv).1
  simp only [Service.step, Service.next, hid]
  rw [release_vacant (w := { w with answer := none }) hnum]
  exact Function.update_self ..

/-- `udp_close` of a block on which a task sleeps. -/
theorem close_inside (h : w.Ok) (hid : udpPcbGet w.tab id = some i) {tid : TaskId} {s : Sleeper}
    (hin : w.tasks tid = some s) (hpcb : s.pcb = i) :
    Doomed (w.step (.close id)) tid { s with running := true } := by
  obtain ⟨hcond, -, -⟩ := (h i).occ.of_inside hin hpcb
  subst hpcb
  simp only [Service.step, Service.next, hid]
  rw [release_inside (w := { w with answer := none }) hcond]
  refine ⟨?_, rfl, ?_⟩
  · simpa using wakeup_asleep hin tid
  · simp

end Runs

/-- A task sleeps on block 0, a datagram comes and the block is closed before the task goes
on; then the slot is opened again. -/
def reused : List Happening :=
  [.open, .bind 0 ⟨1, 53⟩, .recvfrom 7 0 100, .input ⟨⟨2, 9⟩, ⟨1, 53⟩, [1, 2, 3]⟩ true, .close 0,
    .resume 7, .open]

theorem reused_guarded : Guarded Service.step Alone .boot reused := by
  refine ⟨trivial, trivial, fun i _ tid s hs => ?_, trivial, trivial, trivial, trivial, trivial⟩
  have hidle : ((Service.boot.step .open).step (.bind 0 ⟨1, 53⟩)).tasks = Service.boot.tasks :=
    open_tasks _
  rw [hidle] at hs
  cases hs

end Laplus.Udp
