/-
# `Laplus.Socket.Leak` — pcbs that nobody can close

A pcb in CLOSED only leaves that state by a command of the socket that names
it, and `tcp_close` is not one: it answers that the connection does not
exist.  So a pcb is lost when its socket is closed while it is CLOSED, as
right after `socketopen`, and when its deadline passes and no socket names
it.  There is no other way to lose one.
-/
import Laplus.Socket.Apart

namespace Laplus.Socket

open Net Lib Tcp

/-! ## Accounting -/

/-- Every pcb in use has a socket, a listener, a task or a life of its own; and
one whose connection has ended has a socket. -/
structure System.Accounted (σ : System) : Prop where
  held : ∀ j, (σ.world.tab.pcb j).state ≠ .free →
    σ.Names (tcpPcbId j) ∨
      (∃ q, (σ.world.tab.pcb q).state = .listen ∧ j ∈ (σ.world.tab.pcb q).backlog) ∨
      (σ.world.tab.pcb j).state ≠ .closed ∨
      ∃ tid b, σ.world.tasks tid = some b ∧ b.pcb = j
  ended : ∀ j, (σ.world.tab.pcb j).state = .closed → σ.Names (tcpPcbId j)

/-- What has ended is all that can be lost. -/
theorem accounted_iff {σ : System} :
    σ.Accounted ↔ ∀ j, (σ.world.tab.pcb j).state = .closed → σ.Names (tcpPcbId j) := by
  refine ⟨System.Accounted.ended, fun h => ⟨fun j _ => ?_, h⟩⟩
  by_cases hc : (σ.world.tab.pcb j).state = .closed
  · exact .inl (h j hc)
  · exact .inr (.inr (.inl hc))

/-- The two ways to lose a pcb. -/
inductive Leaks (σ : System) (env : Env) : Action → Prop
  /-- The only socket of a pcb in CLOSED is closed. -/
  | close (tid : TaskId) (s : SocketId) (j : PcbId) (hidle : σ.world.tasks tid = none)
      (ht : (σ.sockets s).type = sockStream) (hd : (σ.sockets s).desc = tcpPcbId j)
      (hc : (σ.world.tab.pcb j).state = .closed)
      (hn : ∀ b, b ≠ s → (σ.sockets b).Stream → (σ.sockets b).desc ≠ tcpPcbId j) :
      Leaks σ env (.call tid (.close s))
  /-- The deadline of a pcb passes that no socket names. -/
  | deadline (j : PcbId) (hu : (σ.world.tab.pcb j).state ≠ .free)
      (he : (σ.world.tab.pcb j).queue.any (·.expired env))
      (hr : ¬ σ.world.tab.Lapses env slots j) (hn : ¬ σ.Names (tcpPcbId j)) :
      Leaks σ env .timer

end Laplus.Socket

namespace Laplus.Tcp

open Net Lib

/-! ## Who gets to CLOSED -/

section Closed
variable {w : World} {x : Env × Event} {env : Env} {j : PcbId}

/-- Without the timer no pcb that changes in place gets to CLOSED. -/
theorem rewritten_closed {t : Table} {e : Event} {i : PcbId} {p' : Pcb} {eff : List Effect}
    (hr : Rewrites w env i (t.pcb i) e p' eff) (ht : e ≠ .timer)
    (hj : ((t.set i p').pcb j).state = .closed) : (t.pcb j).state = .closed := by
  by_cases hji : j = i
  · subst hji
    rw [Table.set_pcb_self] at hj
    exact rewrites_closed hr ht hj
  · rwa [Table.set_pcb_ne _ _ hji] at hj

/-- Without the timer only `tcp_open` makes a pcb CLOSED. -/
theorem step_closed (ht : x.2 ≠ .timer) (hc : ((w.step x).tab.pcb j).state = .closed) :
    (w.tab.pcb j).state = .closed ∨
      ∃ tid, x.2 = .user tid .open ∧ w.tasks tid = none ∧ firstFree w.tab = some j := by
  refine step_edits w x (fun t _ => ∀ j, (t.pcb j).state = .closed → (w.tab.pcb j).state = .closed ∨
    ∃ tid, x.2 = .user tid .open ∧ w.tasks tid = none ∧ firstFree w.tab = some j)
    (fun j hj => .inl hj) (fun t _ i c h j hj => ?_) (fun t t' eff eff' hb h he j hj => ?_) j hc
  · refine h j ?_
    rwa [← (sameButCond_set t i c).state]
  · cases he with
    | rewrite i p' _ hr => exact h j (rewritten_closed hr ht hj)
    | allocate i p' _ hi ha =>
        by_cases hji : j = i
        · subst hji
          rw [Table.set_pcb_self] at hj
          generalize he : x.2 = e at ha
          cases ha with
          | «open» tid =>
              have hfound : t = w.tab := by
                have := (hb.once ht).2
                rwa [he] at this
              exact .inr ⟨tid, rfl, hb.acts tid .open he, hfound ▸ hi⟩
          | passive => cases hj
          | active => cases hj
          | child => rw [synTaken_pcb] at hj; cases hj
        · rw [Table.set_pcb_ne _ _ hji, Table.claim_pcb_ne _ hji] at hj
          exact h j hj
    | spent i =>
        rcases tcpPcbRelease_cases (t.claim i) i j with hz | ⟨hji, hz⟩
        · rw [hz] at hj
          cases hj
        · rw [hz, Table.claim_pcb_ne _ hji] at hj
          exact h j hj
    | release i =>
        rcases tcpPcbRelease_cases t i j with hz | ⟨-, hz⟩
        · rw [hz] at hj
          cases hj
        · rw [hz] at hj
          exact h j hj
    | enqueue i q s _ _ _ _ hr =>
        rw [pushBacklog_state] at hj
        exact h j (rewritten_closed hr ht hj)
    | dequeue i c rest =>
        have hstate := setBacklog_state t i rest j
        rw [Table.setBacklog] at hstate
        exact h j (hstate ▸ hj)
    | silent => exact h j hj

/-- `tcp_close` does nothing to a pcb in CLOSED. -/
theorem close_closed {tid : TaskId} (hc : (w.tab.pcb j).state = .closed) :
    (w.step (env, .user tid (.close (tcpPcbId j)))).tab = w.tab := by
  cases hb : w.tasks tid with
  | some b => simp [World.step, callResult, hb]
  | none =>
      have hget : tcpPcbGet w.tab (tcpPcbId j) = some j :=
        tcpPcbGet_eq_some.mpr ⟨rfl, by rw [hc]; simp⟩
      simp [World.step, callResult, hb, Command.call, tcpClose, hget, hc, CallResult.ret,
        World.finish, World.after]

/-- What the timer closes. -/
theorem afterTimer_closed {p : Pcb} {i : PcbId} (hu : p.state ≠ .free)
    (hel : p.timewaitElapsed env = false) (he : p.queue.any (·.expired env)) :
    (p.afterTimer env i).state = .closed := by
  unfold Pcb.afterTimer
  rw [if_neg hu, hel, if_neg Bool.false_ne_true, Pcb.ticked, emitQueue_pcb]
  exact if_pos he

end Closed

end Laplus.Tcp

namespace Laplus.Socket

open Net Lib Tcp

/-! ## What a call keeps -/

/-- The entries in use stay what they are. -/
def System.Keeps (σ σ' : System) : Prop :=
  ∀ b, (σ.sockets b).used → σ'.sockets b = σ.sockets b

section Keeps
variable {σ σ' : System} {env : Env} {tid : TaskId} {s a : SocketId} {d : Int}

/-- What was named is still named. -/
theorem System.Keeps.names (h : σ.Keeps σ') (hn : σ.Names d) : σ'.Names d := by
  obtain ⟨b, hb, hd⟩ := hn
  have hsame := h b hb.1
  exact ⟨b, by rwa [hsame], by rwa [hsame]⟩

/-- An entry not in use is filled in. -/
theorem keeps_update {e : Entry} (ha : firstUnused σ.sockets = some a)
    (hs : σ'.sockets = Function.update σ.sockets a e) : σ.Keeps σ' := by
  intro b hb
  have hba : b ≠ a := by
    rintro rfl
    rw [firstUnused_unused ha] at hb
    cases hb
  rw [hs, Function.update_of_ne hba]

theorem accepted_keeps (σ : System) (s : SocketId) (r : Ret) :
    σ.Keeps (socketAccepted σ s r).1 := by
  simp only [socketAccepted]
  split
  · exact fun _ _ => rfl
  · cases ha : firstUnused σ.sockets with
    | none =>
      simp only [socketalloc, ha, Option.map_none]
      exact fun _ _ => rfl
    | some a =>
        simp only [socketalloc, ha, Option.map_some, System.enter, Function.update_idem]
        exact keeps_update ha rfl

theorem accept_keeps : σ.Keeps (socketAccept σ env tid s).1 := by
  simp only [socketAccept]
  split
  · simp only [System.tcp]
    cases ha : σ.world.answer tid (env, .user tid (.accept (σ.sockets s).desc)) with
    | none => exact fun _ _ => rfl
    | some r => exact accepted_keeps (σ.tcp env tid _).1 s r
  · exact fun _ _ => rfl

theorem resume_keeps : σ.Keeps (σ.resume env tid).1 := by
  cases hs : σ.accepts tid with
  | none =>
      simp only [System.resume, hs]
      exact fun _ _ => rfl
  | some s =>
      cases ha : σ.world.answer tid (env, .resume tid) with
      | none =>
          simp only [System.resume, hs, System.tcp, ha]
          exact fun _ _ => rfl
      | some r =>
          simp only [System.resume, hs, System.tcp, ha]
          exact accepted_keeps { (σ.tcp env tid (.resume tid)).1 with
            accepts := Function.update σ.accepts tid none } s r

theorem open_keeps (d t p : Int) : σ.Keeps (socketOpen σ env tid d t p).1 := by
  simp only [socketOpen]
  split
  · exact fun _ _ => rfl
  cases ha : firstUnused σ.sockets with
  | none =>
      simp only [socketalloc, ha, Option.map_none]
      exact fun _ _ => rfl
  | some a =>
      simp only [socketalloc, ha, Option.map_some, answered, System.enter]
      by_cases ht : t = sockStream
      · simp only [if_pos ht, System.tcp, Function.update_idem]
        exact keeps_update ha rfl
      · simp only [if_neg ht, Function.update_idem]
        exact keeps_update ha rfl

end Keeps

/-! ## One event -/

section Step
variable {σ σ' : System} {env : Env} {tid : TaskId} {s : SocketId}

/-- Nobody loses a name, and nobody ends. -/
theorem System.Accounted.quiet (h : σ.Accounted) (hn : ∀ d, σ.Names d → σ'.Names d)
    (hc : ∀ j, (σ'.world.tab.pcb j).state = .closed → (σ.world.tab.pcb j).state = .closed) :
    σ'.Accounted :=
  accounted_iff.mpr fun j hj => hn _ (h.ended j (hc j hj))

/-- A TCP event that is no open and no timer ends nobody. -/
theorem closed_of_step {w : World} {x : Env × Event} (ht : x.2 ≠ .timer)
    (ho : ∀ tid, x.2 ≠ .user tid .open) (j : PcbId)
    (hc : ((w.step x).tab.pcb j).state = .closed) : (w.tab.pcb j).state = .closed := by
  rcases step_closed ht hc with hc | ⟨tid, hx, -⟩
  · exact hc
  · exact absurd hx (ho tid)

theorem System.Accounted.stream (h : σ.Accounted) {c : Int → Command} (hc : ∀ d, c d ≠ .open) :
    (σ.stream env tid s c).1.Accounted := by
  simp only [System.stream]
  split
  · refine h.quiet (fun _ hn => hn) (closed_of_step (fun he => by cases he) fun u he => ?_)
    exact hc _ (Event.user.inj he).2
  · exact h

theorem System.Accounted.bind (h : σ.Accounted) (addr : IpAddr) (port : UInt16) :
    (socketBind σ env tid s addr port).1.Accounted := by
  simp only [socketBind]
  split
  · exact h.quiet (fun _ hn => hn) fun _ hc => hc
  · exact h.stream fun _ he => by cases he

theorem System.Accounted.accept (h : σ.Accounted) : (socketAccept σ env tid s).1.Accounted := by
  have hworld : (socketAccept σ env tid s).1.world = σ.world ∨
      (socketAccept σ env tid s).1.world =
        σ.world.step (env, .user tid (.accept (σ.sockets s).desc)) := by
    simp only [socketAccept]
    split
    · simp only [System.tcp]
      cases σ.world.answer tid (env, .user tid (.accept (σ.sockets s).desc)) with
      | none => exact .inr rfl
      | some r => exact .inr (accepted_world _ s r).1
    · exact .inl rfl
  refine h.quiet (fun _ => accept_keeps.names) fun j hc => ?_
  rcases hworld with hworld | hworld
  · rwa [hworld] at hc
  · rw [hworld] at hc
    exact closed_of_step (fun he => by cases he) (fun _ he => by cases he) j hc

theorem System.Accounted.resume (h : σ.Accounted) : (σ.resume env tid).1.Accounted := by
  have hworld : (σ.resume env tid).1.world = σ.world.step (env, .resume tid) := by
    cases hs : σ.accepts tid with
    | none => simp only [System.resume, hs, System.tcp]
    | some s =>
        cases ha : σ.world.answer tid (env, .resume tid) with
        | none => simp only [System.resume, hs, System.tcp, ha]
        | some r =>
            simp only [System.resume, hs, System.tcp, ha]
            exact (accepted_world _ s r).1
  refine h.quiet (fun _ => resume_keeps.names) fun j hc => ?_
  rw [hworld] at hc
  exact closed_of_step (fun he => by cases he) (fun _ he => by cases he) j hc

theorem open_world (σ : System) (env : Env) (tid : TaskId) (d t p : Int) :
    (socketOpen σ env tid d t p).1.world = σ.world ∨
      d = afInet ∧ t = sockStream ∧ p = 0 ∧ ∃ a, firstUnused σ.sockets = some a := by
  simp only [socketOpen]
  split
  · exact .inl rfl
  rename_i hgood
  cases ha : firstUnused σ.sockets with
  | none => exact .inl (by simp only [socketalloc, ha, Option.map_none])
  | some a =>
      by_cases ht : t = sockStream
      · refine .inr ⟨?_, ht, ?_, a, rfl⟩ <;> by_contra hne <;> exact hgood (by simp [hne])
      · refine .inl ?_
        simp only [socketalloc, ha, Option.map_some, if_neg ht, answered, System.enter]

/-- An open makes its pcb CLOSED, and names it. -/
theorem System.Accounted.open {d t p : Int} (h : σ.Accounted) (hidle : σ.world.tasks tid = none) :
    (socketOpen σ env tid d t p).1.Accounted := by
  rcases open_world σ env tid d t p with hworld | ⟨rfl, rfl, rfl, a, ha⟩
  · refine h.quiet (fun _ => (open_keeps d t p).names) fun j hc => ?_
    rwa [hworld] at hc
  · have hkeep : σ.Keeps (socketOpen σ env tid afInet sockStream 0).1 := open_keeps _ _ _
    refine accounted_iff.mpr fun j hc => ?_
    rw [socketOpen_stream hidle ha] at hc hkeep ⊢
    rcases step_closed (fun he => by cases he) hc with hc | ⟨-, -, -, hf⟩
    · exact hkeep.names (h.ended j hc)
    · exact ⟨a, by simp [Entry.Stream], by simp [openDesc, hf]⟩

/-- A close loses the pcb of its socket when that is CLOSED and has no other. -/
theorem close_accounted_iff (h : σ.Accounted) (hidle : σ.world.tasks tid = none) :
    (socketClose σ env tid s).1.Accounted ↔ ¬ Leaks σ env (.call tid (.close s)) := by
  by_cases ht : (σ.sockets s).type = sockStream
  · simp only [socketClose, if_pos ht, System.tcp]
    constructor
    · intro h' hl
      cases hl with
      | close _ _ j _ _ hd hc hn =>
          have hc' := h'.ended j (by rw [hd, close_closed hc]; exact hc)
          obtain ⟨b, hb, hbd⟩ := hc'
          have hbs : b ≠ s := by
            rintro rfl
            simp [Entry.Stream, Entry.zero] at hb
          simp only [Function.update_of_ne hbs] at hb hbd
          exact hn b hbs hb hbd
    · intro hl
      refine accounted_iff.mpr fun j hc => ?_
      have hc' := closed_of_step (fun he => by cases he) (fun _ he => by cases he) j hc
      obtain ⟨b, hb, hbd⟩ := h.ended j hc'
      by_contra hno
      refine hl (.close tid s j hidle ht ?_ hc' fun b hbs hb hbd => hno ⟨b, ?_, ?_⟩)
      · have hbs : b = s := by
          by_contra hbs
          exact hno ⟨b, by simpa [hbs] using hb, by simpa [hbs] using hbd⟩
        exact hbs ▸ hbd
      · simpa [hbs] using hb
      · simpa [hbs] using hbd
  · have hno : ¬ Leaks σ env (.call tid (.close s)) := by
      rintro ⟨⟩
      exact ht ‹_›
    simp only [hno, not_false_eq_true, iff_true, socketClose, if_neg ht]
    split
    · refine h.quiet (fun d hn => ?_) fun _ hc => hc
      obtain ⟨b, hb, hbd⟩ := hn
      have hbs : b ≠ s := by
        rintro rfl
        exact ht hb.2
      exact ⟨b, by simpa [hbs] using hb, by simpa [hbs] using hbd⟩
    · exact h

/-- The timer loses whom nobody names when the deadline passes. -/
theorem timer_accounted_iff (h : σ.Accounted) :
    (σ.step (env, .timer)).Accounted ↔ ¬ Leaks σ env .timer := by
  have hpcb := tcpTimer_pcb env σ.world.tab
  have hsockets : (σ.step (env, .timer)).sockets = σ.sockets := by simp only [System.step]
  have hstep : (σ.step (env, .timer)).world.tab = (tcpTimer env σ.world.tab).1 :=
    step_timer (x := (env, .timer)) rfl
  -- the pass of the timer is known pointwise, and never looked into
  generalize σ.step (env, .timer) = σ' at hsockets hstep ⊢
  generalize (tcpTimer env σ.world.tab).1 = t' at hpcb hstep
  have hnames (d : Int) : σ'.Names d ↔ σ.Names d := by
    rw [System.Names, System.Names, hsockets]
  constructor
  · intro h' hl
    cases hl with
    | deadline j hu he hr hn =>
        refine hn ((hnames _).mp (h'.ended j ?_))
        rw [hstep, (hpcb j).2 hr]
        have hel : (σ.world.tab.pcb j).timewaitElapsed env = false := by
          by_contra hel
          exact hr ⟨j, mem_slots j, by simpa using hel, .refl⟩
        exact afterTimer_closed hu hel he
  · intro hl
    refine accounted_iff.mpr fun j hc => (hnames _).mpr ?_
    rw [hstep] at hc
    by_cases hr : σ.world.tab.Lapses env slots j
    · rw [(hpcb j).1 hr] at hc
      cases hc
    · rw [(hpcb j).2 hr] at hc
      by_contra hn
      rcases afterTimer_cases env j (σ.world.tab.pcb j) with ⟨-, hz⟩ | ⟨-, hrem, hs | ⟨hexp, -⟩⟩
      · rw [hz] at hc
        cases hc
      · exact hn (h.ended j (hs ▸ hc))
      · refine hl (.deadline j (fun hf => ?_) hexp hr hn)
        rw [hrem.used.mpr hf] at hc
        cases hc

/-- **One event** loses no pcb exactly when it is not one of the two ways to. -/
theorem step_accounted_iff {x : Env × Action} (h : σ.Accounted) :
    (σ.step x).Accounted ↔ ¬ Leaks σ x.1 x.2 := by
  obtain ⟨env, e⟩ := x
  have safe (hs : (σ.step (env, e)).Accounted) (hn : ¬ Leaks σ env e) :
      (σ.step (env, e)).Accounted ↔ ¬ Leaks σ env e := iff_of_true hs hn
  cases e with
  | segment s =>
      refine safe (h.quiet (fun _ hn => hn) ?_) (by rintro ⟨⟩)
      exact closed_of_step (x := (env, .segment s)) (fun he => by cases he) fun _ he => by cases he
  | timer => exact timer_accounted_iff h
  | resume tid => exact safe h.resume (by rintro ⟨⟩)
  | call tid c =>
      cases ht : σ.world.tasks tid with
      | some b =>
          have hsame : σ.step (env, .call tid c) = σ := by simp [System.step, ht]
          refine safe (by rwa [hsame]) ?_
          rintro ⟨⟩
          cases ht.symm.trans ‹_›
      | none =>
          have hstep : σ.step (env, .call tid c) = (c.run σ env tid).1 := by simp [System.step, ht]
          rw [hstep] at safe ⊢
          cases c with
          | close s => exact close_accounted_iff h ht
          | «open» d t p => exact safe (h.open ht) (by rintro ⟨⟩)
          | accept s => exact safe h.accept (by rintro ⟨⟩)
          | bind s addr port => exact safe (h.bind addr port) (by rintro ⟨⟩)
          | listen s => exact safe (h.stream fun _ he => by cases he) (by rintro ⟨⟩)
          | connect s addr port => exact safe (h.stream fun _ he => by cases he) (by rintro ⟨⟩)
          | send s data => exact safe (h.stream fun _ he => by cases he) (by rintro ⟨⟩)
          | recv s n => exact safe (h.stream fun _ he => by cases he) (by rintro ⟨⟩)

end Step

/-! ## Runs -/

theorem boot_accounted : System.boot.Accounted :=
  accounted_iff.mpr fun _ h => by cases h

section OpenClose
variable {σ : System} {env env' : Env} {tid tid' : TaskId} {a : SocketId} {k : PcbId}

/-- A task that calls nothing still calls nothing when another has opened. -/
theorem open_idle (env : Env) {w : World} (hidle : w.tasks tid = none)
    (hidle' : w.tasks tid' = none) :
    (w.step (env, .user tid .open)).tasks tid' = none := by
  have hopen : ∃ t r, Command.open.call env w.tab = CallResult.ret t r := by
    simp only [Command.call, tcpOpen]
    split <;> exact ⟨_, _, rfl⟩
  obtain ⟨t, r, hopen⟩ := hopen
  simp [World.step, callResult, hidle, hopen, World.finish, CallResult.ret, World.after, hidle']

theorem open_closed (env : Env) {w : World} (hidle : w.tasks tid = none)
    (hf : firstFree w.tab = some k) :
    ((w.step (env, .user tid .open)).tab.pcb k).state = .closed := by
  simp [World.step, callResult, hidle, Command.call, tcpOpen, tcpPcbAlloc, hf, CallResult.ret,
    World.finish, World.after]

/-- A socket that is opened and closed leaves its pcb behind. -/
theorem open_close (hidle : σ.world.tasks tid = none) (hidle' : σ.world.tasks tid' = none)
    (ha : firstUnused σ.sockets = some a) (hf : firstFree σ.world.tab = some k) :
    ((run System.step σ [(env, .call tid (.open afInet sockStream 0)),
      (env', .call tid' (.close a))]).world.tab.pcb k).state = .closed := by
  have hopen : σ.step (env, .call tid (.open afInet sockStream 0)) =
      (socketOpen σ env tid afInet sockStream 0).1 := by simp [System.step, hidle, Call.run]
  rw [run_cons, run_cons, run_nil, hopen, socketOpen_stream hidle ha]
  have hclosed := open_closed env hidle hf
  have hwait := open_idle env hidle hidle'
  generalize σ.world.step (env, .user tid .open) = w at hclosed hwait
  simp [System.step, hwait, Call.run, socketClose, System.tcp, openDesc, hf, close_closed hclosed,
    hclosed]

end OpenClose

end Laplus.Socket
