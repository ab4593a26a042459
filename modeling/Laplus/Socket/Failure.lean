/-
# `Laplus.Socket.Failure` — what a failing call leaves behind

`socketopen` takes an entry before it asks for a pcb, and keeps it when there
is none.  `socketaccept` takes a connection off the backlog before it asks for
an entry, and writes through the null pointer when there is none.  Every other
way to fail leaves the three tables as they were.
-/
import Laplus.Socket.Leak

namespace Laplus.Socket

open Net Lib Tcp

/-! ## What is asked of a failing call -/

/-- The three tables. -/
structure SameTables (σ σ' : System) : Prop where
  sockets : σ'.sockets = σ.sockets
  tcp : σ'.world.tab = σ.world.tab
  udp : σ'.udp = σ.udp

/-- The call has failed or sleeps, and no connection has left a backlog without being closed. -/
structure AcceptFails (σ : System) (r : System × Answer) : Prop where
  answer : r.2 = .asleep ∨ ∃ ret : Ret, r.2 = .returned ret ∧ ret.val = -1
  reachable : ∀ q c, c ∈ (σ.world.tab.pcb q).backlog → c ∈ (r.1.world.tab.pcb q).backlog ∨
    (r.1.world.tab.pcb c).state = .closed ∨ (r.1.world.tab.pcb c).state = .free

/-- **A clean failure.**  An open that answers `-1` changes no table; an accept that finds no entry
fails and loses no connection. -/
def CleanFailure (σ : System) (env : Env) : Action → Prop
  | .call tid (.open d t p) => σ.world.tasks tid = none →
      (socketOpen σ env tid d t p).2 = .returned (.of (-1)) →
        SameTables σ (socketOpen σ env tid d t p).1
  | .call tid (.accept s) => σ.world.tasks tid = none → firstUnused σ.sockets = none →
      AcceptFails σ (socketAccept σ env tid s)
  | .resume tid => (σ.accepts tid).isSome → firstUnused σ.sockets = none →
      AcceptFails σ (σ.resume env tid)
  | _ => True

/-- The arguments `socketopen` takes. -/
def opens (d t p : Int) : Prop := d = afInet ∧ (t = sockStream ∨ t = sockDgram) ∧ p = 0

instance (d t p : Int) : Decidable (opens d t p) :=
  inferInstanceAs (Decidable (d = afInet ∧ (t = sockStream ∨ t = sockDgram) ∧ p = 0))

/-- No pcb is left for a socket of the type. -/
def System.NoPcb (σ : System) (t : Int) : Prop :=
  if t = sockStream then firstFree σ.world.tab = none else Udp.udpPcbAlloc σ.udp = none

/-- The calls that fail otherwise: an open with an entry left but no pcb, and an accept with a
connection on offer but no entry. -/
def Spoils (σ : System) : Action → Prop
  | .call tid (.open d t p) => σ.world.tasks tid = none ∧ opens d t p ∧
      (firstUnused σ.sockets).isSome ∧ σ.NoPcb t
  | .call tid (.accept s) => σ.world.tasks tid = none ∧ (σ.sockets s).type = sockStream ∧
      (σ.sockets s).family = afInet ∧ firstUnused σ.sockets = none ∧
      (σ.world.offered (.user tid (.accept (σ.sockets s).desc))).isSome
  | .resume tid => (σ.accepts tid).isSome ∧ firstUnused σ.sockets = none ∧
      (σ.world.offered (.resume tid)).isSome
  | _ => False

/-! ## `socketopen` -/

section Open
variable {σ : System} {env : Env} {tid : TaskId} {d t p : Int} {a : SocketId}

/-- Arguments that are not taken, or no entry. -/
theorem open_refused (h : ¬ (opens d t p ∧ (firstUnused σ.sockets).isSome)) :
    socketOpen σ env tid d t p = (σ, .returned (.of (-1))) := by
  by_cases hok : d ≠ afInet ∨ (t ≠ sockStream ∧ t ≠ sockDgram) ∨ p ≠ 0
  · rw [socketOpen, if_pos hok]
  · have hopens : opens d t p := by
      simp only [not_or, not_and_or, not_not] at hok
      exact hok
    have hnone : firstUnused σ.sockets = none := by
      simpa [hopens] using h
    simp only [socketOpen, if_neg hok, socketalloc, hnone, Option.map_none]

/-- The descriptor a new socket of the type gets. -/
def System.newDesc (σ : System) (t : Int) : Int :=
  if t = sockStream then openDesc σ.world.tab else (Udp.udpOpen σ.udp).2

theorem newDesc_iff : σ.newDesc t = -1 ↔ σ.NoPcb t := by
  unfold System.newDesc System.NoPcb
  by_cases ht : t = sockStream
  · rw [if_pos ht, if_pos ht, openDesc]
    cases firstFree σ.world.tab with
    | none => simp
    | some j =>
        have hne : tcpPcbId j ≠ -1 := by
          rw [tcpPcbId]
          omega
        simp [hne]
  · rw [if_neg ht, if_neg ht, Udp.udpOpen]
    cases Udp.udpPcbAlloc σ.udp with
    | none => simp
    | some r =>
        obtain ⟨j, udp⟩ := r
        have hne : Udp.udpPcbId j ≠ -1 := by
          rw [Udp.udpPcbId]
          omega
        simp [hne]

/-- The entry is filled in whether there is a pcb for it or not. -/
theorem open_enters (hidle : σ.world.tasks tid = none) (hopens : opens d t p)
    (ha : firstUnused σ.sockets = some a) :
    (socketOpen σ env tid d t p).2 =
        (if σ.newDesc t = -1 then .returned (.of (-1)) else .returned (.of a.val)) ∧
      (socketOpen σ env tid d t p).1.sockets =
        Function.update σ.sockets a ⟨true, d, t, σ.newDesc t⟩ := by
  obtain ⟨hd, ht, hp⟩ := hopens
  have hok : ¬ (d ≠ afInet ∨ (t ≠ sockStream ∧ t ≠ sockDgram) ∨ p ≠ 0) := by
    simp only [not_or, not_and_or, not_not]
    exact ⟨hd, ht, hp⟩
  simp only [socketOpen, if_neg hok, socketalloc, ha, Option.map_some, System.newDesc]
  by_cases ht : t = sockStream
  · simp only [if_pos ht, System.tcp, answer_open hidle, Option.elim_some, answered, System.enter,
      Function.update_idem]
    exact ⟨apply_ite Prod.snd _ _ _, rfl⟩
  · simp only [if_neg ht, answered, System.enter, Function.update_idem]
    exact ⟨apply_ite Prod.snd _ _ _, trivial⟩

/-- With an entry left, the call fails exactly when no pcb is left. -/
theorem open_answer (hidle : σ.world.tasks tid = none) (hopens : opens d t p)
    (ha : firstUnused σ.sockets = some a) :
    (socketOpen σ env tid d t p).2 = .returned (.of (-1)) ↔ σ.NoPcb t := by
  rw [(open_enters hidle hopens ha).1, ← newDesc_iff]
  have hne : (a.val : Int) ≠ -1 := by omega
  by_cases h : σ.newDesc t = -1
  · simp [h]
  · simp [h, Ret.of, hne]

theorem open_clean_iff :
    CleanFailure σ env (.call tid (.open d t p)) ↔ ¬ Spoils σ (.call tid (.open d t p)) := by
  simp only [CleanFailure, Spoils]
  by_cases hgets : opens d t p ∧ (firstUnused σ.sockets).isSome
  · obtain ⟨hopens, hsome⟩ := hgets
    obtain ⟨a, ha⟩ := Option.isSome_iff_exists.mp hsome
    constructor
    · rintro h ⟨hidle, -, -, hno⟩
      have hsame := h hidle ((open_answer hidle hopens ha).mpr hno)
      have hused := congrArg Entry.used (congrFun hsame.sockets a)
      rw [(open_enters hidle hopens ha).2, Function.update_self, firstUnused_unused ha] at hused
      cases hused
    · intro h hidle hfail
      exact absurd ⟨hidle, hopens, hsome, (open_answer hidle hopens ha).mp hfail⟩ h
  · rw [open_refused hgets]
    exact iff_of_true (fun _ _ => ⟨rfl, rfl, rfl⟩) fun h => hgets ⟨h.2.1, h.2.2.1⟩

end Open

/-! ## `socketaccept` -/

section Accept
variable {σ σ' : System} {env : Env} {tid : TaskId} {s : SocketId} {o : Option PcbId} {r : Ret}

/-- A world whose pcbs differ in condition variables only loses no connection. -/
theorem AcceptFails.of_core {a : Answer}
    (ha : a = .asleep ∨ ∃ ret : Ret, a = .returned ret ∧ ret.val = -1)
    (h : ∀ q, (σ'.world.tab.pcb q).core = (σ.world.tab.pcb q).core) : AcceptFails σ (σ', a) where
  answer := ha
  reachable q c hc := by
    obtain ⟨k, hk⟩ := core_eq (h q)
    refine .inl ?_
    rw [hk]
    exact hc

theorem acceptLoop_tab {t : Tcp.Table} {i : PcbId} (h : (t.pcb i).backlog.head? = none) :
    (acceptLoop t i).tab = t := by
  rw [acceptLoop, List.head?_eq_none_iff.mp h]

/-- Without a connection on offer `tcp_accept` changes condition variables only. -/
theorem accept_core (hidle : σ.world.tasks tid = none) {id : Int}
    (ho : σ.world.offered (.user tid (.accept id)) = none) (q : PcbId) :
    ((σ.world.step (env, .user tid (.accept id))).tab.pcb q).core = (σ.world.tab.pcb q).core := by
  have hstep : σ.world.step (env, .user tid (.accept id)) =
      σ.world.finish tid (tcpAccept σ.world.tab id) := by
    simp only [World.step, callResult, hidle, Option.isSome_none, Bool.false_eq_true, if_false]
    rfl
  have htab : (tcpAccept σ.world.tab id).tab = σ.world.tab := by
    simp only [World.offered] at ho
    unfold tcpAccept
    cases hid : socketPcb σ.world.tab id with
    | none => rfl
    | some i =>
        simp only [hid, Option.bind_some] at ho
        dsimp only
        split
        · rename_i hl
          rw [if_pos hl] at ho
          exact acceptLoop_tab ho
        · rfl
  rw [hstep, finish_core, htab]

/-- The same when the call has slept. -/
theorem resume_core {b : Blocked} (hb : σ.world.tasks tid = some b) (hw : b.wait = .accept)
    (ho : σ.world.offered (.resume tid) = none) (q : PcbId) :
    ((σ.world.step (env, .resume tid)).tab.pcb q).core = (σ.world.tab.pcb q).core := by
  have hstep : σ.world.step (env, .resume tid) = (σ.world.awake tid b.pcb).finish tid
      (acceptLoop (σ.world.awake tid b.pcb).tab b.pcb) := by
    simp only [World.step, callResult, hb, hw]
    rfl
  have hhead : ((σ.world.awake tid b.pcb).tab.pcb b.pcb).backlog.head? = none := by
    obtain ⟨c, hc⟩ := core_eq (awake_core σ.world tid b.pcb b.pcb)
    rw [hc]
    simpa [World.offered, hb, hw] using ho
  rw [hstep, finish_core, acceptLoop_tab hhead, awake_core]

/-- **The end of an accept without an entry**: it fails when `tcp_accept` has, and faults
otherwise. -/
theorem accepted_full (hfull : firstUnused σ.sockets = none) (s : SocketId) (r : Ret) :
    socketAccepted σ s r = (σ, if r.val = -1 then .returned (.of (-1)) else .fault) := by
  by_cases hr : r.val = -1
  · rw [socketAccepted, if_pos hr, if_pos hr]
  · simp only [socketAccepted, if_neg hr, socketalloc, hfull, Option.map_none]

/-- A connection on offer is lost, and nothing else. -/
theorem accepted_fails_iff (hfull : firstUnused σ'.sockets = none) (ho : AcceptAnswers o (some r))
    (hcore : o = none → ∀ q, (σ'.world.tab.pcb q).core = (σ.world.tab.pcb q).core) :
    AcceptFails σ (socketAccepted σ' s r) ↔ o = none := by
  rw [accepted_full hfull]
  constructor
  · intro h
    cases o with
    | none => rfl
    | some c =>
        obtain ⟨r', hr, hv⟩ := ho
        cases hr
        have hne : r.val ≠ -1 := by
          rw [hv, tcpPcbId]
          omega
        rw [if_neg hne] at h
        rcases h.answer with ha | ⟨ret, ha, -⟩ <;> cases ha
  · rintro rfl
    rcases ho with ho | ⟨r', hr, hv⟩
    · cases ho
    · cases hr
      rw [if_pos hv]
      exact .of_core (.inr ⟨.of (-1), rfl, rfl⟩) (hcore rfl)

theorem accept_clean_iff :
    CleanFailure σ env (.call tid (.accept s)) ↔ ¬ Spoils σ (.call tid (.accept s)) := by
  simp only [CleanFailure, Spoils]
  by_cases hpre : σ.world.tasks tid = none ∧ firstUnused σ.sockets = none
  · obtain ⟨hidle, hfull⟩ := hpre
    simp only [hidle, hfull, forall_const, true_and]
    by_cases hok : (σ.sockets s).type = sockStream ∧ (σ.sockets s).family = afInet
    · have hans := accept_answers env (σ.sockets s).desc hidle
      simp only [socketAccept, hok, and_self, if_true, true_and, Option.not_isSome_iff_eq_none]
      cases ha : σ.world.answer tid (env, .user tid (.accept (σ.sockets s).desc)) with
      | none =>
          rw [ha] at hans
          simp only [System.tcp, ha, hans.asleep, iff_true]
          exact .of_core (.inl rfl) (accept_core hidle hans.asleep)
      | some r =>
          rw [ha] at hans
          simp only [System.tcp, ha]
          exact accepted_fails_iff hfull hans fun ho => accept_core hidle ho
    · rw [socketAccept, if_neg hok]
      refine iff_of_true (.of_core (.inr ⟨.of (-1), rfl, rfl⟩) fun _ => rfl) fun h => ?_
      exact hok ⟨h.1, h.2.1⟩
  · exact iff_of_true (fun h₁ h₂ => absurd ⟨h₁, h₂⟩ hpre) fun h => hpre ⟨h.1, h.2.2.2.1⟩

theorem resume_clean_iff (hw : σ.Waits) :
    CleanFailure σ env (.resume tid) ↔ ¬ Spoils σ (.resume tid) := by
  simp only [CleanFailure, Spoils]
  by_cases hpre : (σ.accepts tid).isSome ∧ firstUnused σ.sockets = none
  · obtain ⟨hsome, hfull⟩ := hpre
    simp only [hsome, hfull, forall_const, true_and, Option.not_isSome_iff_eq_none]
    obtain ⟨s, hs⟩ := Option.isSome_iff_exists.mp hsome
    obtain ⟨b, hb, hwait⟩ := hw tid s hs
    have hans := resumed_answers env hb hwait
    cases ha : σ.world.answer tid (env, .resume tid) with
    | none =>
        rw [ha] at hans
        simp only [System.resume, hs, System.tcp, ha, hans.asleep, iff_true]
        exact .of_core (.inl rfl) (resume_core hb hwait hans.asleep)
    | some r =>
        rw [ha] at hans
        simp only [System.resume, hs, System.tcp, ha]
        exact accepted_fails_iff hfull hans fun ho => resume_core hb hwait ho
  · exact iff_of_true (fun h₁ h₂ => absurd ⟨h₁, h₂⟩ hpre) fun h => hpre ⟨h.1, h.2.1⟩

end Accept

/-! ## Runs -/

theorem run_waits (es : List (Env × Action)) : (run System.step .boot es).Waits :=
  inv_run System.Waits (fun _ x hw _ => hw.step x) boot_waits (guarded_true System.step .boot es)

/-- **A failing call changes nothing**, in every state that can be reached, exactly when it is no
open with an entry left but no pcb, and no accept with a connection on offer but no entry. -/
theorem clean_failure_iff (es : List (Env × Action)) (x : Env × Action) :
    CleanFailure (run System.step .boot es) x.1 x.2 ↔ ¬ Spoils (run System.step .boot es) x.2 := by
  obtain ⟨env, e⟩ := x
  cases e with
  | segment s => exact iff_of_true trivial id
  | timer => exact iff_of_true trivial id
  | resume tid => exact resume_clean_iff (run_waits es)
  | call tid c =>
      cases c with
      | «open» d t p => exact open_clean_iff
      | accept s => exact accept_clean_iff
      | _ => exact iff_of_true trivial id

/-- Datagram sockets opened one after the other. -/
def datagrams (n : Nat) : List (Env × Action) :=
  List.replicate n (.ideal .zero 0 [], .call 1 (.open afInet sockDgram 0))

/-- **Failures use the table up.**  After sixteen sockets every open fails, and the entries go
all the same. -/
theorem entries_exhausted :
    let env := Env.ideal .zero 0 []
    let σ := run System.step .boot (datagrams 16)
    (socketOpen σ env 1 afInet sockDgram 0).2 = .returned (.of (-1)) ∧
      ¬ SameTables σ (socketOpen σ env 1 afInet sockDgram 0).1 ∧
      firstUnused (run System.step .boot (datagrams 128)).sockets = none := by
  intro env σ
  have hused : ((socketOpen σ env 1 afInet sockDgram 0).1.sockets 16).used = true := by
    decide +kernel
  have hfree : (σ.sockets 16).used = false := by decide +kernel
  refine ⟨by decide +kernel, fun h => ?_, by decide +kernel⟩
  rw [h.sockets, hfree] at hused
  cases hused

end Laplus.Socket
