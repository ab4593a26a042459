/-
# `Laplus.Tcp.Incarnation` — which slot an event hands out

A slot is a new connection whenever `tcp_pcb_alloc` has handed it out, and
only an open and a SYN on a socket's listener do that.  So the number of the
incarnation of every slot after an event is known before it, and so is the
pcb that `tcp_accept` will return.
-/
import Laplus.Tcp.Listener

namespace Laplus.Tcp

open Net Lib

/-- The segment asks the listener of a socket for a connection. -/
def asks (t : Table) (s : TcpSegment) : Bool :=
  match selected t s with
  | none => false
  | some q => decide ((t.pcb q).state = .listen) && decide ((t.pcb q).mode = .socket) &&
      flgIsSet s.flg flgSyn && !flgIsSet s.flg flgRst && !flgIsSet s.flg flgAck

/-- A command that takes a pcb. -/
def Command.allocates : Command → Bool
  | .open | .openPassive _ _ | .openActive _ _ => true
  | _ => false

/-- The slot that is handed out in the event. -/
def World.allocated (w : World) : Event → Option PcbId
  | .user tid c => if (w.tasks tid).isNone && c.allocates then firstFree w.tab else none
  | .segment s => if asks w.tab s then firstFree w.tab else none
  | _ => none

/-- The numbers after slot `k` has been handed out. -/
def bump (gen : PcbId → Nat) : Option PcbId → PcbId → Nat
  | none => gen
  | some k => Function.update gen k (gen k + 1)

section Numbers
variable {w : World} {env : Env} {e : Event} {t t' : Table} {i : PcbId} {eff : List Effect}

theorem edit_gen (h : Edit w env e t t' eff)
    (ha : ∀ i p' eff, ¬ Allocates env t i e p' eff)
    (ho : ∀ tid l f, e ≠ .user tid (.openActive l f)) : t'.gen = t.gen := by
  cases h with
  | rewrite => rfl
  | allocate i p' _ _ h => exact absurd h (ha i p' _)
  | spent _ _ tid l f he => exact absurd he (ho tid l f)
  | release i => exact tcpPcbRelease_gen t i
  | enqueue => rfl
  | dequeue => rfl
  | silent => rfl

theorem claim_gen (t : Table) (i : PcbId) : (t.claim i).gen = bump t.gen (some i) := rfl

theorem awaitOpen_gen (wait : PcbState → Wait) (s : PcbState) (eff : List Effect) :
    (awaitOpen wait t i s eff).tab.gen = t.gen := by
  simp only [awaitOpen]
  split
  · rfl
  split
  · rfl
  split
  · rfl
  · rw [closeRelease_eq, tcpPcbRelease_gen]

theorem sendSyn_gen (wait : PcbState → Wait) (p : Pcb) :
    (sendSyn env t i wait p).tab.gen = t.gen := by
  simp only [sendSyn]
  split
  · rw [awaitOpen_gen]
    rfl
  · rw [closeRelease_eq, tcpPcbRelease_gen]
    rfl

theorem settle_gen (t : Table) (i : PcbId) (o : Outcome) : (settle t i o).gen = t.gen := by
  simp only [settle]
  split
  · rw [tcpPcbRelease_gen]
    split <;> rfl
  · split <;> rfl

theorem arrivesListen_gen (seg : SegmentInfo) (flags : UInt8) (l f : Endpoint) :
    (arrivesListen env t i seg flags l f).1.gen = bump t.gen
      (if decide ((t.pcb i).mode = .socket) && flgIsSet flags flgSyn && !flgIsSet flags flgRst &&
        !flgIsSet flags flgAck then firstFree t else none) := by
  unfold arrivesListen
  cases hr : flgIsSet flags flgRst with
  | true => simp [bump]
  | false =>
  cases ha : flgIsSet flags flgAck with
  | true => simp [bump]
  | false =>
  cases hf : flgIsSet flags flgSyn with
  | false => simp [bump]
  | true =>
  cases hm : (t.pcb i).mode with
  | socket =>
      cases hfree : firstFree t with
      | none => simp [tcpPcbAlloc, hfree, bump]
      | some k => simp [tcpPcbAlloc, hfree, settle_gen, claim_gen]
  | none | rfc793 => simp [settle_gen, bump]

theorem arrive_gen (env : Env) (t : Table) (s : TcpSegment) :
    (arrive env t s).1.gen = bump t.gen (if asks t s then firstFree t else none) := by
  obtain hsel | ⟨q, hsel⟩ := Option.eq_none_or_eq_some (selected t s)
  · have hasks : asks t s = false := by simp only [asks, hsel]
    rw [selected] at hsel
    simp only [arrive, tcpSegmentArrives, hsel, hasks, Bool.false_eq_true, if_false]
    rfl
  · by_cases hs : (t.pcb q).state = .listen
    · have hasks : asks t s = (decide ((t.pcb q).mode = .socket) && flgIsSet s.flg flgSyn &&
          !flgIsSet s.flg flgRst && !flgIsSet s.flg flgAck) := by
        simp only [asks, hsel, hs, decide_true, Bool.true_and]
      rw [selected] at hsel
      simp only [arrive, tcpSegmentArrives, hsel, hs, hasks]
      exact arrivesListen_gen _ _ _ _
    · have hasks : asks t s = false := by
        simp only [asks, hsel, hs, decide_false, Bool.false_and]
      rw [selected] at hsel
      simp only [arrive, tcpSegmentArrives, hsel, hasks, Bool.false_eq_true, if_false]
      cases hst : (t.pcb q).state with
      | listen => exact absurd hst hs
      | closed => rfl
      | _ => exact settle_gen _ _ _

theorem call_gen (w : World) (env : Env) (t : Table) (tid : TaskId) (c : Command) :
    (c.call env t).tab.gen = bump t.gen (if c.allocates then firstFree t else none) := by
  cases hc : c.allocates with
  | false =>
      refine edit_gen (call_edit w env t tid c) (fun i p' eff h => ?_) fun tid' l f he => ?_
      · cases h <;> cases hc
      · cases he
        cases hc
  | true =>
      cases c with
      | «open» =>
          cases hf : firstFree t <;>
            simp [Command.call, tcpOpen, tcpPcbAlloc, hf, CallResult.ret, bump, Table.claim]
      | openPassive l f =>
          cases hf : firstFree t with
          | none => simp [Command.call, tcpOpenPassive, tcpPcbAlloc, hf, CallResult.ret, bump]
          | some k =>
              simp [Command.call, tcpOpenPassive, tcpPcbAlloc, hf, awaitOpen_gen, claim_gen]
      | openActive l f =>
          cases hf : firstFree t with
          | none => simp [Command.call, tcpOpenActive, tcpPcbAlloc, hf, CallResult.ret, bump]
          | some k => simp [Command.call, tcpOpenActive, tcpPcbAlloc, hf, sendSyn_gen, claim_gen]
      | _ => cases hc

theorem finish_gen (w : World) (tid : TaskId) (r : CallResult) :
    (w.finish tid r).tab.gen = r.tab.gen := (finish_same w tid r).1

/-- **The numbers after an event.** -/
theorem step_gen (w : World) (x : Env × Event) :
    (w.step x).tab.gen = bump w.tab.gen (w.allocated x.2) := by
  obtain ⟨env, e⟩ := x
  cases e with
  | segment s => exact arrive_gen env w.tab s
  | timer =>
      have htimer : (w.step (env, .timer)).tab = (tcpTimer env w.tab).1 := step_timer rfl
      rw [htimer, tcpTimer, timerLoop_gen]
      rfl
  | user tid c =>
      cases hb : w.tasks tid with
      | some b => simp [World.step, callResult, hb, World.allocated, bump]
      | none =>
          simp only [World.step, callResult, hb, World.allocated, Option.isSome_none,
            Option.isNone_none, Bool.true_and, Bool.false_eq_true, if_false]
          rw [finish_gen, call_gen w env w.tab tid c]
  | resume tid =>
      cases hb : w.tasks tid with
      | none => simp [World.step, callResult, hb, World.allocated, bump]
      | some b =>
          simp only [World.step, callResult, hb, World.allocated]
          rw [finish_gen, edit_gen (retry_edit w env (w.awake tid b.pcb).tab tid b hb)
            (fun i p' eff h => by cases h) fun _ _ _ he => by cases he]
          rfl

end Numbers

/-! ## What is accepted -/

/-- The pcb that `tcp_accept` will return in the event. -/
def World.offered (w : World) : Event → Option PcbId
  | .user _ (.accept id) => (socketPcb w.tab id).bind fun i =>
      if (w.tab.pcb i).state = .listen then (w.tab.pcb i).backlog.head? else none
  | .resume tid => (w.tasks tid).bind fun b =>
      if b.wait = .accept then (w.tab.pcb b.pcb).backlog.head? else none
  | _ => none

/-- What a call of `tcp_accept` answers, when the backlog of its pcb offers `o`. -/
def AcceptAnswers (o : Option PcbId) (a : Option Ret) : Prop :=
  match o with
  | some c => ∃ r, a = some r ∧ r.val = tcpPcbId c
  | none => a = none ∨ ∃ r, a = some r ∧ r.val = -1

/-- A call that sleeps had nothing to return. -/
theorem AcceptAnswers.asleep {o : Option PcbId} (h : AcceptAnswers o none) : o = none := by
  cases o with
  | none => rfl
  | some c =>
      obtain ⟨r, hr, -⟩ := h
      cases hr

section Accept
variable {w : World} {env : Env} {tid : TaskId} {t : Table} {i : PcbId}

theorem acceptLoop_answers (t : Table) (i : PcbId) :
    AcceptAnswers (t.pcb i).backlog.head? (acceptLoop t i).progress.answer := by
  unfold acceptLoop
  cases (t.pcb i).backlog with
  | nil => exact .inl rfl
  | cons c rest => exact ⟨_, rfl, rfl⟩

theorem answer_user {c : Command} (hidle : w.tasks tid = none) :
    w.answer tid (env, .user tid c) = (c.call env w.tab).progress.answer := by
  simp [World.answer, callResult, hidle]

theorem accept_answers (env : Env) (id : Int) (hidle : w.tasks tid = none) :
    AcceptAnswers (w.offered (.user tid (.accept id)))
      (w.answer tid (env, .user tid (.accept id))) := by
  rw [answer_user hidle]
  simp only [World.offered, Command.call, tcpAccept]
  cases socketPcb w.tab id with
  | none => exact .inr ⟨_, rfl, rfl⟩
  | some i =>
      simp only [Option.bind_some]
      split
      · exact acceptLoop_answers w.tab i
      · exact .inr ⟨_, rfl, rfl⟩

theorem resumed_answers (env : Env) {b : Blocked} (hb : w.tasks tid = some b)
    (hw : b.wait = .accept) :
    AcceptAnswers (w.offered (.resume tid)) (w.answer tid (env, .resume tid)) := by
  have hback : ((w.awake tid b.pcb).tab.pcb b.pcb).backlog = (w.tab.pcb b.pcb).backlog := by
    obtain ⟨c, hc⟩ := core_eq (awake_core w tid b.pcb b.pcb)
    rw [hc]
  have h := acceptLoop_answers (w.awake tid b.pcb).tab b.pcb
  rw [hback] at h
  simpa only [World.offered, World.answer, callResult, hb, hw, Option.bind_some, if_true,
    Wait.retry] using h

end Accept

/-! ## Who sleeps -/

section Sleep
variable {w : World} {env : Env} {tid u : TaskId} {b : Blocked} {t : Table} {i : PcbId}

/-- A task that does not run on sleeps where it slept. -/
theorem step_asleep (x : Env × Event) (hb : w.tasks u = some b) (hx : x.2 ≠ .resume u) :
    ∃ b', (w.step x).tasks u = some b' ∧ b'.pcb = b.pcb ∧ b'.wait = b.wait := by
  obtain ⟨env, e⟩ := x
  have after (t : Table) (eff : List Effect) : ∃ b', (w.after t eff).tasks u = some b' ∧
      b'.pcb = b.pcb ∧ b'.wait = b.wait := ⟨wake eff b, by simp [World.after, hb], rfl, rfl⟩
  cases e with
  | segment s => exact after _ _
  | timer =>
      simp only [World.step]
      exact after (tcpTimer env w.tab).1 (tcpTimer env w.tab).2
  | user tid c =>
      cases ht : w.tasks tid with
      | some b' =>
          simp only [World.step, callResult, ht, Option.isSome_some, if_true]
          exact ⟨b, hb, rfl, rfl⟩
      | none =>
          have hne : u ≠ tid := by
            rintro rfl
            cases hb.symm.trans ht
          simp only [World.step, callResult, ht, Option.isSome_none, Bool.false_eq_true, if_false]
          rw [finish_tasks_ne hne, hb]
          exact ⟨_, rfl, rfl, rfl⟩
  | resume tid =>
      have hne : u ≠ tid := fun h => hx (h ▸ rfl)
      cases ht : w.tasks tid with
      | none =>
          simp only [World.step, callResult, ht]
          exact ⟨b, hb, rfl, rfl⟩
      | some b' =>
          simp only [World.step, callResult, ht]
          rw [finish_tasks_ne hne]
          have hu : (w.awake tid b'.pcb).tasks u = some b := by
            simpa [World.awake, hne] using hb
          rw [hu]
          exact ⟨_, rfl, rfl, rfl⟩

/-- A call that does not return sleeps. -/
theorem finish_asleep {r : CallResult} (tid : TaskId) (hr : r.progress.answer = none) :
    ∃ j wt, r.progress = .blocked j wt ∧ (w.finish tid r).tasks tid = some ⟨j, wt, false⟩ := by
  cases hp : r.progress with
  | returned r' =>
      rw [hp] at hr
      cases hr
  | blocked j wt => exact ⟨j, wt, rfl, by simp [World.finish, hp, World.sleep]⟩

theorem acceptLoop_asleep {j : PcbId} {wt : Wait} (h : (acceptLoop t i).progress = .blocked j wt) :
    wt = .accept := by
  unfold acceptLoop at h
  split at h
  · cases h
    rfl
  · cases h

/-- `tcp_accept` sleeps in its own loop. -/
theorem accept_asleep {id : Int} (hidle : w.tasks tid = none)
    (ha : w.answer tid (env, .user tid (.accept id)) = none) :
    ∃ b, (w.step (env, .user tid (.accept id))).tasks tid = some b ∧ b.wait = .accept := by
  rw [answer_user hidle] at ha
  obtain ⟨j, wt, hp, htask⟩ := finish_asleep (w := w) tid ha
  refine ⟨⟨j, wt, false⟩, ?_, ?_⟩
  · simpa [World.step, callResult, hidle] using htask
  · simp only [Command.call, tcpAccept] at hp
    cases hid : socketPcb w.tab id with
    | none =>
        simp only [hid] at hp
        cases hp
    | some i =>
        simp only [hid] at hp
        split at hp
        · exact acceptLoop_asleep hp
        · cases hp

theorem resumed_asleep (hb : w.tasks tid = some b) (hw : b.wait = .accept)
    (ha : w.answer tid (env, .resume tid) = none) :
    ∃ b', (w.step (env, .resume tid)).tasks tid = some b' ∧ b'.wait = .accept := by
  simp only [World.answer, callResult, hb, hw, if_true] at ha
  obtain ⟨j, wt, hp, htask⟩ := finish_asleep (w := w.awake tid b.pcb) tid ha
  refine ⟨⟨j, wt, false⟩, ?_, acceptLoop_asleep hp⟩
  simpa only [World.step, callResult, hb, hw] using htask

end Sleep

end Laplus.Tcp
