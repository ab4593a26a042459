/-
# `Laplus.Tcp.Timer` — `tcp_timer`

One pass over the table: a TIME-WAIT pcb whose timer has run out is
released, every other pcb in use has its retransmit queue walked.  The walk
never removes an entry; an entry older than the deadline closes the pcb, one
whose timeout has passed is sent again with twice the timeout.
-/
import Laplus.Tcp.Arrives

namespace Laplus.Tcp

open Net

/-- `TCP_RETRANSMIT_DEADLINE`, in seconds. -/
def tcpRetransmitDeadline : Int := 12

/-- The segment of a queue entry, sent again with the current `rcv`. -/
def Pcb.retransmission (pcb : Pcb) (e : QueueEntry) : TcpSegment where
  seq := e.seq
  ack := pcb.rcv.nxt
  flg := e.flg
  wnd := pcb.rcv.wnd
  data := e.data
  localEp := pcb.localEp
  foreignEp := pcb.foreignEp

/-- The entry has been in the queue for the deadline. -/
def QueueEntry.expired (env : Env) (e : QueueEntry) : Bool :=
  decide ((env.now.sub e.first).tvSec ≥ tcpRetransmitDeadline)

/-- The entry's retransmission timeout has passed. -/
def QueueEntry.due (env : Env) (e : QueueEntry) : Bool :=
  env.now.gt (e.last.addUsec e.rto.toNat)

/-- `tcp_retransmit_queue_emit`. -/
def tcpRetransmitQueueEmit (env : Env) (i : PcbId) (pcb : Pcb) (e : QueueEntry) :
    Pcb × QueueEntry × List Effect :=
  if e.expired env then ({ pcb with state := .closed }, e, [.broadcast i])
  else if e.due env then
    let s := pcb.retransmission e
    (pcb.sending s, { e with last := env.now, rto := e.rto * 2 }, [.output i s])
  else (pcb, e, [])

/-- `queue_foreach(&pcb->queue, tcp_retransmit_queue_emit, pcb)`. -/
def emitQueue (env : Env) (i : PcbId) : Pcb → List QueueEntry → Pcb × List QueueEntry × List Effect
  | pcb, [] => (pcb, [], [])
  | pcb, e :: q =>
      let r := tcpRetransmitQueueEmit env i pcb e
      let r' := emitQueue env i r.1 q
      (r'.1, r.2.1 :: r'.2.1, r.2.2 ++ r'.2.2)

/-- The TIME-WAIT timer of the pcb has run out. -/
def Pcb.timewaitElapsed (env : Env) (pcb : Pcb) : Bool :=
  decide (pcb.state = .timeWait) && env.now.gt pcb.twTimer

/-- The loop body of `tcp_timer`. -/
def timerSlot (env : Env) (t : Table) (i : PcbId) : Table × List Effect :=
  let pcb := t.pcb i
  if pcb.state = .free then (t, [])
  else if pcb.timewaitElapsed env then (tcpPcbRelease t i, [])
  else
    let r := emitQueue env i pcb pcb.queue
    (t.set i { r.1 with queue := r.2.1 }, r.2.2)

/-- The loop of `tcp_timer`. -/
def timerLoop (env : Env) : Table → List PcbId → Table × List Effect
  | t, [] => (t, [])
  | t, i :: rest =>
      let r := timerSlot env t i
      let r' := timerLoop env r.1 rest
      (r'.1, r.2 ++ r'.2)

/-- `tcp_timer`. -/
def tcpTimer (env : Env) (t : Table) : Table × List Effect :=
  timerLoop env t slots

/-! ## What the walk over the queue changes -/

section Emit
variable (env : Env) (i : PcbId)

/-- The walk changes the state, when an entry has expired, and the history. -/
theorem emitQueue_pcb (p : Pcb) (q : List QueueEntry) :
    (emitQueue env i p q).1 =
      { p with
        state := if q.any (·.expired env) then .closed else p.state
        hist := { p.hist with sent := (emitQueue env i p q).1.hist.sent } } := by
  induction q generalizing p with
  | nil => rfl
  | cons e q ih =>
      simp only [emitQueue]
      rw [ih]
      by_cases he : e.expired env
      · simp [tcpRetransmitQueueEmit, he]
      · by_cases hd : e.due env <;> simp [tcpRetransmitQueueEmit, he, hd, Pcb.sending]

/-- What an entry covers does not change when it is sent again. -/
def QueueEntry.content (e : QueueEntry) : UInt32 × UInt8 × List UInt8 := (e.seq, e.flg, e.data)

theorem emitQueue_content (p : Pcb) (q : List QueueEntry) :
    (emitQueue env i p q).2.1.map QueueEntry.content = q.map QueueEntry.content := by
  induction q generalizing p with
  | nil => rfl
  | cons e q ih =>
      simp only [emitQueue, List.map_cons, ih]
      by_cases he : e.expired env
      · simp [tcpRetransmitQueueEmit, he]
      · by_cases hd : e.due env <;> simp [tcpRetransmitQueueEmit, he, hd, QueueEntry.content]

/-- The pcb's waiters are woken exactly when an entry has expired. -/
theorem emitQueue_broadcast (p : Pcb) (q : List QueueEntry) :
    Effect.broadcast i ∈ (emitQueue env i p q).2.2 ↔ q.any (·.expired env) := by
  induction q generalizing p with
  | nil => simp [emitQueue]
  | cons e q ih =>
      simp only [emitQueue, List.mem_append, ih, List.any_cons, Bool.or_eq_true]
      by_cases he : e.expired env
      · simp [tcpRetransmitQueueEmit, he]
      · by_cases hd : e.due env <;> simp [tcpRetransmitQueueEmit, he, hd]

/-- Every segment sent again is that of an entry of the queue. -/
theorem emitQueue_sent (p : Pcb) (q : List QueueEntry) (s : TcpSegment)
    (hs : s ∈ (emitQueue env i p q).1.hist.sent) :
    s ∈ p.hist.sent ∨ ∃ e ∈ q, s = p.retransmission e := by
  induction q generalizing p with
  | nil => exact .inl hs
  | cons e q ih =>
      simp only [emitQueue] at hs
      rcases ih _ hs with h | ⟨e', he', h⟩
      · by_cases he : e.expired env
        · exact .inl (by simpa [tcpRetransmitQueueEmit, he] using h)
        · by_cases hd : e.due env
          · simp only [tcpRetransmitQueueEmit, he, hd, Pcb.sending, List.mem_append,
              List.mem_singleton, if_true, Bool.false_eq_true, if_false] at h
            rcases h with h | h
            · exact .inl h
            · exact .inr ⟨e, by simp, h⟩
          · exact .inl (by simpa [tcpRetransmitQueueEmit, he, hd] using h)
      · refine .inr ⟨e', by simp [he'], h.trans ?_⟩
        by_cases he : e.expired env
        · simp [tcpRetransmitQueueEmit, he, Pcb.retransmission]
        · by_cases hd : e.due env <;>
            simp [tcpRetransmitQueueEmit, he, hd, Pcb.retransmission, Pcb.sending]

/-- What has been sent stays in the history. -/
theorem emitQueue_keeps_sent (p : Pcb) (q : List QueueEntry) :
    p.hist.sent ⊆ (emitQueue env i p q).1.hist.sent := by
  induction q generalizing p with
  | nil => exact fun _ h => h
  | cons e q ih =>
      have hstep : p.hist.sent ⊆ (tcpRetransmitQueueEmit env i p e).1.hist.sent := by
        unfold tcpRetransmitQueueEmit
        split
        · exact fun _ h => h
        · split
          · exact List.subset_append_left _ _
          · exact fun _ h => h
      exact fun _ h => ih _ (hstep h)

/-- Besides broadcasts the walk only sends entries of the queue again. -/
theorem emitQueue_effects (p : Pcb) (q : List QueueEntry) (x : Effect)
    (hx : x ∈ (emitQueue env i p q).2.2) :
    x = .broadcast i ∨ ∃ e ∈ q, x = .output i (p.retransmission e) := by
  induction q generalizing p with
  | nil => exact absurd hx List.not_mem_nil
  | cons e q ih =>
      -- the pcb changes on the way, but not in what it sends again
      have hsame (e' : QueueEntry) :
          (tcpRetransmitQueueEmit env i p e).1.retransmission e' = p.retransmission e' := by
        by_cases he : e.expired env
        · simp [tcpRetransmitQueueEmit, he, Pcb.retransmission]
        · by_cases hd : e.due env <;>
            simp [tcpRetransmitQueueEmit, he, hd, Pcb.retransmission, Pcb.sending]
      simp only [emitQueue, List.mem_append] at hx
      rcases hx with hx | hx
      · by_cases he : e.expired env
        · exact .inl (by simpa [tcpRetransmitQueueEmit, he] using hx)
        · by_cases hd : e.due env
          · exact .inr ⟨e, by simp, by simpa [tcpRetransmitQueueEmit, he, hd] using hx⟩
          · simp [tcpRetransmitQueueEmit, he, hd] at hx
      · refine (ih _ hx).imp id ?_
        rintro ⟨e', he', rfl⟩
        exact ⟨e', by simp [he'], by rw [hsame]⟩

end Emit

end Laplus.Tcp
