/-
# `Laplus.Tcp.Output` — the retransmit queue and `tcp_output`

The queue of a pcb is filled by `tcp_output` for every segment that occupies
sequence space and drained by `tcp_retransmit_queue_cleanup` when `snd.una`
moves.  A pure acknowledgement touches neither the queue nor any sequence
number of the pcb.
-/
import Laplus.Tcp.Pcb

namespace Laplus.Tcp

open Net

/-- `TCP_DEFAULT_RTO`, in microseconds. -/
def tcpDefaultRto : UInt32 := 200000

/-- `tcp_retransmit_queue_add`; with no memory the queue stays as it is. -/
def tcpRetransmitQueueAdd (env : Env) (mem : Bool) (pcb : Pcb) (seq : UInt32) (flg : UInt8)
    (data : List UInt8) : Pcb :=
  if mem then
    { pcb with queue := pcb.queue ++
        [{ first := env.now, last := env.now, rto := tcpDefaultRto, seq, flg, data }] }
  else pcb

/-- `tcp_retransmit_queue_cleanup`: pop while the head starts below `una`. -/
def tcpRetransmitQueueCleanup (una : UInt32) : List QueueEntry → List QueueEntry
  | [] => []
  | e :: q => if e.seq ≥ una then e :: q else tcpRetransmitQueueCleanup una q

/-- `tcp_output_segment` answers `-1` exactly when `ip_output` does. -/
def tcpOutputSegment (env : Env) (s : TcpSegment) : Bool :=
  ipOutput env.routes (env.link s) (tcpHdrSize + s.data.length) s.localEp.addr s.foreignEp.addr

/-- What `tcp_output` leaves behind: the pcb, the segment handed down, and
whether the call returned something other than `-1`. -/
structure Sent where
  pcb : Pcb
  seg : TcpSegment
  ok : Bool

/-- The segment `tcp_output` builds from a pcb. -/
def Pcb.segment (pcb : Pcb) (flg : UInt8) (data : List UInt8) : TcpSegment where
  seq := if flgIsSet flg flgSyn then pcb.iss else pcb.snd.nxt
  ack := pcb.rcv.nxt
  flg := flg
  wnd := pcb.rcv.wnd
  data := data
  localEp := pcb.localEp
  foreignEp := pcb.foreignEp

/-- The pcb with one more segment in its history. -/
def Pcb.sending (pcb : Pcb) (s : TcpSegment) : Pcb :=
  { pcb with hist := { pcb.hist with sent := pcb.hist.sent ++ [s] } }

/-- `tcp_output`; `mem` says whether the queue entry can be allocated. -/
def tcpOutput (env : Env) (mem : Bool) (pcb : Pcb) (flg : UInt8) (data : List UInt8) : Sent :=
  let s := pcb.segment flg data
  let pcb :=
    if flgIsSet flg (flgSyn ||| flgFin) || !data.isEmpty then
      tcpRetransmitQueueAdd env mem pcb s.seq flg data
    else pcb
  ⟨pcb.sending s, s, tcpOutputSegment env s⟩

/-! ## What `tcp_output` changes -/

/-- The queue after `tcp_output`. -/
def Pcb.queueAfter (env : Env) (mem : Bool) (pcb : Pcb) (flg : UInt8) (data : List UInt8) :
    List QueueEntry :=
  if (flgIsSet flg (flgSyn ||| flgFin) || !data.isEmpty) && mem then
    pcb.queue ++ [{ first := env.now, last := env.now, rto := tcpDefaultRto,
                    seq := (pcb.segment flg data).seq, flg, data }]
  else pcb.queue

/-- `tcp_output` writes the queue and nothing else. -/
theorem tcpOutput_pcb (env : Env) (mem : Bool) (pcb : Pcb) (flg : UInt8) (data : List UInt8) :
    (tcpOutput env mem pcb flg data).pcb =
      { pcb with
        queue := pcb.queueAfter env mem flg data
        hist := { pcb.hist with sent := pcb.hist.sent ++ [pcb.segment flg data] } } := by
  simp only [tcpOutput, Pcb.queueAfter, Pcb.sending, tcpRetransmitQueueAdd, Bool.and_eq_true]
  by_cases h : (flgIsSet flg (flgSyn ||| flgFin) || !data.isEmpty) = true
  · cases mem <;> simp [h]
  · simp [h]

@[simp] theorem tcpOutput_seg (env : Env) (mem : Bool) (pcb : Pcb) (flg : UInt8)
    (data : List UInt8) : (tcpOutput env mem pcb flg data).seg = pcb.segment flg data := rfl

@[simp] theorem tcpOutput_ok (env : Env) (mem : Bool) (pcb : Pcb) (flg : UInt8)
    (data : List UInt8) :
    (tcpOutput env mem pcb flg data).ok = tcpOutputSegment env (pcb.segment flg data) := rfl

/-- A bare ACK is not queued. -/
@[simp] theorem queueAfter_ack (env : Env) (mem : Bool) (pcb : Pcb) :
    pcb.queueAfter env mem flgAck [] = pcb.queue := by
  have h : flgIsSet flgAck (flgSyn ||| flgFin) = false := by decide
  simp [Pcb.queueAfter, h]

theorem cleanup_subset (una : UInt32) (q : List QueueEntry) :
    tcpRetransmitQueueCleanup una q ⊆ q := by
  induction q with
  | nil => exact fun _ h => h
  | cons e q ih =>
      unfold tcpRetransmitQueueCleanup
      split
      · exact fun _ h => h
      · exact fun x hx => List.mem_cons_of_mem _ (ih hx)

/-- Neither is a reset. -/
@[simp] theorem queueAfter_rst (env : Env) (mem : Bool) (pcb : Pcb) :
    pcb.queueAfter env mem flgRst [] = pcb.queue := by
  have h : flgIsSet flgRst (flgSyn ||| flgFin) = false := by decide
  simp [Pcb.queueAfter, h]

end Laplus.Tcp
