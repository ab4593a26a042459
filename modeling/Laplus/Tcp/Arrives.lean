/-
# `Laplus.Tcp.Arrives` — `tcp_segment_arrives`

The handler of RFC 793's SEGMENT ARRIVES, stage by stage and in the order of
the source.  Below the table every stage works on one pcb and carries an
`Outcome`: the pcb so far, whether it has been handed to `tcp_pcb_release` or
queued on its parent's backlog, and the effects so far.  A stage that returns
yields its outcome, a stage that falls through passes it to the next one.

All sequence numbers are compared as unsigned 32-bit numbers, as the source
does; nothing here is modular.
-/
import Laplus.Lib.Memory
import Laplus.Tcp.Output
import Laplus.Tcp.Table

namespace Laplus.Tcp

open Net Lib

/-! ## Progress through the handler -/

structure Outcome where
  pcb : Pcb
  released : Bool
  queued : Bool
  effects : List Effect

namespace Outcome

def start (pcb : Pcb) : Outcome := ⟨pcb, false, false, []⟩

/-- Replace the pcb. -/
def setPcb (o : Outcome) (pcb : Pcb) : Outcome := { o with pcb }

def setState (o : Outcome) (s : PcbState) : Outcome :=
  { o with pcb := { o.pcb with state := s } }

def emit (o : Outcome) (e : Effect) : Outcome :=
  { o with effects := o.effects ++ [e] }

/-- `tcp_output(pcb, flg, NULL, 0)`; the handler ignores the result. -/
def output (env : Env) (i : PcbId) (o : Outcome) (flg : UInt8) : Outcome :=
  let r := tcpOutput env (env.calloc 0) o.pcb flg []
  (o.setPcb r.pcb).emit (.output i r.seg)

/-- `pcb->state = TCP_PCB_STATE_CLOSED; tcp_pcb_release(pcb)`. -/
def release (o : Outcome) : Outcome :=
  { o.setState .closed with released := true }

/-- `tcp_set_timewait_timer`, 30 seconds from now. -/
def setTimewaitTimer (env : Env) (o : Outcome) : Outcome :=
  { o with pcb := { o.pcb with
      twTimer := { env.now with tvSec := env.now.tvSec + 30 } } }

end Outcome

/-- The answer `<SEQ=SEG.ACK><CTL=RST>`. -/
def resetReply (seg : SegmentInfo) (localEp foreignEp : Endpoint) : Effect :=
  .reply { seq := seg.ack, ack := 0, flg := flgRst, wnd := 0, data := [], localEp, foreignEp }

/-- No pcb, or a closed one: a reset, unless the segment is one itself. -/
def replyClosed (seg : SegmentInfo) (flags : UInt8) (localEp foreignEp : Endpoint) :
    List Effect :=
  if flgIsSet flags flgRst then []
  else if flgIsSet flags flgAck then [resetReply seg localEp foreignEp]
  else [.reply { seq := 0, ack := seg.seq + seg.len.toUInt32, flg := flgRst ||| flgAck,
                 wnd := 0, data := [], localEp, foreignEp }]

/-! ## LISTEN -/

/-- The window of a pcb is opened: `rcv.wnd = sizeof(pcb->buf)`. -/
def Pcb.openWindow (pcb : Pcb) : Pcb :=
  { pcb with
    rcv := { pcb.rcv with wnd := 8192 }
    hist := { pcb.hist with stored := [], taken := [] } }

/-- A SYN on a listening pcb; `pcb` is the listener itself or its new child. -/
def arrivesListenSyn (env : Env) (i : PcbId) (seg : SegmentInfo)
    (localEp foreignEp : Endpoint) (pcb : Pcb) : Outcome :=
  let pcb := { pcb with localEp, foreignEp }.openWindow
  let pcb := { pcb with
    rcv := { pcb.rcv with nxt := seg.seq + 1 }, irs := seg.seq, iss := env.random }
  let o := (Outcome.start pcb).output env i (flgSyn ||| flgAck)
  o.setPcb { o.pcb with
    snd := { o.pcb.snd with nxt := o.pcb.iss + 1, una := o.pcb.iss }
    state := .synReceived }

/-! ## SYN-SENT -/

/-- The acknowledgement is outside `(iss, snd.nxt]`. -/
def synSentBadAck (pcb : Pcb) (seg : SegmentInfo) (flags : UInt8) : Bool :=
  flgIsSet flags flgAck && (decide (seg.ack ≤ pcb.iss) || decide (seg.ack > pcb.snd.nxt))

/-- `acceptable` after the first check. -/
def synSentAcceptable (pcb : Pcb) (seg : SegmentInfo) (flags : UInt8) : Bool :=
  flgIsSet flags flgAck && (decide (pcb.snd.una ≤ seg.ack) && decide (seg.ack ≤ pcb.snd.nxt))

/-- The pcb after the peer's SYN has been taken in SYN-SENT. -/
def synSentSyn (pcb : Pcb) (seg : SegmentInfo) (acceptable : Bool) : Pcb :=
  let pcb := { pcb with rcv := { pcb.rcv with nxt := seg.seq + 1 }, irs := seg.seq }
  if acceptable then
    { pcb with
      snd := { pcb.snd with una := seg.ack }
      queue := tcpRetransmitQueueCleanup seg.ack pcb.queue }
  else pcb

def arrivesSynSent (env : Env) (i : PcbId) (seg : SegmentInfo) (flags : UInt8)
    (localEp foreignEp : Endpoint) (pcb : Pcb) : Outcome :=
  let o := Outcome.start pcb
  -- first: check the ACK bit
  if synSentBadAck pcb seg flags then o.emit (resetReply seg localEp foreignEp)
  else
    let acceptable := synSentAcceptable pcb seg flags
    -- second: check the RST bit
    if flgIsSet flags flgRst then (if acceptable then o.release else o)
    -- fourth: check the SYN bit
    else if flgIsSet flags flgSyn then
      let o := o.setPcb (synSentSyn pcb seg acceptable)
      if o.pcb.snd.una > o.pcb.iss then
        let o := (o.setState .established).output env i flgAck
        (o.setPcb { o.pcb with
          snd := { o.pcb.snd with wnd := seg.wnd, wl1 := seg.seq, wl2 := seg.ack } }).emit
            (.broadcast i)
      else (o.setState .synReceived).output env i (flgSyn ||| flgAck)
    else o

/-! ## The other states -/

/-- `rcv.nxt <= x && x < rcv.nxt + rcv.wnd`, in 32 bits. -/
def inWindow (rcv : RcvSide) (x : UInt32) : Bool :=
  decide (rcv.nxt ≤ x) && decide (x < rcv.nxt + rcv.wnd.toUInt32)

/-- First check: the sequence number. -/
def acceptable (rcv : RcvSide) (seg : SegmentInfo) : Bool :=
  if seg.len = 0 then
    if rcv.wnd = 0 then decide (seg.seq = rcv.nxt) else inWindow rcv seg.seq
  else if rcv.wnd = 0 then false
  else inWindow rcv seg.seq || inWindow rcv (seg.seq + seg.len.toUInt32 - 1)

/-- Eighth: check the FIN bit. -/
def arrivesFin (env : Env) (i : PcbId) (seg : SegmentInfo) (flags : UInt8) (o : Outcome) :
    Outcome :=
  if flgIsSet flags flgFin then
    match o.pcb.state with
    | .closed | .listen | .synSent => o
    | s =>
        let o := o.setPcb { o.pcb with rcv := { o.pcb.rcv with nxt := seg.seq + 1 } }
        let o := o.output env i flgAck
        match s with
        | .synReceived | .established => (o.setState .closeWait).emit (.broadcast i)
        | .finWait1 =>
            if seg.ack = o.pcb.snd.nxt then (o.setState .timeWait).setTimewaitTimer env
            else o.setState .closing
        | .finWait2 => (o.setState .timeWait).setTimewaitTimer env
        | .timeWait => o.setTimewaitTimer env
        | _ => o
  else o

/-- `sizeof(pcb->buf) - pcb->rcv.wnd`, a `size_t`. -/
def Pcb.remain (pcb : Pcb) : Nat :=
  (bufSize + 2 ^ 64 - pcb.rcv.wnd.toNat) % 2 ^ 64

/-- The text of a segment goes into the receive buffer. -/
def Pcb.takeText (pcb : Pcb) (seg : SegmentInfo) (data : List UInt8) : Pcb :=
  { pcb with
    buf := copyAt pcb.buf pcb.remain data
    rcv := { nxt := seg.seq + seg.len.toUInt32, wnd := pcb.rcv.wnd - UInt16.ofNat data.length }
    hist := { pcb.hist with stored := pcb.hist.stored ++ data } }

/-- The states in which text is taken, when there is any. -/
def Pcb.takesText (pcb : Pcb) (data : List UInt8) : Bool :=
  match pcb.state with
  | .established | .finWait1 | .finWait2 => !data.isEmpty
  | _ => false

/-- The `switch` of the seventh step. -/
def textStage (env : Env) (i : PcbId) (seg : SegmentInfo) (data : List UInt8) (o : Outcome) :
    Outcome :=
  if o.pcb.takesText data then
    let copied := (o.setPcb (o.pcb.takeText seg data)).emit (.copy i o.pcb.remain data)
    (copied.output env i flgAck).emit (.broadcast i)
  else o

/-- Seventh: process the segment text. -/
def arrivesText (env : Env) (i : PcbId) (seg : SegmentInfo) (flags : UInt8) (data : List UInt8)
    (o : Outcome) : Outcome :=
  arrivesFin env i seg flags (textStage env i seg data o)

/-- The send window follows the newest segment. -/
def SndSide.updateWindow (snd : SndSide) (seg : SegmentInfo) : SndSide :=
  if snd.wl1 < seg.seq ∨ (snd.wl1 = seg.seq ∧ snd.wl2 ≤ seg.ack) then
    { snd with wnd := seg.wnd, wl1 := seg.seq, wl2 := seg.ack }
  else snd

/-- A new acknowledgement, `snd.una < seg.ack <= snd.nxt`. -/
def Pcb.newAck (pcb : Pcb) (seg : SegmentInfo) : Pcb :=
  { pcb with
    snd := { pcb.snd with una := seg.ack }.updateWindow seg
    queue := tcpRetransmitQueueCleanup seg.ack pcb.queue }

/-- Our FIN is acknowledged: FIN-WAIT-1 and CLOSING move on. -/
def ackedFin (env : Env) (i : PcbId) (seg : SegmentInfo) (o : Outcome) : Outcome :=
  match o.pcb.state with
  | .finWait1 => if seg.ack = o.pcb.snd.nxt then o.setState .finWait2 else o
  | .closing =>
      if seg.ack = o.pcb.snd.nxt then
        ((o.setState .timeWait).setTimewaitTimer env).emit (.broadcast i)
      else o
  | _ => o

/-- The ACK processing that ESTABLISHED and its successors share. -/
def arrivesAckUpdate (env : Env) (i : PcbId) (seg : SegmentInfo) (flags : UInt8)
    (data : List UInt8) (o : Outcome) : Outcome :=
  if o.pcb.snd.una < seg.ack ∧ seg.ack ≤ o.pcb.snd.nxt then
    arrivesText env i seg flags data (ackedFin env i seg (o.setPcb (o.pcb.newAck seg)))
  else if seg.ack < o.pcb.snd.una then
    arrivesText env i seg flags data (ackedFin env i seg o)
  else if seg.ack > o.pcb.snd.nxt then o.output env i flgAck
  else arrivesText env i seg flags data (ackedFin env i seg o)

/-- SYN-RECEIVED becomes ESTABLISHED and, with a parent, is queued there. -/
def establish (env : Env) (i : PcbId) (o : Outcome) : Outcome :=
  let o := (o.setState .established).emit (.broadcast i)
  match o.pcb.parent with
  | some q => { o with queued := env.calloc 0 }.emit (.broadcast q)
  | none => o

/-- Fifth: check the ACK field. -/
def arrivesAck (env : Env) (i : PcbId) (seg : SegmentInfo) (flags : UInt8) (data : List UInt8)
    (localEp foreignEp : Endpoint) (o : Outcome) : Outcome :=
  match o.pcb.state with
  | .synReceived =>
      if o.pcb.snd.una ≤ seg.ack ∧ seg.ack ≤ o.pcb.snd.nxt then
        arrivesAckUpdate env i seg flags data (establish env i o)
      else o.emit (resetReply seg localEp foreignEp)
  | .established | .finWait1 | .finWait2 | .closeWait | .closing =>
      arrivesAckUpdate env i seg flags data o
  | .lastAck => if seg.ack = o.pcb.snd.nxt then o.release else o
  | .timeWait =>
      arrivesText env i seg flags data
        (if flgIsSet flags flgFin then o.setTimewaitTimer env else o)
  | _ => arrivesText env i seg flags data o

/-- Everything after the `Otherwise` of the source. -/
def arrivesOtherwise (env : Env) (i : PcbId) (seg : SegmentInfo) (flags : UInt8)
    (data : List UInt8) (localEp foreignEp : Endpoint) (pcb : Pcb) : Outcome :=
  let o := Outcome.start pcb
  -- first: check the sequence number
  if pcb.state.synchronized && !acceptable pcb.rcv seg then
    if flgIsSet flags flgRst then o else o.output env i flgAck
  -- second: check the RST bit
  else if pcb.state.synchronized && flgIsSet flags flgRst then o.release
  -- fourth: check the SYN bit
  else if pcb.state.synchronized && flgIsSet flags flgSyn then (o.output env i flgRst).release
  -- fifth: check the ACK field
  else if !flgIsSet flags flgAck then o
  else arrivesAck env i seg flags data localEp foreignEp o

/-! ## The table -/

/-- `queue_push(&q->backlog, i)`. -/
def Table.pushBacklog (t : Table) (q i : PcbId) : Table :=
  t.set q { t.pcb q with backlog := (t.pcb q).backlog ++ [i] }

/-- Write an outcome back to the table. -/
def settle (t : Table) (i : PcbId) (o : Outcome) : Table :=
  let t := t.set i o.pcb
  let t :=
    match o.queued, o.pcb.parent with
    | true, some q => t.pushBacklog q i
    | _, _ => t
  if o.released then tcpPcbRelease t i else t

/-- LISTEN, for the pcb of slot `i`. -/
def arrivesListen (env : Env) (t : Table) (i : PcbId) (seg : SegmentInfo) (flags : UInt8)
    (localEp foreignEp : Endpoint) : Table × List Effect :=
  -- first: check RST
  if flgIsSet flags flgRst then (t, [])
  -- second: check ACK
  else if flgIsSet flags flgAck then (t, [resetReply seg localEp foreignEp])
  -- third: check SYN
  else if flgIsSet flags flgSyn then
    match (t.pcb i).mode with
    | .socket =>
        match tcpPcbAlloc t with
        | none => (t, [])
        | some (j, t) =>
            let o := arrivesListenSyn env j seg localEp foreignEp
              { t.pcb j with mode := .socket, parent := some i }
            (settle t j o, o.effects)
    | _ =>
        let o := arrivesListenSyn env i seg localEp foreignEp (t.pcb i)
        (settle t i o, o.effects)
  -- fourth: other text or control
  else (t, [])

/-- `tcp_segment_arrives`. -/
def tcpSegmentArrives (env : Env) (t : Table) (seg : SegmentInfo) (flags : UInt8)
    (data : List UInt8) (localEp foreignEp : Endpoint) : Table × List Effect :=
  match tcpPcbSelect t localEp (some foreignEp) with
  | none => (t, replyClosed seg flags localEp foreignEp)
  | some i =>
      match (t.pcb i).state with
      | .closed => (t, replyClosed seg flags localEp foreignEp)
      | .listen => arrivesListen env t i seg flags localEp foreignEp
      | .synSent =>
          let o := arrivesSynSent env i seg flags localEp foreignEp (t.pcb i)
          (settle t i o, o.effects)
      | _ =>
          let o := arrivesOtherwise env i seg flags data localEp foreignEp (t.pcb i)
          (settle t i o, o.effects)

/-- `seg.len` as `tcp_input` computes it: the text, one for SYN, one for FIN. -/
def TcpSegment.len (s : TcpSegment) : UInt16 :=
  UInt16.ofNat s.data.length + (if flgIsSet s.flg flgSyn then 1 else 0) +
    (if flgIsSet s.flg flgFin then 1 else 0)

/-- The fields `tcp_input` reads off a segment of the peer. -/
def TcpSegment.info (s : TcpSegment) : SegmentInfo := ⟨s.seq, s.ack, s.len, s.wnd⟩

/-- A segment of the peer arrives: its source is our foreign endpoint. -/
def arrive (env : Env) (t : Table) (s : TcpSegment) : Table × List Effect :=
  tcpSegmentArrives env t s.info s.flg s.data s.foreignEp s.localEp

end Laplus.Tcp
