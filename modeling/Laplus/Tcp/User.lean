/-
# `Laplus.Tcp.User` — the user commands and the tasks inside them

A user command runs under the TCP mutex until it returns or reaches
`cond_wait`; a blocked call runs on from there when its task is running
again, for whatever reason.  The world is the table and what each task is
blocked in.  `woken` records whether a `cond_broadcast` has been issued on
the pcb's condition variable since the task blocked; the code does not read
it.
-/
import Laplus.Tcp.Timer

namespace Laplus.Tcp

open Net Lib

abbrev TaskId := UInt64

/-- The loop a task sleeps in, with the variables it needs to go on. -/
inductive Wait where
  | openRfc793 (state : PcbState)
  | connect (state : PcbState)
  | accept
  | send (data : List UInt8) (sent : Nat)
  | receive (size : Nat)
deriving DecidableEq

structure Blocked where
  pcb : PcbId
  wait : Wait
  woken : Bool
deriving DecidableEq

structure World where
  tab : Table
  tasks : TaskId → Option Blocked

def World.boot : World := ⟨.boot, fun _ => none⟩

/-- What the caller gets: the return value, the bytes `tcp_receive` copied
out and the endpoint `tcp_accept` filled in. -/
structure Ret where
  val : Int
  bytes : List UInt8
  foreign : Option Endpoint
deriving DecidableEq

def Ret.of (val : Int) : Ret := ⟨val, [], none⟩

/-- A call that has returned, or one that sleeps in `cond_wait`. -/
inductive Progress where
  | returned (r : Ret)
  | blocked (i : PcbId) (w : Wait)
deriving DecidableEq

/-- What the caller gets, once the call has returned. -/
def Progress.answer : Progress → Option Ret
  | .returned r => some r
  | .blocked _ _ => none

/-- How far a call got: the table, the effects, and whether it returned. -/
structure CallResult where
  tab : Table
  effects : List Effect
  progress : Progress

def CallResult.ret (t : Table) (val : Int) : CallResult := ⟨t, [], .returned (.of val)⟩

/-- `pcb->state = TCP_PCB_STATE_CLOSED; tcp_pcb_release(pcb)`. -/
def closeRelease (t : Table) (i : PcbId) : Table :=
  tcpPcbRelease (t.set i { t.pcb i with state := .closed }) i

/-! ## Opening -/

/-- The wait after an open: `tcp_open_rfc793` and `tcp_connect` share it.  The
call sleeps while the state is the one it saw last, sleeps again in
SYN-RECEIVED and gives up in anything but ESTABLISHED. -/
def awaitOpen (wait : PcbState → Wait) (t : Table) (i : PcbId) (state : PcbState)
    (effects : List Effect) : CallResult :=
  let pcb := t.pcb i
  if pcb.state = state then ⟨t, effects, .blocked i (wait state)⟩
  else if pcb.state = .established then ⟨t, effects, .returned (.of (tcpPcbId i))⟩
  else if pcb.state = .synReceived then ⟨t, effects, .blocked i (wait .synReceived)⟩
  else ⟨closeRelease t i, effects, .returned (.of (-1))⟩

/-- The pcb of an active open when its SYN goes out. -/
def Pcb.opening (env : Env) (pcb : Pcb) : Pcb := { pcb.openWindow with iss := env.random }

/-- The pcb of an active open once its SYN is out. -/
def Pcb.synOut (pcb : Pcb) : Pcb :=
  { pcb with
    snd := { pcb.snd with una := pcb.iss, nxt := pcb.iss + 1 }
    state := .synSent }

/-- Sending the SYN of an active open, from a pcb whose endpoints are set. -/
def sendSyn (env : Env) (t : Table) (i : PcbId) (wait : PcbState → Wait) (pcb : Pcb) :
    CallResult :=
  let r := tcpOutput env (env.calloc 0) (pcb.opening env) flgSyn []
  if r.ok then awaitOpen wait (t.set i r.pcb.synOut) i .synSent [.output i r.seg]
  else ⟨closeRelease (t.set i r.pcb) i, [.output i r.seg], .returned (.of (-1))⟩

/-- `tcp_open_rfc793` with `active` unset. -/
def tcpOpenPassive (t : Table) (localEp : Endpoint) (foreignEp : Option Endpoint) :
    CallResult :=
  match tcpPcbAlloc t with
  | none => .ret t (-1)
  | some (i, t) =>
      let pcb := t.pcb i
      let pcb := { pcb with
        mode := .rfc793, localEp, foreignEp := foreignEp.getD pcb.foreignEp, state := .listen }
      awaitOpen .openRfc793 (t.set i pcb) i .listen []

/-- `tcp_open_rfc793` with `active` set. -/
def tcpOpenActive (env : Env) (t : Table) (localEp foreignEp : Endpoint) : CallResult :=
  match tcpPcbAlloc t with
  | none => .ret t (-1)
  | some (i, t) =>
      sendSyn env t i .openRfc793 { t.pcb i with mode := .rfc793, localEp, foreignEp }

/-- `tcp_open`. -/
def tcpOpen (t : Table) : CallResult :=
  match tcpPcbAlloc t with
  | none => .ret t (-1)
  | some (i, t) => .ret (t.set i { t.pcb i with mode := .socket }) (tcpPcbId i)

/-- The pcb a socket-mode command works on. -/
def socketPcb (t : Table) (id : Int) : Option PcbId :=
  (tcpPcbGet t id).filter fun i => (t.pcb i).mode = .socket

/-- The port loop of `tcp_connect`: the first port no pcb holds towards this
peer, and the last one if there is none.  The number is stored as it is,
without `hton16`. -/
def sourcePort (t : Table) (addr : IpAddr) (foreignEp : Endpoint) : UInt16 :=
  let ports := (List.range 16384).map fun k => UInt16.ofNat (49152 + k)
  (ports.find? fun p => (tcpPcbSelect t ⟨addr, p⟩ (some foreignEp)).isNone).getD 65535

/-- The address `tcp_connect` sends from: the one bound, or that of the interface
the route to the peer leaves by. -/
def Pcb.source (env : Env) (pcb : Pcb) (foreignEp : Endpoint) : Option IpAddr :=
  if pcb.localEp.addr = ipAddrAny then
    (ipRouteGetIface env.routes foreignEp.addr).map IpIface.unicast
  else some pcb.localEp.addr

/-- `tcp_connect`. -/
def tcpConnect (env : Env) (t : Table) (id : Int) (foreignEp : Endpoint) : CallResult :=
  match socketPcb t id with
  | none => .ret t (-1)
  | some i =>
      let pcb := t.pcb i
      match pcb.source env foreignEp with
      | none => .ret t (-1)
      | some addr =>
          let port := if pcb.localEp.port = 0 then sourcePort t addr foreignEp
            else pcb.localEp.port
          sendSyn env t i .connect { pcb with localEp := ⟨addr, port⟩, foreignEp }

/-- `tcp_bind`. -/
def tcpBind (t : Table) (id : Int) (localEp : Endpoint) : CallResult :=
  match socketPcb t id with
  | none => .ret t (-1)
  | some i =>
      match tcpPcbSelect t localEp none with
      | some _ => .ret t (-1)
      | none => .ret (t.set i { t.pcb i with localEp }) 0

/-- `tcp_listen`. -/
def tcpListen (t : Table) (id : Int) : CallResult :=
  match socketPcb t id with
  | none => .ret t (-1)
  | some i => .ret (t.set i { t.pcb i with state := .listen }) 0

/-- The loop of `tcp_accept`. -/
def acceptLoop (t : Table) (i : PcbId) : CallResult :=
  match (t.pcb i).backlog with
  | [] => ⟨t, [], .blocked i .accept⟩
  | c :: rest =>
      ⟨t.set i { t.pcb i with backlog := rest }, [],
        .returned ⟨tcpPcbId c, [], some (t.pcb c).foreignEp⟩⟩

/-- `tcp_accept`. -/
def tcpAccept (t : Table) (id : Int) : CallResult :=
  match socketPcb t id with
  | none => .ret t (-1)
  | some i => if (t.pcb i).state = .listen then acceptLoop t i else .ret t (-1)

/-! ## Sending -/

/-- One segment `tcp_send` hands down, the MTU of the device it was cut for,
and the pcb right after it (`snd.nxt` has moved unless the segment failed). -/
structure Emission where
  seg : TcpSegment
  mtu : Nat
  pcb : Pcb

/-- Why the loop of `tcp_send` stopped: everything is sent, the window is
used up, `tcp_output` failed, or the model ran out of fuel. -/
inductive SendStop where
  | finished | window | failed | fuel
deriving DecidableEq

structure Burst where
  pcb : Pcb
  sent : Nat
  trace : List Emission
  stop : SendStop

/-- `pcb->snd.wnd - (pcb->snd.nxt - pcb->snd.una)`, in 32 bits. -/
def Pcb.cap (pcb : Pcb) : UInt32 :=
  pcb.snd.wnd.toUInt32 - (pcb.snd.nxt - pcb.snd.una)

/-- The loop of `tcp_send`; `k` counts the segments of this burst. -/
def sendLoop (env : Env) (dev : NetDevice) (data : List UInt8) : Nat → Nat → Pcb → Nat → Burst
  | 0, _, pcb, sent => ⟨pcb, sent, [], .fuel⟩
  | n + 1, k, pcb, sent =>
      if sent < data.length then
        -- `cap` is zero only when the flight fills the window exactly
        if pcb.cap = 0 then ⟨pcb, sent, [], .window⟩
        else
          let slen := min (min dev.mss (data.length - sent)) pcb.cap.toNat
          let r := tcpOutput env (env.calloc k) pcb (flgAck ||| flgPsh)
            ((data.drop sent).take slen)
          if r.ok then
            let pcb := { r.pcb with
              snd := { r.pcb.snd with nxt := r.pcb.snd.nxt + UInt32.ofNat slen } }
            let b := sendLoop env dev data n (k + 1) pcb (sent + slen)
            { b with trace := ⟨r.seg, dev.mtu.toNat, pcb⟩ :: b.trace }
          else ⟨r.pcb, sent, [⟨r.seg, dev.mtu.toNat, r.pcb⟩], .failed⟩
      else ⟨pcb, sent, [], .finished⟩

/-- The burst from the `sent`-th byte on.  The fuel suffices, see
`burst_stop`. -/
def Pcb.burst (env : Env) (dev : NetDevice) (pcb : Pcb) (data : List UInt8) (sent : Nat) :
    Burst :=
  sendLoop env dev data (data.length - sent + 1) 0 pcb sent

/-- A call of `tcp_send` from the label `RETRY` on. -/
structure SendResult where
  result : CallResult
  trace : List Emission

/-- What follows the loop. -/
def sendEnd (t : Table) (i : PcbId) (data : List UInt8) (b : Burst) : SendResult :=
  let effects := b.trace.map fun e => Effect.output i e.seg
  match b.stop with
  | .finished | .fuel => ⟨⟨t.set i b.pcb, effects, .returned (.of b.sent)⟩, b.trace⟩
  | .window => ⟨⟨t.set i b.pcb, effects, .blocked i (.send data b.sent)⟩, b.trace⟩
  | .failed => ⟨⟨closeRelease (t.set i b.pcb) i, effects, .returned (.of (-1))⟩, b.trace⟩

def sendRetry (env : Env) (t : Table) (i : PcbId) (data : List UInt8) (sent : Nat) :
    SendResult :=
  let pcb := t.pcb i
  match pcb.state with
  | .established | .closeWait =>
      match ipRouteGetIface env.routes pcb.localEp.addr with
      | none => ⟨.ret t (-1), []⟩
      | some iface => sendEnd t i data (pcb.burst env iface.dev data sent)
  | _ => ⟨.ret t (-1), []⟩

/-- `tcp_send`. -/
def tcpSend (env : Env) (t : Table) (id : Int) (data : List UInt8) : CallResult :=
  match tcpPcbGet t id with
  | none => .ret t (-1)
  | some i => (sendRetry env t i data 0).result

/-! ## Receiving -/

/-- The end of `tcp_receive`: copy out, move the rest to the front, open the
window. -/
def takeBytes (t : Table) (i : PcbId) (size : Nat) : CallResult :=
  let pcb := t.pcb i
  let len := min size pcb.remain
  let bytes := slice pcb.buf len
  let pcb := { pcb with
    buf := moveDown pcb.buf len (pcb.remain - len)
    rcv := { pcb.rcv with wnd := pcb.rcv.wnd + UInt16.ofNat len }
    hist := { pcb.hist with taken := pcb.hist.taken ++ bytes } }
  ⟨t.set i pcb, [], .returned ⟨len, bytes, none⟩⟩

/-- `tcp_receive` from the label `RETRY` on. -/
def receiveRetry (t : Table) (i : PcbId) (size : Nat) : CallResult :=
  let pcb := t.pcb i
  match pcb.state with
  | .established | .finWait1 | .finWait2 =>
      if pcb.remain = 0 then ⟨t, [], .blocked i (.receive size)⟩ else takeBytes t i size
  | .closeWait => if pcb.remain = 0 then .ret t 0 else takeBytes t i size
  | .closing | .lastAck | .timeWait => .ret t 0
  | _ => .ret t (-1)

/-- `tcp_receive`. -/
def tcpReceive (t : Table) (id : Int) (size : Nat) : CallResult :=
  match tcpPcbGet t id with
  | none => .ret t (-1)
  | some i => receiveRetry t i size

/-! ## Closing -/

/-- Our FIN goes out and the pcb moves on. -/
def sendFin (env : Env) (t : Table) (i : PcbId) (s : PcbState) : CallResult :=
  let r := tcpOutput env (env.calloc 0) (t.pcb i) (flgAck ||| flgFin) []
  let pcb := { r.pcb with snd := { r.pcb.snd with nxt := r.pcb.snd.nxt + 1 }, state := s }
  ⟨t.set i pcb, [.output i r.seg, .broadcast i], .returned (.of 0)⟩

/-- `tcp_close`. -/
def tcpClose (env : Env) (t : Table) (id : Int) : CallResult :=
  match tcpPcbGet t id with
  | none => .ret t (-1)
  | some i =>
      match (t.pcb i).state with
      | .listen | .synSent => ⟨closeRelease t i, [], .returned (.of 0)⟩
      | .synReceived | .established => sendFin env t i .finWait1
      | .closeWait => sendFin env t i .lastAck
      | _ => .ret t (-1)

/-! ## Tasks -/

/-- A user command. -/
inductive Command where
  | openPassive (localEp : Endpoint) (foreignEp : Option Endpoint)
  | openActive (localEp foreignEp : Endpoint)
  | open
  | connect (id : Int) (foreignEp : Endpoint)
  | bind (id : Int) (localEp : Endpoint)
  | listen (id : Int)
  | accept (id : Int)
  | send (id : Int) (data : List UInt8)
  | receive (id : Int) (size : Nat)
  | close (id : Int)
deriving DecidableEq

/-- A command up to its return or its first `cond_wait`. -/
def Command.call (env : Env) (t : Table) : Command → CallResult
  | openPassive l f => tcpOpenPassive t l f
  | openActive l f => tcpOpenActive env t l f
  | «open» => tcpOpen t
  | connect id f => tcpConnect env t id f
  | bind id l => tcpBind t id l
  | listen id => tcpListen t id
  | accept id => tcpAccept t id
  | send id data => tcpSend env t id data
  | receive id size => tcpReceive t id size
  | close id => tcpClose env t id

/-- A blocked call from where it sleeps. -/
def Wait.retry (env : Env) (t : Table) (i : PcbId) : Wait → CallResult
  | openRfc793 s => awaitOpen .openRfc793 t i s []
  | connect s => awaitOpen .connect t i s []
  | accept => acceptLoop t i
  | send data sent => (sendRetry env t i data sent).result
  | receive size => receiveRetry t i size

/-- `cond_broadcast` reaches every task asleep on the pcb. -/
def wake (effects : List Effect) (b : Blocked) : Blocked :=
  { b with woken := b.woken || decide (Effect.broadcast b.pcb ∈ effects) }

/-- The world after a piece of code ran: new table, sleepers woken. -/
def World.after (w : World) (t : Table) (effects : List Effect) : World :=
  ⟨t, fun tid => (w.tasks tid).map (wake effects)⟩

/-- `cond_wait` up to the context switch. -/
def World.sleep (w : World) (tid : TaskId) (i : PcbId) (wait : Wait) : World where
  tab := w.tab.set i { w.tab.pcb i with cond := ⟨tid, (w.tab.pcb i).cond.num + 1⟩ }
  tasks := Function.update w.tasks tid (some ⟨i, wait, false⟩)

/-- Task `tid` ran a call as far as it goes. -/
def World.finish (w : World) (tid : TaskId) (r : CallResult) : World :=
  let w := w.after r.tab r.effects
  match r.progress with
  | .returned _ => w
  | .blocked i wait => w.sleep tid i wait

/-- `cond_wait` after the context switch: the task is off the variable. -/
def World.awake (w : World) (tid : TaskId) (i : PcbId) : World where
  tab := w.tab.set i
    { w.tab.pcb i with cond := { (w.tab.pcb i).cond with num := (w.tab.pcb i).cond.num - 1 } }
  tasks := Function.update w.tasks tid none

/-- What can happen: a task issues a command, a blocked task runs on, a
segment of a peer arrives, the TCP timer runs. -/
inductive Event where
  | user (tid : TaskId) (c : Command)
  | resume (tid : TaskId)
  | segment (s : TcpSegment)
  | timer
deriving DecidableEq

/-- The segment that arrives, when one does. -/
def Event.arriving : Event → Option TcpSegment
  | segment s => some s
  | _ => none

@[simp] theorem Event.mem_arriving {e : Event} {s : TcpSegment} :
    s ∈ e.arriving ↔ e = .segment s := by
  cases e <;> simp [Event.arriving, eq_comm]

/-- How far the call of this event got, when the event is one. -/
def callResult (w : World) (env : Env) : Event → Option (TaskId × World × CallResult)
  | .user tid c =>
      if (w.tasks tid).isSome then none else some (tid, w, c.call env w.tab)
  | .resume tid =>
      match w.tasks tid with
      | none => none
      | some b =>
          let w := w.awake tid b.pcb
          some (tid, w, b.wait.retry env w.tab b.pcb)
  | _ => none

/-- One event. -/
def World.step (w : World) (x : Env × Event) : World :=
  match x.2 with
  | .segment s => w.after (arrive x.1 w.tab s).1 (arrive x.1 w.tab s).2
  | .timer => w.after (tcpTimer x.1 w.tab).1 (tcpTimer x.1 w.tab).2
  | e =>
      match callResult w x.1 e with
      | none => w
      | some (tid, w, r) => w.finish tid r

end Laplus.Tcp
