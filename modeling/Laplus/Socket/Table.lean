/-
# `Laplus.Socket.Table` — the socket table

`socket.c` keeps 128 entries, each naming a TCP or a UDP control block by
its index.  The calls take a pointer to an entry, which is an index here; a
TCP command runs in the calling task, and may sleep.  What a call finds in
the entry it looks up when it needs it: `socketaccept` reads the listening
entry once more when `tcp_accept` has returned.

Nothing here locks the table, and no call checks `used`.
-/
import Laplus.Tcp.SendWindow
import Laplus.Udp.Pcb

namespace Laplus.Socket

open Net Lib Tcp

/-! ## Entries -/

/-- `AF_INET`. -/
def afInet : Int := 2

/-- `SOCK_STREAM`. -/
def sockStream : Int := 1

/-- `SOCK_DGRAM`. -/
def sockDgram : Int := 2

/-- `struct socket`. -/
structure Entry where
  used : Bool
  family : Int
  type : Int
  desc : Int
deriving DecidableEq

/-- `memset(s, 0, sizeof(*s))`. -/
def Entry.zero : Entry := ⟨false, 0, 0, 0⟩

/-- An index into `sockets[128]`. -/
abbrev SocketId := Fin 128

/-- The entry `socketalloc` would take. -/
def firstUnused (t : SocketId → Entry) : Option SocketId :=
  (List.finRange 128).find? fun a => !(t a).used

/-- `socketalloc`: the entry is marked, the rest of it stays. -/
def socketalloc (t : SocketId → Entry) : Option (SocketId × (SocketId → Entry)) :=
  (firstUnused t).map fun a => (a, Function.update t a { t a with used := true })

/-! ## The system -/

/-- The tables, the tasks, and for a task asleep in `socketaccept` the entry it
was called on.  `holds` is not in the source: the incarnation of the pcb that
was opened or accepted for an entry. -/
structure System where
  world : World
  udp : Udp.Table
  sockets : SocketId → Entry
  accepts : TaskId → Option SocketId
  holds : SocketId → Nat

def System.boot : System := ⟨.boot, fun _ => .zero, fun _ => .zero, fun _ => none, fun _ => 0⟩

/-- The incarnation of the pcb an index names. -/
def incarnation (t : Tcp.Table) (id : Int) : Nat :=
  if h : 0 ≤ id ∧ id < 16 then t.gen ⟨id.toNat, Udp.toNat_lt_slots h⟩ else 0

/-- An entry is filled in. -/
def System.enter (σ : System) (a : SocketId) (e : Entry) : System :=
  { σ with
    sockets := Function.update σ.sockets a e
    holds := Function.update σ.holds a (incarnation σ.world.tab e.desc) }

/-- How far a socket call got.  `fault` is a store through a null pointer. -/
inductive Answer where
  | returned (r : Ret)
  | asleep
  | fault
deriving DecidableEq

/-- What a TCP command answers. -/
def Answer.of : Option Ret → Answer
  | some r => .returned r
  | none => .asleep

/-- A TCP event on its own. -/
def System.tcp (σ : System) (env : Env) (tid : TaskId) (e : Event) : System × Option Ret :=
  ({ σ with world := σ.world.step (env, e) }, σ.world.answer tid (env, e))

/-! ## The calls -/

/-- `socketopen`; a failed open leaves the entry in use. -/
def socketOpen (σ : System) (env : Env) (tid : TaskId) (domain type protocol : Int) :
    System × Answer :=
  if domain ≠ afInet ∨ (type ≠ sockStream ∧ type ≠ sockDgram) ∨ protocol ≠ 0 then
    (σ, .returned (.of (-1)))
  else
    match socketalloc σ.sockets with
    | none => (σ, .returned (.of (-1)))
    | some (a, sockets) =>
        let σ := { σ with sockets }
        let (σ, desc) :=
          if type = sockStream then
            let (σ, r) := σ.tcp env tid (.user tid .open)
            (σ, r.elim (-1) Ret.val)
          else
            let (udp, desc) := Udp.udpOpen σ.udp
            ({ σ with udp }, desc)
        let σ := σ.enter a ⟨true, domain, type, desc⟩
        if desc = -1 then (σ, .returned (.of (-1))) else (σ, .returned (.of a.val))

/-- `socketclose`; what `tcp_close` answers does not matter. -/
def socketClose (σ : System) (env : Env) (tid : TaskId) (s : SocketId) : System × Answer :=
  let e := σ.sockets s
  let clear (σ : System) := { σ with sockets := Function.update σ.sockets s .zero }
  if e.type = sockStream then
    (clear (σ.tcp env tid (.user tid (.close e.desc))).1, .returned (.of 0))
  else if e.type = sockDgram then
    (clear { σ with udp := (Udp.udpClose σ.udp e.desc).1 }, .returned (.of 0))
  else (σ, .returned (.of (-1)))

/-- A call that is handed through to `tcp.c`. -/
def System.stream (σ : System) (env : Env) (tid : TaskId) (s : SocketId)
    (c : Int → Command) : System × Answer :=
  let e := σ.sockets s
  if e.type = sockStream ∧ e.family = afInet then
    let (σ, r) := σ.tcp env tid (.user tid (c e.desc))
    (σ, .of r)
  else (σ, .returned (.of (-1)))

/-- `socketbind`. -/
def socketBind (σ : System) (env : Env) (tid : TaskId) (s : SocketId) (addr : IpAddr)
    (port : UInt16) : System × Answer :=
  let e := σ.sockets s
  if e.type = sockDgram ∧ e.family = afInet then
    let (udp, r) := Udp.udpBind σ.udp e.desc ⟨addr, port⟩
    ({ σ with udp }, .returned (.of r))
  else σ.stream env tid s (.bind · ⟨addr, port⟩)

/-- `socketlisten`; nothing reads `backlog`. -/
def socketListen (σ : System) (env : Env) (tid : TaskId) (s : SocketId) : System × Answer :=
  σ.stream env tid s .listen

/-- `socketconnect`. -/
def socketConnect (σ : System) (env : Env) (tid : TaskId) (s : SocketId) (addr : IpAddr)
    (port : UInt16) : System × Answer :=
  σ.stream env tid s (.connect · ⟨addr, port⟩)

/-- `socketrecv`; the length becomes a `size_t`. -/
def socketRecv (σ : System) (env : Env) (tid : TaskId) (s : SocketId) (n : Int) :
    System × Answer :=
  σ.stream env tid s (.receive · (n % 2 ^ 64).toNat)

/-- `socketsend`. -/
def socketSend (σ : System) (env : Env) (tid : TaskId) (s : SocketId) (data : List UInt8) :
    System × Answer :=
  σ.stream env tid s (.send · data)

/-- `socketaccept` once `tcp_accept` has returned; without a free entry it
writes through the null pointer. -/
def socketAccepted (σ : System) (s : SocketId) (r : Ret) : System × Answer :=
  if r.val = -1 then (σ, .returned (.of (-1)))
  else
    match socketalloc σ.sockets with
    | none => (σ, .fault)
    | some (a, sockets) =>
        let σ := { σ with sockets }
        let e := σ.sockets s
        (σ.enter a ⟨true, e.family, e.type, r.val⟩, .returned ⟨a.val, [], r.foreign⟩)

/-- `socketaccept`. -/
def socketAccept (σ : System) (env : Env) (tid : TaskId) (s : SocketId) : System × Answer :=
  let e := σ.sockets s
  if e.type = sockStream ∧ e.family = afInet then
    match σ.tcp env tid (.user tid (.accept e.desc)) with
    | (σ, some r) => socketAccepted σ s r
    | (σ, none) => ({ σ with accepts := Function.update σ.accepts tid (some s) }, .asleep)
  else (σ, .returned (.of (-1)))

/-! ## One event -/

/-- A call of `socket.c`. -/
inductive Call where
  | open (domain type protocol : Int)
  | close (s : SocketId)
  | bind (s : SocketId) (addr : IpAddr) (port : UInt16)
  | listen (s : SocketId)
  | accept (s : SocketId)
  | connect (s : SocketId) (addr : IpAddr) (port : UInt16)
  | send (s : SocketId) (data : List UInt8)
  | recv (s : SocketId) (n : Int)
deriving DecidableEq

/-- What can happen: a task calls, a sleeping task runs on, a segment arrives,
the TCP timer runs. -/
inductive Action where
  | call (tid : TaskId) (c : Call)
  | resume (tid : TaskId)
  | segment (s : TcpSegment)
  | timer
deriving DecidableEq

/-- A call up to its return or its first sleep. -/
def Call.run (σ : System) (env : Env) (tid : TaskId) : Call → System × Answer
  | «open» d t p => socketOpen σ env tid d t p
  | close s => socketClose σ env tid s
  | bind s a p => socketBind σ env tid s a p
  | listen s => socketListen σ env tid s
  | accept s => socketAccept σ env tid s
  | connect s a p => socketConnect σ env tid s a p
  | send s d => socketSend σ env tid s d
  | recv s n => socketRecv σ env tid s n

/-- A sleeping call from where it sleeps. -/
def System.resume (σ : System) (env : Env) (tid : TaskId) : System × Answer :=
  match σ.accepts tid, σ.tcp env tid (.resume tid) with
  | some s, (σ, some r) =>
      socketAccepted { σ with accepts := Function.update σ.accepts tid none } s r
  | _, (σ, r) => (σ, .of r)

/-- One event.  A task that sleeps calls nothing. -/
def System.step (σ : System) (x : Env × Action) : System :=
  match x.2 with
  | .call tid c => if (σ.world.tasks tid).isSome then σ else (c.run σ x.1 tid).1
  | .resume tid => (σ.resume x.1 tid).1
  | .segment s => { σ with world := σ.world.step (x.1, .segment s) }
  | .timer => { σ with world := σ.world.step (x.1, .timer) }

end Laplus.Socket
