/-
# `Laplus.Tcp.Pcb` — the TCP control block and the table of sixteen

Field for field `struct tcp_pcb` of `tcp.c`, less the fields no function
reads (`mtu`, `mss` and the two urgent pointers).  Pointers into `pcbs[]` are
table indices, the linked queues are lists with the head first, and `buf` is
the memory at `pcb->buf` by byte offset, so that a copy past offset 8191 is
visible as such.

Two things are not in the source and no modelled function reads them: the
`hist` record of a pcb (what was stored, taken and sent since the slot was
last zeroed or its window opened) and the `gen` counter of a slot (how often
it has been handed out).  They name what the invariants speak about.
-/
import Laplus.Net.Time
import Laplus.Net.Ip
import Mathlib.Logic.Function.Basic
import Mathlib.Data.Fin.Basic

namespace Laplus.Tcp

open Net

/-! ## Control flags -/

def flgFin : UInt8 := 0x01
def flgSyn : UInt8 := 0x02
def flgRst : UInt8 := 0x04
def flgPsh : UInt8 := 0x08
def flgAck : UInt8 := 0x10

/-- `TCP_FLG_ISSET`. -/
def flgIsSet (x y : UInt8) : Bool := (x &&& 0x3f) &&& y != 0

/-! ## Endpoints and segments -/

/-- `struct tcp_endpoint`; the port is in network byte order. -/
structure Endpoint where
  addr : IpAddr
  port : UInt16
deriving DecidableEq

def Endpoint.zero : Endpoint := ⟨0, 0⟩

/-- `struct tcp_segment_info`, less the urgent pointer. -/
structure SegmentInfo where
  seq : UInt32
  ack : UInt32
  len : UInt16
  wnd : UInt16
deriving DecidableEq

/-- What `tcp_output_segment` hands to `ip_output`. -/
structure TcpSegment where
  seq : UInt32
  ack : UInt32
  flg : UInt8
  wnd : UInt16
  data : List UInt8
  localEp : Endpoint
  foreignEp : Endpoint
deriving DecidableEq

/-! ## The control block -/

/-- `TCP_PCB_STATE_*`. -/
inductive PcbState where
  | free | closed | listen | synSent | synReceived | established
  | finWait1 | finWait2 | closing | timeWait | closeWait | lastAck
deriving DecidableEq

/-- The eight states that the stages of the segment handler list one by one. -/
def PcbState.synchronized : PcbState → Bool
  | .synReceived | .established | .finWait1 | .finWait2
  | .closeWait | .closing | .lastAck | .timeWait => true
  | .free | .closed | .listen | .synSent => false

/-- A synchronized connection, or one whose SYN is out. -/
def PcbState.live : PcbState → Bool
  | .synSent => true
  | s => s.synchronized

theorem live_of_synchronized {s : PcbState} (h : s.synchronized) : s.live := by
  cases s <;> first | rfl | cases h

/-- `TCP_PCB_MODE_*`; `none` is the zero of a fresh slot. -/
inductive PcbMode where
  | none | rfc793 | socket
deriving DecidableEq

/-- An index into `pcbs[TCP_PCB_SIZE]`. -/
abbrev PcbId := Fin 16

/-- There is a slot 0. -/
instance neZeroSlots : @NeZero Nat Zero.ofOfNat0 16 := ⟨Nat.succ_ne_zero 15⟩

/-- `cond_t`. -/
structure Cond where
  taskid : UInt64
  num : UInt64
deriving DecidableEq

def Cond.zero : Cond := ⟨0, 0⟩

/-- `struct tcp_queue_entry`, its payload included. -/
structure QueueEntry where
  first : Timeval
  last : Timeval
  rto : UInt32
  seq : UInt32
  flg : UInt8
  data : List UInt8
deriving DecidableEq

structure SndSide where
  nxt : UInt32
  una : UInt32
  wnd : UInt16
  wl1 : UInt32
  wl2 : UInt32
deriving DecidableEq

structure RcvSide where
  nxt : UInt32
  wnd : UInt16
deriving DecidableEq

/-- History of a connection: the bytes copied into `buf` and the bytes handed
to the user since the window was last opened, and the segments this pcb gave
to `ip_output`. -/
structure History where
  stored : List UInt8
  taken : List UInt8
  sent : List TcpSegment
deriving DecidableEq

def History.zero : History := ⟨[], [], []⟩

/-- `sizeof(pcb->buf)`. -/
def bufSize : Nat := 8192

/-- `struct tcp_pcb`. -/
structure Pcb where
  state : PcbState
  mode : PcbMode
  localEp : Endpoint
  foreignEp : Endpoint
  snd : SndSide
  iss : UInt32
  rcv : RcvSide
  irs : UInt32
  buf : Nat → UInt8
  cond : Cond
  queue : List QueueEntry
  twTimer : Timeval
  parent : Option PcbId
  backlog : List PcbId
  hist : History

/-- `memset(pcb, 0, sizeof(*pcb))`. -/
def Pcb.zero : Pcb where
  state := .free
  mode := .none
  localEp := .zero
  foreignEp := .zero
  snd := ⟨0, 0, 0, 0, 0⟩
  iss := 0
  rcv := ⟨0, 0⟩
  irs := 0
  buf := fun _ => 0
  cond := .zero
  queue := []
  twTimer := .zero
  parent := none
  backlog := []
  hist := .zero

/-! ## The table -/

/-- `static struct tcp_pcb pcbs[TCP_PCB_SIZE]`, with the ghost counter of
each slot. -/
@[ext] structure Table where
  pcb : PcbId → Pcb
  gen : PcbId → Nat

/-- The table before the first call: static storage is zero. -/
def Table.boot : Table := ⟨fun _ => .zero, fun _ => 0⟩

def Table.set (t : Table) (i : PcbId) (p : Pcb) : Table :=
  { t with pcb := Function.update t.pcb i p }

@[simp] theorem Table.set_pcb_self (t : Table) (i : PcbId) (p : Pcb) :
    (t.set i p).pcb i = p := by simp [Table.set]

@[simp] theorem Table.set_pcb_ne (t : Table) {i j : PcbId} (p : Pcb) (h : j ≠ i) :
    (t.set i p).pcb j = t.pcb j := by simp [Table.set, h]

@[simp] theorem Table.set_gen (t : Table) (i : PcbId) (p : Pcb) :
    (t.set i p).gen = t.gen := rfl

@[simp] theorem Table.boot_pcb (i : PcbId) : Table.boot.pcb i = Pcb.zero := rfl

@[simp] theorem Table.boot_gen (i : PcbId) : Table.boot.gen i = 0 := rfl

/-! ## What a call lets the outside see -/

/-- Effects of a call, in program order: a segment of a pcb handed to
`ip_output`, an answer that belongs to no pcb, a `cond_broadcast`, and the
`memcpy` of segment text into a pcb's receive buffer. -/
inductive Effect where
  | output (i : PcbId) (s : TcpSegment)
  | reply (s : TcpSegment)
  | broadcast (i : PcbId)
  | copy (i : PcbId) (off : Nat) (text : List UInt8)
deriving DecidableEq

/-- What the environment decides in one step: the clock, `random()`, the
routing table, the answer of `ip_output_core` for a segment, and whether the
`k`-th allocation of the step succeeds. -/
structure Env where
  now : Timeval
  random : UInt32
  routes : List IpRoute
  link : TcpSegment → Bool
  calloc : Nat → Bool

/-- An environment in which nothing fails. -/
def Env.ideal (now : Timeval) (random : UInt32) (routes : List IpRoute) : Env where
  now := now
  random := random
  routes := routes
  link _ := true
  calloc _ := true

end Laplus.Tcp
