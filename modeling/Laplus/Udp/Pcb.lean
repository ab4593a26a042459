/-
# `Laplus.Udp.Pcb` — the UDP control blocks, sending and receiving

`udp.c` has its own table of sixteen control blocks, each with a queue of
received datagrams.  A block is opened, bound and closed by its index.
`udp_sendto` picks the local endpoint and hands a
message to `ip_output`; `udp_input` checks a message and appends it to the
queue of the block that is bound to its destination.

The length `udp_input` gets is a `size_t`; it drops the message unless its
own length field says the same.
-/
import Laplus.Net.Transport
import Laplus.Tcp.Table

namespace Laplus.Udp

open Net

/-! ## The table -/

/-- `struct udp_endpoint`; the port is in network byte order. -/
structure Endpoint where
  addr : IpAddr
  port : UInt16
deriving DecidableEq

/-- `UDP_PCB_STATE_*`. -/
inductive PcbState where
  | free | «open» | closing
deriving DecidableEq

/-- `struct udp_queue_entry`, with the data that follows it. -/
structure QueueEntry where
  foreign : Endpoint
  data : List UInt8
deriving DecidableEq

/-- `struct udp_pcb`. -/
structure Pcb where
  state : PcbState
  localEp : Endpoint
  queue : List QueueEntry
  cond : Tcp.Cond
deriving DecidableEq

/-- An index into `pcbs[UDP_PCB_SIZE]`. -/
abbrev PcbId := Fin 16

abbrev Table := PcbId → Pcb

/-- `udp_pcb_select`. -/
def udpPcbSelect (t : Table) (addr : IpAddr) (port : UInt16) : Option PcbId :=
  (List.finRange 16).find? fun i =>
    (t i).state = .open ∧ ((t i).localEp.addr = ipAddrAny ∨ (t i).localEp.addr = addr) ∧
      (t i).localEp.port = port

theorem toNat_lt_slots {id : Int} (h : 0 ≤ id ∧ id < 16) : id.toNat < 16 := by omega

/-- `udp_pcb_get`. -/
def udpPcbGet (t : Table) (id : Int) : Option PcbId :=
  if h : 0 ≤ id ∧ id < 16 then
    let i : PcbId := ⟨id.toNat, toNat_lt_slots h⟩
    if (t i).state ≠ .open then none else some i
  else none

/-! ## Opening, binding and closing -/

/-- `memset(pcb, 0, sizeof(*pcb))`. -/
def Pcb.zero : Pcb := ⟨.free, ⟨0, 0⟩, [], .zero⟩

/-- `udp_pcb_alloc`. -/
def udpPcbAlloc (t : Table) : Option (PcbId × Table) :=
  ((List.finRange 16).find? fun i => (t i).state = .free).map fun i =>
    (i, Function.update t i { t i with state := .open, cond := .zero })

/-- `udp_pcb_release`: while a task sleeps on the block it is only marked. -/
def udpPcbRelease (t : Table) (i : PcbId) : Table :=
  if (Tcp.condDestroy (t i).cond).2 = Tcp.eBusy then
    Function.update t i { t i with state := .closing }
  else Function.update t i .zero

/-- `udp_pcb_id`. -/
def udpPcbId (i : PcbId) : Int := i.val

/-- `udp_open`. -/
def udpOpen (t : Table) : Table × Int :=
  match udpPcbAlloc t with
  | none => (t, -1)
  | some (i, t) => (t, udpPcbId i)

/-- `udp_close`. -/
def udpClose (t : Table) (id : Int) : Table × Int :=
  match udpPcbGet t id with
  | none => (t, -1)
  | some i => (udpPcbRelease t i, 0)

/-- `udp_bind`. -/
def udpBind (t : Table) (id : Int) (localEp : Endpoint) : Table × Int :=
  match udpPcbGet t id with
  | none => (t, -1)
  | some i =>
      match udpPcbSelect t localEp.addr localEp.port with
      | some _ => (t, -1)
      | none => (Function.update t i { t i with localEp }, 0)

/-! ## Sending -/

/-- `UDP_SOURCE_PORT_MIN` to `UDP_SOURCE_PORT_MAX`, in the order of the search. -/
def sourcePorts : List UInt16 := (List.range 16384).map fun k => UInt16.ofNat (49152 + k)

/-- The local address of `udp_sendto`. -/
def Pcb.source (routes : List IpRoute) (pcb : Pcb) (foreign : Endpoint) : Option IpAddr :=
  if pcb.localEp.addr = ipAddrAny then
    (ipRouteGetIface routes foreign.addr).map IpIface.unicast
  else some pcb.localEp.addr

/-- `udp_sendto` up to its call of `udp_output`: the table with the port it
chose, and the endpoint it sends from. -/
def udpSendto (routes : List IpRoute) (t : Table) (id : Int) (foreign : Endpoint) :
    Option (Table × Endpoint) :=
  (udpPcbGet t id).bind fun i =>
    ((t i).source routes foreign).bind fun addr =>
      if (t i).localEp.port = 0 then
        (sourcePorts.find? fun p => (udpPcbSelect t addr (hton16 p)).isNone).map fun p =>
          (Function.update t i
            { t i with localEp := { (t i).localEp with port := hton16 p } }, ⟨addr, hton16 p⟩)
      else some (t, ⟨addr, (t i).localEp.port⟩)

/-- `struct udp_hdr`. -/
structure Hdr where
  src : UInt16
  dst : UInt16
  len : UInt16
  sum : UInt16
deriving DecidableEq

/-- The header in memory. -/
def Hdr.bytes (h : Hdr) : List UInt8 :=
  store16 h.src ++ (store16 h.dst ++ (store16 h.len ++ store16 h.sum))

/-- `(struct udp_hdr *)data`, when the eight bytes are there. -/
def udpHdr : List UInt8 → Option Hdr
  | s₀ :: s₁ :: d₀ :: d₁ :: l₀ :: l₁ :: c₀ :: c₁ :: _ =>
      some ⟨load16 s₀ s₁, load16 d₀ d₁, load16 l₀ l₁, load16 c₀ c₁⟩
  | _ => none

@[simp] theorem Hdr.bytes_length (h : Hdr) : h.bytes.length = 8 := rfl

@[simp] theorem udpHdr_bytes (h : Hdr) (rest : List UInt8) : udpHdr (h.bytes ++ rest) = some h := by
  simp [Hdr.bytes, store16, udpHdr]

/-- `IP_PAYLOAD_SIZE_MAX`. -/
def ipPayloadSizeMax : Nat := 4096 - ipHdrSizeMin

/-- The header `udp_output` builds, before the checksum. -/
def outputHdr (src dst : Endpoint) (len : Nat) : Hdr where
  src := src.port
  dst := dst.port
  len := hton16 (UInt16.ofNat (8 + len))
  sum := 0

/-- The message with its checksum. -/
def message (src dst : Endpoint) (data : List UInt8) : List UInt8 :=
  let hdr := outputHdr src dst data.length
  let psum := pseudoSum src.addr dst.addr ipProtocolUdp (UInt16.ofNat (8 + data.length))
  { hdr with sum := cksum16 (hdr.bytes ++ data) psum.toUInt32 }.bytes ++ data

/-- What `udp_output` hands to `ip_output`; `none` when it is too long. -/
def udpOutput (src dst : Endpoint) (data : List UInt8) : Option (List UInt8) :=
  if data.length > ipPayloadSizeMax - 8 then none else some (message src dst data)

/-! ## Receiving -/

/-- A message that passed the checks of `udp_input`. -/
structure Arrival where
  src : Endpoint
  dst : Endpoint
  data : List UInt8
deriving DecidableEq

/-- `udp_input` up to the lock. -/
def udpInput (m : List UInt8) (len : UInt64) (src dst : IpAddr) : Option (Verdict Arrival) :=
  if len < 8 then some .dropped
  else
    (udpHdr m).bind fun hdr =>
      if len ≠ (ntoh16 hdr.len).toUInt64 then some .dropped
      else
        (window m len.toUInt16.toNat).bind fun bytes =>
          if cksum16 bytes (pseudoSum src dst ipProtocolUdp len.toUInt16).toUInt32 ≠ 0 then
            some .dropped
          else
            (window (m.drop 8) (len - 8).toUInt16.toNat).map fun data =>
              .accepted ⟨⟨src, hdr.src⟩, ⟨dst, hdr.dst⟩, data⟩

/-- `udp_input` from the lock on; `alloc` says whether both allocations succeed. -/
def udpDeliver (alloc : Bool) (t : Table) (a : Arrival) : Table :=
  match udpPcbSelect t a.dst.addr a.dst.port with
  | none => t
  | some i =>
      if alloc then
        Function.update t i { t i with queue := (t i).queue ++ [⟨a.src, a.data⟩] }
      else t

end Laplus.Udp
