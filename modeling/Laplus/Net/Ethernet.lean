/-
# `Laplus.Net.Ethernet` — frames, and `ip_output` down to the wire

`ether_transmit_helper` puts a header in front of its data and zeros behind
it, up to the shortest frame; `ether_input` takes the header off and passes
the rest on, the padding included.  The sender's path below `ip_output` is
`ip_output_core`, `net_device_output` and the frame; the hardware address is
what ARP, or the broadcast test of `ip_output_device`, answers.
-/
import Laplus.Net.Datagram

namespace Laplus.Net

/-! ## Frames -/

/-- A MAC address. -/
structure EtherAddr where
  (a b c d e f : UInt8)
deriving DecidableEq

def EtherAddr.bytes (m : EtherAddr) : List UInt8 := [m.a, m.b, m.c, m.d, m.e, m.f]

def etherAddrBroadcast : EtherAddr := ⟨0xff, 0xff, 0xff, 0xff, 0xff, 0xff⟩

/-- `struct ether_hdr`. -/
structure EtherHdr where
  dst : EtherAddr
  src : EtherAddr
  type : UInt16
deriving DecidableEq

def EtherHdr.bytes (h : EtherHdr) : List UInt8 :=
  h.dst.bytes ++ (h.src.bytes ++ store16 h.type)

/-- `(struct ether_hdr *)data`, when the fourteen bytes are there. -/
def etherHdr : List UInt8 → Option EtherHdr
  | d₀ :: d₁ :: d₂ :: d₃ :: d₄ :: d₅ :: s₀ :: s₁ :: s₂ :: s₃ :: s₄ :: s₅ :: t₀ :: t₁ :: _ =>
      some ⟨⟨d₀, d₁, d₂, d₃, d₄, d₅⟩, ⟨s₀, s₁, s₂, s₃, s₄, s₅⟩, load16 t₀ t₁⟩
  | _ => none

@[simp] theorem EtherHdr.bytes_length (h : EtherHdr) : h.bytes.length = 14 := rfl

@[simp] theorem etherHdr_bytes (h : EtherHdr) (rest : List UInt8) :
    etherHdr (h.bytes ++ rest) = some h := by
  simp [EtherHdr.bytes, EtherAddr.bytes, store16, etherHdr]

def netProtocolTypeIp : UInt16 := 0x0800

/-- `ETHER_PAYLOAD_SIZE_MIN` and `ETHER_PAYLOAD_SIZE_MAX`. -/
def etherPayloadSizeMin : Nat := 46
def etherPayloadSizeMax : Nat := 1500

theorem setup_fits : ipHdrSizeMin + tcpHdrSize < (1500 : UInt16).toNat := by decide

/-- The MTU `ether_setup_helper` sets. -/
def etherSetupHelper : NetDevice := ⟨1500, setup_fits⟩

/-- The zeros behind `len` bytes of data. -/
def etherPad (len : Nat) : List UInt8 := List.replicate (etherPayloadSizeMin - len) 0

/-- The frame `ether_transmit_helper` hands to the driver of the device `addr`. -/
def etherTransmitHelper (addr : EtherAddr) (type : UInt16) (data : List UInt8) (dst : EtherAddr) :
    List UInt8 :=
  (EtherHdr.mk dst addr (hton16 type)).bytes ++ (data ++ etherPad data.length)

/-- `ether_input`: the type and the data it calls `net_input_handler` with. -/
def etherInput (addr : EtherAddr) (data : List UInt8) : Option (UInt16 × List UInt8) :=
  if data.length < 14 then none
  else
    match etherHdr data with
    | none => none
    | some hdr =>
        if addr ≠ hdr.dst ∧ etherAddrBroadcast ≠ hdr.dst then none
        else some (ntoh16 hdr.type, data.drop 14)

/-- A frame comes in as it went out, with its padding. -/
theorem ether_round_trip (addr src : EtherAddr) (type : UInt16) (data : List UInt8) :
    etherInput addr (etherTransmitHelper src type data addr) =
      some (type, data ++ etherPad data.length) := by
  have hlong : ¬ (etherTransmitHelper src type data addr).length < 14 := by
    simp only [etherTransmitHelper, List.length_append, EtherHdr.bytes_length]
    omega
  have hdrop : (etherTransmitHelper src type data addr).drop 14 =
      data ++ etherPad data.length := rfl
  rw [etherInput, if_neg hlong, hdrop, etherTransmitHelper, etherHdr_bytes]
  simp only [ntoh16_hton16]
  rw [if_neg fun h => h.1 rfl]

/-! ## `ip_output` -/

/-- What `ip_output` decides: the interface, the next hop, the datagram. -/
structure IpSent where
  iface : IpIface
  nexthop : IpAddr
  datagram : List UInt8
deriving DecidableEq

/-- `ip_output`; `id` is the answer of `ip_generate_id`. -/
def ipOutputSent (routes : List IpRoute) (id : UInt16) (protocol : UInt8) (data : List UInt8)
    (src dst : IpAddr) : Option IpSent :=
  if src = ipAddrAny ∧ dst = ipAddrBroadcast then none
  else
    match ipRouteLookup routes dst with
    | none => none
    | some route =>
        if src ≠ ipAddrAny ∧ src ≠ route.iface.unicast then none
        else if route.iface.dev.mtu.toNat < ipHdrSizeMin + data.length then none
        else
          some
            { iface := route.iface
              nexthop := if route.nexthop ≠ ipAddrAny then route.nexthop else dst
              datagram := ipOutputCore protocol data route.iface.unicast dst id 0 }

/-- It is the verdict of `ipOutput` with the datagram beside it. -/
theorem ipOutputSent_isSome (routes : List IpRoute) (id : UInt16) (protocol : UInt8)
    (data : List UInt8) (src dst : IpAddr) :
    (ipOutputSent routes id protocol data src dst).isSome =
      ipOutput routes true data.length src dst := by
  unfold ipOutputSent ipOutput
  split
  · rfl
  cases ipRouteLookup routes dst with
  | none => rfl
  | some route =>
      simp only
      split
      · rfl
      split
      · rfl
      · rfl

/-- `net_device_output` of an open device, with the frame its driver gets. -/
def netDeviceOutput (dev : NetDevice) (addr : EtherAddr) (type : UInt16) (data : List UInt8)
    (dst : EtherAddr) : Option (List UInt8) :=
  if data.length > dev.mtu.toNat then none else some (etherTransmitHelper addr type data dst)

/-- The frame `ip_output` sends from the device `addr` to the address `hwaddr`. -/
def ipOutputFrame (routes : List IpRoute) (id : UInt16) (addr hwaddr : EtherAddr)
    (protocol : UInt8) (data : List UInt8) (src dst : IpAddr) : Option (List UInt8) :=
  (ipOutputSent routes id protocol data src dst).bind fun sent =>
    netDeviceOutput sent.iface.dev addr netProtocolTypeIp sent.datagram hwaddr

end Laplus.Net
