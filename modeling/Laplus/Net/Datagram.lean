/-
# `Laplus.Net.Datagram` — the IP header, `ip_input` and `ip_output_core`

A received datagram is the list of bytes the device handed up.  The fields of
a header are kept as they stand in memory, in network byte order.  What
`ip_input` does with a datagram is to call one handler with a pointer and a
`size_t`: `IpCall` keeps the offset of the pointer and the length as the code
computes them, `total - hlen` in 64 bits.
-/
import Laplus.Net.Bytes

namespace Laplus.Net

/-! ## Interfaces and protocols -/

/-- The three addresses of `struct ip_iface`. -/
structure IfaceAddr where
  unicast : IpAddr
  netmask : IpAddr
  broadcast : IpAddr
deriving DecidableEq

/-- The addresses `ip_iface_alloc` and `ip_iface_reconfigure` set. -/
def ifaceAddr (unicast netmask : IpAddr) : IfaceAddr :=
  ⟨unicast, netmask, (unicast &&& netmask) ||| ~~~netmask⟩

/-- The handlers that register with `ip_protocol_register`. -/
inductive IpHandler where
  | icmp | tcp | udp
deriving DecidableEq

/-- `struct ip_protocol`. -/
structure IpProtocol where
  type : UInt8
  handler : IpHandler
deriving DecidableEq

def ipProtocolIcmp : UInt8 := 1
def ipProtocolTcp : UInt8 := 6
def ipProtocolUdp : UInt8 := 17

/-- The list after `icmp_init`, `udp_init` and `tcp_init`. -/
def ipProtocols : List IpProtocol :=
  [⟨ipProtocolTcp, .tcp⟩, ⟨ipProtocolUdp, .udp⟩, ⟨ipProtocolIcmp, .icmp⟩]

/-! ## The header -/

/-- `struct ip_hdr`. -/
structure IpHdr where
  vhl : UInt8
  tos : UInt8
  total : UInt16
  id : UInt16
  offset : UInt16
  ttl : UInt8
  protocol : UInt8
  sum : UInt16
  src : IpAddr
  dst : IpAddr
deriving DecidableEq

/-- The header in memory. -/
def IpHdr.bytes (h : IpHdr) : List UInt8 :=
  [h.vhl, h.tos] ++ (store16 h.total ++ (store16 h.id ++ (store16 h.offset ++
    ([h.ttl, h.protocol] ++ (store16 h.sum ++ (store32 h.src ++ store32 h.dst))))))

/-- `(struct ip_hdr *)data`, when the twenty bytes are there. -/
def ipHdr : List UInt8 → Option IpHdr
  | vhl :: tos :: t₀ :: t₁ :: i₀ :: i₁ :: o₀ :: o₁ :: ttl :: protocol :: c₀ :: c₁ ::
      s₀ :: s₁ :: s₂ :: s₃ :: d₀ :: d₁ :: d₂ :: d₃ :: _ =>
      some
        { vhl, tos, ttl, protocol
          total := load16 t₀ t₁
          id := load16 i₀ i₁
          offset := load16 o₀ o₁
          sum := load16 c₀ c₁
          src := load32 s₀ s₁ s₂ s₃
          dst := load32 d₀ d₁ d₂ d₃ }
  | _ => none

@[simp] theorem IpHdr.bytes_length (h : IpHdr) : h.bytes.length = 20 := rfl

@[simp] theorem ipHdr_bytes (h : IpHdr) (rest : List UInt8) :
    ipHdr (h.bytes ++ rest) = some h := by
  simp [IpHdr.bytes, store16, store32, ipHdr]

/-- `hlen`, as `ip_input` reads it. -/
def IpHdr.hlen (h : IpHdr) : UInt16 := (h.vhl &&& 0x0f).toUInt16 <<< 2

/-- `total`, as `ip_input` reads it. -/
def IpHdr.totalLen (h : IpHdr) : UInt16 := ntoh16 h.total

/-! ## `ip_input` -/

/-- The call of a handler: where its `data` points to, its `len`, the rest. -/
structure IpCall where
  handler : IpHandler
  off : UInt16
  len : UInt64
  src : IpAddr
  dst : IpAddr
deriving DecidableEq

/-- The call for the protocol entry that was found. -/
def ipCall (hdr : IpHdr) (proto : IpProtocol) : IpCall where
  handler := proto.handler
  off := hdr.hlen
  len := hdr.totalLen.toUInt64 - hdr.hlen.toUInt64
  src := hdr.src
  dst := hdr.dst

/-- The search of `ip_input` through the protocol list. -/
def ipProtocolFind (protocols : List IpProtocol) (type : UInt8) : Option IpProtocol :=
  protocols.find? fun proto => proto.type == type

/-- `ip_input`; `iface` is what `net_device_get_iface` answers.  `none`: no
handler is called. -/
def ipInput (protocols : List IpProtocol) (iface : Option IfaceAddr) (data : List UInt8) :
    Option IpCall :=
  if data.length < ipHdrSizeMin then none
  else
    match ipHdr data with
    | none => none
    | some hdr =>
        if hdr.vhl >>> 4 ≠ 4 then none
        else if data.length < hdr.hlen.toNat then none
        else if data.length < hdr.totalLen.toNat then none
        else if cksum16 (data.take hdr.hlen.toNat) 0 ≠ 0 then none
        else if ntoh16 hdr.offset &&& 0x2000 ≠ 0 ∨ ntoh16 hdr.offset &&& 0x1fff ≠ 0 then none
        else
          match iface with
          | none => none
          | some iface =>
              if hdr.dst ≠ iface.unicast ∧
                  hdr.dst ≠ iface.broadcast ∧ hdr.dst ≠ ipAddrBroadcast then none
              else (ipProtocolFind protocols hdr.protocol).map (ipCall hdr)

/-- What a datagram must look like for `ip_input` to hand it to the entry
`proto`: the checks the function makes, one by one. -/
structure Admitted (protocols : List IpProtocol) (iface : Option IfaceAddr) (data : List UInt8)
    (hdr : IpHdr) (proto : IpProtocol) : Prop where
  long : ipHdrSizeMin ≤ data.length
  header : ipHdr data = some hdr
  version : hdr.vhl >>> 4 = 4
  hlen_le : hdr.hlen.toNat ≤ data.length
  total_le : hdr.totalLen.toNat ≤ data.length
  sum : cksum16 (data.take hdr.hlen.toNat) 0 = 0
  unfragmented : ntoh16 hdr.offset &&& 0x2000 = 0 ∧ ntoh16 hdr.offset &&& 0x1fff = 0
  addressed : ∃ i ∈ iface, hdr.dst = i.unicast ∨ hdr.dst = i.broadcast ∨ hdr.dst = ipAddrBroadcast
  registered : proto ∈ ipProtocolFind protocols hdr.protocol

/-- `ip_input` calls a handler exactly for the admitted datagrams. -/
theorem ipInput_eq_some {protocols : List IpProtocol} {iface : Option IfaceAddr}
    {data : List UInt8} {call : IpCall} :
    ipInput protocols iface data = some call ↔
      ∃ hdr proto, Admitted protocols iface data hdr proto ∧ call = ipCall hdr proto := by
  constructor
  · intro h
    cases hhdr : ipHdr data with
    | none => simp [ipInput, hhdr] at h
    | some hdr =>
        cases iface with
        | none => simp [ipInput, hhdr] at h
        | some i =>
            -- every check is passed, in order
            simp only [ipInput, hhdr, Option.ite_none_left_eq_some, Option.map_eq_some_iff] at h
            obtain ⟨hlong, hver, hhlen, htotal, hsum, hoff, hdst, proto, hp, rfl⟩ := h
            refine ⟨hdr, proto, ⟨not_lt.mp hlong, hhdr, not_not.mp hver, not_lt.mp hhlen,
              not_lt.mp htotal, not_not.mp hsum, ?_, ⟨i, rfl, ?_⟩, hp⟩, rfl⟩
            · simpa only [not_or, not_not] using hoff
            · tauto
  · rintro ⟨hdr, proto, ⟨hlong, hhdr, hver, hhlen, htotal, hsum, hoff, ⟨i, hi, hdst⟩, hp⟩, rfl⟩
    cases hi
    unfold ipInput
    rw [if_neg (not_lt.mpr hlong), hhdr]
    simp only
    rw [if_neg (not_not.mpr hver), if_neg (not_lt.mpr hhlen), if_neg (not_lt.mpr htotal),
      if_neg (not_not.mpr hsum), if_neg (by tauto), if_neg (by tauto), Option.mem_def.mp hp]
    rfl

/-! ## `ip_output_core` -/

/-- The header `ip_output_core` builds, before the checksum. -/
def ipOutputHdr (protocol : UInt8) (len : Nat) (src dst : IpAddr) (id offset : UInt16) : IpHdr where
  vhl := (4 : UInt8) <<< 4 ||| (20 : UInt8) >>> 2
  tos := 0
  total := hton16 (UInt16.ofNat (20 + len))
  id := hton16 id
  offset := hton16 offset
  ttl := 0xff
  protocol := protocol
  sum := 0
  src := src
  dst := dst

/-- The datagram `ip_output_core` hands to the device. -/
def ipOutputCore (protocol : UInt8) (data : List UInt8) (src dst : IpAddr) (id offset : UInt16) :
    List UInt8 :=
  let hdr := ipOutputHdr protocol data.length src dst id offset
  { hdr with sum := cksum16 hdr.bytes 0 }.bytes ++ data

end Laplus.Net
