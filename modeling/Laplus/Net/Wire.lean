/-
# `Laplus.Net.Wire` — from a transport message to the other host's handler

Each layer puts something around its data and the same layer of the other
host takes it off again.  `ipInput_output` and the two lemmas about the
messages are stated with arbitrary bytes behind the datagram: the padding of
a short frame travels up to IP, which cuts it off with the total length.

The three checksums are undone by `cksum16_fill`; for that each header is
written as what stands before its checksum field, the field, and the rest.
-/
import Laplus.Net.Contain
import Laplus.Net.Ethernet

namespace Laplus.Net

/-! ## IP -/

/-- The part of the header before its checksum. -/
def IpHdr.front (h : IpHdr) : List UInt8 :=
  [h.vhl, h.tos] ++ (store16 h.total ++ (store16 h.id ++ (store16 h.offset ++
    [h.ttl, h.protocol])))

@[simp] theorem IpHdr.front_length (h : IpHdr) : h.front.length = 10 := rfl

theorem IpHdr.bytes_sum (h : IpHdr) (v : UInt16) :
    { h with sum := v }.bytes = h.front ++ (store16 v ++ (store32 h.src ++ store32 h.dst)) := by
  simp only [IpHdr.bytes, IpHdr.front, List.append_assoc]

/-- The header `ip_output_core` sends has checksum zero. -/
theorem ipOutputHdr_sum (h : IpHdr) (hz : h.sum = 0) :
    cksum16 { h with sum := cksum16 h.bytes 0 }.bytes 0 = 0 := by
  have hb : h.bytes = h.front ++ (store16 0 ++ (store32 h.src ++ store32 h.dst)) := by
    rw [← h.bytes_sum, ← hz]
  rw [h.bytes_sum, hb]
  exact cksum16_fill (by rw [h.front_length]) (by simp) zero_le_init

/-- The call of the handler for a message of `len` bytes. -/
def messageCall (handler : IpHandler) (len : Nat) (src dst : IpAddr) : IpCall where
  handler := handler
  off := 20
  len := UInt64.ofNat len
  src := src
  dst := dst

/-- `ip_input` undoes `ip_output_core`. -/
theorem ipInput_output {protocol : UInt8} {handler : IpHandler}
    (hp : ipProtocolFind ipProtocols protocol = some ⟨protocol, handler⟩) {msg : List UInt8}
    (hlen : msg.length ≤ 65515) (src : IpAddr) (id : UInt16) (iface : IfaceAddr)
    (pad : List UInt8) :
    ipInput ipProtocols (some iface)
        (ipOutputCore protocol msg src iface.unicast id 0 ++ pad) =
      some (messageCall handler msg.length src iface.unicast) := by
  let hdr : IpHdr := ipOutputHdr protocol msg.length src iface.unicast id 0
  let sent : IpHdr := { hdr with sum := cksum16 hdr.bytes 0 }
  have hdata : ipOutputCore protocol msg src iface.unicast id 0 ++ pad =
      sent.bytes ++ (msg ++ pad) := List.append_assoc _ _ _
  have htotal : sent.totalLen.toNat = 20 + msg.length := by
    show (ntoh16 (hton16 (UInt16.ofNat (20 + msg.length)))).toNat = _
    rw [ntoh16_hton16, UInt16.toNat_ofNat']
    omega
  have hvhl : sent.vhl = 0x45 := by
    show (4 : UInt8) <<< 4 ||| (20 : UInt8) >>> 2 = 0x45
    decide
  have hhlen : sent.hlen = 20 := by
    rw [IpHdr.hlen, hvhl]
    decide
  have hoff : ntoh16 sent.offset = 0 := ntoh16_hton16 0
  have hlong : (sent.bytes ++ (msg ++ pad)).length = 20 + (msg.length + pad.length) := by
    rw [List.length_append, List.length_append, IpHdr.bytes_length]
  have htake : (sent.bytes ++ (msg ++ pad)).take 20 = sent.bytes := rfl
  have ha : Admitted ipProtocols (some iface) (sent.bytes ++ (msg ++ pad)) sent
      ⟨protocol, handler⟩ :=
    { long := by rw [hlong]; exact Nat.le_add_right _ _
      header := ipHdr_bytes sent _
      version := by rw [hvhl]; decide
      hlen_le := by rw [hhlen, hlong]; exact Nat.le_add_right _ _
      total_le := by rw [htotal, hlong]; omega
      sum := by
        rw [hhlen]
        exact (congrArg (cksum16 · 0) htake).trans (ipOutputHdr_sum hdr rfl)
      unfragmented := by rw [hoff]; decide
      addressed := ⟨iface, rfl, .inl rfl⟩
      registered := hp }
  rw [hdata, ipInput_eq_some.mpr ⟨sent, _, ha, rfl⟩]
  have hsub : sent.totalLen.toUInt64 - sent.hlen.toUInt64 = UInt64.ofNat msg.length := by
    have h20 : sent.hlen.toUInt64.toNat = 20 := by
      rw [hhlen]
      decide
    have hle : sent.hlen.toUInt64 ≤ sent.totalLen.toUInt64 := by
      rw [UInt64.le_iff_toNat_le, UInt16.toNat_toUInt64 sent.totalLen, htotal, h20]
      exact Nat.le_add_right _ _
    apply UInt64.toNat_inj.mp
    rw [UInt64.toNat_sub_of_le _ _ hle, UInt16.toNat_toUInt64 sent.totalLen, htotal, h20,
      UInt64.toNat_ofNat']
    omega
  show some (IpCall.mk handler sent.hlen (sent.totalLen.toUInt64 - sent.hlen.toUInt64) src
    iface.unicast) = _
  rw [hsub, hhlen]
  rfl

/-! ## UDP -/

/-- The part of the header before its checksum. -/
def udpFront (h : Udp.Hdr) : List UInt8 := store16 h.src ++ (store16 h.dst ++ store16 h.len)

theorem udpHdr_sum (h : Udp.Hdr) (v : UInt16) (rest : List UInt8) :
    { h with sum := v }.bytes ++ rest = udpFront h ++ (store16 v ++ rest) := by
  simp only [Udp.Hdr.bytes, udpFront, List.append_assoc]

/-- A message with its checksum filled in checks. -/
theorem udpHdr_fill {h : Udp.Hdr} (hz : h.sum = 0) {data : List UInt8}
    (hlen : data.length ≤ 65507) (psum : UInt16) :
    cksum16 ({ h with sum := cksum16 (h.bytes ++ data) psum.toUInt32 }.bytes ++ data)
      psum.toUInt32 = 0 := by
  have hb : h.bytes ++ data = udpFront h ++ (store16 0 ++ data) := by
    rw [← udpHdr_sum, ← hz]
  have hfront : (udpFront h).length = 6 := rfl
  rw [udpHdr_sum, hb]
  exact cksum16_fill (by rw [hfront]) (by rw [hfront]; omega) (toUInt32_le psum)

@[simp] theorem message_length (src dst : Udp.Endpoint) (data : List UInt8) :
    (Udp.message src dst data).length = 8 + data.length := by
  rw [Udp.message, List.length_append, Udp.Hdr.bytes_length]

/-- `udp_input` undoes `udp_output`. -/
theorem udpInput_output (src dst : Udp.Endpoint) {data : List UInt8}
    (hlen : data.length ≤ 65507) (pad : List UInt8) :
    Udp.udpInput (Udp.message src dst data ++ pad)
        (UInt64.ofNat (Udp.message src dst data).length) src.addr dst.addr =
      some (.accepted ⟨src, dst, data⟩) := by
  let hdr : Udp.Hdr := Udp.outputHdr src dst data.length
  let psum := pseudoSum src.addr dst.addr ipProtocolUdp (UInt16.ofNat (8 + data.length))
  let sent : Udp.Hdr := { hdr with sum := cksum16 (hdr.bytes ++ data) psum.toUInt32 }
  have hmsg : Udp.message src dst data = sent.bytes ++ data := rfl
  have hn : 8 + data.length ≤ 65535 := by omega
  have hshort : ¬ UInt64.ofNat (8 + data.length) < 8 := by
    have h8 : UInt64.ofNat (8 + data.length) < UInt64.ofNat 8 ↔ 8 + data.length < 8 :=
      size_lt hn (by decide)
    exact fun h => absurd (h8.mp h) (by omega)
  have hread : Udp.udpHdr (Udp.message src dst data ++ pad) = some sent := by
    rw [hmsg, List.append_assoc, Udp.udpHdr_bytes]
  have hfield : ntoh16 sent.len = UInt16.ofNat (8 + data.length) := ntoh16_hton16 _
  have hsame : UInt64.ofNat (8 + data.length) = (ntoh16 sent.len).toUInt64 := by
    apply UInt64.toNat_inj.mp
    rw [hfield, size_toNat hn, UInt16.toNat_toUInt64, count_toNat hn]
  have hbytes : window (Udp.message src dst data ++ pad) (8 + data.length) =
      some (sent.bytes ++ data) := by
    rw [← message_length src dst data, window_append, hmsg]
  have hsum : cksum16 (sent.bytes ++ data) psum.toUInt32 = 0 := udpHdr_fill rfl hlen psum
  have hdata : window ((Udp.message src dst data ++ pad).drop 8)
      (UInt64.ofNat (8 + data.length) - 8).toUInt16.toNat = some data := by
    have hcount : (UInt64.ofNat (8 + data.length) - 8).toUInt16.toNat = data.length := by
      have h8 : (8 : UInt64) ≤ UInt64.ofNat (8 + data.length) := UInt64.not_lt.mp hshort
      have h8n : (8 : UInt64).toNat = 8 := rfl
      rw [UInt64.toNat_toUInt16, UInt64.toNat_sub_of_le _ _ h8, size_toNat hn, h8n]
      omega
    have hdrop : (Udp.message src dst data ++ pad).drop 8 = data ++ pad := by
      rw [hmsg, List.append_assoc]
      rfl
    rw [hcount, hdrop, window_append]
  rw [message_length, Udp.udpInput, if_neg hshort, hread, Option.bind_some,
    if_neg (not_not.mpr hsame), size_toUInt16 hn, count_toNat hn, hbytes, Option.bind_some,
    if_neg (not_not.mpr hsum), hdata]
  rfl

/-! ## TCP -/

/-- The part of the header before its checksum. -/
def tcpFront (h : Tcp.TcpHdr) : List UInt8 :=
  store16 h.src ++ (store16 h.dst ++ (store32 h.seq ++ (store32 h.ack ++
    ([h.off, h.flg] ++ store16 h.wnd))))

theorem tcpHdr_sum (h : Tcp.TcpHdr) (v : UInt16) (rest : List UInt8) :
    { h with sum := v }.bytes ++ rest = tcpFront h ++ (store16 v ++ (store16 h.up ++ rest)) := by
  simp only [Tcp.TcpHdr.bytes, tcpFront, List.append_assoc]

/-- A message with its checksum filled in checks. -/
theorem tcpHdr_fill {h : Tcp.TcpHdr} (hz : h.sum = 0) {data : List UInt8}
    (hlen : data.length ≤ 65515) (psum : UInt16) :
    cksum16 ({ h with sum := cksum16 (h.bytes ++ data) psum.toUInt32 }.bytes ++ data)
      psum.toUInt32 = 0 := by
  have hb : h.bytes ++ data = tcpFront h ++ (store16 0 ++ (store16 h.up ++ data)) := by
    rw [← tcpHdr_sum, ← hz]
  have hfront : (tcpFront h).length = 16 := rfl
  rw [tcpHdr_sum, hb]
  refine cksum16_fill (by rw [hfront]) ?_ (toUInt32_le psum)
  rw [hfront, List.length_append, store16_length]
  omega

@[simp] theorem segment_bytes_length (s : Tcp.TcpSegment) :
    s.bytes.length = 20 + s.data.length := by
  rw [Tcp.TcpSegment.bytes, List.length_append, Tcp.TcpHdr.bytes_length]

/-- The call of `tcp_segment_arrives` for a segment of the peer. -/
def segmentCall (s : Tcp.TcpSegment) : Tcp.ArrivesCall where
  seg := s.info
  flg := s.flg
  off := 20
  len := UInt64.ofNat s.data.length
  localEp := s.foreignEp
  foreignEp := s.localEp

/-- `tcp_input` undoes `tcp_output_segment`. -/
theorem tcpInput_output {s : Tcp.TcpSegment} (hlen : s.data.length ≤ 65495)
    {iface : IfaceAddr}
    (huni : ¬ Tcp.touchesBroadcast s.localEp.addr s.foreignEp.addr iface) (pad : List UInt8) :
    Tcp.tcpInput (s.bytes ++ pad) (UInt64.ofNat s.bytes.length) s.localEp.addr
        s.foreignEp.addr iface =
      some (.accepted (segmentCall s)) := by
  let psum := pseudoSum s.localEp.addr s.foreignEp.addr ipProtocolTcp
    (UInt16.ofNat (20 + s.data.length))
  let sent : Tcp.TcpHdr := { s.hdr with sum := cksum16 (s.hdr.bytes ++ s.data) psum.toUInt32 }
  have hmsg : s.bytes = sent.bytes ++ s.data := rfl
  have hn : 20 + s.data.length ≤ 65535 := by omega
  have hshort : ¬ UInt64.ofNat (20 + s.data.length) < 20 := by
    have h20 : UInt64.ofNat (20 + s.data.length) < UInt64.ofNat 20 ↔ 20 + s.data.length < 20 :=
      size_lt hn (by decide)
    exact fun h => absurd (h20.mp h) (by omega)
  have hbytes : window (s.bytes ++ pad) (20 + s.data.length) = some (sent.bytes ++ s.data) := by
    rw [← segment_bytes_length, window_append, hmsg]
  have hsum : cksum16 (sent.bytes ++ s.data) psum.toUInt32 = 0 := tcpHdr_fill rfl (hlen.trans (by decide)) psum
  have hread : Tcp.tcpHdr (s.bytes ++ pad) = some sent := by
    rw [hmsg, List.append_assoc, Tcp.tcpHdr_bytes]
  have hcall : sent.call (UInt64.ofNat (20 + s.data.length)) s.localEp.addr s.foreignEp.addr =
      segmentCall s := by
    have hoff : sent.hlen = 20 := by
      show (((20 : UInt8) >>> 2) <<< 4 >>> 4).toUInt16 <<< 2 = 20
      decide
    have hsub : UInt64.ofNat (20 + s.data.length) - (20 : UInt16).toUInt64 =
        UInt64.ofNat s.data.length := by
      have h20 : (20 : UInt16).toUInt64 ≤ UInt64.ofNat (20 + s.data.length) :=
        UInt64.not_lt.mp hshort
      have h20n : (20 : UInt16).toUInt64.toNat = 20 := rfl
      apply UInt64.toNat_inj.mp
      rw [UInt64.toNat_sub_of_le _ _ h20, size_toNat hn, h20n, size_toNat (by omega)]
      omega
    rw [Tcp.TcpHdr.call, hoff, hsub, size_toUInt16 (by omega)]
    have hseq : ntoh32 sent.seq = s.seq := ntoh32_hton32 s.seq
    have hack : ntoh32 sent.ack = s.ack := ntoh32_hton32 s.ack
    have hwnd : ntoh16 sent.wnd = s.wnd := ntoh16_hton16 s.wnd
    rw [hseq, hack, hwnd]
    rfl
  rw [segment_bytes_length, Tcp.tcpInput, if_neg hshort, size_toUInt16 hn, count_toNat hn, hbytes,
    Option.bind_some, if_neg (not_not.mpr hsum), if_neg huni, hread, Option.map_some, hcall]

/-! ## The whole way -/

/-- What the network stack of a host goes by when a frame comes in. -/
structure Host where
  addr : EtherAddr
  iface : IfaceAddr

/-- The frame goes through `ether_input`, `ip_input` and a handler. -/
def Host.receive (h : Host) (frame : List UInt8) : Option Handled :=
  (etherInput h.addr frame).bind fun input =>
    if input.1 = netProtocolTypeIp then
      (ipInput ipProtocols (some h.iface) input.2).bind fun call => call.run input.2 h.iface
    else none

/-- A datagram that can be sent from `src` to the host `h`: the route leads
through an interface with the address `src`, its device is one that
`ether_setup_helper` set up, `h` has the destination as unicast address, and
no address is a broadcast address there. -/
structure Link (routes : List IpRoute) (route : IpRoute) (src dst : IpAddr) (h : Host) :
    Prop where
  lookup : ipRouteLookup routes dst = some route
  sender : src = route.iface.unicast
  mtu : route.iface.dev.mtu.toNat ≤ etherPayloadSizeMax
  receiver : h.iface.unicast = dst
  unicast : ¬ Tcp.touchesBroadcast src dst h.iface

section Way
variable {routes : List IpRoute} {route : IpRoute} {src dst : IpAddr} {h : Host}
  (hl : Link routes route src dst h) (id : UInt16) (addr : EtherAddr)
include hl

/-- The frame `ip_output` sends is taken apart again down to the message,
with the padding behind it. -/
theorem receive_output {protocol : UInt8} {handler : IpHandler}
    (hp : ipProtocolFind ipProtocols protocol = some ⟨protocol, handler⟩) {msg : List UInt8}
    (hmtu : 20 + msg.length ≤ route.iface.dev.mtu.toNat) :
    ∃ frame datagram pad,
      ipOutputFrame routes id addr h.addr protocol msg src dst = some frame ∧
        h.receive frame = (messageCall handler msg.length src dst).run datagram h.iface ∧
          datagram.drop 20 = msg ++ pad := by
  obtain ⟨hroute, rfl, hsize, rfl, huni⟩ := hl
  have hne : h.iface.unicast ≠ ipAddrBroadcast := fun hb => huni (.inr (.inr (.inl hb)))
  let sent := ipOutputCore protocol msg route.iface.unicast h.iface.unicast id 0
  have hlen : sent.length = 20 + msg.length := by
    show (IpHdr.bytes _ ++ msg).length = _
    rw [List.length_append, IpHdr.bytes_length]
  have hframe : ipOutputFrame routes id addr h.addr protocol msg route.iface.unicast
      h.iface.unicast = some (etherTransmitHelper addr netProtocolTypeIp sent h.addr) := by
    rw [ipOutputFrame, ipOutputSent, if_neg fun hb => hne hb.2, hroute]
    simp only
    have hfits : ¬ route.iface.dev.mtu.toNat < ipHdrSizeMin + msg.length := not_lt.mpr hmtu
    rw [if_neg fun hb => hb.2 rfl, if_neg hfits, Option.bind_some, netDeviceOutput,
      if_neg (not_lt.mpr (hlen.trans_le hmtu))]
  have hmsg : msg.length ≤ 65515 := by
    have h1500 : etherPayloadSizeMax = 1500 := rfl
    omega
  refine ⟨_, sent ++ etherPad sent.length, etherPad sent.length, hframe, ?_, rfl⟩
  rw [Host.receive, ether_round_trip, Option.bind_some, if_pos rfl,
    ipInput_output hp hmsg route.iface.unicast id h.iface (etherPad sent.length)]
  rfl

/-- A UDP message arrives as it was sent. -/
theorem udp_arrives (sport dport : UInt16) {data : List UInt8}
    (hmtu : data.length + 28 ≤ route.iface.dev.mtu.toNat) :
    ∃ msg frame, Udp.udpOutput ⟨src, sport⟩ ⟨dst, dport⟩ data = some msg ∧
      ipOutputFrame routes id addr h.addr ipProtocolUdp msg src dst = some frame ∧
        h.receive frame = some (.udp (.accepted ⟨⟨src, sport⟩, ⟨dst, dport⟩, data⟩)) := by
  have hsize := hl.mtu
  have h1500 : etherPayloadSizeMax = 1500 := rfl
  have h4068 : Udp.ipPayloadSizeMax - 8 = 4068 := rfl
  have hlen : 20 + (Udp.message ⟨src, sport⟩ ⟨dst, dport⟩ data).length ≤
      route.iface.dev.mtu.toNat := by
    rw [message_length]
    omega
  have hp : ipProtocolFind ipProtocols ipProtocolUdp = some ⟨ipProtocolUdp, .udp⟩ := rfl
  obtain ⟨frame, datagram, pad, hframe, hrecv, hdrop⟩ := receive_output hl id addr hp hlen
  refine ⟨_, frame, if_neg (by omega), hframe, ?_⟩
  have hfit : data.length ≤ 65507 := by omega
  have hin := udpInput_output ⟨src, sport⟩ ⟨dst, dport⟩ hfit pad
  rw [hrecv, IpCall.run]
  simp only [messageCall]
  rw [show (20 : UInt16).toNat = 20 from rfl, hdrop, hin]
  rfl

/-- A TCP segment arrives as it was sent. -/
theorem tcp_arrives {s : Tcp.TcpSegment} (hsrc : s.localEp.addr = src)
    (hdst : s.foreignEp.addr = dst) (hmtu : s.data.length + 40 ≤ route.iface.dev.mtu.toNat) :
    ∃ frame m, ipOutputFrame routes id addr h.addr ipProtocolTcp s.bytes src dst = some frame ∧
      h.receive frame = some (.tcp (.accepted (segmentCall s)) m) ∧
        (segmentCall s).text m = some s.data := by
  have hsize := hl.mtu
  have h1500 : etherPayloadSizeMax = 1500 := rfl
  have huni := hl.unicast
  have hlen : 20 + s.bytes.length ≤ route.iface.dev.mtu.toNat := by
    rw [segment_bytes_length]
    omega
  have hp : ipProtocolFind ipProtocols ipProtocolTcp = some ⟨ipProtocolTcp, .tcp⟩ := rfl
  obtain ⟨frame, datagram, pad, hframe, hrecv, hdrop⟩ := receive_output hl id addr hp hlen
  subst hsrc hdst
  refine ⟨frame, s.bytes ++ pad, hframe, ?_, ?_⟩
  · have hin := tcpInput_output (by omega) huni pad
    rw [hrecv, IpCall.run]
    simp only [messageCall]
    rw [show (20 : UInt16).toNat = 20 from rfl, hdrop, hin]
    rfl
  · have hn : s.data.length ≤ 65535 := by omega
    show window ((s.bytes ++ pad).drop 20) (UInt64.ofNat s.data.length).toNat = _
    rw [size_toNat hn]
    exact window_append s.data pad

end Way

/-- The datagram goes into the queue of the pcb bound to its destination. -/
theorem udpDeliver_queue {t : Udp.Table} {a : Udp.Arrival} {i : Udp.PcbId}
    (h : Udp.udpPcbSelect t a.dst.addr a.dst.port = some i) :
    (Udp.udpDeliver true t a i).queue = (t i).queue ++ [⟨a.src, a.data⟩] := by
  simp [Udp.udpDeliver, h]

/-- **Wire round trip.**  Over a link, every UDP payload that fits the MTU
reaches the queue of the destination with the sender's endpoint, and every TCP
segment that fits reaches `tcp_segment_arrives` field for field: the other
host's state machine makes the step of that segment. -/
theorem wire_round_trip {routes : List IpRoute} {route : IpRoute} {src dst : IpAddr} {h : Host}
    (hl : Link routes route src dst h) (id : UInt16) (addr : EtherAddr) :
    (∀ (t t' : Udp.Table) (i : Int) (localEp foreign : Udp.Endpoint) (data : List UInt8),
      Udp.udpSendto routes t i foreign = some (t', localEp) →
      localEp.addr = src → foreign.addr = dst →
      data.length + 28 ≤ route.iface.dev.mtu.toNat →
        ∃ msg frame, Udp.udpOutput localEp foreign data = some msg ∧
          ipOutputFrame routes id addr h.addr ipProtocolUdp msg src dst = some frame ∧
          h.receive frame = some (.udp (.accepted ⟨localEp, foreign, data⟩)) ∧
          ∀ rt j, Udp.udpPcbSelect rt foreign.addr foreign.port = some j →
            (Udp.udpDeliver true rt ⟨localEp, foreign, data⟩ j).queue =
              (rt j).queue ++ [⟨localEp, data⟩]) ∧
    (∀ s : Tcp.TcpSegment, s.localEp.addr = src → s.foreignEp.addr = dst →
      s.data.length + 40 ≤ route.iface.dev.mtu.toNat →
        ∃ frame call m,
          ipOutputFrame routes id addr h.addr ipProtocolTcp s.bytes src dst = some frame ∧
          h.receive frame = some (.tcp (.accepted call) m) ∧ call.text m = some s.data ∧
          call.foreignEp = s.localEp ∧ call.localEp = s.foreignEp ∧ call.seg.seq = s.seq ∧
          call.seg.ack = s.ack ∧ call.flg = s.flg ∧ call.seg.wnd = s.wnd ∧
          ∀ env t, Tcp.tcpSegmentArrives env t call.seg call.flg s.data call.localEp
            call.foreignEp = Tcp.arrive env t s) := by
  constructor
  · intro t t' i localEp foreign data _ hsrc hdst hmtu
    obtain ⟨addr₁, sport⟩ := localEp
    obtain ⟨addr₂, dport⟩ := foreign
    subst hsrc hdst
    obtain ⟨msg, frame, hmsg, hframe, hrecv⟩ := udp_arrives hl id addr sport dport hmtu
    exact ⟨msg, frame, hmsg, hframe, hrecv, fun rt j hj => udpDeliver_queue hj⟩
  · intro s hsrc hdst hmtu
    obtain ⟨frame, m, hframe, hrecv, htext⟩ := tcp_arrives hl id addr hsrc hdst hmtu
    exact ⟨frame, segmentCall s, m, hframe, hrecv, htext, rfl, rfl, rfl, rfl, rfl, rfl,
      fun _ _ => rfl⟩

/-- The host 9.0.0.0 in the net 9.0.0.0/24. -/
def sampleHost : Host where
  addr := ⟨2, 0, 0, 0, 0, 9⟩
  iface := ifaceAddr 9 0x00ffffff

/-- A default route through the interface 7.0.0.0. -/
def sampleLink : IpRoute := ⟨0, 0, 0, ⟨etherSetupHelper, 7⟩⟩

/-- Slot 0 is open and bound to port 80 of every address. -/
def sampleUdp : Udp.Table := fun i =>
  if i = 0 then ⟨.open, ⟨0, 80⟩, [], .zero⟩ else ⟨.free, ⟨0, 0⟩, [], .zero⟩

theorem wire_sample :
    (∃ msg frame, Udp.udpOutput ⟨7, 80⟩ ⟨9, 1000⟩ [1, 2, 3] = some msg ∧
      ipOutputFrame [sampleLink] 128 ⟨2, 0, 0, 0, 0, 7⟩ sampleHost.addr ipProtocolUdp msg 7 9 =
        some frame ∧
      sampleHost.receive frame = some (.udp (.accepted ⟨⟨7, 80⟩, ⟨9, 1000⟩, [1, 2, 3]⟩)) ∧
      ∀ rt j, Udp.udpPcbSelect rt 9 1000 = some j →
        (Udp.udpDeliver true rt ⟨⟨7, 80⟩, ⟨9, 1000⟩, [1, 2, 3]⟩ j).queue =
          (rt j).queue ++ [⟨⟨7, 80⟩, [1, 2, 3]⟩]) ∧
    ∃ frame call m,
      ipOutputFrame [sampleLink] 128 ⟨2, 0, 0, 0, 0, 7⟩ sampleHost.addr ipProtocolTcp
        (Tcp.TcpSegment.mk 100 0 Tcp.flgSyn 8192 [] ⟨7, 80⟩ ⟨9, 1000⟩).bytes 7 9 = some frame ∧
      sampleHost.receive frame = some (.tcp (.accepted call) m) ∧ call.text m = some [] ∧
      call.foreignEp = ⟨7, 80⟩ ∧ call.localEp = ⟨9, 1000⟩ ∧ call.seg.seq = 100 ∧
      call.seg.ack = 0 ∧ call.flg = Tcp.flgSyn ∧ call.seg.wnd = 8192 ∧
      ∀ env t, Tcp.tcpSegmentArrives env t call.seg call.flg [] call.localEp call.foreignEp =
        Tcp.arrive env t (Tcp.TcpSegment.mk 100 0 Tcp.flgSyn 8192 [] ⟨7, 80⟩ ⟨9, 1000⟩) := by
  have hl : Link [sampleLink] sampleLink 7 9 sampleHost :=
    ⟨by decide, rfl, by decide, rfl, by decide⟩
  have hsend : Udp.udpSendto [sampleLink] sampleUdp 0 ⟨9, 1000⟩ = some (sampleUdp, ⟨7, 80⟩) := rfl
  have hw := wire_round_trip hl 128 ⟨2, 0, 0, 0, 0, 7⟩
  exact ⟨hw.1 sampleUdp sampleUdp 0 ⟨7, 80⟩ ⟨9, 1000⟩ [1, 2, 3] hsend rfl rfl (by decide),
    hw.2 ⟨100, 0, Tcp.flgSyn, 8192, [], ⟨7, 80⟩, ⟨9, 1000⟩⟩ rfl rfl (by decide)⟩

end Laplus.Net
