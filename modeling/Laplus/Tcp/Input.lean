/-
# `Laplus.Tcp.Input` — segments in memory: `tcp_output_segment` and `tcp_input`

`tcp_input` reads the header of a segment, computes `hlen` from the data
offset the peer sent, and hands `hdr + hlen` and `len - hlen` to
`tcp_segment_arrives`.  It checks the length of the header it reads, the
checksum and the addresses; nothing compares `hlen` with anything.

Where `20 <= hlen <= len` the call is that of a segment of the peer whose
text is the rest of the message, and all the state machine copies is received
bytes.  Elsewhere the text begins inside the header or ends nowhere near the
segment, and the two lengths have nothing to do with each other.
-/
import Laplus.Net.Transport
import Laplus.Tcp.ReceiveBuffer

namespace Laplus.Tcp

open Net

/-! ## The header -/

/-- `struct tcp_hdr`, each field as it stands in memory. -/
structure TcpHdr where
  src : UInt16
  dst : UInt16
  seq : UInt32
  ack : UInt32
  off : UInt8
  flg : UInt8
  wnd : UInt16
  sum : UInt16
  up : UInt16
deriving DecidableEq

/-- The header in memory. -/
def TcpHdr.bytes (h : TcpHdr) : List UInt8 :=
  store16 h.src ++ (store16 h.dst ++ (store32 h.seq ++ (store32 h.ack ++
    ([h.off, h.flg] ++ (store16 h.wnd ++ (store16 h.sum ++ store16 h.up))))))

/-- `(struct tcp_hdr *)data`, when the twenty bytes are there. -/
def tcpHdr : List UInt8 → Option TcpHdr
  | s₀ :: s₁ :: d₀ :: d₁ :: q₀ :: q₁ :: q₂ :: q₃ :: a₀ :: a₁ :: a₂ :: a₃ :: off :: flg ::
      w₀ :: w₁ :: c₀ :: c₁ :: u₀ :: u₁ :: _ =>
      some
        { off, flg
          src := load16 s₀ s₁
          dst := load16 d₀ d₁
          seq := load32 q₀ q₁ q₂ q₃
          ack := load32 a₀ a₁ a₂ a₃
          wnd := load16 w₀ w₁
          sum := load16 c₀ c₁
          up := load16 u₀ u₁ }
  | _ => none

@[simp] theorem TcpHdr.bytes_length (h : TcpHdr) : h.bytes.length = 20 := rfl

@[simp] theorem tcpHdr_bytes (h : TcpHdr) (rest : List UInt8) :
    tcpHdr (h.bytes ++ rest) = some h := by
  simp [TcpHdr.bytes, store16, store32, tcpHdr]

/-- `hlen`, as `tcp_input` reads it. -/
def TcpHdr.hlen (h : TcpHdr) : UInt16 := (h.off >>> 4).toUInt16 <<< 2

/-! ## `tcp_output_segment` -/

/-- The header `tcp_output_segment` builds, before the checksum. -/
def TcpSegment.hdr (s : TcpSegment) : TcpHdr where
  src := s.localEp.port
  dst := s.foreignEp.port
  seq := hton32 s.seq
  ack := hton32 s.ack
  off := ((20 : UInt8) >>> 2) <<< 4
  flg := s.flg
  wnd := hton16 s.wnd
  sum := 0
  up := 0

/-- The message `tcp_output_segment` hands to `ip_output`. -/
def TcpSegment.bytes (s : TcpSegment) : List UInt8 :=
  let total := UInt16.ofNat (20 + s.data.length)
  let psum := pseudoSum s.localEp.addr s.foreignEp.addr ipProtocolTcp total
  { s.hdr with sum := cksum16 (s.hdr.bytes ++ s.data) psum.toUInt32 }.bytes ++ s.data

/-! ## `tcp_input` -/

/-- The call of `tcp_segment_arrives`: where its `data` points to and its
`len`, beside the fields that were read. -/
structure ArrivesCall where
  seg : SegmentInfo
  flg : UInt8
  off : UInt16
  len : UInt64
  localEp : Endpoint
  foreignEp : Endpoint
deriving DecidableEq

/-- The call for the header that was read. -/
def TcpHdr.call (h : TcpHdr) (len : UInt64) (src dst : IpAddr) : ArrivesCall where
  seg :=
    { seq := ntoh32 h.seq
      ack := ntoh32 h.ack
      len := (len - h.hlen.toUInt64).toUInt16 + (if flgIsSet h.flg flgSyn then 1 else 0) +
        (if flgIsSet h.flg flgFin then 1 else 0)
      wnd := ntoh16 h.wnd }
  flg := h.flg
  off := h.hlen
  len := len - h.hlen.toUInt64
  localEp := ⟨dst, h.dst⟩
  foreignEp := ⟨src, h.src⟩

/-- Source or destination is a broadcast address of the interface. -/
def touchesBroadcast (src dst : IpAddr) (iface : IfaceAddr) : Prop :=
  src = ipAddrBroadcast ∨ src = iface.broadcast ∨ dst = ipAddrBroadcast ∨ dst = iface.broadcast

instance decTouchesBroadcast (src dst : IpAddr) (iface : IfaceAddr) :
    Decidable (touchesBroadcast src dst iface) := by
  unfold touchesBroadcast
  infer_instance

/-- `tcp_input` on the bytes from its pointer on. -/
def tcpInput (m : List UInt8) (len : UInt64) (src dst : IpAddr) (iface : IfaceAddr) :
    Option (Verdict ArrivesCall) :=
  if len < 20 then some .dropped
  else
    (window m len.toUInt16.toNat).bind fun bytes =>
      if cksum16 bytes (pseudoSum src dst ipProtocolTcp len.toUInt16).toUInt32 ≠ 0 then
        some .dropped
      else if touchesBroadcast src dst iface then some .dropped
      else (tcpHdr m).map fun hdr => .accepted (hdr.call len src dst)

/-- The text `tcp_segment_arrives` is given, if all of it was received. -/
def ArrivesCall.text (a : ArrivesCall) (m : List UInt8) : Option (List UInt8) :=
  window (m.drop a.off.toNat) a.len.toNat

/-- The segment of the peer that the call stands for. -/
def ArrivesCall.segment (a : ArrivesCall) (text : List UInt8) : TcpSegment where
  seq := a.seg.seq
  ack := a.seg.ack
  flg := a.flg
  wnd := a.seg.wnd
  data := text
  localEp := a.foreignEp
  foreignEp := a.localEp

/-- What `tcp_input` checks of a segment. -/
structure Accepts (src dst : IpAddr) (iface : IfaceAddr) (m : List UInt8) : Prop where
  long : 20 ≤ m.length
  sum : cksum16 m (pseudoSum src dst ipProtocolTcp (UInt16.ofNat m.length)).toUInt32 = 0
  unicast : ¬ touchesBroadcast src dst iface

theorem tcpHdr_isSome {m : List UInt8} (h : 20 ≤ m.length) : (tcpHdr m).isSome := by
  iterate 20
    rcases m with _ | ⟨_, m⟩
    · simp at h
  rfl

/-- `tcp_input` hands on exactly the segments that pass its checks. -/
theorem tcpInput_accepted {src dst : IpAddr} {iface : IfaceAddr} {m : List UInt8}
    (hm : m.length ≤ 65515) {a : ArrivesCall} :
    tcpInput m (UInt64.ofNat m.length) src dst iface = some (.accepted a) ↔
      Accepts src dst iface m ∧
        ∃ hdr ∈ tcpHdr m, a = hdr.call (UInt64.ofNat m.length) src dst := by
  have h16 : m.length ≤ 65535 := by omega
  have hlt : UInt64.ofNat m.length < 20 ↔ m.length < 20 := size_lt h16 (by decide)
  rw [tcpInput, size_toUInt16 h16, count_toNat h16, window_all]
  simp only [hlt, Option.bind_some]
  constructor
  · intro h
    split at h
    · cases h
    rename_i hlong
    split at h
    · cases h
    rename_i hsum
    split at h
    · cases h
    rename_i huni
    obtain ⟨hdr, hhdr, ha⟩ := Option.map_eq_some_iff.mp h
    cases ha
    exact ⟨⟨not_lt.mp hlong, not_not.mp hsum, huni⟩, hdr, hhdr, rfl⟩
  · rintro ⟨⟨hlong, hsum, huni⟩, hdr, hhdr, rfl⟩
    rw [if_neg (not_lt.mpr hlong), if_neg (not_not.mpr hsum), if_neg huni,
      Option.mem_def.mp hhdr]
    rfl

/-- As long as `len` bytes were received, `tcp_input` loads only those. -/
theorem tcpInput_isSome {m : List UInt8} {len : UInt64} (hl : len.toNat ≤ m.length)
    (src dst : IpAddr) (iface : IfaceAddr) : (tcpInput m len src dst iface).isSome := by
  unfold tcpInput
  split
  · rfl
  rename_i hlong
  have h20 : 20 ≤ len.toNat := not_lt.mp fun h => hlong (UInt64.lt_iff_toNat_lt.mpr h)
  have hw : len.toUInt16.toNat ≤ m.length := by
    rw [UInt64.toNat_toUInt16]
    omega
  rw [window, if_pos hw, Option.bind_some]
  split
  · rfl
  split
  · rfl
  rw [Option.isSome_map]
  exact tcpHdr_isSome (by omega)

/-! ## Containment -/

/-- The call stays inside the segment `m`: the header length is in range, the
text is the rest of the segment, `seg.len` counts it and the two flags without
wrapping, and all that the handler copies, from any state, are bytes of it. -/
structure ArrivesCall.Contained (a : ArrivesCall) (m : List UInt8) : Prop where
  hlen_ge : 20 ≤ a.off.toNat
  hlen_le : a.off.toNat ≤ m.length
  text : a.text m = some (m.drop a.off.toNat)
  seg_len : a.seg.len.toNat = (m.length - a.off.toNat) +
    (if flgIsSet a.flg flgSyn then 1 else 0) + (if flgIsSet a.flg flgFin then 1 else 0)
  len_le : a.len.toNat ≤ a.seg.len.toNat ∧ a.seg.len.toNat ≤ a.len.toNat + 2
  arrives : ∀ env t, tcpSegmentArrives env t a.seg a.flg (m.drop a.off.toNat) a.localEp
    a.foreignEp = arrive env t (a.segment (m.drop a.off.toNat))
  copies : ∀ env t i off text, Effect.copy i off text ∈
    (tcpSegmentArrives env t a.seg a.flg (m.drop a.off.toNat) a.localEp a.foreignEp).2 →
      text <:+ m

/-- The handler copies the text of the segment and nothing else. -/
theorem arrive_copy {env : Env} {t : Table} {s : TcpSegment} {i : PcbId} {off : Nat}
    {text : List UInt8} (h : Effect.copy i off text ∈ (arrive env t s).2) : text = s.data := by
  obtain ⟨s', hs, _, _, _, htext⟩ := edit_copy (arrive_edit ⟨t, fun _ => none⟩ env t s) h
  cases hs
  exact htext

section Call
variable {m : List UInt8} {hdr : TcpHdr} (hm : m.length ≤ 65515)
  (hle : hdr.hlen.toNat ≤ m.length) (src dst : IpAddr)
include hm hle

/-- `len - hlen` does not wrap. -/
theorem call_len :
    (hdr.call (UInt64.ofNat m.length) src dst).len.toNat = m.length - hdr.hlen.toNat := by
  have h64 := size_toNat (n := m.length) (by omega)
  have hle64 : hdr.hlen.toUInt64 ≤ UInt64.ofNat m.length := by
    rw [UInt64.le_iff_toNat_le, h64, UInt16.toNat_toUInt64]
    exact hle
  show (UInt64.ofNat m.length - hdr.hlen.toUInt64).toNat = _
  rw [UInt64.toNat_sub_of_le _ _ hle64, h64, UInt16.toNat_toUInt64]

/-- `seg.len` counts the text and the two flags. -/
theorem call_seg_len : (hdr.call (UInt64.ofNat m.length) src dst).seg.len.toNat =
    (m.length - hdr.hlen.toNat) + (if flgIsSet hdr.flg flgSyn then 1 else 0) +
      (if flgIsSet hdr.flg flgFin then 1 else 0) := by
  have hlen := call_len hm hle src dst
  have h16 : (UInt64.ofNat m.length - hdr.hlen.toUInt64).toUInt16.toNat =
      m.length - hdr.hlen.toNat := by
    rw [UInt64.toNat_toUInt16]
    exact (congrArg (· % 2 ^ 16) hlen).trans (Nat.mod_eq_of_lt (by omega))
  simp only [TcpHdr.call, UInt16.toNat_add, h16]
  split <;> split <;> simp only [UInt16.reduceToNat] <;> omega

/-- The call of `tcp_segment_arrives` is the one for the segment of the peer. -/
theorem call_arrives (env : Env) (t : Table) :
    tcpSegmentArrives env t (hdr.call (UInt64.ofNat m.length) src dst).seg hdr.flg
        (m.drop hdr.hlen.toNat) ⟨dst, hdr.dst⟩ ⟨src, hdr.src⟩ =
      arrive env t ((hdr.call (UInt64.ofNat m.length) src dst).segment
        (m.drop hdr.hlen.toNat)) := by
  have hseg : (hdr.call (UInt64.ofNat m.length) src dst).seg =
      ((hdr.call (UInt64.ofNat m.length) src dst).segment (m.drop hdr.hlen.toNat)).info := by
    have h16 : (UInt64.ofNat m.length - hdr.hlen.toUInt64).toUInt16 =
        UInt16.ofNat (m.drop hdr.hlen.toNat).length := by
      apply UInt16.toNat_inj.mp
      rw [UInt64.toNat_toUInt16, UInt16.toNat_ofNat', List.length_drop]
      exact congrArg (· % 2 ^ 16) (call_len hm hle src dst)
    simp only [TcpHdr.call, ArrivesCall.segment, TcpSegment.info, TcpSegment.len, h16]
  rw [hseg]
  rfl

/-- A header length in range is all that is missing. -/
theorem call_contained (hge : 20 ≤ hdr.hlen.toNat) :
    (hdr.call (UInt64.ofNat m.length) src dst).Contained m := by
  have hlen := call_len hm hle src dst
  have hseg := call_seg_len hm hle src dst
  refine ⟨hge, hle, ?_, hseg, ?_, call_arrives hm hle src dst, ?_⟩
  · show window (m.drop hdr.hlen.toNat) (hdr.call (UInt64.ofNat m.length) src dst).len.toNat = _
    rw [hlen, ← List.length_drop, window_all]
    rfl
  · rw [hseg, hlen]
    split <;> split <;> omega
  · intro env t i off text h
    have htext : text = m.drop hdr.hlen.toNat :=
      arrive_copy (congrArg Prod.snd (call_arrives hm hle src dst env t) ▸ h)
    rw [htext]
    exact List.drop_suffix _ _

end Call

/-- **Containment of `tcp_input`.**  Its calls stay inside the segment exactly
where an accepted segment carries a data offset between the fixed header and
its own length. -/
theorem input_contained_iff (src dst : IpAddr) (iface : IfaceAddr) {m : List UInt8}
    (hm : m.length ≤ 65515) :
    (∀ a, tcpInput m (UInt64.ofNat m.length) src dst iface = some (.accepted a) →
      a.Contained m) ↔
      (Accepts src dst iface m → ∀ hdr ∈ tcpHdr m,
        20 ≤ hdr.hlen.toNat ∧ hdr.hlen.toNat ≤ m.length) := by
  constructor
  · intro h hacc hdr hhdr
    have hc := h _ ((tcpInput_accepted hm).mpr ⟨hacc, hdr, hhdr, rfl⟩)
    exact ⟨hc.hlen_ge, hc.hlen_le⟩
  · intro h a ha
    obtain ⟨hacc, hdr, hhdr, rfl⟩ := (tcpInput_accepted hm).mp ha
    obtain ⟨hge, hle⟩ := h hacc hdr hhdr
    exact call_contained hm hle src dst hge

/-- The call for the sample peer's SYN. -/
def synCall : ArrivesCall := ⟨⟨100, 0, 1, 1000⟩, flgSyn, 20, 0, sampleLocal, samplePeer⟩

theorem input_sample : synCall.Contained (peerSegment 100 0 flgSyn []).bytes :=
  (input_contained_iff samplePeer.addr sampleLocal.addr (ifaceAddr sampleLocal.addr 0x00ffffff)
    (by decide)).mpr
      (fun _ hdr hhdr => by
        cases Option.mem_def.mp hhdr
        exact ⟨by decide, by decide⟩)
      synCall (by decide +kernel)

/-- Twenty bytes with a correct checksum and a data offset of sixty. -/
def offsetBeyond : List UInt8 :=
  [4, 1, 0, 7, 0, 0, 0, 100, 0, 0, 0, 0, 0xf0, 0x10, 3, 232, 247, 128, 0, 0]

/-- `tcp_input` hands on forty bytes less than nothing. -/
theorem offset_escapes : ¬ ∀ (src dst : IpAddr) (iface : IfaceAddr) (m : List UInt8),
    m.length ≤ 65515 → ∀ a,
      tcpInput m (UInt64.ofNat m.length) src dst iface = some (.accepted a) →
        a.Contained m := by
  intro h
  obtain ⟨hdr, hhdr⟩ : ∃ hdr, tcpHdr offsetBeyond = some hdr := ⟨_, rfl⟩
  have hacc : Accepts samplePeer.addr sampleLocal.addr (ifaceAddr sampleLocal.addr 0x00ffffff)
      offsetBeyond := ⟨by decide, by decide +kernel, by decide⟩
  have hc := h samplePeer.addr sampleLocal.addr (ifaceAddr sampleLocal.addr 0x00ffffff)
    offsetBeyond (by decide) _ ((tcpInput_accepted (by decide)).mpr ⟨hacc, hdr, hhdr, rfl⟩)
  have hle := hc.hlen_le
  cases hhdr
  exact absurd hle (by decide)

end Laplus.Tcp
