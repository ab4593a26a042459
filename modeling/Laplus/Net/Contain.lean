/-
# `Laplus.Net.Contain` — what `ip_input` hands to the protocols

Three lengths meet in `ip_input`: that of the received bytes, the header
length and the total length.  The two of the header are compared with the
first one, not with each other, and the header length not with the size of
the header that is read.  A total length below the header length makes
`total - hlen` a number close to `2 ^ 64`.

`ip_contained_iff`: the slice handed over lies inside the datagram, and the
handlers load received bytes only, exactly when no datagram of that kind
passes the other checks.
-/
import Laplus.Tcp.Input
import Laplus.Udp.Pcb

namespace Laplus.Net

/-! ## The handlers -/

/-- What the handler that was called made of its message.  The text of a
segment stays where it is: `m` are the bytes from the handler's pointer on. -/
inductive Handled where
  | icmp (v : Verdict IcmpOutput)
  | udp (v : Verdict Udp.Arrival)
  | tcp (v : Verdict Tcp.ArrivesCall) (m : List UInt8)
deriving DecidableEq

/-- The handler runs; `none` when it loads a byte outside the datagram. -/
def IpCall.run (call : IpCall) (data : List UInt8) (iface : IfaceAddr) : Option Handled :=
  let m := data.drop call.off.toNat
  match call.handler with
  | .icmp => (icmpInput m call.len call.src iface).map .icmp
  | .udp => (Udp.udpInput m call.len call.src call.dst).map .udp
  | .tcp => (Tcp.tcpInput m call.len call.src call.dst iface).map (.tcp · m)

theorem icmpHdr_isSome {m : List UInt8} (h : 8 ≤ m.length) : (icmpHdr m).isSome := by
  iterate 8
    rcases m with _ | ⟨_, m⟩
    · simp at h
  rfl

theorem udpHdr_isSome {m : List UInt8} (h : 8 ≤ m.length) : (Udp.udpHdr m).isSome := by
  iterate 8
    rcases m with _ | ⟨_, m⟩
    · simp at h
  rfl

section Loads
variable {m : List UInt8} {len : UInt64} (hl : len.toNat ≤ m.length)
include hl

/-- The range of a checksum: `count` is at most `len`. -/
theorem window_count : window m len.toUInt16.toNat = some (m.take len.toUInt16.toNat) := by
  rw [window, if_pos]
  rw [UInt64.toNat_toUInt16]
  omega

/-- What follows an eight-byte header. -/
theorem window_payload (h8 : 8 ≤ len.toNat) :
    (len - 8).toNat = len.toNat - 8 ∧ (len - 8).toNat ≤ (m.drop 8).length := by
  have hsub : (len - 8).toNat = len.toNat - 8 :=
    UInt64.toNat_sub_of_le _ _ (UInt64.le_iff_toNat_le.mpr h8)
  rw [List.length_drop]
  omega

theorem icmpInput_isSome (src : IpAddr) (iface : IfaceAddr) :
    (icmpInput m len src iface).isSome := by
  unfold icmpInput
  split
  · rfl
  rename_i hlong
  have h8 : 8 ≤ len.toNat := not_lt.mp fun h => hlong (UInt64.lt_iff_toNat_lt.mpr h)
  rw [window_count hl, Option.bind_some]
  split
  · rfl
  obtain ⟨hdr, hhdr⟩ := Option.isSome_iff_exists.mp (icmpHdr_isSome (h8.trans hl))
  rw [hhdr, Option.bind_some]
  split
  · rw [Option.isSome_map, window_isSome]
    exact (window_payload hl h8).2
  · rfl

theorem udpInput_isSome (src dst : IpAddr) : (Udp.udpInput m len src dst).isSome := by
  unfold Udp.udpInput
  split
  · rfl
  rename_i hlong
  have h8 : 8 ≤ len.toNat := not_lt.mp fun h => hlong (UInt64.lt_iff_toNat_lt.mpr h)
  obtain ⟨hdr, hhdr⟩ := Option.isSome_iff_exists.mp (udpHdr_isSome (h8.trans hl))
  rw [hhdr, Option.bind_some]
  split
  · rfl
  rw [window_count hl, Option.bind_some]
  split
  · rfl
  have hp := (window_payload hl h8).2
  rw [Option.isSome_map, window_isSome, UInt64.toNat_toUInt16]
  omega

end Loads

/-- A handler whose slice lies inside the datagram loads received bytes only. -/
theorem run_isSome {call : IpCall} {data : List UInt8}
    (h : call.off.toNat + call.len.toNat ≤ data.length) (iface : IfaceAddr) :
    (call.run data iface).isSome := by
  have hl : call.len.toNat ≤ (data.drop call.off.toNat).length := by
    rw [List.length_drop]
    omega
  unfold IpCall.run
  split
  · rw [Option.isSome_map]
    exact icmpInput_isSome hl _ _
  · rw [Option.isSome_map]
    exact udpInput_isSome hl _ _
  · rw [Option.isSome_map]
    exact Tcp.tcpInput_isSome hl _ _ _

/-! ## Containment -/

/-- The call stays inside the datagram. -/
structure IpCall.Contained (call : IpCall) (data : List UInt8) (iface : IfaceAddr) : Prop where
  lengths : ∃ hdr ∈ ipHdr data, 20 ≤ hdr.hlen.toNat ∧ hdr.hlen.toNat ≤ hdr.totalLen.toNat ∧
    hdr.totalLen.toNat ≤ data.length ∧ call.off = hdr.hlen ∧
      call.len.toNat = hdr.totalLen.toNat - hdr.hlen.toNat
  slice : call.off.toNat + call.len.toNat ≤ data.length
  loads : (call.run data iface).isSome

/-- `total - hlen` does not wrap when the total length covers the header. -/
theorem ipCall_len {hdr : IpHdr} (h : hdr.hlen.toNat ≤ hdr.totalLen.toNat) (proto : IpProtocol) :
    (ipCall hdr proto).len.toNat = hdr.totalLen.toNat - hdr.hlen.toNat := by
  have hle : hdr.hlen.toUInt64 ≤ hdr.totalLen.toUInt64 := by
    rw [UInt64.le_iff_toNat_le, UInt16.toNat_toUInt64, UInt16.toNat_toUInt64]
    exact h
  show (hdr.totalLen.toUInt64 - hdr.hlen.toUInt64).toNat = _
  rw [UInt64.toNat_sub_of_le _ _ hle, UInt16.toNat_toUInt64, UInt16.toNat_toUInt64]

/-- The two comparisons `ip_input` does not make are all that is missing. -/
theorem ipCall_contained {protocols : List IpProtocol} {iface : Option IfaceAddr}
    {data : List UInt8} {hdr : IpHdr} {proto : IpProtocol}
    (ha : Admitted protocols iface data hdr proto) (hmin : 20 ≤ hdr.hlen.toNat)
    (hle : hdr.hlen.toNat ≤ hdr.totalLen.toNat) (i : IfaceAddr) :
    (ipCall hdr proto).Contained data i := by
  have hlen := ipCall_len hle proto
  have hoff : (ipCall hdr proto).off = hdr.hlen := rfl
  have htotal := ha.total_le
  have hslice : (ipCall hdr proto).off.toNat + (ipCall hdr proto).len.toNat ≤ data.length := by
    rw [hlen, hoff]
    omega
  exact ⟨⟨hdr, ha.header, hmin, hle, htotal, rfl, hlen⟩, hslice, run_isSome hslice i⟩

/-- **Containment of `ip_input`.**  It holds for a datagram exactly when the
header, if it passes the checks that are made, is at least twenty bytes long
and not longer than the datagram says it is. -/
theorem ip_contained_iff (protocols : List IpProtocol) (iface : Option IfaceAddr)
    (data : List UInt8) :
    (∀ i ∈ iface, ∀ call ∈ ipInput protocols iface data, call.Contained data i) ↔
      ∀ hdr proto, Admitted protocols iface data hdr proto →
        20 ≤ hdr.hlen.toNat ∧ hdr.hlen.toNat ≤ hdr.totalLen.toNat := by
  constructor
  · intro h hdr proto ha
    obtain ⟨i, hi, -⟩ := ha.addressed
    have hc := h i hi _ (ipInput_eq_some.mpr ⟨hdr, proto, ha, rfl⟩)
    obtain ⟨hdr', hhdr, hmin, hle, -⟩ := hc.lengths
    cases Option.some.inj (ha.header.symm.trans hhdr)
    exact ⟨hmin, hle⟩
  · intro h i hi call hcall
    obtain ⟨hdr, proto, ha, rfl⟩ := ipInput_eq_some.mp hcall
    obtain ⟨hmin, hle⟩ := h hdr proto ha
    exact ipCall_contained ha hmin hle i

/-- A datagram to 7.0.0.0 whose total length is zero, padded to the shortest
Ethernet payload. -/
def totalZero : List UInt8 :=
  [0x45, 0, 0, 0, 0, 1, 0, 0, 0xff, 6, 171, 247, 9, 0, 0, 0, 7, 0, 0, 0] ++ List.replicate 26 0

/-- `tcp_input` is called with a length of `2 ^ 64 - 20`. -/
theorem total_escapes : ¬ ∀ (protocols : List IpProtocol) (iface : Option IfaceAddr)
    (data : List UInt8), ∀ i ∈ iface, ∀ call ∈ ipInput protocols iface data,
      call.Contained data i := by
  intro h
  let i := ifaceAddr 7 0x00ffffff
  obtain ⟨hdr, hhdr⟩ : ∃ hdr, ipHdr totalZero = some hdr := ⟨_, rfl⟩
  have ha : Admitted ipProtocols (some i) totalZero hdr ⟨ipProtocolTcp, .tcp⟩ := by
    cases hhdr
    exact ⟨by decide, rfl, by decide, by decide, by decide, by decide +kernel, by decide,
      ⟨i, rfl, .inl rfl⟩, rfl⟩
  have hc := h ipProtocols (some i) totalZero i rfl _ (ipInput_eq_some.mpr ⟨hdr, _, ha, rfl⟩)
  obtain ⟨hdr', hhdr', -, hle, -⟩ := hc.lengths
  cases Option.some.inj (hhdr.symm.trans hhdr')
  cases hhdr
  exact absurd hle (by decide)

end Laplus.Net
