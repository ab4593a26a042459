/-
# `Laplus.Net.Icmp` — `icmp_output`, and what `icmp_input` makes of it

`icmp_output` copies its data behind a header in a buffer of `ICMP_BUFSIZ`
bytes and does not look at the length.  `IcmpOutput.message` has no value when
the data does not fit.

`icmp_input` answers the echo request and no other message, so an answer is
never answered.
-/
import Laplus.Net.Wire

namespace Laplus.Net

/-- `ICMP_BUFSIZ`, which is `IP_PAYLOAD_SIZE_MAX`. -/
def icmpBufsiz : Nat := 4096 - ipHdrSizeMin

/-- The header in memory. -/
def IcmpHdr.bytes (h : IcmpHdr) : List UInt8 :=
  [h.type, h.code] ++ (store16 h.sum ++ store32 h.values)

/-- The header `icmp_output` builds, before the checksum. -/
def IcmpOutput.hdr (o : IcmpOutput) : IcmpHdr := ⟨o.type, o.code, 0, o.values⟩

/-- The bytes in `buf`. -/
def IcmpOutput.bytes (o : IcmpOutput) : List UInt8 :=
  { o.hdr with sum := cksum16 (o.hdr.bytes ++ o.data) 0 }.bytes ++ o.data

/-- The message `icmp_output` hands to `ip_output`; `none`: the data does not fit the buffer. -/
def IcmpOutput.message (o : IcmpOutput) : Option (List UInt8) :=
  if icmpBufsiz < 8 + o.data.length then none else some o.bytes

/-! ## The bytes -/

@[simp] theorem IcmpHdr.bytes_length (h : IcmpHdr) : h.bytes.length = 8 := rfl

@[simp] theorem IcmpOutput.bytes_length (o : IcmpOutput) : o.bytes.length = 8 + o.data.length := by
  rw [IcmpOutput.bytes, List.length_append, IcmpHdr.bytes_length]

@[simp] theorem icmpHdr_bytes (h : IcmpHdr) (rest : List UInt8) :
    icmpHdr (h.bytes ++ rest) = some h := by
  simp [IcmpHdr.bytes, store16, store32, icmpHdr]

theorem icmpHdr_sum (h : IcmpHdr) (v : UInt16) (rest : List UInt8) :
    { h with sum := v }.bytes ++ rest =
      [h.type, h.code] ++ (store16 v ++ (store32 h.values ++ rest)) := by
  simp only [IcmpHdr.bytes, List.append_assoc]

/-- A message with its checksum filled in checks. -/
theorem icmpBytes_sum (o : IcmpOutput) (hlen : o.data.length ≤ 65507) :
    cksum16 o.bytes 0 = 0 := by
  have hzero : o.hdr.bytes ++ o.data =
      [o.type, o.code] ++ (store16 0 ++ (store32 o.values ++ o.data)) := icmpHdr_sum o.hdr 0 o.data
  rw [IcmpOutput.bytes, icmpHdr_sum, hzero]
  refine cksum16_fill (by simp) ?_ zero_le_init
  have hvalues : (store32 o.values).length = 4 := rfl
  rw [List.length_append, hvalues]
  simp only [List.length_cons, List.length_nil]
  omega

/-- What `icmp_input` makes of the message `o`. -/
def IcmpOutput.verdict (o : IcmpOutput) (src : IpAddr) (iface : IfaceAddr) : Verdict IcmpOutput :=
  if o.type = icmpTypeEcho then
    .accepted ⟨icmpTypeEchoReply, o.code, o.values, o.data, iface.unicast, src⟩
  else .dropped

/-- `icmp_input` undoes `icmp_output`, whatever follows the message. -/
theorem icmpInput_output (o : IcmpOutput) (hlen : o.data.length ≤ 65507) (src : IpAddr)
    (iface : IfaceAddr) (pad : List UInt8) :
    icmpInput (o.bytes ++ pad) (UInt64.ofNat o.bytes.length) src iface =
      some (o.verdict src iface) := by
  have hn : 8 + o.data.length ≤ 65535 := by omega
  have hshort : ¬ UInt64.ofNat (8 + o.data.length) < 8 := by
    have h8 : UInt64.ofNat (8 + o.data.length) < UInt64.ofNat 8 ↔ 8 + o.data.length < 8 :=
      size_lt hn (by decide)
    exact fun h => absurd (h8.mp h) (by omega)
  have hbytes : window (o.bytes ++ pad) (8 + o.data.length) = some o.bytes := by
    rw [← o.bytes_length, window_append]
  have hhdr : icmpHdr (o.bytes ++ pad) =
      some { o.hdr with sum := cksum16 (o.hdr.bytes ++ o.data) 0 } := by
    rw [IcmpOutput.bytes, List.append_assoc, icmpHdr_bytes]
  have hdata : window ((o.bytes ++ pad).drop 8) (UInt64.ofNat (8 + o.data.length) - 8).toNat =
      some o.data := by
    have h8 : (8 : UInt64) ≤ UInt64.ofNat (8 + o.data.length) := UInt64.not_lt.mp hshort
    have h8n : (8 : UInt64).toNat = 8 := rfl
    have hcount : (UInt64.ofNat (8 + o.data.length) - 8).toNat = o.data.length := by
      rw [UInt64.toNat_sub_of_le _ _ h8, size_toNat hn, h8n]
      omega
    have hdrop : (o.bytes ++ pad).drop 8 = o.data ++ pad := by
      rw [IcmpOutput.bytes, List.append_assoc]
      rfl
    rw [hcount, hdrop, window_append]
  rw [o.bytes_length, icmpInput, if_neg hshort, size_toUInt16 hn, count_toNat hn, hbytes,
    Option.bind_some, if_neg (not_not.mpr (icmpBytes_sum o hlen)), hhdr, Option.bind_some, hdata]
  by_cases hecho : o.type = icmpTypeEcho
  · rw [IcmpOutput.verdict, if_pos hecho, if_pos (show o.hdr.type = icmpTypeEcho from hecho)]
    rfl
  · rw [IcmpOutput.verdict, if_neg hecho, if_neg (show ¬ o.hdr.type = icmpTypeEcho from hecho)]

end Laplus.Net
