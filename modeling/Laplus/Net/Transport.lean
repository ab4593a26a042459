/-
# `Laplus.Net.Transport` — what the handlers above IP share

A handler gets a pointer into the received bytes and a `size_t`.  Its model
takes the bytes from the pointer on and the length; it answers `none` when it
loads a byte that was not received.  UDP and TCP checksum their message
together with the pseudo header (`struct pseudo_hdr` of both files).

A message is sent with its checksum computed over a zero field; the receiver
computes it over the same words with the field filled in.  `cksum16_fill`
says that this gives zero, for any length and content.
-/
import Laplus.Net.Datagram

namespace Laplus.Net

open Lib

/-- What a handler makes of its message. -/
inductive Verdict (α : Type) where
  | dropped
  | accepted (a : α)
deriving DecidableEq

/-! ## Lengths -/

section Size
variable {n : Nat} (h : n ≤ 65535)
include h

/-- The length of a message as a `size_t`. -/
theorem size_toNat : (UInt64.ofNat n).toNat = n := by
  rw [UInt64.toNat_ofNat']
  omega

/-- The length of a message as a `uint16_t`. -/
theorem count_toNat : (UInt16.ofNat n).toNat = n := by
  rw [UInt16.toNat_ofNat']
  omega

theorem size_toUInt16 : (UInt64.ofNat n).toUInt16 = UInt16.ofNat n := by
  apply UInt16.toNat_inj.mp
  rw [UInt64.toNat_toUInt16, size_toNat h, count_toNat h]
  omega

/-- The length test of a handler whose header has `k` bytes. -/
theorem size_lt {k : Nat} (hk : k ≤ 65535) : UInt64.ofNat n < UInt64.ofNat k ↔ n < k := by
  rw [UInt64.lt_iff_toNat_lt, size_toNat h, size_toNat hk]

end Size

/-- A message, whatever follows it in memory. -/
theorem window_append (m rest : List UInt8) : window (m ++ rest) m.length = some m := by
  rw [window, if_pos (by simp), List.take_left]

theorem window_all (m : List UInt8) : window m m.length = some m := by
  rw [window, if_pos (Nat.le_refl _), List.take_length]

/-! ## The pseudo header -/

/-- `struct pseudo_hdr` in memory. -/
def pseudoHdr (src dst : IpAddr) (protocol : UInt8) (len : UInt16) : List UInt8 :=
  store32 src ++ (store32 dst ++ ([0, protocol] ++ store16 (hton16 len)))

/-- `psum`. -/
def pseudoSum (src dst : IpAddr) (protocol : UInt8) (len : UInt16) : UInt16 :=
  ~~~ cksum16 (pseudoHdr src dst protocol len) 0

/-! ## Filling in a checksum -/

/-- A 16-bit start value. -/
theorem toUInt32_le (s : UInt16) : s.toUInt32.toNat ≤ 65535 := by
  have := s.toNat_lt
  rw [UInt16.toNat_toUInt32]
  omega

theorem zero_le_init : (0 : UInt32).toNat ≤ 65535 := by decide

/-- A range whose checksum field, at an even offset, holds the checksum
computed with a zero field has checksum zero. -/
theorem cksum16_fill {xs ys : List UInt8} {init : UInt32} (hx : xs.length % 2 = 0)
    (hl : xs.length + 2 + ys.length ≤ 65535) (hi : init.toNat ≤ 65535) :
    cksum16 (xs ++ (store16 (cksum16 (xs ++ (store16 0 ++ ys)) init) ++ ys)) init = 0 := by
  have hsum : ∀ v : UInt16, wordSum (xs ++ (store16 v ++ ys)) =
      wordSum xs + (v.toNat + wordSum ys) := by
    intro v
    rw [wordSum_append hx, wordSum_store16]
  have hlen : ∀ v : UInt16, (xs ++ (store16 v ++ ys)).length ≤ 65535 := by
    intro v
    simp only [List.length_append, store16_length]
    omega
  have hzero : (0 : UInt16).toNat = 0 := rfl
  rw [cksum16_eq_zero (hlen _) hi, hsum, cksum16_toNat (hlen _) hi, hsum, hzero]
  refine Eq.trans (congrArg (fold 65535) ?_)
    (fold_complement (by decide) (init.toNat + (wordSum xs + (0 + wordSum ys))))
  omega

/-! ## ICMP -/

/-- `struct icmp_hdr`. -/
structure IcmpHdr where
  type : UInt8
  code : UInt8
  sum : UInt16
  values : UInt32
deriving DecidableEq

def icmpHdr : List UInt8 → Option IcmpHdr
  | type :: code :: c₀ :: c₁ :: v₀ :: v₁ :: v₂ :: v₃ :: _ =>
      some ⟨type, code, load16 c₀ c₁, load32 v₀ v₁ v₂ v₃⟩
  | _ => none

def icmpTypeEchoReply : UInt8 := 0
def icmpTypeEcho : UInt8 := 8

/-- The call of `icmp_output`. -/
structure IcmpOutput where
  type : UInt8
  code : UInt8
  values : UInt32
  data : List UInt8
  src : IpAddr
  dst : IpAddr
deriving DecidableEq

/-- `icmp_input`: an echo request is answered from the unicast address.  The
`uint16_t count` of `cksum16` cuts the length to 16 bits. -/
def icmpInput (m : List UInt8) (len : UInt64) (src : IpAddr) (iface : IfaceAddr) :
    Option (Verdict IcmpOutput) :=
  if len < 8 then some .dropped
  else
    (window m len.toUInt16.toNat).bind fun bytes =>
      if cksum16 bytes 0 ≠ 0 then some .dropped
      else
        (icmpHdr m).bind fun hdr =>
          if hdr.type = icmpTypeEcho then
            (window (m.drop 8) (len - 8).toNat).map fun data =>
              .accepted ⟨icmpTypeEchoReply, hdr.code, hdr.values, data, iface.unicast, src⟩
          else some .dropped

end Laplus.Net
