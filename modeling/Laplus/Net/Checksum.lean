/-
# `Laplus.Net.Checksum` — checksums that are computed in parts

The complement of a checksum is the folded sum of its words, so `cksum16` goes on from it over
what follows.  UDP and TCP sum their pseudo header first and start from there with the message:
what they send and what they check is the checksum of both in one.
-/
import Laplus.Net.Wire

namespace Laplus.Net

open Lib

/-! ## Sums that fit -/

/-- No addition of a word in `cksum16` overflows. -/
def SumsFit : List UInt8 → UInt32 → Prop
  | a :: b :: bs, sum =>
      sum.toNat + (load16 a b).toNat < 2 ^ 32 ∧ SumsFit bs (sum + (load16 a b).toUInt32)
  | [a], sum => sum.toNat + a.toNat < 2 ^ 32
  | [], _ => True

/-- No addition in the carry loop of `cksum16` overflows, and the loop is done by then. -/
def CarriesFit : Nat → UInt32 → Prop
  | 0, sum => sum >>> 16 = 0
  | n + 1, sum => sum >>> 16 = 0 ∨
      (sum &&& (0xffff : UInt32)).toNat + (sum >>> 16).toNat < 2 ^ 32 ∧
        CarriesFit n ((sum &&& (0xffff : UInt32)) + (sum >>> 16))

/-- No sum in `cksum16` overflows its 32 bits. -/
structure NoOverflow (bs : List UInt8) (init : UInt32) : Prop where
  words : SumsFit bs init
  carries : CarriesFit 2 (sum16 bs init)

theorem sumsFit {bs : List UInt8} {sum : UInt32} (h : sum.toNat + wordSum bs < 2 ^ 32) :
    SumsFit bs sum := by
  induction bs, sum using sum16.induct with
  | case1 a b bs sum ih =>
      rw [wordSum] at h
      have hword := load16_toNat a b
      have hadd : (sum + (load16 a b).toUInt32).toNat = sum.toNat + (load16 a b).toNat := by
        rw [UInt32.toNat_add, UInt16.toNat_toUInt32]
        exact Nat.mod_eq_of_lt (by omega)
      exact ⟨by omega, ih (by rw [hadd]; omega)⟩
  | case2 a sum => exact h
  | case3 sum => trivial

/-- A carry loop that stops has added without overflow. -/
theorem carriesFit {n : Nat} {sum : UInt32} (h : foldLoop n sum >>> 16 = 0) : CarriesFit n sum := by
  induction n generalizing sum with
  | zero => exact h
  | succ n ih =>
      rw [foldLoop] at h
      split at h
      next h0 => exact .inl h0
      next =>
        refine .inr ⟨?_, ih h⟩
        have hs := sum.toNat_lt
        have hlow : sum.toNat &&& 65535 = sum.toNat % 65536 := Nat.and_two_pow_sub_one_eq_mod _ 16
        simp only [UInt32.toNat_and, UInt32.toNat_shiftRight, UInt32.reduceToNat, Nat.reduceMod, hlow,
          Nat.shiftRight_eq_div_pow]
        omega

/-- **No sum overflows** over a range as long as `count` can say. -/
theorem noOverflow {bs : List UInt8} {init : UInt32} (hl : bs.length ≤ 65535)
    (hi : init.toNat ≤ 65535) : NoOverflow bs init where
  words := sumsFit (by
    have hw := wordSum_le bs
    omega)
  carries := carriesFit (foldLoop_stops _)

/-! ## Two parts -/

/-- The complement of a checksum is the folded sum. -/
theorem complement_toNat {bs : List UInt8} {init : UInt32} (hl : bs.length ≤ 65535)
    (hi : init.toNat ≤ 65535) :
    (~~~ cksum16 bs init).toUInt32.toNat = fold 65535 (init.toNat + wordSum bs) := by
  have hle : fold 65535 (init.toNat + wordSum bs) ≤ 65535 := fold_le (by decide) _
  rw [UInt16.toNat_toUInt32, UInt16.toNat_not, cksum16_toNat hl hi]
  simp only [UInt16.size]
  omega

/-- **The second part goes on** from the complement of the first. -/
theorem cksum16_append {a b : List UInt8} {init : UInt32} (ha : a.length % 2 = 0)
    (hl : a.length + b.length ≤ 65535) (hi : init.toNat ≤ 65535) :
    cksum16 (a ++ b) init = cksum16 b (~~~ cksum16 a init).toUInt32 := by
  have hla : a.length ≤ 65535 := (Nat.le_add_right _ _).trans hl
  have hlb : b.length ≤ 65535 := (Nat.le_add_left _ _).trans hl
  rw [← UInt16.toNat_inj, cksum16_toNat (List.length_append.trans_le hl) hi,
    cksum16_toNat hlb (toUInt32_le _), complement_toNat hla hi, fold_add, wordSum_append ha,
    Nat.add_assoc]

theorem pseudoHdr_length (src dst : IpAddr) (protocol : UInt8) (len : UInt16) :
    (pseudoHdr src dst protocol len).length = 12 := rfl

/-- The checksum of the pseudo header and a message is that of the message from `psum` on. -/
theorem cksum16_pseudo {m : List UInt8} (hl : 12 + m.length ≤ 65535) (src dst : IpAddr)
    (protocol : UInt8) (len : UInt16) :
    cksum16 (pseudoHdr src dst protocol len ++ m) 0 =
      cksum16 m (pseudoSum src dst protocol len).toUInt32 :=
  cksum16_append (by rw [pseudoHdr_length]) (by rw [pseudoHdr_length]; exact hl) zero_le_init

/-- What `udp_output` sends checks. -/
theorem udpOutput_checks {src dst : Udp.Endpoint} {data msg : List UInt8}
    (h : Udp.udpOutput src dst data = some msg) :
    msg.length ≤ 4076 ∧ cksum16 msg
      (pseudoSum src.addr dst.addr ipProtocolUdp (UInt16.ofNat msg.length)).toUInt32 = 0 := by
  rw [Udp.udpOutput] at h
  split at h
  · cases h
  next hle =>
    obtain rfl : Udp.message src dst data = msg := Option.some.inj h
    have h4068 : Udp.ipPayloadSizeMax - 8 = 4068 := rfl
    rw [message_length]
    exact ⟨by omega, udpHdr_fill rfl (by omega) _⟩

/-- What `tcp_output_segment` sends checks. -/
theorem tcpSegment_checks {s : Tcp.TcpSegment} (h : s.bytes.length ≤ 65535) :
    cksum16 s.bytes (pseudoSum s.localEp.addr s.foreignEp.addr ipProtocolTcp
      (UInt16.ofNat s.bytes.length)).toUInt32 = 0 := by
  rw [segment_bytes_length] at h ⊢
  exact tcpHdr_fill rfl (by omega) _

/-- **Checksums chain.**  A range may be summed in two parts, the first of an even length, with no
sum that overflows; a checksum that is stored in its field makes the whole check; and so UDP and
TCP, which sum the pseudo header apart, check what they have sent. -/
theorem cksum16_chains :
    (∀ (a b : List UInt8) (init : UInt32), a.length % 2 = 0 → a.length + b.length ≤ 65535 →
      init.toNat ≤ 0xffff →
        cksum16 (a ++ b) init = cksum16 b (~~~ cksum16 a init).toUInt32 ∧
          NoOverflow (a ++ b) init ∧ NoOverflow a init ∧
            NoOverflow b (~~~ cksum16 a init).toUInt32) ∧
    (∀ (xs ys : List UInt8) (init : UInt32), xs.length % 2 = 0 →
      xs.length + 2 + ys.length ≤ 65535 → init.toNat ≤ 0xffff →
        cksum16 (xs ++ (store16 (cksum16 (xs ++ (store16 0 ++ ys)) init) ++ ys)) init = 0) ∧
    (∀ (src dst : Udp.Endpoint) (data msg : List UInt8), Udp.udpOutput src dst data = some msg →
      let len := UInt16.ofNat msg.length
      cksum16 (pseudoHdr src.addr dst.addr ipProtocolUdp len ++ msg) 0 = 0 ∧
        cksum16 msg (pseudoSum src.addr dst.addr ipProtocolUdp len).toUInt32 = 0) ∧
    ∀ s : Tcp.TcpSegment, 12 + s.bytes.length ≤ 65535 →
      let len := UInt16.ofNat s.bytes.length
      cksum16 (pseudoHdr s.localEp.addr s.foreignEp.addr ipProtocolTcp len ++ s.bytes) 0 = 0 ∧
        cksum16 s.bytes
          (pseudoSum s.localEp.addr s.foreignEp.addr ipProtocolTcp len).toUInt32 = 0 := by
  refine ⟨fun a b init ha hl hi => ?_, fun xs ys init => cksum16_fill,
    fun src dst data msg h => ?_, fun s hs => ?_⟩
  · have hla : a.length ≤ 65535 := (Nat.le_add_right _ _).trans hl
    have hlb : b.length ≤ 65535 := (Nat.le_add_left _ _).trans hl
    exact ⟨cksum16_append ha hl hi, noOverflow (List.length_append.trans_le hl) hi,
      noOverflow hla hi, noOverflow hlb (toUInt32_le _)⟩
  · obtain ⟨hlen, hsum⟩ := udpOutput_checks h
    exact ⟨(cksum16_pseudo (by omega) _ _ _ _).trans hsum, hsum⟩
  · have hsum := tcpSegment_checks (s := s) (by omega)
    exact ⟨(cksum16_pseudo hs _ _ _ _).trans hsum, hsum⟩

/-- One word and an odd byte, a field between them, and a message of each protocol. -/
theorem cksum16_chains_odd :
    cksum16 ([0xff, 0xff] ++ [1]) 0 = cksum16 [1] (~~~ cksum16 [0xff, 0xff] 0).toUInt32 ∧
    cksum16 ([0, 1] ++ (store16 (cksum16 ([0, 1] ++ (store16 0 ++ [2])) 7) ++ [2])) 7 = 0 ∧
    cksum16 (Udp.message ⟨7, 80⟩ ⟨9, 1000⟩ [1, 2, 3]) (pseudoSum 7 9 ipProtocolUdp
      (UInt16.ofNat (Udp.message ⟨7, 80⟩ ⟨9, 1000⟩ [1, 2, 3]).length)).toUInt32 = 0 ∧
    cksum16 (Tcp.TcpSegment.mk 100 0 Tcp.flgSyn 8192 [] ⟨7, 80⟩ ⟨9, 1000⟩).bytes
      (pseudoSum 7 9 ipProtocolTcp (UInt16.ofNat
        (Tcp.TcpSegment.mk 100 0 Tcp.flgSyn 8192 [] ⟨7, 80⟩ ⟨9, 1000⟩).bytes.length)).toUInt32 = 0 :=
  ⟨(cksum16_chains.1 [0xff, 0xff] [1] 0 rfl (by decide) (by decide)).1,
    cksum16_chains.2.1 [0, 1] [2] 7 rfl (by decide) (by decide),
    (cksum16_chains.2.2.1 ⟨7, 80⟩ ⟨9, 1000⟩ [1, 2, 3] _ rfl).2,
    (cksum16_chains.2.2.2 ⟨100, 0, Tcp.flgSyn, 8192, [], ⟨7, 80⟩, ⟨9, 1000⟩⟩ (by decide)).2⟩

end Laplus.Net
