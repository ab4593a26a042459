/-
# `Laplus.Net.Altered` — what the Internet checksum detects

A range that checks does not check any more when one of its words is changed,
unless the change is between zero and all ones, which weigh the same.  UDP and
TCP sum their whole message, so they drop every message that differs from a
good one in a word.

`ip_input` sums as many words as the header itself says.  A change of the
header length moves the end of the range, and words that were data join the
sum; what else is changed in the header is detected.  The data of a datagram
is left to the protocol.
-/
import Laplus.Net.Contain

namespace Laplus.Net

open Lib

/-! ## One word -/

/-- Two words that a sum cannot tell apart. -/
def Alike (v v' : UInt16) : Prop := v = v' ∨ v = 0 ∧ v' = 0xffff ∨ v = 0xffff ∧ v' = 0

/-- The same bytes but for one aligned word, or for the odd last byte. -/
inductive Altered : List UInt8 → List UInt8 → Prop
  | word {a b a' b' : UInt8} (bs : List UInt8) (h : ¬ Alike (load16 a b) (load16 a' b')) :
      Altered (a :: b :: bs) (a' :: b' :: bs)
  | last {a a' : UInt8} (h : a ≠ a') : Altered [a] [a']
  | skip {bs bs' : List UInt8} (a b : UInt8) (h : Altered bs bs') :
      Altered (a :: b :: bs) (a :: b :: bs')

/-- One bit of one byte is flipped. -/
def flipBit (bs : List UInt8) (k : Nat) (i : Fin 8) : List UInt8 :=
  bs.modify k (· ^^^ (1 : UInt8) <<< UInt8.ofNat i)

theorem flip_ne (a : UInt8) (i : Fin 8) : a ^^^ (1 : UInt8) <<< UInt8.ofNat i ≠ a := by
  have hbit : ∀ i : Fin 8, (1 : UInt8) <<< UInt8.ofNat i ≠ 0 := by decide
  intro h
  refine hbit i ?_
  calc (1 : UInt8) <<< UInt8.ofNat i
      = a ^^^ (a ^^^ (1 : UInt8) <<< UInt8.ofNat i) := by
        rw [← UInt8.xor_assoc, UInt8.xor_self, UInt8.zero_xor]
    _ = 0 := by rw [h, UInt8.xor_self]

/-- Words that differ in one byte only can be told apart. -/
theorem not_alike_lo {a a' b : UInt8} (h : a ≠ a') : ¬ Alike (load16 a b) (load16 a' b) := by
  have ha := a.toNat_lt
  have ha' := a'.toNat_lt
  have hne : a.toNat ≠ a'.toNat := fun he => h (UInt8.toNat_inj.mp he)
  simp only [Alike, ← UInt16.toNat_inj, load16_toNat, UInt16.reduceToNat]
  omega

theorem not_alike_hi {a b b' : UInt8} (h : b ≠ b') : ¬ Alike (load16 a b) (load16 a b') := by
  have ha := a.toNat_lt
  have hb := b.toNat_lt
  have hb' := b'.toNat_lt
  have hne : b.toNat ≠ b'.toNat := fun he => h (UInt8.toNat_inj.mp he)
  simp only [Alike, ← UInt16.toNat_inj, load16_toNat, UInt16.reduceToNat]
  omega

/-- A flipped bit is an altered word. -/
theorem flipBit_altered {bs : List UInt8} {k : Nat} (hk : k < bs.length) (i : Fin 8) :
    Altered bs (flipBit bs k i) := by
  induction bs using wordSum.induct generalizing k with
  | case1 a b bs ih =>
      rcases k with _ | _ | k
      · exact .word bs (not_alike_lo (flip_ne a i).symm)
      · exact .word bs (not_alike_hi (flip_ne b i).symm)
      · exact .skip a b (ih (by simpa using hk))
  | case2 a =>
      obtain rfl : k = 0 := by simpa using hk
      exact .last (flip_ne a i).symm
  | case3 => cases hk

namespace Altered
variable {bs bs' : List UInt8}

theorem length_eq (h : Altered bs bs') : bs'.length = bs.length := by
  induction h with
  | word => rfl
  | last => rfl
  | skip a b _ ih => simp [ih]

/-- One word of the sum is another one. -/
theorem wordSum_eq (h : Altered bs bs') : ∃ n v v', wordSum bs = n + v ∧ wordSum bs' = n + v' ∧
    v ≤ 65535 ∧ v' ≤ 65535 ∧ ¬ (v = v' ∨ v = 0 ∧ v' = 65535 ∨ v = 65535 ∧ v' = 0) := by
  induction h with
  | @word a b a' b' bs h =>
      have ha := a.toNat_lt
      have hb := b.toNat_lt
      have ha' := a'.toNat_lt
      have hb' := b'.toNat_lt
      simp only [Alike, ← UInt16.toNat_inj, load16_toNat, UInt16.reduceToNat] at h
      refine ⟨wordSum bs, a.toNat + 256 * b.toNat, a'.toNat + 256 * b'.toNat, ?_, ?_, ?_, ?_, h⟩
      · rw [wordSum, Nat.add_comm]
      · rw [wordSum, Nat.add_comm]
      · omega
      · omega
  | @last a a' h =>
      have ha := a.toNat_lt
      have ha' := a'.toNat_lt
      have hne : a.toNat ≠ a'.toNat := fun he => h (UInt8.toNat_inj.mp he)
      refine ⟨0, a.toNat, a'.toNat, (Nat.zero_add _).symm, (Nat.zero_add _).symm, ?_, ?_, ?_⟩
      all_goals omega
  | @skip bs bs' a b h ih =>
      obtain ⟨n, v, v', hv, hv', hrest⟩ := ih
      refine ⟨a.toNat + 256 * b.toNat + n, v, v', ?_, ?_, hrest⟩
      · rw [wordSum, hv, ← Nat.add_assoc]
      · rw [wordSum, hv', ← Nat.add_assoc]

/-- **One word.**  The checksum of a range that checks is no longer zero. -/
theorem cksum16_ne_zero (h : Altered bs bs') (hl : bs.length ≤ 65535) {init : UInt32}
    (hi : init.toNat ≤ 65535) (hsum : cksum16 bs init = 0) : cksum16 bs' init ≠ 0 := by
  intro hsum'
  obtain ⟨n, v, v', hv, hv', hle, hle', hne⟩ := h.wordSum_eq
  rw [cksum16_eq_zero hl hi, hv, ← Nat.add_assoc] at hsum
  rw [cksum16_eq_zero (h.length_eq ▸ hl) hi, hv', ← Nat.add_assoc] at hsum'
  exact hne (fold_unique (by decide) hle hle' hsum hsum')

end Altered

/-! ## Messages -/

section Messages
variable {m m' : List UInt8} {src dst : IpAddr}

/-- A message that is accepted checks. -/
theorem udpInput_sum {a : Udp.Arrival} {rest : List UInt8} (hm : m.length ≤ 65535)
    (h : Udp.udpInput (m ++ rest) (UInt64.ofNat m.length) src dst = some (.accepted a)) :
    cksum16 m (pseudoSum src dst ipProtocolUdp (UInt16.ofNat m.length)).toUInt32 = 0 := by
  simp only [Udp.udpInput] at h
  rw [size_toUInt16 hm, count_toNat hm, window_append] at h
  split at h
  · cases h
  obtain ⟨hdr, -, h⟩ := Option.bind_eq_some_iff.mp h
  split at h
  · cases h
  rw [Option.bind_some] at h
  split at h
  · cases h
  · rename_i hsum
    exact not_not.mp hsum

/-- A message that does not check is dropped. -/
theorem udpInput_dropped (rest : List UInt8) (hm : m.length ≤ 65535)
    (hsum : cksum16 m (pseudoSum src dst ipProtocolUdp (UInt16.ofNat m.length)).toUInt32 ≠ 0) :
    Udp.udpInput (m ++ rest) (UInt64.ofNat m.length) src dst = some .dropped := by
  simp only [Udp.udpInput]
  rw [size_toUInt16 hm, count_toNat hm, window_append]
  split
  · rfl
  rename_i hlong
  have h8 : 8 ≤ (m ++ rest).length := by
    have hlt : ¬ m.length < 8 := fun h => hlong ((size_lt hm (by decide)).mpr h)
    rw [List.length_append]
    omega
  obtain ⟨hdr, hhdr⟩ := Option.isSome_iff_exists.mp (udpHdr_isSome h8)
  rw [hhdr, Option.bind_some]
  split
  · rfl
  · rw [Option.bind_some, if_pos hsum]

theorem tcpInput_sum {a : Tcp.ArrivesCall} {rest : List UInt8} {iface : IfaceAddr}
    (hm : m.length ≤ 65535)
    (h : Tcp.tcpInput (m ++ rest) (UInt64.ofNat m.length) src dst iface = some (.accepted a)) :
    cksum16 m (pseudoSum src dst ipProtocolTcp (UInt16.ofNat m.length)).toUInt32 = 0 := by
  simp only [Tcp.tcpInput] at h
  rw [size_toUInt16 hm, count_toNat hm, window_append] at h
  split at h
  · cases h
  rw [Option.bind_some] at h
  split at h
  · cases h
  · rename_i hsum
    exact not_not.mp hsum

theorem tcpInput_dropped (rest : List UInt8) (iface : IfaceAddr) (hm : m.length ≤ 65535)
    (hsum : cksum16 m (pseudoSum src dst ipProtocolTcp (UInt16.ofNat m.length)).toUInt32 ≠ 0) :
    Tcp.tcpInput (m ++ rest) (UInt64.ofNat m.length) src dst iface = some .dropped := by
  simp only [Tcp.tcpInput]
  rw [size_toUInt16 hm, count_toNat hm, window_append]
  split
  · rfl
  · rw [Option.bind_some, if_pos hsum]

/-- A good UDP message with a word altered. -/
theorem udpInput_altered {a : Udp.Arrival} {rest : List UInt8} (hm : m.length ≤ 65535)
    (h : Udp.udpInput (m ++ rest) (UInt64.ofNat m.length) src dst = some (.accepted a))
    (halt : Altered m m') (rest' : List UInt8) :
    Udp.udpInput (m' ++ rest') (UInt64.ofNat m'.length) src dst = some .dropped := by
  refine udpInput_dropped rest' (halt.length_eq ▸ hm) ?_
  rw [halt.length_eq]
  exact halt.cksum16_ne_zero hm (toUInt32_le _) (udpInput_sum hm h)

/-- A good TCP segment with a word altered. -/
theorem tcpInput_altered {a : Tcp.ArrivesCall} {rest : List UInt8} {iface : IfaceAddr}
    (hm : m.length ≤ 65535)
    (h : Tcp.tcpInput (m ++ rest) (UInt64.ofNat m.length) src dst iface = some (.accepted a))
    (halt : Altered m m') (rest' : List UInt8) :
    Tcp.tcpInput (m' ++ rest') (UInt64.ofNat m'.length) src dst iface = some .dropped := by
  refine tcpInput_dropped rest' iface (halt.length_eq ▸ hm) ?_
  rw [halt.length_eq]
  exact halt.cksum16_ne_zero hm (toUInt32_le _) (tcpInput_sum hm h)

end Messages

/-! ## Headers -/

/-- A datagram that was admitted, with a word of its header altered but not the length of
the header. -/
theorem ipInput_altered {protocols : List IpProtocol} {iface : Option IfaceAddr}
    {head head' data : List UInt8} {hdr : IpHdr} {call : IpCall}
    (hhdr : ipHdr (head ++ data) = some hdr) (hlen : head.length = hdr.hlen.toNat)
    (h : ipInput protocols iface (head ++ data) = some call) (halt : Altered head head')
    (hsame : ∀ hdr', ipHdr (head' ++ data) = some hdr' → hdr'.hlen = hdr.hlen) :
    ipInput protocols iface (head' ++ data) = none := by
  obtain ⟨hdr₁, proto, ha, -⟩ := ipInput_eq_some.mp h
  cases hhdr.symm.trans ha.header
  have hsum : cksum16 head 0 = 0 := by
    have hsum := ha.sum
    rwa [← hlen, List.take_left] at hsum
  by_contra hsome
  obtain ⟨call', hcall⟩ := Option.ne_none_iff_exists'.mp hsome
  obtain ⟨hdr', proto', ha', -⟩ := ipInput_eq_some.mp hcall
  have hsum' := ha'.sum
  rw [hsame hdr' ha'.header, ← hlen, ← halt.length_eq, List.take_left] at hsum'
  refine halt.cksum16_ne_zero ?_ zero_le_init hsum hsum'
  have hlt := hdr.hlen.toNat_lt
  omega

/-- **What is detected.**  A range of at most 65535 bytes that checks, with any 16-bit start
value, does not check with a word altered; so `udp_input` and `tcp_input` drop every message that
differs from a good one in a word, and `ip_input` every datagram that differs from a good one in a
word of its header but has a header of the same length.  A flipped bit is such a word. -/
theorem altered_detected :
    (∀ (bs bs' : List UInt8) (init : UInt16), bs.length ≤ 65535 → Altered bs bs' →
      cksum16 bs init.toUInt32 = 0 → cksum16 bs' init.toUInt32 ≠ 0) ∧
    (∀ (m m' rest rest' : List UInt8) (src dst : IpAddr) (a : Udp.Arrival), m.length ≤ 65535 →
      Altered m m' →
      Udp.udpInput (m ++ rest) (UInt64.ofNat m.length) src dst = some (.accepted a) →
      Udp.udpInput (m' ++ rest') (UInt64.ofNat m'.length) src dst = some .dropped) ∧
    (∀ (m m' rest rest' : List UInt8) (src dst : IpAddr) (iface : IfaceAddr)
      (a : Tcp.ArrivesCall), m.length ≤ 65535 → Altered m m' →
      Tcp.tcpInput (m ++ rest) (UInt64.ofNat m.length) src dst iface = some (.accepted a) →
      Tcp.tcpInput (m' ++ rest') (UInt64.ofNat m'.length) src dst iface = some .dropped) ∧
    (∀ (protocols : List IpProtocol) (iface : Option IfaceAddr) (head head' data : List UInt8)
      (hdr : IpHdr) (call : IpCall), ipHdr (head ++ data) = some hdr →
      head.length = hdr.hlen.toNat → Altered head head' →
      (∀ hdr', ipHdr (head' ++ data) = some hdr' → hdr'.hlen = hdr.hlen) →
      ipInput protocols iface (head ++ data) = some call →
      ipInput protocols iface (head' ++ data) = none) ∧
    ∀ (bs : List UInt8) (k : Nat) (i : Fin 8), k < bs.length → Altered bs (flipBit bs k i) :=
  ⟨fun _ _ init hl halt hsum => halt.cksum16_ne_zero hl (toUInt32_le init) hsum,
    fun _ _ _ rest' _ _ _ hm halt h => udpInput_altered hm h halt rest',
    fun _ _ _ rest' _ _ _ _ hm halt h => tcpInput_altered hm h halt rest',
    fun _ _ _ _ _ _ _ hhdr hlen halt hsame h => ipInput_altered hhdr hlen h halt hsame,
    fun _ _ i hk => flipBit_altered hk i⟩

/-- A datagram of 28 bytes to 7.0.0.0; the first word of its data is `0xfffd`. -/
def shortDatagram : List UInt8 :=
  [0x45, 0, 0, 28, 0, 1, 0, 0, 0xff, 17, 171, 208, 9, 0, 0, 0, 7, 0, 0, 0] ++
    [0xfd, 0xff, 0, 0, 0, 0, 0, 0]

/-- One bit of the header length is flipped, and all the data joins the sum. -/
theorem header_length_undetected :
    ¬ ∀ (protocols : List IpProtocol) (iface : Option IfaceAddr) (data data' : List UInt8)
      (call : IpCall), Altered data data' → ipInput protocols iface data = some call →
        ipInput protocols iface data' = none := by
  intro h
  let i := ifaceAddr 7 0x00ffffff
  have hnone := h ipProtocols (some i) shortDatagram (flipBit shortDatagram 0 1)
    ⟨.udp, 20, 8, 9, 7⟩ (flipBit_altered (by decide) 1) (by decide +kernel)
  have hsome : ipInput ipProtocols (some i) (flipBit shortDatagram 0 1) =
      some ⟨.udp, 28, 0, 9, 7⟩ := by decide +kernel
  cases hsome.symm.trans hnone

end Laplus.Net
