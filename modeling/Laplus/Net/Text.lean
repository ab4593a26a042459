/-
# `Laplus.Net.Text` — addresses and endpoints as text

`ip_addr_ntop` and `ether_addr_ntop` print the bytes of an address as they
stand in memory, in decimal with dots and in hexadecimal with colons;
`ip_addr_pton` and `ether_addr_pton` call `strtol` for each byte and go on
behind the delimiter.  An endpoint is an address, a colon and a port in host
byte order.  The parsers read what the printers write, and the declared sizes
hold the longest text.
-/
import Laplus.Fat.Name
import Laplus.Lib.CString
import Laplus.Net.Ethernet
import Laplus.Udp.Pcb

namespace Laplus.Net

open Lib Fat

def colon : UInt8 := 0x3a

def ipAddrStrLen : Nat := 16
def etherAddrStrLen : Nat := 18
def endpointStrLen : Nat := ipAddrStrLen + 6

/-! ## Bytes with delimiters -/

/-- The text of a format with one conversion for each byte and a delimiter between them. -/
def joined (base width : Nat) (delim : UInt8) : List UInt8 → List UInt8
  | [] => []
  | [b] => showNat base width b.toNat
  | b :: bs => showNat base width b.toNat ++ delim :: joined base width delim bs

/-- The loop of the parsers, with so many bytes to go: a number of one byte, and behind it the
delimiter, or the end of the string behind the last one.  (`ether_addr_pton` tests for the end
after the loop.) -/
def ptonLoop (base : Nat) (delim : UInt8) : Nat → List UInt8 → Option (List UInt8)
  | 0, _ => some []
  | k + 1, p =>
      let (val, n) := strtol p base
      let ep := p.drop n
      if val < 0 ∨ val > 255 ∨ n = 0 then none
      else if k = 0 ∧ ep.headD 0 ≠ 0 ∨ k ≠ 0 ∧ ep.headD 0 ≠ delim then none
      else (ptonLoop base delim k (ep.drop 1)).map (UInt8.ofNat val.toNat :: ·)

/-! ## Addresses -/

/-- The text of `ip_addr_ntop`: `"%d.%d.%d.%d"`. -/
def ipAddrText (n : IpAddr) : List UInt8 := joined 10 1 dot (store32 n)

/-- `ip_addr_ntop`. -/
def ipAddrNtop (n : IpAddr) (size : Nat) : List UInt8 := snprintf size (ipAddrText n)

/-- `ip_addr_pton`; `none` for `-1`. -/
def ipAddrPton (p : List UInt8) : Option IpAddr :=
  match ptonLoop 10 dot 4 p with
  | some [a, b, c, d] => some (load32 a b c d)
  | _ => none

/-- The text of `ether_addr_ntop`: `"%02x:%02x:%02x:%02x:%02x:%02x"`. -/
def etherAddrText (n : EtherAddr) : List UInt8 := joined 16 2 colon n.bytes

/-- `ether_addr_ntop`. -/
def etherAddrNtop (n : EtherAddr) (size : Nat) : List UInt8 := snprintf size (etherAddrText n)

/-- `ether_addr_pton`. -/
def etherAddrPton (p : List UInt8) : Option EtherAddr :=
  match ptonLoop 16 colon 6 p with
  | some [a, b, c, d, e, f] => some ⟨a, b, c, d, e, f⟩
  | _ => none

/-! ## Endpoints -/

/-- What `tcp_endpoint_ntop` and `udp_endpoint_ntop` print behind the address: `":%d"`. -/
def portText (port : UInt16) : List UInt8 := colon :: showNat 10 1 (ntoh16 port).toNat

/-- `tcp_endpoint_ntop` and `udp_endpoint_ntop`. -/
def endpointNtop (addr : IpAddr) (port : UInt16) (size : Nat) : List UInt8 :=
  let p := ipAddrNtop addr size
  p ++ snprintf (size - p.length) (portText port)

/-- `tcp_endpoint_pton` and `udp_endpoint_pton`: `some none` for `-1`.  The address is copied to an
array of `IP_ADDR_STR_LEN` zeros; `none` when that has no room for it and a NUL. -/
def endpointPton (p : List UInt8) : Option (Option (IpAddr × UInt16)) :=
  match strrchr colon p with
  | none => some none
  | some (addr, rest) =>
      if addr.length ≥ ipAddrStrLen then none
      else
        match ipAddrPton addr with
        | none => some none
        | some addr =>
            let port := (strtol rest 10).1
            if port ≤ 0 ∨ port > 65535 then some none
            else some (some (addr, hton16 (UInt16.ofNat port.toNat)))

def tcpEndpointNtop (n : Tcp.Endpoint) (size : Nat) : List UInt8 := endpointNtop n.addr n.port size

def tcpEndpointPton (p : List UInt8) : Option (Option Tcp.Endpoint) :=
  (endpointPton p).map fun r => r.map fun n => ⟨n.1, n.2⟩

def udpEndpointNtop (n : Udp.Endpoint) (size : Nat) : List UInt8 := endpointNtop n.addr n.port size

def udpEndpointPton (p : List UInt8) : Option (Option Udp.Endpoint) :=
  (endpointPton p).map fun r => r.map fun n => ⟨n.1, n.2⟩

/-! ## Reading what was printed -/

/-- A delimiter: neither a digit nor a letter. -/
structure Delimiter (delim : UInt8) : Prop where
  plain : digitVal delim = none

theorem dot_delimiter : Delimiter dot := ⟨by decide⟩

theorem colon_delimiter : Delimiter colon := ⟨by decide⟩

section Joined
variable {base width : Nat} {delim : UInt8}

/-- One byte, whatever follows that is neither a digit nor a letter. -/
theorem ptonLoop_show (hb : 1 < base) (hb' : base ≤ 36) (hw : 0 < width) (b : UInt8) (k : Nat)
    (rest : List UInt8) (hrest : ∀ c ∈ rest.head?, digitVal c = none)
    (hdelim : k = 0 ∧ rest = [] ∨ k ≠ 0 ∧ rest.head? = some delim) :
    ptonLoop base delim (k + 1) (showNat base width b.toNat ++ rest) =
      (ptonLoop base delim k (rest.drop 1)).map (b :: ·) := by
  have hlt := b.toNat_lt
  have hpos : 0 < (showNat base width b.toNat).length := by
    rw [showNat, List.length_map]
    exact numeral_length_pos hw
  have hread := strtol_show hb hb' hw (by omega : b.toNat < 2 ^ 63) hrest
  have hend : ¬ (k = 0 ∧ rest.headD 0 ≠ 0 ∨ k ≠ 0 ∧ rest.headD 0 ≠ delim) := by
    rcases hdelim with ⟨hk, rfl⟩ | ⟨hk, hhead⟩
    · simp [hk]
    · simp [hk, List.headD_eq_head?_getD, hhead]
  rw [ptonLoop, hread]
  simp only [List.drop_left]
  rw [if_neg (by omega), if_neg hend, Int.toNat_natCast, UInt8.ofNat_toNat]

theorem ptonLoop_joined (hb : 1 < base) (hb' : base ≤ 36) (hw : 0 < width) (hd : Delimiter delim)
    (bs : List UInt8) : ptonLoop base delim bs.length (joined base width delim bs) = some bs := by
  induction bs using joined.induct with
  | case1 => rfl
  | case2 b =>
      have hlast : ptonLoop base delim 1 (showNat base width b.toNat ++ []) = some [b] :=
        ptonLoop_show hb hb' hw b 0 [] (fun c hc => by cases hc) (.inl ⟨rfl, rfl⟩)
      rw [List.append_nil] at hlast
      exact hlast
  | case3 b bs hne ih =>
      have hlen : bs.length ≠ 0 := fun h => hne (List.length_eq_zero_iff.mp h)
      have hstep := ptonLoop_show hb hb' hw b bs.length (delim :: joined base width delim bs)
        (fun c hc => by cases hc; exact hd.plain) (.inr ⟨hlen, rfl⟩)
      rw [joined, List.length_cons, hstep, List.drop_one, List.tail_cons, ih]
      · rfl
      · exact hne

/-- The length, when a byte takes at most `w` places. -/
theorem joined_length (hb : 1 < base) {w : Nat} (hw : width ≤ w) (hbyte : 256 ≤ base ^ w)
    {bs : List UInt8} (hbs : bs ≠ []) :
    (joined base width delim bs).length < bs.length * (w + 1) := by
  have hshow : ∀ b : UInt8, (showNat base width b.toNat).length ≤ w := by
    intro b
    rw [showNat, List.length_map]
    exact numeral_length_le hb hw (b.toNat_lt.trans_le hbyte)
  induction bs using joined.induct with
  | case1 => exact absurd rfl hbs
  | case2 b =>
      have hlen := hshow b
      rw [joined, List.length_singleton]
      omega
  | case3 b bs hne ih =>
      have hlen := hshow b
      have hrest := ih hne
      rw [joined, List.length_append, List.length_cons, List.length_cons, Nat.succ_mul]
      · omega
      · exact hne

end Joined

/-- A text that fits is printed whole. -/
theorem snprintf_fits {size : Nat} {text : List UInt8} (h : text.length < size) :
    snprintf size text = text :=
  List.take_of_length_le (by omega)

theorem ipAddrText_length (n : IpAddr) : (ipAddrText n).length < ipAddrStrLen :=
  joined_length (w := 3) (by decide) (by decide) (by decide) (List.cons_ne_nil _ _)

theorem etherAddrText_length (n : EtherAddr) : (etherAddrText n).length < etherAddrStrLen :=
  joined_length (w := 2) (by decide) (by decide) (by decide) (List.cons_ne_nil _ _)

theorem ipAddrPton_text (n : IpAddr) : ipAddrPton (ipAddrText n) = some n := by
  have hloop := @ptonLoop_joined 10 1 _ (by decide) (by decide) (by decide) dot_delimiter (store32 n)
  rw [store32_length] at hloop
  rw [ipAddrPton, ipAddrText, hloop]
  simp [store32]

theorem etherAddrPton_text (n : EtherAddr) : etherAddrPton (etherAddrText n) = some n := by
  have hloop := @ptonLoop_joined 16 2 _ (by decide) (by decide) (by decide) colon_delimiter n.bytes
  have hlen : n.bytes.length = 6 := rfl
  rw [hlen] at hloop
  rw [etherAddrPton, etherAddrText, hloop]
  rfl

theorem portText_length (port : UInt16) : (portText port).length ≤ 6 := by
  have hport := (ntoh16 port).toNat_lt
  have hlen : (numeral 10 1 (ntoh16 port).toNat).length ≤ 5 :=
    numeral_length_le (by decide) (by decide) (by omega)
  rw [portText, List.length_cons, showNat, List.length_map]
  omega

/-- The whole text of an endpoint fits. -/
theorem endpointNtop_eq (addr : IpAddr) (port : UInt16) :
    endpointNtop addr port endpointStrLen = ipAddrText addr ++ portText port ∧
      (ipAddrText addr ++ portText port).length < endpointStrLen := by
  have haddr := ipAddrText_length addr
  have hport := portText_length port
  have hsize : endpointStrLen = ipAddrStrLen + 6 := rfl
  rw [endpointNtop, ipAddrNtop, snprintf_fits (by omega : _ < endpointStrLen),
    snprintf_fits (by omega), List.length_append]
  exact ⟨rfl, by omega⟩

theorem endpointPton_text (addr : IpAddr) {port : UInt16} (hport : port ≠ 0) :
    endpointPton (ipAddrText addr ++ portText port) = some (some (addr, port)) := by
  have hlt := (ntoh16 port).toNat_lt
  have hcolon : colon ∉ showNat 10 1 (ntoh16 port).toNat := fun hmem =>
    digitVal_of_mem_show (by decide) (by decide) hmem colon_delimiter.plain
  have hread := @strtol_show 10 1 (ntoh16 port).toNat (by decide) (by decide) (by decide) (by omega) []
    (fun c hc => by cases hc)
  have hback : hton16 (ntoh16 port) = port := ntoh16_hton16 port
  have hne : (ntoh16 port).toNat ≠ 0 := by
    intro hzero
    have h0 : ntoh16 port = 0 := UInt16.toNat_inj.mp hzero
    rw [h0] at hback
    exact hport (hback.symm.trans (by decide))
  rw [List.append_nil] at hread
  rw [endpointPton, portText, strrchr_append _ hcolon]
  simp only [hread, ipAddrPton_text]
  rw [if_neg (not_le.mpr (ipAddrText_length addr)), if_neg (by omega), Int.toNat_natCast,
    UInt16.ofNat_toNat, hback]

/-- **Round trip.**  Every address and every endpoint with a port is read back from its text, and
the text fits in the declared size. -/
theorem text_round_trip :
    (∀ n : IpAddr, (ipAddrText n).length < ipAddrStrLen ∧
      ipAddrPton (ipAddrNtop n ipAddrStrLen) = some n) ∧
    (∀ n : EtherAddr, (etherAddrText n).length < etherAddrStrLen ∧
      etherAddrPton (etherAddrNtop n etherAddrStrLen) = some n) ∧
    (∀ n : Tcp.Endpoint, n.port ≠ 0 →
      (ipAddrText n.addr ++ portText n.port).length < endpointStrLen ∧
      tcpEndpointPton (tcpEndpointNtop n endpointStrLen) = some (some n)) ∧
    ∀ n : Udp.Endpoint, n.port ≠ 0 →
      (ipAddrText n.addr ++ portText n.port).length < endpointStrLen ∧
      udpEndpointPton (udpEndpointNtop n endpointStrLen) = some (some n) := by
  refine ⟨fun n => ⟨ipAddrText_length n, ?_⟩, fun n => ⟨etherAddrText_length n, ?_⟩,
    fun n hn => ?_, fun n hn => ?_⟩
  · rw [ipAddrNtop, snprintf_fits (ipAddrText_length n), ipAddrPton_text]
  · rw [etherAddrNtop, snprintf_fits (etherAddrText_length n), etherAddrPton_text]
  · obtain ⟨htext, hlen⟩ := endpointNtop_eq n.addr n.port
    refine ⟨hlen, ?_⟩
    rw [tcpEndpointNtop, htext, tcpEndpointPton, endpointPton_text n.addr hn]
    rfl
  · obtain ⟨htext, hlen⟩ := endpointNtop_eq n.addr n.port
    refine ⟨hlen, ?_⟩
    rw [udpEndpointNtop, htext, udpEndpointPton, endpointPton_text n.addr hn]
    rfl

end Laplus.Net
