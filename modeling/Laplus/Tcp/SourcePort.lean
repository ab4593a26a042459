/-
# `Laplus.Tcp.SourcePort` — the port `tcp_connect` takes

The search tries the numbers from 49152 on and stores the first one nobody
holds.  A port is kept in network byte order everywhere else, and
`udp_sendto` stores `hton16(p)`; `tcp_connect` stores `p`.  With sixteen slots
one of the first seventeen numbers is always free, so the high byte of the
port that goes out is the low byte of one of these.
-/
import Laplus.Net.Ethernet
import Laplus.Tcp.Demux
import Laplus.Tcp.Edit
import Laplus.Tcp.Input
import Mathlib.Data.Fintype.Pigeonhole

namespace Laplus.Tcp

open Net Lib

/-! ## On the wire -/

/-- The source port of the message as the receiver reads it, the high byte first. -/
def TcpSegment.sourceOnWire (s : TcpSegment) : Nat :=
  match s.bytes with
  | hi :: lo :: _ => hi.toNat * 256 + lo.toNat
  | _ => 0

theorem sourceOnWire_eq (s : TcpSegment) :
    s.sourceOnWire = s.localEp.port.toNat % 256 * 256 + s.localEp.port.toNat / 256 := by
  have hport := s.localEp.port.toNat_lt
  have hhi : (s.localEp.port >>> 8).toUInt8.toNat = s.localEp.port.toNat / 256 := by
    simp [UInt16.toNat_shiftRight, Nat.shiftRight_eq_div_pow]
    omega
  have hlo : s.localEp.port.toUInt8.toNat = s.localEp.port.toNat % 256 := UInt16.toNat_toUInt8 _
  have hbytes : s.sourceOnWire = s.localEp.port.toUInt8.toNat * 256 +
      (s.localEp.port >>> 8).toUInt8.toNat := rfl
  rw [hbytes, hhi, hlo]

/-! ## The search -/

section Search
variable {t : Table} {l f : Endpoint} {i : PcbId}

/-- Whoever `tcp_pcb_select` finds holds the port. -/
theorem select_port (h : tcpPcbSelect t l (some f) = some i) : (t.pcb i).localEp.port = l.port := by
  rcases tcpPcbSelect_cases t l f with ⟨j, hj, hs⟩ | ⟨-, ⟨j, hj, hs⟩ | ⟨-, hs⟩⟩
  · cases hs.symm.trans h
    exact hj.1.1.2
  · cases hs.symm.trans h
    exact hj.2.1.2
  · cases hs.symm.trans h

/-- **Sixteen slots cannot hold seventeen ports.** -/
theorem exists_free_port (t : Table) (addr : IpAddr) (f : Endpoint) (port : Fin 17 → UInt16)
    (hinj : Function.Injective port) : ∃ k, tcpPcbSelect t ⟨addr, port k⟩ (some f) = none := by
  by_contra hall
  have hsome (k : Fin 17) : ∃ i, tcpPcbSelect t ⟨addr, port k⟩ (some f) = some i :=
    Option.ne_none_iff_exists'.mp fun h => hall ⟨k, h⟩
  choose holder hholder using hsome
  obtain ⟨a, b, hne, heq⟩ := Fintype.exists_ne_map_eq_of_card_lt holder (by decide)
  refine hne (hinj ?_)
  have ha : (t.pcb (holder a)).localEp.port = port a := select_port (hholder a)
  have hb : (t.pcb (holder b)).localEp.port = port b := select_port (hholder b)
  rw [← ha, heq, hb]

/-- The `k`-th number `tcp_connect` tries. -/
def triedPort (k : Nat) : UInt16 := UInt16.ofNat (49152 + k)

theorem triedPort_toNat {k : Nat} (h : k < 16384) : (triedPort k).toNat = 49152 + k := by
  rw [triedPort, UInt16.toNat_ofNat']
  omega

/-- **One of the first seventeen** numbers is taken, and nobody holds it. -/
theorem sourcePort_spec (t : Table) (addr : IpAddr) (f : Endpoint) :
    ∃ k ≤ 16, sourcePort t addr f = triedPort k ∧
      tcpPcbSelect t ⟨addr, triedPort k⟩ (some f) = none := by
  have hinj : Function.Injective fun k : Fin 17 => triedPort k := by
    intro a b hab
    have htoNat := congrArg UInt16.toNat hab
    dsimp only at htoNat
    rw [triedPort_toNat (by omega), triedPort_toNat (by omega)] at htoNat
    exact Fin.ext (by omega)
  obtain ⟨n, hn⟩ := exists_free_port t addr f _ hinj
  have hfind : sourcePort t addr f = (((List.range 16384).find? fun k =>
      (tcpPcbSelect t ⟨addr, triedPort k⟩ (some f)).isNone).map triedPort).getD 65535 := by
    rw [sourcePort, List.find?_map]
    rfl
  cases hk : (List.range 16384).find? fun k =>
      (tcpPcbSelect t ⟨addr, triedPort k⟩ (some f)).isNone with
  | none =>
      have hnone := List.find?_range_eq_none.mp hk n (by omega)
      simp [hn] at hnone
  | some k =>
      obtain ⟨hfree, -, hfirst⟩ := List.find?_range_eq_some.mp hk
      have hle : k ≤ n := by
        by_contra hlt
        have hn' := hfirst n (by omega)
        simp [hn] at hn'
      refine ⟨k, by omega, ?_, Option.isNone_iff_eq_none.mp hfree⟩
      rw [hfind, hk]
      rfl

end Search

/-! ## `tcp_connect` -/

/-- What is asked of the search for a port. -/
structure ChoosesPort (env : Env) (t : Table) (id : Int) (i : PcbId) (f : Endpoint) : Prop where
  /-- The SYN goes out from a port of the range that no other pcb in use holds. -/
  sends : ∀ j s, .output j s ∈ (tcpConnect env t id f).effects →
    49152 ≤ s.sourceOnWire ∧ s.sourceOnWire ≤ 65535 ∧
      ∀ k ≠ i, (t.pcb k).state ≠ .free → (t.pcb k).localEp = s.localEp →
        (t.pcb k).foreignEp ≠ f ∧ (t.pcb k).state ≠ .listen
  /-- With no port left the call fails. -/
  full : (∀ addr, (t.pcb i).source env f = some addr → ∀ p < 65536, 49152 ≤ p →
      tcpPcbSelect t ⟨addr, hton16 (UInt16.ofNat p)⟩ (some f) ≠ none) →
    tcpConnect env t id f = .ret t (-1)

/-- The SYN of a connect on a pcb without a port. -/
theorem connect_output {env : Env} {t : Table} {id : Int} {i : PcbId} {f : Endpoint}
    {addr : IpAddr} (hsock : socketPcb t id = some i) (hport : (t.pcb i).localEp.port = 0)
    (hsrc : (t.pcb i).source env f = some addr) :
    ∃ s, .output i s ∈ (tcpConnect env t id f).effects ∧
      s.localEp = ⟨addr, sourcePort t addr f⟩ := by
  let pcb : Pcb := { t.pcb i with localEp := ⟨addr, sourcePort t addr f⟩, foreignEp := f }
  have hsyn := sendSyn_eq env t i .connect pcb rfl
  refine ⟨(pcb.opening env).segment flgSyn [], ?_, rfl⟩
  simp only [tcpConnect, hsock, hsrc, hport, if_pos]
  rw [hsyn]
  split <;> exact List.mem_singleton_self _

/-- **The port is right only of a call that sends nothing**, because no route leads to the peer. -/
theorem choosesPort_iff (env : Env) (t : Table) (id : Int) (i : PcbId) (f : Endpoint)
    (hsock : socketPcb t id = some i) (hport : (t.pcb i).localEp.port = 0) :
    ChoosesPort env t id i f ↔ (t.pcb i).source env f = none := by
  constructor
  · intro h
    cases hsrc : (t.pcb i).source env f with
    | none => rfl
    | some addr =>
        obtain ⟨s, hs, hep⟩ := connect_output hsock hport hsrc
        obtain ⟨k, hk, hpick, -⟩ := sourcePort_spec t addr f
        have hrange := (h.sends i s hs).1
        -- the high byte on the wire is the low byte of the number
        have hwire : s.sourceOnWire = k * 256 + 192 := by
          rw [sourceOnWire_eq, hep, hpick, triedPort_toNat (by omega)]
          omega
        omega
  · intro hsrc
    have hret : tcpConnect env t id f = .ret t (-1) := by simp only [tcpConnect, hsock, hsrc]
    refine ⟨fun j s hs => ?_, fun _ => hret⟩
    rw [hret] at hs
    exact absurd hs List.not_mem_nil

/-- A socket that has just been opened. -/
def oneSocket : World := run World.step .boot [(.ideal .zero 0 [], .user 1 .open)]

theorem choosesPort_unrouted : ChoosesPort (.ideal .zero 0 []) oneSocket.tab 0 0 ⟨9, 1000⟩ :=
  (choosesPort_iff (.ideal .zero 0 []) oneSocket.tab 0 0 ⟨9, 1000⟩ (by decide +kernel)
    (by decide +kernel)).mpr (by decide +kernel)

/-- A route to everywhere. -/
def anyRoute : IpRoute := ⟨0, 0, 0, ⟨etherSetupHelper, 7⟩⟩

/-- **Port 192.**  The first SYN of a socket goes out from a port below 49152. -/
theorem first_syn_port :
    ∃ s, .output 0 s ∈ (tcpConnect (.ideal .zero 0 [anyRoute]) oneSocket.tab 0 ⟨9, 1000⟩).effects ∧
      s.sourceOnWire = 192 ∧
        ¬ ChoosesPort (.ideal .zero 0 [anyRoute]) oneSocket.tab 0 0 ⟨9, 1000⟩ := by
  obtain ⟨s, hs, hep⟩ : ∃ s,
      .output 0 s ∈ (tcpConnect (.ideal .zero 0 [anyRoute]) oneSocket.tab 0 ⟨9, 1000⟩).effects ∧
        s.localEp = ⟨7, sourcePort oneSocket.tab 7 ⟨9, 1000⟩⟩ :=
    connect_output (by decide +kernel) (by decide +kernel) (by decide +kernel)
  have hpick : sourcePort oneSocket.tab 7 ⟨9, 1000⟩ = 49152 := by decide +kernel
  have hwire : s.sourceOnWire = 192 := by
    rw [sourceOnWire_eq, hep, hpick]
    rfl
  refine ⟨s, hs, hwire, fun h => ?_⟩
  have hrange := (h.sends 0 s hs).1
  omega

end Laplus.Tcp
