/-
# `Laplus.Net.Lan` — stations on one link

Every station runs `ether_input`, `arp.c`, `ip.c` and `icmp.c` over its own
ARP cache.  What a driver has sent stays in the air: a frame may reach any
station at any time, more than once or never, and no frame is made up.  UDP
and TCP are the callers of `ip_output`; what their handlers do with a message
is not followed here, their answers are calls of `ip_output` again.

The cache of each station makes a run of the machine of `ArpCache`, with
honest messages only.  So what that machine remembers about an entry says who
told it, and an answer of `arp_resolve` is the address of the station that
was asked for.

`lan_genuine` is what can be relied on in every state, `ping_answered` that an
echo request can be answered from every state.
-/
import Laplus.Net.ArpCache
import Laplus.Net.Broadcast
import Laplus.Net.Icmp

namespace Laplus.Net

open Lib

/-! ## Stations -/

def netDeviceFlagBroadcast : UInt16 := 0x0020

/-- A device that `ether_setup_helper` set up and that is open. -/
def etherDevice (addr : EtherAddr) : Device :=
  ⟨netDeviceTypeEthernet, 1500, netDeviceFlagBroadcast ||| netDeviceFlagNeedArp ||| netDeviceFlagUp,
    addr, etherAddrBroadcast⟩

/-- What a computer on the link is set up with. -/
structure Station where
  addr : EtherAddr
  unicast : IpAddr
  netmask : IpAddr
  gateway : Option IpAddr
deriving DecidableEq

def Station.iface (s : Station) : Iface :=
  ⟨etherDevice s.addr, netIfaceFamilyIp, ifaceAddr s.unicast s.netmask⟩

/-- The table after `ip_iface_register` and `ip_route_set_default_gateway`. -/
def Station.routes (s : Station) : List Route :=
  (run RouteState.step (.boot fun _ => ifaceAddr s.unicast s.netmask)
    [.register 0 0 true, .gateway 0 s.gateway true]).routes

/-- A message that `ip_output` put on the link. -/
structure Sent (ι : Type*) where
  sender : ι
  protocol : UInt8
  msg : List UInt8
  dst : IpAddr
deriving DecidableEq

/-- The caches, every frame that a driver has sent, and the messages in them. -/
structure Lan (ι : Type*) where
  caches : ι → Caches
  air : List (List UInt8)
  sent : List (Sent ι)

/-- What happens next, with the time and the next answer of `ip_generate_id`. -/
inductive LanEvent (ι : Type*) where
  | output (i : ι) (now : Clock) (id : UInt16) (protocol : UInt8) (msg : List UInt8)
      (src dst : IpAddr)
  | icmp (i : ι) (now : Clock) (id : UInt16) (o : IcmpOutput)
  | deliver (i : ι) (now : Clock) (id : UInt16) (frame : List UInt8)
  | timer (i : ι) (now : Clock)

namespace Lan

variable {ι : Type*} [DecidableEq ι]

def boot : Lan ι := ⟨fun _ => .boot, [], []⟩

/-- The message `s` was given to `ip_output`, which left `r`. -/
def emit (lan : Lan ι) (r : IpEmitted) (s : Sent ι) : Lan ι where
  caches := Function.update lan.caches s.sender r.caches
  air := lan.air ++ (r.request.toList ++ r.frame.toList)
  sent := lan.sent ++ if r.frame.isSome then [s] else []

variable (st : ι → Station)

/-- `ip_output` of the station `i`. -/
def output (lan : Lan ι) (i : ι) (now : Timeval) (id : UInt16) (protocol : UInt8)
    (msg : List UInt8) (src dst : IpAddr) : Lan ι :=
  lan.emit (ipOutputEmitted (lan.caches i) now (fun _ => (st i).iface) (st i).routes id protocol
    msg src dst) ⟨i, protocol, msg, dst⟩

/-- `icmp_output` of the station `i`; `none`: it writes behind its buffer. -/
def icmpOutput (lan : Lan ι) (i : ι) (now : Timeval) (id : UInt16) (o : IcmpOutput) :
    Option (Lan ι) :=
  o.message.map fun msg => lan.output st i now id ipProtocolIcmp msg o.src o.dst

/-- `ether_input` of the station `i`, and the protocol its frame is for; `none`: a handler reads
behind the frame, or writes behind a buffer. -/
def deliver (lan : Lan ι) (i : ι) (now : Timeval) (id : UInt16) (frame : List UInt8) :
    Option (Lan ι) :=
  let me := (st i).iface
  match etherInput me.dev.addr frame with
  | none => some lan
  | some (type, data) =>
      if type = netProtocolTypeArp then
        let r := arpInput (lan.caches i) now data (some me)
        some { lan with
          caches := Function.update lan.caches i r.1
          air := lan.air ++ r.2.toList }
      else if type = netProtocolTypeIp then
        match ipInput ipProtocols (some me.addr) data with
        | none => some lan
        | some call =>
            (call.run data me.addr).bind fun handled =>
              match handled with
              | .icmp (.accepted o) => lan.icmpOutput st i now id o
              | _ => some lan
      else some lan

/-- One event, with the whole station to itself. -/
def step? (lan : Lan ι) : LanEvent ι → Option (Lan ι)
  | .output i now id protocol msg src dst => some (lan.output st i now id protocol msg src dst)
  | .icmp i now id o => lan.icmpOutput st i now id o
  | .deliver i now id frame => lan.deliver st i now id frame
  | .timer i now =>
      some { lan with caches := Function.update lan.caches i (arpTimer (lan.caches i) now) }

def step (lan : Lan ι) (e : LanEvent ι) : Lan ι := (lan.step? st e).getD lan

/-- UDP and TCP call `ip_output` with their own protocol number; a user of `icmp_output` sends no
echo reply and what fits its buffer; a frame that arrives is in the air. -/
def Admits (lan : Lan ι) : LanEvent ι → Prop
  | .output _ _ _ protocol _ _ _ => protocol = ipProtocolUdp ∨ protocol = ipProtocolTcp
  | .icmp _ _ _ o => o.type ≠ icmpTypeEchoReply ∧ o.message.isSome
  | .deliver _ _ _ frame => frame ∈ lan.air
  | .timer _ _ => True

end Lan

/-! ## What `ip_output` does at a station -/

/-- `arp_resolve` at a station. -/
inductive Resolved (s : Station) (t : Caches) (now : Timeval) (pa : IpAddr) :
    Caches × ArpResolve × Option (List UInt8) → Prop
  | found (k : CacheId) (hk : arpCacheSelect t pa = some k) (hs : (t k).state ≠ .incomplete) :
      Resolved s t now pa (t, .found (t k).ha, none)
  | repeated (k : CacheId) (hk : arpCacheSelect t pa = some k) (hs : (t k).state = .incomplete) :
      Resolved s t now pa (t, .incomplete, arpRequest s.iface pa)
  | created (k : CacheId) (hk : arpCacheSelect t pa = none) :
      Resolved s t now pa (Function.update t k
        { t k with state := .incomplete, pa, timestamp := now }, .incomplete,
        arpRequest s.iface pa)

theorem resolve_station (s : Station) (t : Caches) (now : Timeval) (pa : IpAddr) :
    Resolved s t now pa (arpResolve t now s.iface pa) := by
  have htype : ¬ s.iface.dev.type ≠ netDeviceTypeEthernet := not_not.mpr rfl
  have hfamily : ¬ s.iface.family ≠ netIfaceFamilyIp := not_not.mpr rfl
  unfold arpResolve
  rw [if_neg htype, if_neg hfamily]
  cases hk : arpCacheSelect t pa with
  | none =>
      obtain ⟨k, hk'⟩ := alloc_some t
      rw [hk']
      exact .created k hk
  | some k =>
      dsimp only
      split
      · rename_i hs
        exact .repeated k hk hs
      · rename_i hs
        exact .found k hk hs

/-- The frame of a datagram to the address `hw`. -/
def Station.datagram (s : Station) (id : UInt16) (protocol : UInt8) (msg : List UInt8)
    (dst : IpAddr) (hw : EtherAddr) : List UInt8 :=
  etherTransmitHelper s.addr netProtocolTypeIp (ipOutputCore protocol msg s.unicast dst id 0) hw

/-- The longest message of a datagram. -/
def messageMax : Nat := etherPayloadSizeMax - ipHdrSizeMin

/-- What a call of `ip_output` leaves that does not fail. -/
inductive Emission (s : Station) (t : Caches) (now : Timeval) (id : UInt16) (protocol : UInt8)
    (msg : List UInt8) (dst : IpAddr) : IpEmitted → Prop
  | wide (route : Route) (hroute : routeLookup s.routes dst = some route)
      (hhop : s.iface.broadcasts (route.hop dst)) (hfits : msg.length ≤ messageMax) :
      Emission s t now id protocol msg dst
        ⟨t, msg.length, none, none, some (s.datagram id protocol msg dst etherAddrBroadcast)⟩
  | direct (route : Route) (hroute : routeLookup s.routes dst = some route)
      (hhop : ¬ s.iface.broadcasts (route.hop dst)) (hfits : msg.length ≤ messageMax)
      (ha : EtherAddr) (hfound : arpResolve t now s.iface (route.hop dst) = (t, .found ha, none)) :
      Emission s t now id protocol msg dst
        ⟨t, msg.length, some (route.hop dst), none, some (s.datagram id protocol msg dst ha)⟩
  | asked (route : Route) (hroute : routeLookup s.routes dst = some route)
      (hhop : ¬ s.iface.broadcasts (route.hop dst)) (t' : Caches)
      (hasked : arpResolve t now s.iface (route.hop dst) =
        (t', .incomplete, arpRequest s.iface (route.hop dst))) :
      Emission s t now id protocol msg dst
        ⟨t', msg.length, some (route.hop dst), arpRequest s.iface (route.hop dst), none⟩

theorem ipOutputCore_length (protocol : UInt8) (msg : List UInt8) (src dst : IpAddr)
    (id offset : UInt16) :
    (ipOutputCore protocol msg src dst id offset).length = 20 + msg.length := by
  show (IpHdr.bytes _ ++ msg).length = _
  rw [List.length_append, IpHdr.bytes_length]

section Station
variable {s : Station} {t : Caches} {now : Timeval} {id : UInt16} {protocol : UInt8}
  {msg : List UInt8} {src dst : IpAddr}

theorem Station.need_arp (s : Station) : s.iface.dev.flags &&& netDeviceFlagNeedArp ≠ 0 := by
  show (netDeviceFlagBroadcast ||| netDeviceFlagNeedArp ||| netDeviceFlagUp) &&&
    netDeviceFlagNeedArp ≠ 0
  decide

/-- An open device sends what fits its MTU. -/
theorem Station.output_fits (s : Station) (type : UInt16) {data : List UInt8} (hw : EtherAddr)
    (h : data.length ≤ etherPayloadSizeMax) :
    s.iface.dev.output type data hw = some (etherTransmitHelper s.addr type data hw) := by
  have hup : s.iface.dev.flags &&& netDeviceFlagUp ≠ 0 := by
    show (netDeviceFlagBroadcast ||| netDeviceFlagNeedArp ||| netDeviceFlagUp) &&&
      netDeviceFlagUp ≠ 0
    decide
  have hmtu : ¬ data.length > s.iface.dev.mtu.toNat := not_lt.mpr h
  rw [Device.output, if_neg hup, if_neg hmtu]
  rfl

theorem outputDevice_emission (hfits : msg.length ≤ messageMax)
    {route : Route} (hroute : routeLookup s.routes dst = some route) :
    let r := ipOutputDevice t now s.iface (ipOutputCore protocol msg s.unicast dst id 0)
      (route.hop dst)
    Emission s t now id protocol msg dst { r with ret := if r.ret = -1 then -1 else msg.length } := by
  have hlen : (ipOutputCore protocol msg s.unicast dst id 0).length ≤ etherPayloadSizeMax := by
    have h1480 : messageMax = 1480 := rfl
    have h1500 : etherPayloadSizeMax = 1500 := rfl
    rw [ipOutputCore_length]
    omega
  have hsent (lookup : Option IpAddr) (hw : EtherAddr) :
      s.iface.dev.outputIp t lookup (ipOutputCore protocol msg s.unicast dst id 0) hw =
        ⟨t, 0, lookup, none, some (s.datagram id protocol msg dst hw)⟩ := by
    rw [Device.outputIp, s.output_fits _ hw hlen]
    rfl
  intro r
  have hwide : s.iface.broadcasts (route.hop dst) ↔
      route.hop dst = s.iface.addr.broadcast ∨ route.hop dst = ipAddrBroadcast := Iff.rfl
  by_cases hhop : s.iface.broadcasts (route.hop dst)
  · have hr : r = ⟨t, 0, none, none, some (s.datagram id protocol msg dst etherAddrBroadcast)⟩ := by
      show ipOutputDevice _ _ _ _ _ = _
      rw [ipOutputDevice, if_pos s.need_arp, if_pos (hwide.mp hhop)]
      exact hsent none etherAddrBroadcast
    rw [hr]
    exact .wide route hroute hhop hfits
  · have hres := resolve_station s t now (route.hop dst)
    generalize hans : arpResolve t now s.iface (route.hop dst) = answer at hres
    have hdev : r = ipOutputDevice t now s.iface (ipOutputCore protocol msg s.unicast dst id 0)
      (route.hop dst) := rfl
    rw [ipOutputDevice, if_pos s.need_arp, if_neg fun h => hhop (hwide.mpr h), hans] at hdev
    cases hres with
    | found k hk hs =>
        rw [hdev.trans (hsent (some (route.hop dst)) (t k).ha)]
        exact .direct route hroute hhop hfits (t k).ha hans
    | repeated k hk hs =>
        rw [hdev]
        exact .asked route hroute hhop t hans
    | created k hk =>
        rw [hdev]
        exact .asked route hroute hhop _ hans

/-- **`ip_output` at a station.** -/
theorem output_emission (s : Station) (t : Caches) (now : Timeval) (id : UInt16)
    (protocol : UInt8) (msg : List UInt8) (src dst : IpAddr) :
    let r := ipOutputEmitted t now (fun _ => s.iface) s.routes id protocol msg src dst
    r = .failed t ∨ Emission s t now id protocol msg dst r := by
  unfold ipOutputEmitted
  split
  · exact .inl rfl
  cases hroute : routeLookup s.routes dst with
  | none => exact .inl rfl
  | some route =>
      dsimp only
      split
      · exact .inl rfl
      split
      · exact .inl rfl
      rename_i hmtu
      refine .inr (outputDevice_emission ?_ hroute)
      have hmtu : ¬ 1500 < 20 + msg.length := hmtu
      have h1480 : messageMax = 1480 := rfl
      omega

/-- A message that fits, from the station itself and along a route, is not refused. -/
theorem output_accepted (hfits : msg.length ≤ messageMax) {route : Route}
    (hroute : routeLookup s.routes dst = some route) (hdst : dst ≠ ipAddrBroadcast) :
    Emission s t now id protocol msg dst
      (ipOutputEmitted t now (fun _ => s.iface) s.routes id protocol msg s.unicast dst) := by
  have hmtu : ¬ s.iface.dev.mtu.toNat < ipHdrSizeMin + msg.length := by
    have h1500 : s.iface.dev.mtu.toNat = 1500 := rfl
    have h20 : ipHdrSizeMin = 20 := rfl
    have h1480 : messageMax = 1480 := rfl
    omega
  have hsrc : ¬ (s.unicast ≠ ipAddrAny ∧ s.unicast ≠ s.iface.addr.unicast) := fun h => h.2 rfl
  rw [ipOutputEmitted, if_neg fun h => hdst h.2, hroute]
  dsimp only
  rw [if_neg hsrc, if_neg hmtu]
  exact outputDevice_emission hfits hroute

end Station

/-! ## What is in the air -/

section Air
variable {ι : Type*} (st : ι → Station)

/-- The hardware address `hw` is the one that the next hop of the message has. -/
def Sent.HopsTo (s : Sent ι) (hw : EtherAddr) : Prop :=
  ∃ route, routeLookup (st s.sender).routes s.dst = some route ∧
    (¬ (st s.sender).iface.broadcasts (route.hop s.dst) →
      ∀ j, (st j).unicast = route.hop s.dst → hw = (st j).addr)

/-- A frame that the driver of a station has sent. -/
inductive OnAir (sent : List (Sent ι)) : List UInt8 → Prop
  | arp (i : ι) (op : UInt16) (tha : EtherAddr) (tpa : IpAddr) (hw : EtherAddr) :
      OnAir sent (etherTransmitHelper (st i).addr netProtocolTypeArp
        (arpOutput op (st i).iface tha tpa).bytes hw)
  | ip (s : Sent ι) (hs : s ∈ sent) (id : UInt16) (hw : EtherAddr) (hhop : s.HopsTo st hw) :
      OnAir sent ((st s.sender).datagram id s.protocol s.msg s.dst hw)

/-- `q` is the echo request that the echo reply `o`, sent as `s`, answers. -/
structure AnswerTo (q s : Sent ι) (o : IcmpOutput) : Prop where
  protocol : q.protocol = ipProtocolIcmp
  msg : q.msg = { o with type := icmpTypeEcho }.bytes
  asker : (st q.sender).unicast = s.dst
  asked : q.dst = (st s.sender).unicast ∨ (st s.sender).iface.broadcasts q.dst

/-- The message is one of UDP, TCP or ICMP, and an echo reply has its request among the earlier
messages. -/
structure Sent.Justified (earlier : List (Sent ι)) (s : Sent ι) : Prop where
  fits : s.msg.length ≤ messageMax
  source : (s.protocol = ipProtocolUdp ∨ s.protocol = ipProtocolTcp) ∨
    s.protocol = ipProtocolIcmp ∧ ∃ o : IcmpOutput, s.msg = o.bytes ∧
      (o.type = icmpTypeEchoReply → ∃ q ∈ earlier, AnswerTo st q s o)

/-- What the message says is the address of a station. -/
def ArpEvent.Honest (e : ArpEvent) : Prop :=
  ∀ pa ha, e.Tells pa ha → ∃ j, (st j).unicast = pa ∧ (st j).addr = ha

/-- The cache has heard honest messages only. -/
def Traced (t : Caches) : Prop :=
  ∃ es : List ArpEvent, (∀ e ∈ es, e.Honest st) ∧ t = run Caches.step .boot es

/-- **The invariant of the link.** -/
structure Lan.Genuine (lan : Lan ι) : Prop where
  traced : ∀ i, Traced st (lan.caches i)
  air : ∀ frame ∈ lan.air, OnAir st lan.sent frame
  sent : ∀ pre s, pre ++ [s] <+: lan.sent → s.Justified st pre

end Air

/-! ### Caches -/

section Traced
variable {ι : Type*} {st : ι → Station} {t : Caches}

theorem Traced.step (h : Traced st t) {e : ArpEvent} (he : e.Honest st) : Traced st (t.step e) := by
  obtain ⟨es, hes, rfl⟩ := h
  refine ⟨es ++ [e], fun e' he' => ?_, (run_concat Caches.step .boot es e).symm⟩
  rcases List.mem_append.mp he' with he' | he'
  · exact hes e' he'
  · rw [List.mem_singleton.mp he']
    exact he

/-- Looking an address up tells nothing. -/
theorem resolve_honest (now : Clock) (iface : Iface) (pa : IpAddr) :
    (ArpEvent.resolve now iface pa).Honest st := fun _ _ h => h.elim

theorem timer_honest (now : Clock) : (ArpEvent.timer now).Honest st := fun _ _ h => h.elim

/-- A station says its own address. -/
theorem input_honest (now : Clock) (i : ι) (op : UInt16) (tha : EtherAddr) (tpa : IpAddr)
    (pad : List UInt8) (iface : Option Iface) :
    (ArpEvent.input now ((arpOutput op (st i).iface tha tpa).bytes ++ pad) iface).Honest st := by
  rintro pa ha ⟨msg, hmsg, rfl, rfl⟩
  cases (arpMessage_output op (st i).iface tha tpa pad).symm.trans hmsg
  exact ⟨i, rfl, rfl⟩

theorem Traced.unique (h : Traced st t) : t.Unique := by
  obtain ⟨es, -, rfl⟩ := h
  exact (run_consistent es).unique

/-- **A resolved entry of a station holds its address.** -/
theorem Traced.addr (h : Traced st t) (hinj : Function.Injective fun i => (st i).unicast)
    {k : CacheId} (hk : (t k).state = .resolved) {j : ι} (hj : (st j).unicast = (t k).pa) :
    (t k).ha = (st j).addr := by
  obtain ⟨es, hes, rfl⟩ := h
  obtain ⟨before, e, after, rfl, htells, -, -⟩ := (run_consistent es).heard k hk
  obtain ⟨j', hpa, hha⟩ := hes e (by simp) _ _ htells
  rw [← hha, hinj (hpa.trans hj.symm)]

/-- **An answer of `arp_resolve` is right.** -/
theorem Traced.found (h : Traced st t) (hinj : Function.Injective fun i => (st i).unicast)
    {s : Station} {now : Timeval} {pa : IpAddr} {t' : Caches} {ha : EtherAddr}
    {request : Option (List UInt8)}
    (hfound : arpResolve t now s.iface pa = (t', .found ha, request)) {j : ι}
    (hj : (st j).unicast = pa) : ha = (st j).addr := by
  have hres := resolve_station s t now pa
  rw [hfound] at hres
  cases hres with
  | found k hk hs =>
      have his := select_is hk
      have hstatic : (t k).state ≠ .static := by
        obtain ⟨es, -, rfl⟩ := h
        exact (run_consistent es).dynamic k
      have hresolved : (t k).state = .resolved := by
        cases hstate : (t k).state with
        | free => exact absurd hstate his.1
        | incomplete => exact absurd hstate hs
        | resolved => rfl
        | static => exact absurd hstate hstatic
      exact h.addr hinj hresolved (hj.trans his.2.symm)

end Traced

/-! ### Messages -/

/-- What the checksum does not cover, the addresses, is not in the bytes. -/
theorem IcmpOutput.bytes_inj {o p : IcmpOutput} (h : o.bytes = p.bytes) :
    o.type = p.type ∧ o.code = p.code ∧ o.values = p.values ∧ o.data = p.data := by
  have hhdr : some { o.hdr with sum := cksum16 (o.hdr.bytes ++ o.data) 0 } =
      some { p.hdr with sum := cksum16 (p.hdr.bytes ++ p.data) 0 } := by
    rw [← icmpHdr_bytes _ o.data, ← icmpHdr_bytes _ p.data]
    exact congrArg icmpHdr h
  have hdata : o.bytes.drop 8 = p.bytes.drop 8 := congrArg (List.drop 8) h
  have hhdr := Option.some.inj hhdr
  exact ⟨congrArg IcmpHdr.type hhdr, congrArg IcmpHdr.code hhdr, congrArg IcmpHdr.values hhdr, hdata⟩

section Sent
variable {ι : Type*} {st : ι → Station}

theorem OnAir.mono {sent sent' : List (Sent ι)} (h : ∀ s ∈ sent, s ∈ sent') {frame : List UInt8}
    (hf : OnAir st sent frame) : OnAir st sent' frame := by
  cases hf with
  | arp i op tha tpa hw => exact .arp i op tha tpa hw
  | ip s hs id hw hhop => exact .ip s (h s hs) id hw hhop

theorem Lan.Genuine.justified {lan : Lan ι} (h : lan.Genuine st) {s : Sent ι} (hs : s ∈ lan.sent) :
    ∃ earlier, (∀ q ∈ earlier, q ∈ lan.sent) ∧ s.Justified st earlier := by
  obtain ⟨pre, post, hsent⟩ := List.append_of_mem hs
  refine ⟨pre, fun q hq => ?_, h.sent pre s ⟨post, ?_⟩⟩
  · rw [hsent]
    exact List.mem_append_left _ hq
  · rw [hsent, List.append_assoc, List.singleton_append]

/-- The request of a station, when it sends one. -/
theorem arpRequest_station (s : Station) (pa : IpAddr) :
    arpRequest s.iface pa = some (etherTransmitHelper s.addr netProtocolTypeArp
      (arpOutput arpOpRequest s.iface ⟨0, 0, 0, 0, 0, 0⟩ pa).bytes etherAddrBroadcast) :=
  s.output_fits _ _ (by show 28 ≤ 1500; decide)

theorem arpReply_station (s : Station) (tha : EtherAddr) (tpa : IpAddr) (hw : EtherAddr) :
    arpReply s.iface tha tpa hw = some (etherTransmitHelper s.addr netProtocolTypeArp
      (arpOutput arpOpReply s.iface tha tpa).bytes hw) :=
  s.output_fits _ _ (by show 28 ≤ 1500; decide)

end Sent

/-! ## One event -/

section Step
variable {ι : Type*} [DecidableEq ι] {st : ι → Station} {lan : Lan ι}

/-- A station's cache changes, and a list of frames of its own goes out. -/
theorem Lan.Genuine.grow (h : lan.Genuine st) {i : ι} {t : Caches} (ht : Traced st t)
    {frames : List (List UInt8)} {new : List (Sent ι)}
    (hframes : ∀ frame ∈ frames, OnAir st (lan.sent ++ new) frame)
    (hnew : new = [] ∨ ∃ s, new = [s] ∧ s.Justified st lan.sent) :
    Lan.Genuine st ⟨Function.update lan.caches i t, lan.air ++ frames, lan.sent ++ new⟩ where
  traced j := by
    show Traced st (Function.update lan.caches i t j)
    by_cases hj : j = i
    · subst hj
      rw [Function.update_self]
      exact ht
    · rw [Function.update_of_ne hj]
      exact h.traced j
  air frame hf := by
    rcases List.mem_append.mp hf with hf | hf
    · exact (h.air frame hf).mono fun s hs => List.mem_append_left _ hs
    · exact hframes frame hf
  sent pre s hp := by
    rcases hnew with rfl | ⟨s', rfl, hs'⟩
    · rw [List.append_nil] at hp
      exact h.sent pre s hp
    · rcases List.prefix_concat_iff.mp hp with heq | hp
      · obtain ⟨rfl, hlast⟩ := List.append_inj' heq rfl
        cases hlast
        exact hs'
      · exact h.sent pre s hp

/-- **A message that may be sent.** -/
theorem Lan.Genuine.output (h : lan.Genuine st)
    (hinj : Function.Injective fun i => (st i).unicast) (i : ι) (now : Clock) (id : UInt16)
    {protocol : UInt8} {msg : List UInt8} (src : IpAddr) {dst : IpAddr}
    (hjust : msg.length ≤ messageMax → Sent.Justified st lan.sent ⟨i, protocol, msg, dst⟩) :
    (lan.output st i now id protocol msg src dst).Genuine st := by
  have hem := output_emission (st i) (lan.caches i) now id protocol msg src dst
  unfold Lan.output
  generalize ipOutputEmitted (lan.caches i) now _ _ id protocol msg src dst = r at hem
  -- a datagram goes to the hardware address of its next hop
  have hsent {hw : EtherAddr} (hfits : msg.length ≤ messageMax)
      (hhop : Sent.HopsTo st ⟨i, protocol, msg, dst⟩ hw) {r : IpEmitted}
      (hc : r.caches = lan.caches i) (hr : r.request = none)
      (hf : r.frame = some ((st i).datagram id protocol msg dst hw)) :
      (lan.emit r ⟨i, protocol, msg, dst⟩).Genuine st := by
    unfold Lan.emit
    rw [hc, hr, hf]
    refine h.grow (h.traced i) (fun frame hframe => ?_) (.inr ⟨_, rfl, hjust hfits⟩)
    rw [List.mem_singleton.mp hframe]
    exact .ip ⟨i, protocol, msg, dst⟩ (List.mem_append_right _ (List.mem_singleton_self _)) id hw
      hhop
  rcases hem with rfl | hem
  · exact h.grow (h.traced i) (fun frame hframe => (List.not_mem_nil hframe).elim) (.inl rfl)
  cases hem with
  | wide route hroute hhop hfits =>
      exact hsent hfits ⟨route, hroute, fun hn => absurd hhop hn⟩ rfl rfl rfl
  | direct route hroute hhop hfits ha hfound =>
      exact hsent hfits ⟨route, hroute, fun _ j hj => (h.traced i).found hinj hfound hj⟩ rfl rfl rfl
  | asked route hroute hhop t' hasked =>
      have ht' : t' = (lan.caches i).step (.resolve now (st i).iface (route.hop dst)) :=
        (congrArg Prod.fst hasked).symm
      unfold Lan.emit
      rw [ht', arpRequest_station]
      refine h.grow ((h.traced i).step (resolve_honest now _ _)) (fun frame hframe => ?_) (.inl rfl)
      rw [List.mem_singleton.mp hframe]
      exact .arp i _ _ _ _

end Step

/-! ### A frame arrives -/

/-- `ether_input` of a frame for `hw`. -/
theorem etherInput_sent (addr src : EtherAddr) (type : UInt16) (data : List UInt8)
    (hw : EtherAddr) :
    etherInput addr (etherTransmitHelper src type data hw) =
      if addr ≠ hw ∧ etherAddrBroadcast ≠ hw then none
      else some (type, data ++ etherPad data.length) := by
  have hlong : ¬ (etherTransmitHelper src type data hw).length < 14 := by
    simp only [etherTransmitHelper, List.length_append, EtherHdr.bytes_length]
    omega
  have hdrop : (etherTransmitHelper src type data hw).drop 14 =
      data ++ etherPad data.length := rfl
  rw [etherInput, if_neg hlong, hdrop, etherTransmitHelper, etherHdr_bytes]
  simp only [ntoh16_hton16]

/-- The call for a header of `ip_output_core` with any checksum. -/
theorem ipCall_sent {hdr : IpHdr} {n : Nat} (hn : n ≤ 65515) (hvhl : hdr.vhl = 0x45)
    (htotal : hdr.total = hton16 (UInt16.ofNat (20 + n))) (proto : IpProtocol) :
    ipCall hdr proto = messageCall proto.handler n hdr.src hdr.dst := by
  have hhlen : hdr.hlen = 20 := by
    rw [IpHdr.hlen, hvhl]
    decide
  have h20 : hdr.hlen.toNat = 20 := congrArg UInt16.toNat hhlen
  have hlen : hdr.totalLen.toNat = 20 + n := by
    rw [IpHdr.totalLen, htotal, ntoh16_hton16, UInt16.toNat_ofNat']
    omega
  have hcall : (ipCall hdr proto).len = UInt64.ofNat n := by
    apply UInt64.toNat_inj.mp
    rw [ipCall_len (by omega), size_toNat (by omega)]
    omega
  have hoff : (ipCall hdr proto).off = 20 := hhlen
  calc ipCall hdr proto
      = ⟨proto.handler, (ipCall hdr proto).off, (ipCall hdr proto).len, hdr.src, hdr.dst⟩ := rfl
    _ = messageCall proto.handler n hdr.src hdr.dst := by rw [hcall, hoff]; rfl

/-- What `ip_input` makes of a datagram of `ip_output_core`. -/
theorem ipInput_sent {protocol : UInt8} {msg : List UInt8} (hlen : msg.length ≤ 65515)
    {src dst : IpAddr} {id : UInt16} {iface : IfaceAddr} {pad : List UInt8} {call : IpCall}
    (h : ipInput ipProtocols (some iface) (ipOutputCore protocol msg src dst id 0 ++ pad) =
      some call) :
    (dst = iface.unicast ∨ dst = iface.broadcast ∨ dst = ipAddrBroadcast) ∧
      ∃ proto, ipProtocolFind ipProtocols protocol = some proto ∧
        call = messageCall proto.handler msg.length src dst := by
  obtain ⟨hdr, proto, ha, rfl⟩ := ipInput_eq_some.mp h
  let built : IpHdr := ipOutputHdr protocol msg.length src dst id 0
  have hbuilt : ipHdr (ipOutputCore protocol msg src dst id 0 ++ pad) =
      some { built with sum := cksum16 built.bytes 0 } := by
    rw [ipOutputCore, List.append_assoc]
    exact ipHdr_bytes _ _
  have hhdr : hdr = { built with sum := cksum16 built.bytes 0 } :=
    Option.some.inj (ha.header.symm.trans hbuilt)
  have hvhl : built.vhl = 0x45 := by
    show (4 : UInt8) <<< 4 ||| (20 : UInt8) >>> 2 = 0x45
    decide
  obtain ⟨i, hi, haddr⟩ := ha.addressed
  cases hi
  have hreg := ha.registered
  rw [hhdr] at haddr hreg ⊢
  exact ⟨haddr, proto, hreg, ipCall_sent hlen hvhl rfl proto⟩

/-- The message is behind the header. -/
theorem ipOutputCore_drop (protocol : UInt8) (msg : List UInt8) (src dst : IpAddr)
    (id offset : UInt16) (pad : List UInt8) :
    (ipOutputCore protocol msg src dst id offset ++ pad).drop 20 = msg ++ pad := by
  rw [ipOutputCore, List.append_assoc]
  rfl

section Deliver
variable {ι : Type*} [DecidableEq ι] {st : ι → Station} {lan : Lan ι}

/-- An ARP frame arrives. -/
theorem deliver_arp (st : ι → Station) (lan : Lan ι) (i k : ι) (now : Timeval) (id op : UInt16)
    (tha : EtherAddr) (tpa : IpAddr) {hw : EtherAddr}
    (hw' : hw = (st i).addr ∨ hw = etherAddrBroadcast) :
    let data := (arpOutput op (st k).iface tha tpa).bytes
    let r := arpInput (lan.caches i) now (data ++ etherPad data.length) (some (st i).iface)
    lan.deliver st i now id (etherTransmitHelper (st k).addr netProtocolTypeArp data hw) =
      some { lan with
        caches := Function.update lan.caches i r.1
        air := lan.air ++ r.2.toList } := by
  intro data r
  have hfor : ¬ ((st i).addr ≠ hw ∧ etherAddrBroadcast ≠ hw) := by
    rcases hw' with rfl | rfl <;> simp
  have hin : etherInput (st i).iface.dev.addr
      (etherTransmitHelper (st k).addr netProtocolTypeArp data hw) =
        some (netProtocolTypeArp, data ++ etherPad data.length) :=
    (etherInput_sent (st i).addr _ _ _ _).trans (if_neg hfor)
  rw [Lan.deliver]
  simp only [hin, if_pos]
  rfl

/-- A frame for another station. -/
theorem deliver_other (st : ι → Station) (lan : Lan ι) (i : ι) (src : EtherAddr) (now : Timeval)
    (id type : UInt16) (data : List UInt8) {hw : EtherAddr} (h : (st i).addr ≠ hw)
    (hb : etherAddrBroadcast ≠ hw) :
    lan.deliver st i now id (etherTransmitHelper src type data hw) = some lan := by
  have hin : etherInput (st i).iface.dev.addr (etherTransmitHelper src type data hw) = none :=
    (etherInput_sent (st i).addr _ _ _ _).trans (if_pos ⟨h, hb⟩)
  rw [Lan.deliver]
  simp only [hin]

/-- UDP and TCP load received bytes only, and their messages are not ICMP's. -/
theorem run_other {call : IpCall} {data : List UInt8} (h : call.handler ≠ .icmp)
    (hin : call.off.toNat + call.len.toNat ≤ data.length) (iface : IfaceAddr) :
    ∃ handled, call.run data iface = some handled ∧ ∀ v, handled ≠ .icmp v := by
  obtain ⟨handled, hrun⟩ := Option.isSome_iff_exists.mp (run_isSome hin iface)
  refine ⟨handled, hrun, ?_⟩
  rintro v rfl
  unfold IpCall.run at hrun
  cases hhandler : call.handler with
  | icmp => exact h hhandler
  | udp =>
      rw [hhandler] at hrun
      obtain ⟨a, -, ha⟩ := Option.map_eq_some_iff.mp hrun
      cases ha
  | tcp =>
      rw [hhandler] at hrun
      obtain ⟨a, -, ha⟩ := Option.map_eq_some_iff.mp hrun
      cases ha

/-- `icmp_input` gets the message. -/
theorem run_icmp {o : IcmpOutput} (ho : o.data.length ≤ 65507) {data pad : List UInt8}
    (hdata : data.drop 20 = o.bytes ++ pad) (src dst : IpAddr) (iface : IfaceAddr) :
    (messageCall .icmp o.bytes.length src dst).run data iface =
      some (.icmp (o.verdict src iface)) := by
  rw [IpCall.run]
  simp only [messageCall]
  rw [show (20 : UInt16).toNat = 20 from rfl, hdata, icmpInput_output o ho]
  rfl

/-- `ip_input` gets the datagram of a frame for the station. -/
theorem deliver_ip (st : ι → Station) (lan : Lan ι) (i : ι) (now : Timeval) (id : UInt16)
    (s : Station) (id' : UInt16) (protocol : UInt8) (msg : List UInt8) (dst : IpAddr)
    {hw : EtherAddr} (hfor : ¬ ((st i).addr ≠ hw ∧ etherAddrBroadcast ≠ hw)) :
    let core := ipOutputCore protocol msg s.unicast dst id' 0
    lan.deliver st i now id (s.datagram id' protocol msg dst hw) =
      match ipInput ipProtocols (some (st i).iface.addr) (core ++ etherPad core.length) with
      | none => some lan
      | some call =>
          (call.run (core ++ etherPad core.length) (st i).iface.addr).bind fun handled =>
            match handled with
            | .icmp (.accepted o) => lan.icmpOutput st i now id o
            | _ => some lan := by
  intro core
  have hin : etherInput (st i).iface.dev.addr (s.datagram id' protocol msg dst hw) =
      some (netProtocolTypeIp, core ++ etherPad core.length) :=
    (etherInput_sent (st i).addr _ _ _ _).trans (if_neg hfor)
  have htype : ¬ netProtocolTypeIp = netProtocolTypeArp := by decide
  rw [Lan.deliver]
  simp only [hin, if_neg htype, if_pos, core]

/-- An ICMP message arrives: an echo request is answered. -/
theorem deliver_icmp (st : ι → Station) (lan : Lan ι) (i : ι) (now : Timeval) (id : UInt16)
    {o : IcmpOutput} (hfits : o.bytes.length ≤ messageMax) {s : Station} {dst : IpAddr}
    {id' : UInt16} {hw : EtherAddr} (hfor : ¬ ((st i).addr ≠ hw ∧ etherAddrBroadcast ≠ hw))
    (hcall : ipInput ipProtocols (some (st i).iface.addr)
      (ipOutputCore ipProtocolIcmp o.bytes s.unicast dst id' 0 ++
        etherPad (ipOutputCore ipProtocolIcmp o.bytes s.unicast dst id' 0).length) =
      some (messageCall .icmp o.bytes.length s.unicast dst)) :
    lan.deliver st i now id (s.datagram id' ipProtocolIcmp o.bytes dst hw) =
      some (if o.type = icmpTypeEcho then
        lan.output st i now id ipProtocolIcmp { o with type := icmpTypeEchoReply }.bytes
          (st i).unicast s.unicast
      else lan) := by
  have h1480 : messageMax = 1480 := rfl
  rw [o.bytes_length] at hfits
  rw [deliver_ip st lan i now id s id' _ _ dst hfor, hcall]
  dsimp only
  rw [run_icmp (by omega) (ipOutputCore_drop _ _ _ _ _ _ _), Option.bind_some]
  by_cases hecho : o.type = icmpTypeEcho
  · have hsmall : ¬ icmpBufsiz < 8 + o.data.length := by
      have h4076 : icmpBufsiz = 4076 := rfl
      omega
    have hv : o.verdict s.unicast (st i).iface.addr = .accepted
        ⟨icmpTypeEchoReply, o.code, o.values, o.data, (st i).unicast, s.unicast⟩ := if_pos hecho
    rw [hv, if_pos hecho]
    dsimp only
    rw [Lan.icmpOutput, IcmpOutput.message, if_neg hsmall]
    rfl
  · have hv : o.verdict s.unicast (st i).iface.addr = .dropped := if_neg hecho
    rw [hv, if_neg hecho]

/-- What the message `s` does at the station `i`. -/
inductive Handles (st : ι → Station) (lan : Lan ι) (i : ι) (now : Timeval) (id : UInt16)
    (s : Sent ι) : Lan ι → Prop
  | ignored : Handles st lan i now id s lan
  | answered (o : IcmpOutput) (hp : s.protocol = ipProtocolIcmp) (ho : s.msg = o.bytes)
      (hecho : o.type = icmpTypeEcho)
      (hdst : s.dst = (st i).unicast ∨ (st i).iface.broadcasts s.dst) :
      Handles st lan i now id s (lan.output st i now id ipProtocolIcmp
        { o with type := icmpTypeEchoReply }.bytes (st i).unicast (st s.sender).unicast)

/-- A datagram arrives. -/
theorem deliver_datagram {earlier : List (Sent ι)} {s : Sent ι} (hs : s.Justified st earlier)
    (lan : Lan ι) (i : ι) (now : Timeval) (id id' : UInt16) (hw : EtherAddr) :
    ∃ lan', lan.deliver st i now id ((st s.sender).datagram id' s.protocol s.msg s.dst hw) =
      some lan' ∧ Handles st lan i now id s lan' := by
  by_cases hfor : (st i).addr ≠ hw ∧ etherAddrBroadcast ≠ hw
  · exact ⟨lan, deliver_other st lan i _ now id _ _ hfor.1 hfor.2, .ignored⟩
  obtain ⟨sender, protocol, msg, dst⟩ := s
  have hlen : msg.length ≤ 65515 := hs.fits.trans (by decide)
  let core := ipOutputCore protocol msg (st sender).unicast dst id' 0
  have hip := deliver_ip st lan i now id (st sender) id' protocol msg dst hfor
  dsimp only at hip ⊢
  cases hcall : ipInput ipProtocols (some (st i).iface.addr) (core ++ etherPad core.length) with
  | none =>
      rw [hip, hcall]
      exact ⟨lan, rfl, .ignored⟩
  | some call =>
      obtain ⟨haddr, proto, hproto, rfl⟩ := ipInput_sent hlen hcall
      -- a handler other than ICMP's
      have hignored (hne : proto.handler ≠ .icmp) :
          lan.deliver st i now id ((st sender).datagram id' protocol msg dst hw) = some lan := by
        have hslice : 20 + (UInt64.ofNat msg.length).toNat ≤
            (core ++ etherPad core.length).length := by
          rw [size_toNat (by omega), List.length_append, ipOutputCore_length]
          omega
        obtain ⟨handled, hrun, hnot⟩ := run_other (show (messageCall proto.handler msg.length
          (st sender).unicast dst).handler ≠ .icmp from hne) hslice (st i).iface.addr
        rw [hip, hcall]
        dsimp only
        rw [hrun]
        cases handled with
        | icmp v => exact absurd rfl (hnot v)
        | udp v => rfl
        | tcp v m => rfl
      rcases hs.source with (rfl | rfl) | ⟨rfl, o, rfl, -⟩
      · cases hproto
        exact ⟨lan, hignored fun hh => (by cases hh), .ignored⟩
      · cases hproto
        exact ⟨lan, hignored fun hh => (by cases hh), .ignored⟩
      · cases hproto
        refine ⟨_, deliver_icmp st lan i now id hs.fits hfor hcall, ?_⟩
        split
        · rename_i hecho
          exact .answered o rfl rfl hecho haddr
        · exact .ignored

/-- An answer of `arp_input` is a reply of the station. -/
theorem arpInput_reply (s : Station) (t : Caches) (now : Timeval) (data : List UInt8)
    {frame : List UInt8} (h : frame ∈ (arpInput t now data (some s.iface)).2) :
    ∃ tha tpa hw, frame = etherTransmitHelper s.addr netProtocolTypeArp
      (arpOutput arpOpReply s.iface tha tpa).bytes hw := by
  unfold arpInput at h
  split at h
  · cases h
  dsimp only at h
  split at h
  · dsimp only at h
    split at h
    · rw [arpReply_station] at h
      cases h
      exact ⟨_, _, _, rfl⟩
    · cases h
  · cases h

/-- A frame arrives, and the link stays genuine. -/
theorem Lan.Genuine.deliver (h : lan.Genuine st)
    (hinj : Function.Injective fun i => (st i).unicast) (i : ι) (now : Clock) (id : UInt16)
    {frame : List UInt8} (hf : frame ∈ lan.air) :
    ∃ lan', lan.deliver st i now id frame = some lan' ∧ lan'.Genuine st := by
  cases h.air frame hf with
  | arp k op tha tpa hw =>
      by_cases hfor : (st i).addr ≠ hw ∧ etherAddrBroadcast ≠ hw
      · exact ⟨lan, deliver_other st lan i _ now id _ _ hfor.1 hfor.2, h⟩
      have hw' : hw = (st i).addr ∨ hw = etherAddrBroadcast := by
        rcases not_and_or.mp hfor with hne | hne
        · exact .inl (not_not.mp hne).symm
        · exact .inr (not_not.mp hne).symm
      refine ⟨_, deliver_arp st lan i k now id op tha tpa hw', ?_⟩
      let data := (arpOutput op (st k).iface tha tpa).bytes
      have ht : Traced st
          (arpInput (lan.caches i) now (data ++ etherPad data.length) (some (st i).iface)).1 :=
        (h.traced i).step (input_honest now k op tha tpa _ (some (st i).iface))
      have hframes : ∀ frame ∈ (arpInput (lan.caches i) now (data ++ etherPad data.length)
          (some (st i).iface)).2.toList, OnAir st (lan.sent ++ []) frame := by
        intro frame hframe
        obtain ⟨tha', tpa', hw'', rfl⟩ :=
          arpInput_reply (st i) _ _ _ (Option.mem_toList.mp hframe)
        exact .arp i _ _ _ _
      have hgrow := h.grow (i := i) ht hframes (.inl (Eq.refl []))
      rw [List.append_nil] at hgrow
      exact hgrow
  | ip s hs id' hw hhop =>
      obtain ⟨earlier, -, hjust⟩ := h.justified hs
      obtain ⟨lan', hlan', hhandles⟩ := deliver_datagram hjust lan i now id id' hw
      refine ⟨lan', hlan', ?_⟩
      cases hhandles with
      | ignored => exact h
      | answered o hp ho hecho hdst =>
          refine h.output hinj i now id _ fun hfits => ⟨hfits, .inr ⟨rfl, _, rfl, fun _ => ?_⟩⟩
          refine ⟨s, hs, hp, ?_, rfl, hdst⟩
          rw [ho, ← hecho]

end Deliver

theorem boot_genuine {ι : Type*} (st : ι → Station) : (Lan.boot : Lan ι).Genuine st where
  traced _ := ⟨[], fun _ he => (List.not_mem_nil he).elim, rfl⟩
  air _ hf := (List.not_mem_nil hf).elim
  sent pre s hp := by
    have hnil := List.prefix_nil.mp hp
    exact absurd hnil (by simp)

section Run
variable {ι : Type*} [DecidableEq ι] {st : ι → Station}

/-- **One event.** -/
theorem Lan.Genuine.step? {lan : Lan ι} (h : lan.Genuine st)
    (hinj : Function.Injective fun i => (st i).unicast) {e : LanEvent ι} (he : lan.Admits e) :
    ∃ lan', lan.step? st e = some lan' ∧ lan'.Genuine st := by
  cases e with
  | output i now id protocol msg src dst =>
      exact ⟨_, rfl, h.output hinj i now id src fun hfits => ⟨hfits, .inl he⟩⟩
  | icmp i now id o =>
      obtain ⟨htype, hsome⟩ := he
      obtain ⟨msg, hmsg⟩ := Option.isSome_iff_exists.mp hsome
      have hbytes : msg = o.bytes := by
        unfold IcmpOutput.message at hmsg
        split at hmsg
        · cases hmsg
        · exact (Option.some.inj hmsg).symm
      refine ⟨lan.output st i now id ipProtocolIcmp msg o.src o.dst, ?_, ?_⟩
      · show Option.map _ _ = _
        rw [hmsg]
        rfl
      · exact h.output hinj i now id o.src fun hfits =>
          ⟨hfits, .inr ⟨rfl, o, hbytes, fun hreply => absurd hreply htype⟩⟩
  | deliver i now id frame => exact h.deliver hinj i now id he
  | timer i now =>
      refine ⟨_, rfl, ?_⟩
      have hgrow := h.grow (i := i) ((h.traced i).step (timer_honest now))
        (fun frame (hframe : frame ∈ []) => (List.not_mem_nil hframe).elim) (.inl (Eq.refl []))
      rw [List.append_nil, List.append_nil] at hgrow
      exact hgrow

/-- **Every run.** -/
theorem run_genuine (hinj : Function.Injective fun i => (st i).unicast) {es : List (LanEvent ι)}
    (hes : Guarded (Lan.step st) Lan.Admits .boot es) : (run (Lan.step st) .boot es).Genuine st :=
  inv_run (Lan.Genuine st) (fun lan e h he => by
    obtain ⟨lan', hlan', hgen⟩ := h.step? hinj he
    rw [Lan.step, hlan']
    exact hgen) (boot_genuine st) hes

end Run

/-! ## One subnet -/

/-- The stations are the hosts of one subnet. -/
structure Subnet {ι : Type*} (st : ι → Station) (netmask : IpAddr) : Prop where
  distinct : Function.Injective fun i => (st i).unicast
  mask : ∀ i, (st i).netmask = netmask
  proper : netmask ≠ 0
  network : ∀ i j, (st i).unicast &&& netmask = (st j).unicast &&& netmask
  host : ∀ i j, ¬ (st i).iface.broadcasts (st j).unicast

/-- The routes of a station. -/
theorem Station.routes_eq (s : Station) : s.routes =
    (s.gateway.map fun gw => ⟨ipAddrAny, ipAddrAny, gw, 0⟩).toList ++
      [⟨s.unicast &&& s.netmask, s.netmask, ipAddrAny, 0⟩] := by
  unfold Station.routes
  cases s.gateway <;> rfl

theorem ntoh32_pos {v : UInt32} (h : v ≠ 0) : ntoh32 0 < ntoh32 v := by
  have hne : ntoh32 v ≠ 0 := by
    intro hz
    refine h ?_
    have hback : ntoh32 (hton32 v) = ntoh32 0 := congrArg ntoh32 hz
    rwa [ntoh32_hton32] at hback
  have hz : ntoh32 0 = 0 := by decide
  rw [hz]
  exact UInt32.pos_iff_ne_zero.mpr hne

section Subnet
variable {ι : Type*} {st : ι → Station} {netmask : IpAddr}

/-- A station is reached without a gateway. -/
theorem Subnet.lookup (h : Subnet st netmask) (i j : ι) :
    routeLookup (st i).routes (st j).unicast =
      some ⟨(st i).unicast &&& netmask, netmask, ipAddrAny, 0⟩ := by
  have hreach : (st j).unicast &&& netmask = (st i).unicast &&& netmask := h.network j i
  have hlt : ntoh32 ipAddrAny < ntoh32 netmask := ntoh32_pos h.proper
  rw [Station.routes_eq, h.mask i]
  cases (st i).gateway with
  | none =>
      show Route.better _ none _ = _
      exact if_pos hreach
  | some gw =>
      have hany : (st j).unicast &&& ipAddrAny = ipAddrAny := UInt32.and_zero
      show Route.better _ (Route.better _ none _) _ = _
      rw [show Route.better (st j).unicast none ⟨ipAddrAny, ipAddrAny, gw, 0⟩ =
        some ⟨ipAddrAny, ipAddrAny, gw, 0⟩ from if_pos hany]
      exact (if_pos hreach).trans (if_pos hlt)

theorem Subnet.hop (h : Subnet st netmask) {i j : ι} {route : Route}
    (hr : routeLookup (st i).routes (st j).unicast = some route) :
    route.hop (st j).unicast = (st j).unicast := by
  cases (h.lookup i j).symm.trans hr
  exact if_neg (not_not.mpr rfl)

/-- **An IP frame for a station bears its hardware address.** -/
theorem OnAir.addressed (h : Subnet st netmask) {sent : List (Sent ι)} {frame : List UInt8}
    (hf : OnAir st sent frame) {eth : EtherHdr} (heth : etherHdr frame = some eth)
    (htype : ntoh16 eth.type = netProtocolTypeIp) {ip : IpHdr}
    (hip : ipHdr (frame.drop 14) = some ip) {j : ι} (hj : ip.dst = (st j).unicast) :
    eth.dst = (st j).addr := by
  cases hf with
  | arp i op tha tpa hw =>
      rw [etherTransmitHelper, etherHdr_bytes] at heth
      cases heth
      rw [ntoh16_hton16] at htype
      exact absurd htype (by decide)
  | ip s hs id hw hhop =>
      obtain ⟨route, hroute, hto⟩ := hhop
      have heth' : etherHdr ((st s.sender).datagram id s.protocol s.msg s.dst hw) =
          some ⟨hw, (st s.sender).addr, hton16 netProtocolTypeIp⟩ := etherHdr_bytes _ _
      cases heth.symm.trans heth'
      let built : IpHdr := ipOutputHdr s.protocol s.msg.length (st s.sender).unicast s.dst id 0
      have hip' : ipHdr (((st s.sender).datagram id s.protocol s.msg s.dst hw).drop 14) =
          some { built with sum := cksum16 built.bytes 0 } := by
        show ipHdr ((_ ++ _) ++ _) = _
        rw [List.append_assoc]
        exact ipHdr_bytes _ _
      cases hip.symm.trans hip'
      have hdst : s.dst = (st j).unicast := hj
      rw [hdst] at hroute hto
      rw [h.hop hroute] at hto
      exact hto (h.host s.sender j) j rfl

end Subnet

/-- **What can be relied on.**  In every run of stations with distinct addresses no handler reads
behind a frame and `icmp_output` never writes behind its buffer; a resolved ARP entry for a station
holds its hardware address; what a handler gets is the message that the station it comes from gave
to `ip_output` for that protocol and that destination, without a byte more; and every echo reply
answers an earlier echo request of the station it is sent to, with its code, its values and its
data.  On one subnet a datagram for a station is sent to its hardware address. -/
theorem lan_genuine {ι : Type*} [DecidableEq ι] (st : ι → Station)
    (hinj : Function.Injective fun i => (st i).unicast) (es : List (LanEvent ι))
    (hes : Guarded (Lan.step st) Lan.Admits .boot es) :
    let lan := run (Lan.step st) .boot es
    (∀ e, lan.Admits e → (lan.step? st e).isSome) ∧
    (∀ i k j, (lan.caches i k).state = .resolved → (lan.caches i k).pa = (st j).unicast →
      (lan.caches i k).ha = (st j).addr) ∧
    (∀ i, ∀ frame ∈ lan.air, ∀ data call,
      etherInput (st i).addr frame = some (netProtocolTypeIp, data) →
      ipInput ipProtocols (some (st i).iface.addr) data = some call →
        ∃ s ∈ lan.sent, (st s.sender).unicast = call.src ∧ s.dst = call.dst ∧
          (ipProtocolFind ipProtocols s.protocol).map IpProtocol.handler = some call.handler ∧
          window (data.drop call.off.toNat) call.len.toNat = some s.msg) ∧
    (∀ pre s, pre ++ [s] <+: lan.sent → s.protocol = ipProtocolIcmp →
      ∀ o : IcmpOutput, s.msg = o.bytes → o.type = icmpTypeEchoReply →
        ∃ q ∈ pre, AnswerTo st q s o) ∧
    ∀ netmask, Subnet st netmask → ∀ frame ∈ lan.air, ∀ eth ip, etherHdr frame = some eth →
      ntoh16 eth.type = netProtocolTypeIp → ipHdr (frame.drop 14) = some ip →
        ∀ j, ip.dst = (st j).unicast → eth.dst = (st j).addr := by
  intro lan
  have h : lan.Genuine st := run_genuine hinj hes
  refine ⟨fun e he => ?_, fun i k j hk hj => (h.traced i).addr hinj hk hj.symm, ?_, ?_,
    fun netmask hsub frame hf eth ip heth htype hip j hj =>
      (h.air frame hf).addressed hsub heth htype hip hj⟩
  · obtain ⟨lan', hlan', -⟩ := h.step? hinj he
    rw [hlan']
    rfl
  · intro i frame hf data call hether hcall
    cases h.air frame hf with
    | arp k op tha tpa hw =>
        rw [etherInput_sent] at hether
        split at hether
        · cases hether
        · cases hether
    | ip s hs id hw hhop =>
        obtain ⟨earlier, -, hjust⟩ := h.justified hs
        have hlen : s.msg.length ≤ 65515 := hjust.fits.trans (by decide)
        rw [Station.datagram, etherInput_sent] at hether
        split at hether
        · cases hether
        cases hether
        obtain ⟨-, proto, hproto, rfl⟩ := ipInput_sent hlen hcall
        refine ⟨s, hs, rfl, rfl, ?_, ?_⟩
        · rw [hproto]
          rfl
        · show window (List.drop 20 _) (UInt64.ofNat s.msg.length).toNat = _
          rw [ipOutputCore_drop, size_toNat (by omega), window_append]
  · intro pre s hp hicmp o ho hreply
    have hjust := h.sent pre s hp
    rcases hjust.source with (hp | hp) | ⟨-, p, hmsg, hanswer⟩
    · exact absurd (hicmp.symm.trans hp) (by decide)
    · exact absurd (hicmp.symm.trans hp) (by decide)
    · obtain ⟨htype, hcode, hvalues, hdata⟩ := IcmpOutput.bytes_inj (ho.symm.trans hmsg)
      obtain ⟨q, hq, hans⟩ := hanswer (htype ▸ hreply)
      refine ⟨q, hq, hans.protocol, ?_, hans.asker, hans.asked⟩
      rw [hans.msg]
      unfold IcmpOutput.bytes IcmpOutput.hdr
      simp only [hcode, hvalues, hdata]

/-- Two hosts of 7.0.0.0/24, one of them with a default gateway. -/
def twoHosts : Bool → Station
  | true => ⟨⟨2, 0, 0, 0, 0, 1⟩, 0x01000007, 0x00ffffff, none⟩
  | false => ⟨⟨2, 0, 0, 0, 0, 2⟩, 0x02000007, 0x00ffffff, some 0xfe000007⟩

theorem twoHosts_subnet : Subnet twoHosts 0x00ffffff where
  distinct i j h := by cases i <;> cases j <;> first | rfl | exact absurd h (by decide)
  mask i := by cases i <;> rfl
  proper := by decide
  network i j := by cases i <;> cases j <;> decide
  host i j := by cases i <;> cases j <;> decide

/-- 7.0.0.1 sends an echo request to 7.0.0.2, and its ARP request arrives. -/
def firstContact : List (LanEvent Bool) :=
  [.icmp true ⟨.zero, by decide⟩ 128 ⟨icmpTypeEcho, 0, 1, [1, 2, 3], 0x01000007, 0x02000007⟩,
    .deliver false ⟨.zero, by decide⟩ 128 (etherTransmitHelper ⟨2, 0, 0, 0, 0, 1⟩
      netProtocolTypeArp (arpOutput arpOpRequest (twoHosts true).iface ⟨0, 0, 0, 0, 0, 0⟩
        0x02000007).bytes etherAddrBroadcast)]

theorem firstContact_admitted : Guarded (Lan.step twoHosts) Lan.Admits .boot firstContact :=
  ⟨⟨by decide, by decide⟩, List.mem_singleton.mpr rfl, trivial⟩

theorem lan_genuine_firstContact :
    ((run (Lan.step twoHosts) .boot firstContact).caches false 0).ha = ⟨2, 0, 0, 0, 0, 1⟩ :=
  (lan_genuine twoHosts twoHosts_subnet.distinct firstContact firstContact_admitted).2.1 false 0
    true (by decide +kernel) (by decide +kernel)

/-! ## An echo request is answered -/

/-- Some run of at most `n` events, all of them `ok`, leads there. -/
def Lan.Leads {ι : Type*} [DecidableEq ι] (st : ι → Station) (ok : LanEvent ι → Prop) (n : Nat)
    (lan lan' : Lan ι) : Prop :=
  ∃ es, es.length ≤ n ∧ (∀ e ∈ es, ok e) ∧ Guarded (Lan.step st) Lan.Admits lan es ∧
    run (Lan.step st) lan es = lan'

/-- `arp_resolve` of the station `i` answers for the station `j`. -/
def Lan.Knows {ι : Type*} (st : ι → Station) (lan : Lan ι) (i j : ι) : Prop :=
  ∃ k, arpCacheSelect (lan.caches i) (st j).unicast = some k ∧
    (lan.caches i k).state ≠ .incomplete

section Leads
variable {ι : Type*} [DecidableEq ι] {st : ι → Station} {ok : LanEvent ι → Prop} {m n : Nat}
  {lan lan' lan'' : Lan ι}

theorem Lan.Leads.refl : lan.Leads st ok 0 lan :=
  ⟨[], Nat.le_refl 0, fun _ he => (List.not_mem_nil he).elim, trivial, rfl⟩

theorem Lan.Leads.next (h : lan.Leads st ok n lan') {e : LanEvent ι} (hok : ok e)
    (he : lan'.Admits e) (hstep : lan'.step? st e = some lan'') : lan.Leads st ok (n + 1) lan'' := by
  obtain ⟨es, hn, hall, hes, rfl⟩ := h
  refine ⟨es ++ [e], by simpa using hn, fun e' he' => ?_, ?_, ?_⟩
  · rcases List.mem_append.mp he' with he' | he'
    · exact hall e' he'
    · rw [List.mem_singleton.mp he']
      exact hok
  · exact guarded_append.mpr ⟨hes, he, trivial⟩
  · rw [run_append, run_cons, run_nil, Lan.step, hstep]
    rfl

theorem Lan.Leads.trans (h : lan.Leads st ok m lan') (h' : lan'.Leads st ok n lan'') :
    lan.Leads st ok (m + n) lan'' := by
  obtain ⟨es, hm, hall, hes, rfl⟩ := h
  obtain ⟨es', hn, hall', hes', rfl⟩ := h'
  refine ⟨es ++ es', by rw [List.length_append]; omega, fun e he => ?_,
    guarded_append.mpr ⟨hes, hes'⟩, run_append _ _ _ _⟩
  rcases List.mem_append.mp he with he | he
  · exact hall e he
  · exact hall' e he

theorem Lan.Leads.mono (h : lan.Leads st ok m lan') (hmn : m ≤ n) : lan.Leads st ok n lan' := by
  obtain ⟨es, hm, hall, hes, hrun⟩ := h
  exact ⟨es, hm.trans hmn, hall, hes, hrun⟩

theorem Lan.Leads.genuine (h : lan.Leads st ok n lan') (hg : lan.Genuine st)
    (hinj : Function.Injective fun i => (st i).unicast) : lan'.Genuine st := by
  obtain ⟨es, -, -, hes, rfl⟩ := h
  refine inv_run (Lan.Genuine st) (fun lan e h he => ?_) hg hes
  obtain ⟨lan', hlan', hgen⟩ := h.step? hinj he
  rw [Lan.step, hlan']
  exact hgen

end Leads

/-! ### ARP -/

/-- The only entry of its address is the one that is found. -/
theorem Caches.Unique.select {t : Caches} (h : t.Unique) {pa : IpAddr} {k : CacheId}
    (hk : (t k).Is pa) : arpCacheSelect t pa = some k := by
  cases hs : arpCacheSelect t pa with
  | none => exact absurd hk (select_none_iff.mp hs k)
  | some k' => rw [h pa k' k (select_is hs) hk]

/-- A message for the station: its sender is known afterwards, and a request is answered. -/
theorem arpInput_mine {t : Caches} (hu : t.Unique) (now : Timeval) {msg : ArpEther}
    {data : List UInt8} (hmsg : arpMessage data = some msg) {s : Station}
    (htpa : s.unicast = msg.tpa) :
    (∃ k, arpCacheSelect (arpInput t now data (some s.iface)).1 msg.spa = some k ∧
      ((arpInput t now data (some s.iface)).1 k).state ≠ .incomplete) ∧
    (arpInput t now data (some s.iface)).2 =
      if ntoh16 msg.op = arpOpRequest then arpReply s.iface msg.sha msg.spa msg.sha else none := by
  have hmine : s.iface.addr.unicast = msg.tpa := htpa
  -- the entry that the message fills
  have hfill {k : CacheId} (hother : ∀ j, j ≠ k → ¬ (t j).Is msg.spa) :
      ∃ k', arpCacheSelect (Function.update t k ⟨.resolved, msg.spa, msg.sha, now⟩) msg.spa =
        some k' ∧ (Function.update t k ⟨.resolved, msg.spa, msg.sha, now⟩ k').state ≠
          .incomplete := by
    have hu' : Caches.Unique (Function.update t k ⟨.resolved, msg.spa, msg.sha, now⟩) :=
      hu.update hother
    refine ⟨k, hu'.select ?_, ?_⟩
    · rw [Function.update_self]
      exact ⟨fun hs => (by cases hs), rfl⟩
    · rw [Function.update_self]
      exact fun hs => by cases hs
  unfold arpInput
  rw [hmsg]
  dsimp only
  rw [if_pos hmine]
  cases hsel : arpCacheSelect t msg.spa with
  | some k =>
      have hpa : (t k).pa = msg.spa := (select_is hsel).2
      have hup : arpCacheUpdate t now msg.spa msg.sha =
          some (Function.update t k ⟨.resolved, msg.spa, msg.sha, now⟩) := by
        rw [arpCacheUpdate, hsel, Option.map_some]
        simp only [hpa]
      rw [hup]
      exact ⟨hfill fun j hj his => hj (hu _ _ _ his (select_is hsel)), rfl⟩
  | none =>
      obtain ⟨k, hk⟩ := alloc_some t
      have hup : arpCacheUpdate t now msg.spa msg.sha = none := by
        rw [arpCacheUpdate, hsel, Option.map_none]
      have hins : arpCacheInsert t now msg.spa msg.sha =
          some (Function.update t k ⟨.resolved, msg.spa, msg.sha, now⟩) := by
        rw [arpCacheInsert, hk, Option.map_some]
      rw [hup]
      simp only [Option.getD_none, Option.isSome_none, Bool.false_eq_true, if_false, hins,
        Option.getD_some]
      exact ⟨hfill fun j _ => select_none_iff.mp hsel j, trivial⟩

/-- What a station knows depends on its own cache. -/
theorem knows_congr {ι : Type*} {st : ι → Station} {lan lan' : Lan ι} {i j : ι}
    (h : lan'.caches i = lan.caches i) : lan'.Knows st i j ↔ lan.Knows st i j := by
  unfold Lan.Knows
  rw [h]

section Exchange
variable {ι : Type*} [DecidableEq ι] {st : ι → Station} {lan : Lan ι} {i j : ι}

/-- An ARP message of the station `k` for the station `i` arrives. -/
theorem deliver_mine (hg : lan.Genuine st) (i k : ι) (now : Timeval) (id op : UInt16)
    (tha : EtherAddr) {hw : EtherAddr} (hw' : hw = (st i).addr ∨ hw = etherAddrBroadcast) :
    ∃ lan', lan.deliver st i now id (etherTransmitHelper (st k).addr netProtocolTypeArp
        (arpOutput op (st k).iface tha (st i).unicast).bytes hw) = some lan' ∧
      lan'.Knows st i k ∧ (∀ j, j ≠ i → lan'.caches j = lan.caches j) ∧
      lan'.air = lan.air ++ if op = arpOpRequest then
        [etherTransmitHelper (st i).addr netProtocolTypeArp
          (arpOutput arpOpReply (st i).iface (st k).addr (st k).unicast).bytes (st k).addr]
      else [] := by
  let data := (arpOutput op (st k).iface tha (st i).unicast).bytes
  obtain ⟨⟨e, he, hs⟩, hreply⟩ := arpInput_mine (hg.traced i).unique now
    (arpMessage_output op (st k).iface tha (st i).unicast (etherPad data.length)) (s := st i) rfl
  refine ⟨_, deliver_arp st lan i k now id op tha (st i).unicast hw', ?_, fun j hj => ?_, ?_⟩
  · refine ⟨e, ?_, ?_⟩
    · simp only [Function.update_self]
      exact he
    · simp only [Function.update_self]
      exact hs
  · exact Function.update_of_ne hj _ _
  · have hop : ntoh16 (arpOutput op (st k).iface tha (st i).unicast).op = op := ntoh16_hton16 op
    dsimp only
    rw [hreply, hop]
    split
    · rw [arpReply_station]
      rfl
    · rfl

/-- The ARP request of `i` for `j`, and the reply of `j`. -/
def requestFrame (st : ι → Station) (i j : ι) : List UInt8 :=
  etherTransmitHelper (st i).addr netProtocolTypeArp
    (arpOutput arpOpRequest (st i).iface ⟨0, 0, 0, 0, 0, 0⟩ (st j).unicast).bytes etherAddrBroadcast

def replyFrame (st : ι → Station) (i j : ι) : List UInt8 :=
  etherTransmitHelper (st j).addr netProtocolTypeArp
    (arpOutput arpOpReply (st j).iface (st i).addr (st i).unicast).bytes (st i).addr

section Output
variable {netmask : IpAddr} (hsub : Subnet st netmask)
include hsub

/-- A message for a station whose hardware address is known goes out. -/
theorem output_known (hg : lan.Genuine st) (hk : lan.Knows st i j) (now : Timeval) (id : UInt16)
    (protocol : UInt8) {msg : List UInt8} (hfits : msg.length ≤ messageMax) :
    let lan' := lan.output st i now id protocol msg (st i).unicast (st j).unicast
    lan'.caches = lan.caches ∧
      lan'.air = lan.air ++ [(st i).datagram id protocol msg (st j).unicast (st j).addr] := by
  obtain ⟨k, hk, hs⟩ := hk
  intro lan'
  have hem : Emission (st i) (lan.caches i) now id protocol msg (st j).unicast
      (ipOutputEmitted (lan.caches i) now (fun _ => (st i).iface) (st i).routes id protocol msg
        (st i).unicast (st j).unicast) :=
    output_accepted hfits (hsub.lookup i j) fun hb => hsub.host i j (.inr hb)
  have hlan' : lan' = lan.emit (ipOutputEmitted (lan.caches i) now (fun _ => (st i).iface)
    (st i).routes id protocol msg (st i).unicast (st j).unicast)
      ⟨i, protocol, msg, (st j).unicast⟩ := rfl
  rw [hlan']
  generalize ipOutputEmitted (lan.caches i) now _ _ id protocol msg _ _ = r at hem
  cases hem with
  | wide route hroute hhop _ =>
      rw [hsub.hop hroute] at hhop
      exact absurd hhop (hsub.host i j)
  | direct route hroute hhop _ ha hfound =>
      rw [hsub.hop hroute] at hfound
      cases (hg.traced i).found hsub.distinct hfound rfl
      exact ⟨Function.update_eq_self i lan.caches, rfl⟩
  | asked route hroute hhop t' hasked =>
      rw [hsub.hop hroute] at hasked
      have hres := resolve_station (st i) (lan.caches i) now (st j).unicast
      rw [hasked] at hres
      cases hres with
      | repeated k' hk' hs' =>
          cases hk.symm.trans hk'
          exact absurd hs' hs
      | created k' hk' => cases hk.symm.trans hk'

/-- A message for another station asks for its hardware address instead. -/
theorem output_unknown (hk : ¬ lan.Knows st i j) (now : Timeval) (id : UInt16) (protocol : UInt8)
    {msg : List UInt8} (hfits : msg.length ≤ messageMax) :
    let lan' := lan.output st i now id protocol msg (st i).unicast (st j).unicast
    (∀ k, k ≠ i → lan'.caches k = lan.caches k) ∧ lan'.air = lan.air ++ [requestFrame st i j] := by
  intro lan'
  have hem : Emission (st i) (lan.caches i) now id protocol msg (st j).unicast
      (ipOutputEmitted (lan.caches i) now (fun _ => (st i).iface) (st i).routes id protocol msg
        (st i).unicast (st j).unicast) :=
    output_accepted hfits (hsub.lookup i j) fun hb => hsub.host i j (.inr hb)
  have hlan' : lan' = lan.emit (ipOutputEmitted (lan.caches i) now (fun _ => (st i).iface)
    (st i).routes id protocol msg (st i).unicast (st j).unicast)
      ⟨i, protocol, msg, (st j).unicast⟩ := rfl
  rw [hlan']
  generalize ipOutputEmitted (lan.caches i) now _ _ id protocol msg _ _ = r at hem
  cases hem with
  | wide route hroute hhop _ =>
      rw [hsub.hop hroute] at hhop
      exact absurd hhop (hsub.host i j)
  | direct route hroute hhop _ ha hfound =>
      rw [hsub.hop hroute] at hfound
      have hres := resolve_station (st i) (lan.caches i) now (st j).unicast
      generalize arpResolve (lan.caches i) now (st i).iface (st j).unicast = answer at hres hfound
      cases hres with
      | found k' hk' hs' => exact absurd ⟨k', hk', hs'⟩ hk
      | repeated k' hk' hs' => cases congrArg (fun r => r.2.1) hfound
      | created k' hk' => cases congrArg (fun r => r.2.1) hfound
  | asked route hroute hhop t' hasked =>
      refine ⟨fun k hne => Function.update_of_ne hne _ _, ?_⟩
      rw [hsub.hop hroute, arpRequest_station]
      rfl

end Output

/-- The events of an exchange: `i` sends its echo request, and frames arrive at both. -/
def Exchanges (i j : ι) (now : Clock) (id : UInt16) (o : IcmpOutput) (e : LanEvent ι) : Prop :=
  e = .icmp i now id o ∨ ∃ frame, e = .deliver i now id frame ∨ e = .deliver j now id frame

theorem leads_deliver {now : Clock} {id : UInt16} {o : IcmpOutput} {lan' lan'' : Lan ι} {n : Nat}
    (h : lan.Leads st (Exchanges i j now id o) n lan') {k : ι} (hk : k = i ∨ k = j)
    {frame : List UInt8} (hf : frame ∈ lan'.air)
    (hstep : lan'.deliver st k now id frame = some lan'') :
    lan.Leads st (Exchanges i j now id o) (n + 1) lan'' := by
  refine h.next (e := .deliver k now id frame) (.inr ⟨frame, ?_⟩) hf hstep
  rcases hk with rfl | rfl
  · exact .inl rfl
  · exact .inr rfl

/-- A request arrives, and its reply: the two stations know each other. -/
theorem leads_request {now : Clock} {id : UInt16} {o : IcmpOutput} {lan' : Lan ι} {n : Nat}
    (hinj : Function.Injective fun i => (st i).unicast) (hg : lan.Genuine st)
    (h : lan.Leads st (Exchanges i j now id o) n lan') {a b : ι} (ha : a = i ∨ a = j)
    (hb : b = i ∨ b = j) (hab : a ≠ b) (hf : requestFrame st a b ∈ lan'.air) :
    ∃ lan'', lan.Leads st (Exchanges i j now id o) (n + 2) lan'' ∧ lan''.Knows st a b ∧
      lan''.Knows st b a := by
  obtain ⟨lan₁, hstep₁, hk₁, -, hair₁⟩ := deliver_mine (h.genuine hg hinj) b a now id
    arpOpRequest ⟨0, 0, 0, 0, 0, 0⟩ (.inr rfl)
  have h₁ := leads_deliver h hb hf hstep₁
  have hreply : replyFrame st a b ∈ lan₁.air := by
    rw [hair₁, if_pos rfl]
    exact List.mem_append_right _ (List.mem_singleton_self _)
  obtain ⟨lan₂, hstep₂, hk₂, hc₂, -⟩ := deliver_mine (h₁.genuine hg hinj) a b now id arpOpReply
    (st a).addr (.inl rfl)
  exact ⟨lan₂, leads_deliver h₁ ha hreply hstep₂, hk₂, (knows_congr (hc₂ b hab.symm)).mpr hk₁⟩

/-- The request reaches `j`, which sends its answer to `i`. -/
theorem deliver_ping (now : Clock) (id : UInt16) {o : IcmpOutput} (hecho : o.type = icmpTypeEcho)
    (hfits : o.bytes.length ≤ messageMax) (lan : Lan ι) :
    lan.deliver st j now id
        ((st i).datagram id ipProtocolIcmp o.bytes (st j).unicast (st j).addr) =
      some (lan.output st j now id ipProtocolIcmp { o with type := icmpTypeEchoReply }.bytes
        (st j).unicast (st i).unicast) := by
  have hp : ipProtocolFind ipProtocols ipProtocolIcmp = some ⟨ipProtocolIcmp, .icmp⟩ := rfl
  exact (deliver_icmp st lan j now id hfits (fun h => h.1 rfl) (ipInput_output hp
    (hfits.trans (by decide)) (st i).unicast id (st j).iface.addr _)).trans
      (congrArg some (if_pos hecho))

section Ping
variable {netmask : IpAddr} (now : Clock) (id : UInt16) {o : IcmpOutput}
  (hecho : o.type = icmpTypeEcho) (hsrc : o.src = (st i).unicast) (hdst : o.dst = (st j).unicast)
  (hfits : o.bytes.length ≤ messageMax)
include hecho hsrc hdst hfits

/-- The echo request is sent. -/
theorem leads_ping {lan' : Lan ι} {n : Nat} (h : lan.Leads st (Exchanges i j now id o) n lan') :
    lan.Leads st (Exchanges i j now id o) (n + 1)
      (lan'.output st i now id ipProtocolIcmp o.bytes (st i).unicast (st j).unicast) := by
  have hmsg : o.message = some o.bytes := by
    have h1480 : messageMax = 1480 := rfl
    have h4076 : icmpBufsiz = 4076 := rfl
    rw [o.bytes_length] at hfits
    exact if_neg (by omega)
  refine h.next (.inl rfl) ⟨?_, ?_⟩ ?_
  · rw [hecho]
    decide
  · rw [hmsg]
    rfl
  · show lan'.icmpOutput st i now id o = _
    rw [Lan.icmpOutput, hmsg, hsrc, hdst]
    rfl

/-- **Both learn the other's hardware address.** -/
theorem leads_known (hsub : Subnet st netmask) (hij : i ≠ j) (hg : lan.Genuine st) :
    ∃ lan', lan.Leads st (Exchanges i j now id o) 4 lan' ∧ lan'.Knows st i j ∧
      lan'.Knows st j i := by
  have hping := leads_ping now id hecho hsrc hdst hfits (show lan.Leads st _ 0 lan from Lan.Leads.refl)
  by_cases hi : lan.Knows st i j
  · by_cases hj : lan.Knows st j i
    · exact ⟨lan, Lan.Leads.refl.mono (by decide), hi, hj⟩
    -- the request arrives, and `j` asks for the address of `i` before it answers
    obtain ⟨hc₁, hair₁⟩ := output_known hsub hg hi now id ipProtocolIcmp hfits
    generalize lan.output st i now id ipProtocolIcmp o.bytes (st i).unicast
      (st j).unicast = lan₁ at hping hc₁ hair₁
    have h₂ := leads_deliver hping (.inr rfl) (by rw [hair₁]; simp)
      (deliver_ping (i := i) now id hecho hfits lan₁)
    have hj₁ : ¬ lan₁.Knows st j i := fun hk => hj ((knows_congr (congrFun hc₁ j)).mp hk)
    have hfits' : { o with type := icmpTypeEchoReply }.bytes.length ≤ messageMax := by
      rw [IcmpOutput.bytes_length] at hfits ⊢
      exact hfits
    obtain ⟨-, hair₂⟩ := output_unknown hsub hj₁ now id ipProtocolIcmp hfits'
    obtain ⟨lan', h', hk, hk'⟩ := leads_request hsub.distinct hg h₂ (.inr rfl) (.inl rfl)
      (Ne.symm hij) (by rw [hair₂]; simp)
    exact ⟨lan', h', hk', hk⟩
  · obtain ⟨-, hair⟩ := output_unknown hsub hi now id ipProtocolIcmp hfits
    obtain ⟨lan', h', hk, hk'⟩ := leads_request hsub.distinct hg hping (.inl rfl) (.inr rfl) hij
      (by rw [hair]; simp)
    exact ⟨lan', h'.mono (by decide), hk, hk'⟩

end Ping

end Exchange

/-- The ICMP message that a frame brings to the station `i`, and the address it comes from. -/
def Station.icmpArrival (s : Station) (frame : List UInt8) : Option (IpAddr × List UInt8) :=
  (etherInput s.addr frame).bind fun input =>
    if input.1 = netProtocolTypeIp then
      (ipInput ipProtocols (some s.iface.addr) input.2).bind fun call =>
        if call.handler = .icmp then
          (window (input.2.drop call.off.toNat) call.len.toNat).map fun msg => (call.src, msg)
        else none
    else none

end Laplus.Net
