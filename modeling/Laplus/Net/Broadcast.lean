/-
# `Laplus.Net.Broadcast` — `ip_output` to a broadcast address

`ip_output_device` sends to the hardware broadcast address when the address it
is given is a broadcast address.  What it is given is the next hop, and
`ip_output` has replaced the destination by the gateway of the route before.
So a broadcast that only a gateway route matches is sent to the gateway, after
a lookup in the ARP cache: `broadcast_iff`.
-/
import Laplus.Net.Arp
import Laplus.Net.Route

namespace Laplus.Net

/-! ## Down to the device -/

/-- What a call of `ip_output` leaves: the ARP cache, what it returns, the address it asked
`arp_resolve` for, and the frames the driver gets, the request and the datagram. -/
structure IpEmitted where
  caches : Caches
  ret : Int
  lookup : Option IpAddr
  request : Option (List UInt8)
  frame : Option (List UInt8)

/-- A call that sends nothing. -/
def IpEmitted.failed (t : Caches) : IpEmitted := ⟨t, -1, none, none, none⟩

/-- `net_device_output` of a datagram; the driver sends every frame it is handed. -/
def Device.outputIp (dev : Device) (t : Caches) (lookup : Option IpAddr) (data : List UInt8)
    (hwaddr : EtherAddr) : IpEmitted :=
  match dev.output netProtocolTypeIp data hwaddr with
  | none => ⟨t, -1, lookup, none, none⟩
  | some frame => ⟨t, 0, lookup, none, some frame⟩

/-- `ip_output_device`; `dst` is the next hop. -/
def ipOutputDevice (t : Caches) (now : Timeval) (iface : Iface) (data : List UInt8)
    (dst : IpAddr) : IpEmitted :=
  if iface.dev.flags &&& netDeviceFlagNeedArp ≠ 0 then
    if dst = iface.addr.broadcast ∨ dst = ipAddrBroadcast then
      iface.dev.outputIp t none data iface.dev.broadcast
    else
      match arpResolve t now iface dst with
      | (t, .found ha, _) => iface.dev.outputIp t (some dst) data ha
      | (t, .incomplete, request) => ⟨t, 0, some dst, request, none⟩
      | (t, .error, request) => ⟨t, -1, some dst, request, none⟩
  else iface.dev.outputIp t none data ⟨0, 0, 0, 0, 0, 0⟩

/-- The address that `ip_output` hands down. -/
def Route.hop (route : Route) (dst : IpAddr) : IpAddr :=
  if route.nexthop ≠ ipAddrAny then route.nexthop else dst

/-- `ip_output`; `id` is the answer of `ip_generate_id`. -/
def ipOutputEmitted (t : Caches) (now : Timeval) (iface : IfaceId → Iface) (routes : List Route)
    (id : UInt16) (protocol : UInt8) (data : List UInt8) (src dst : IpAddr) : IpEmitted :=
  if src = ipAddrAny ∧ dst = ipAddrBroadcast then .failed t
  else
    match routeLookup routes dst with
    | none => .failed t
    | some route =>
        let i := iface route.iface
        if src ≠ ipAddrAny ∧ src ≠ i.addr.unicast then .failed t
        else if i.dev.mtu.toNat < ipHdrSizeMin + data.length then .failed t
        else
          let r := ipOutputDevice t now i (ipOutputCore protocol data i.addr.unicast dst id 0)
            (route.hop dst)
          { r with ret := if r.ret = -1 then -1 else data.length }

/-! ## Broadcasts -/

/-- A broadcast address of the interface. -/
def Iface.broadcasts (iface : Iface) (addr : IpAddr) : Prop :=
  addr = iface.addr.broadcast ∨ addr = ipAddrBroadcast

instance decBroadcasts (iface : Iface) (addr : IpAddr) : Decidable (iface.broadcasts addr) :=
  inferInstanceAs (Decidable (_ ∨ _))

/-- The datagram goes to the hardware broadcast address, and nobody looked for one. -/
structure IpEmitted.Broadcast (r : IpEmitted) (dev : Device) (datagram : List UInt8) : Prop where
  lookup : r.lookup = none
  request : r.request = none
  frame : r.frame = some (etherTransmitHelper dev.addr netProtocolTypeIp datagram dev.broadcast)

section Device
variable {t : Caches} {now : Timeval} {iface : Iface} {data : List UInt8} {dst : IpAddr}

theorem outputIp_accepted {dev : Device} {lookup : Option IpAddr} {hwaddr : EtherAddr}
    (h : (dev.outputIp t lookup data hwaddr).ret ≠ -1) :
    dev.outputIp t lookup data hwaddr =
      ⟨t, 0, lookup, none, some (etherTransmitHelper dev.addr netProtocolTypeIp data hwaddr)⟩ := by
  unfold Device.outputIp Device.output at *
  split at h
  · exact absurd rfl h
  · rename_i frame hframe
    split at hframe
    · cases hframe
    split at hframe
    · cases hframe
    · cases hframe
      rfl

/-- A next hop that is no broadcast address is looked up. -/
theorem outputDevice_lookup (hneed : iface.dev.flags &&& netDeviceFlagNeedArp ≠ 0)
    (hdst : ¬ iface.broadcasts dst) : (ipOutputDevice t now iface data dst).lookup = some dst := by
  have hdst : ¬ (dst = iface.addr.broadcast ∨ dst = ipAddrBroadcast) := hdst
  rw [ipOutputDevice, if_pos hneed, if_neg hdst]
  split
  · unfold Device.outputIp
    split <;> rfl
  · rfl
  · rfl

/-- **The test is made on the next hop.** -/
theorem outputDevice_broadcast_iff (hneed : iface.dev.flags &&& netDeviceFlagNeedArp ≠ 0)
    (hret : (ipOutputDevice t now iface data dst).ret ≠ -1) :
    (ipOutputDevice t now iface data dst).Broadcast iface.dev data ↔ iface.broadcasts dst := by
  by_cases hdst : iface.broadcasts dst
  · refine iff_of_true ?_ hdst
    have hdst : dst = iface.addr.broadcast ∨ dst = ipAddrBroadcast := hdst
    rw [ipOutputDevice, if_pos hneed, if_pos hdst] at hret ⊢
    rw [outputIp_accepted hret]
    exact ⟨rfl, rfl, rfl⟩
  · refine iff_of_false (fun h => ?_) hdst
    cases (outputDevice_lookup hneed hdst).symm.trans h.lookup

end Device

/-- **Broadcasts.**  A datagram to a broadcast address that `ip_output` accepts, on a device that
needs ARP, is sent to the hardware broadcast address without a lookup exactly when the route that
was found has no gateway, or a broadcast address for one. -/
theorem broadcast_iff (t : Caches) (now : Timeval) (iface : IfaceId → Iface) (routes : List Route)
    (id : UInt16) (protocol : UInt8) (data : List UInt8) (src dst : IpAddr) (route : Route)
    (hroute : routeLookup routes dst = some route)
    (hneed : (iface route.iface).dev.flags &&& netDeviceFlagNeedArp ≠ 0)
    (hdst : (iface route.iface).broadcasts dst)
    (hret : (ipOutputEmitted t now iface routes id protocol data src dst).ret ≠ -1) :
    (ipOutputEmitted t now iface routes id protocol data src dst).Broadcast
        (iface route.iface).dev
        (ipOutputCore protocol data (iface route.iface).addr.unicast dst id 0) ↔
      route.nexthop = ipAddrAny ∨ (iface route.iface).broadcasts route.nexthop := by
  have hhop : (iface route.iface).broadcasts (route.hop dst) ↔
      route.nexthop = ipAddrAny ∨ (iface route.iface).broadcasts route.nexthop := by
    unfold Route.hop
    by_cases hany : route.nexthop = ipAddrAny
    · simp [hany, hdst]
    · simp [hany]
  unfold ipOutputEmitted at hret ⊢
  split at hret
  · exact absurd rfl hret
  rename_i hsrc
  rw [if_neg hsrc]
  rw [hroute] at hret ⊢
  dsimp only at hret ⊢
  split at hret
  · exact absurd rfl hret
  rename_i hunicast
  rw [if_neg hunicast]
  split at hret
  · exact absurd rfl hret
  rename_i hmtu
  rw [if_neg hmtu]
  have hdev : (ipOutputDevice t now (iface route.iface)
      (ipOutputCore protocol data (iface route.iface).addr.unicast dst id 0)
      (route.hop dst)).ret ≠ -1 := by
    intro hfail
    rw [if_pos hfail] at hret
    exact hret rfl
  rw [← hhop, ← outputDevice_broadcast_iff hneed hdev]
  exact ⟨fun h => ⟨h.lookup, h.request, h.frame⟩, fun h => ⟨h.lookup, h.request, h.frame⟩⟩

/-- An Ethernet device that is up, with the address 7.0.0.1/24. -/
def upIface : Iface where
  dev := ⟨netDeviceTypeEthernet, 1500, 0x0121, ⟨2, 0, 0, 0, 0, 1⟩, etherAddrBroadcast⟩
  family := netIfaceFamilyIp
  addr := ifaceAddr 0x01000007 0x00ffffff

/-- The subnet, and a default route to 7.0.0.254. -/
def gatewayRoutes : List Route :=
  [⟨ipAddrAny, ipAddrAny, 0xfe000007, 0⟩, ⟨0x00000007, 0x00ffffff, ipAddrAny, 0⟩]

/-- The subnet broadcast address is on the link. -/
theorem broadcast_subnet :
    (ipOutputEmitted (fun _ => .clear) .zero (fun _ => upIface) gatewayRoutes 128 17 [] ipAddrAny
      0xff000007).Broadcast upIface.dev (ipOutputCore 17 [] 0x01000007 0xff000007 128 0) :=
  (broadcast_iff (fun _ => .clear) .zero (fun _ => upIface) gatewayRoutes 128 17 [] ipAddrAny
    0xff000007 ⟨0x00000007, 0x00ffffff, ipAddrAny, 0⟩ (by decide) (by decide) (by decide)
    (by decide +kernel)).mpr (.inl rfl)

/-- A datagram to 255.255.255.255 waits for the hardware address of the gateway. -/
theorem broadcast_to_gateway :
    ¬ ∀ (t : Caches) (now : Timeval) (iface : IfaceId → Iface) (routes : List Route) (id : UInt16)
      (protocol : UInt8) (data : List UInt8) (src dst : IpAddr) (route : Route),
      routeLookup routes dst = some route →
      (iface route.iface).dev.flags &&& netDeviceFlagNeedArp ≠ 0 →
      (iface route.iface).broadcasts dst →
      (ipOutputEmitted t now iface routes id protocol data src dst).ret ≠ -1 →
        (ipOutputEmitted t now iface routes id protocol data src dst).Broadcast
          (iface route.iface).dev
          (ipOutputCore protocol data (iface route.iface).addr.unicast dst id 0) := by
  intro h
  have hsent := h (fun _ => .clear) .zero (fun _ => upIface) gatewayRoutes 128 17 [] 0x01000007
    ipAddrBroadcast ⟨ipAddrAny, ipAddrAny, 0xfe000007, 0⟩ (by decide) (by decide) (by decide)
    (by decide +kernel)
  have hlookup : (ipOutputEmitted (fun _ => .clear) .zero (fun _ => upIface) gatewayRoutes 128 17
      [] 0x01000007 ipAddrBroadcast).lookup = some 0xfe000007 := by decide +kernel
  cases hlookup.symm.trans hsent.lookup

end Laplus.Net
