/-
# `Laplus.Net.Ip` — the routing table and the verdict of `ip_output`

TCP reads the IP layer in two places: `ip_route_get_iface` picks the source
address and the MTU, and `ip_output` accepts a packet or answers `-1`.  Both
are decided by the routing table; what happens below `ip_output_core` (ARP,
the device) is a boolean the caller supplies.  Addresses are the raw 32-bit
words in network byte order, masks are compared after `ntoh32`.
-/
import Mathlib.Data.List.Basic

namespace Laplus.Net

abbrev IpAddr := UInt32

def ipAddrAny : IpAddr := 0x00000000
def ipAddrBroadcast : IpAddr := 0xffffffff

/-- `IP_HDR_SIZE_MIN`. -/
def ipHdrSizeMin : Nat := 20

/-- `sizeof(struct tcp_hdr)`. -/
def tcpHdrSize : Nat := 20

/-- The part of `struct net_device` TCP depends on.  Every device of the
repository is set up by `ether_setup_helper` with an MTU of 1500, so the two
headers fit with room for data. -/
structure NetDevice where
  mtu : UInt16
  mtu_fits : ipHdrSizeMin + tcpHdrSize < mtu.toNat
deriving DecidableEq

/-- The maximum segment size of `tcp_send`: the MTU less the two headers. -/
def NetDevice.mss (d : NetDevice) : Nat := d.mtu.toNat - (ipHdrSizeMin + tcpHdrSize)

theorem NetDevice.mss_pos (d : NetDevice) : 0 < d.mss := by
  have := d.mtu_fits
  unfold NetDevice.mss
  omega

/-- `struct ip_iface`, with the device it is linked to. -/
structure IpIface where
  dev : NetDevice
  unicast : IpAddr
deriving DecidableEq

/-- `struct ip_route`. -/
structure IpRoute where
  network : IpAddr
  netmask : IpAddr
  nexthop : IpAddr
  iface : IpIface
deriving DecidableEq

/-- `byteswap32`, which is `ntoh32` on the little-endian target. -/
def ntoh32 (v : UInt32) : UInt32 :=
  (v &&& 0x000000ff) <<< 24 ||| (v &&& 0x0000ff00) <<< 8 |||
    (v &&& 0x00ff0000) >>> 8 ||| (v &&& 0xff000000) >>> 24

/-- The loop body of `ip_route_lookup`. -/
def ipRouteBetter (dst : IpAddr) (candidate : Option IpRoute) (route : IpRoute) :
    Option IpRoute :=
  if dst &&& route.netmask = route.network then
    match candidate with
    | none => some route
    | some c => if ntoh32 c.netmask < ntoh32 route.netmask then some route else some c
  else candidate

/-- `ip_route_lookup`; the list is in table order, the last added first. -/
def ipRouteLookup (routes : List IpRoute) (dst : IpAddr) : Option IpRoute :=
  routes.foldl (ipRouteBetter dst) none

/-- `ip_route_get_iface`. -/
def ipRouteGetIface (routes : List IpRoute) (dst : IpAddr) : Option IpIface :=
  (ipRouteLookup routes dst).map IpRoute.iface

/-- Whether `ip_output` returns something other than `-1` for a payload of
`len` bytes; `core` is the answer of `ip_output_core`. -/
def ipOutput (routes : List IpRoute) (core : Bool) (len : Nat) (src dst : IpAddr) : Bool :=
  if src = ipAddrAny ∧ dst = ipAddrBroadcast then false
  else
    match ipRouteLookup routes dst with
    | none => false
    | some route =>
        if src ≠ ipAddrAny ∧ src ≠ route.iface.unicast then false
        else if route.iface.dev.mtu.toNat < ipHdrSizeMin + len then false
        else core

end Laplus.Net
