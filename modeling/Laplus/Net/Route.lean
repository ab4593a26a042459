/-
# `Laplus.Net.Route` — building and reconfiguring the routing table

Here a route keeps the pointer to its interface, not the interface: two
interfaces may have the same addresses, and `ip_iface_reconfigure` finds the
routes of one by comparing pointers.  `lookup_resolve` relates the lookup
over pointers to `ipRouteLookup`.

A route carries no mark that tells a connected route from a gateway route.
The loop of `ip_iface_reconfigure` rewrites network and mask of every route
of the interface, so a default route through it becomes one more route to the
subnet: `reconfigure_frame_iff`.
-/
import Laplus.Lib.Run
import Laplus.Net.Datagram

namespace Laplus.Net

open Lib

/-! ## The model -/

/-- A `struct ip_iface *`. -/
abbrev IfaceId := Nat

/-- `struct ip_route`, the interface as a pointer. -/
structure Route where
  network : IpAddr
  netmask : IpAddr
  nexthop : IpAddr
  iface : IfaceId
deriving DecidableEq

/-- The addresses of the interfaces in memory, the devices that have an IP
interface, and `routes`, the last added first. -/
structure RouteState where
  addr : IfaceId → IfaceAddr
  linked : List Nat
  routes : List Route

/-- Before the first registration; the interfaces are allocated. -/
def RouteState.boot (addr : IfaceId → IfaceAddr) : RouteState := ⟨addr, [], []⟩

/-- `ip_route_add`; `alloc` says whether `calloc` succeeds. -/
def ipRouteAdd (s : RouteState) (route : Route) (alloc : Bool) : RouteState :=
  if alloc then { s with routes := route :: s.routes } else s

/-- `ip_iface_register`: `net_device_add_iface` refuses a device that has an
IP interface. -/
def ipIfaceRegister (s : RouteState) (dev : Nat) (iface : IfaceId) (alloc : Bool) : RouteState :=
  if dev ∈ s.linked then s
  else
    let a := s.addr iface
    ipRouteAdd { s with linked := dev :: s.linked }
      ⟨a.unicast &&& a.netmask, a.netmask, ipAddrAny, iface⟩ alloc

/-- `ip_route_set_default_gateway`; `gw` is the answer of `ip_addr_pton`. -/
def ipRouteSetDefaultGateway (s : RouteState) (iface : IfaceId) (gw : Option IpAddr)
    (alloc : Bool) : RouteState :=
  match gw with
  | none => s
  | some gw => ipRouteAdd s ⟨ipAddrAny, ipAddrAny, gw, iface⟩ alloc

/-- The loop body of `ip_iface_reconfigure`. -/
def Route.reconfigure (iface : IfaceId) (unicast netmask : IpAddr) (route : Route) : Route :=
  if route.iface = iface then { route with network := unicast &&& netmask, netmask } else route

/-- `ip_iface_reconfigure`. -/
def ipIfaceReconfigure (s : RouteState) (iface : IfaceId) (unicast netmask : IpAddr) :
    RouteState :=
  { s with
    addr := Function.update s.addr iface (ifaceAddr unicast netmask)
    routes := s.routes.map (Route.reconfigure iface unicast netmask) }

/-- The test of `ip_route_lookup`. -/
def Route.reaches (route : Route) (dst : IpAddr) : Prop := dst &&& route.netmask = route.network

instance decReaches (route : Route) (dst : IpAddr) : Decidable (route.reaches dst) :=
  inferInstanceAs (Decidable (_ = _))

/-- The loop body of `ip_route_lookup`. -/
def Route.better (dst : IpAddr) (candidate : Option Route) (route : Route) : Option Route :=
  if route.reaches dst then
    match candidate with
    | none => some route
    | some c => if ntoh32 c.netmask < ntoh32 route.netmask then some route else some c
  else candidate

/-- `ip_route_lookup`. -/
def routeLookup (routes : List Route) (dst : IpAddr) : Option Route :=
  routes.foldl (Route.better dst) none

/-- The route with the interface its pointer leads to. -/
def Route.resolve (iface : IfaceId → IpIface) (route : Route) : IpRoute :=
  ⟨route.network, route.netmask, route.nexthop, iface route.iface⟩

/-- How a routing table comes about. -/
inductive RouteEvent where
  | register (dev : Nat) (iface : IfaceId) (alloc : Bool)
  | gateway (iface : IfaceId) (gw : Option IpAddr) (alloc : Bool)
deriving DecidableEq

def RouteState.step (s : RouteState) : RouteEvent → RouteState
  | .register dev iface alloc => ipIfaceRegister s dev iface alloc
  | .gateway iface gw alloc => ipRouteSetDefaultGateway s iface gw alloc

/-! ## Lookup -/

/-- The lookup over pointers is the lookup over interfaces. -/
theorem lookup_resolve (iface : IfaceId → IpIface) (routes : List Route) (dst : IpAddr) :
    ipRouteLookup (routes.map (Route.resolve iface)) dst =
      (routeLookup routes dst).map (Route.resolve iface) := by
  have fold : ∀ c : Option Route,
      (routes.map (Route.resolve iface)).foldl (ipRouteBetter dst) (c.map (Route.resolve iface)) =
        (routes.foldl (Route.better dst) c).map (Route.resolve iface) := by
    induction routes with
    | nil => exact fun _ => rfl
    | cons r rest ih =>
        intro c
        have hstep : ipRouteBetter dst (c.map (Route.resolve iface)) (r.resolve iface) =
            (r.better dst c).map (Route.resolve iface) := by
          by_cases hr : dst &&& r.netmask = r.network
          · cases c with
            | none => simp [ipRouteBetter, Route.better, Route.reaches, Route.resolve, hr]
            | some c =>
                by_cases hm : ntoh32 c.netmask < ntoh32 r.netmask
                · simp [ipRouteBetter, Route.better, Route.reaches, Route.resolve, hr, hm]
                · simp [ipRouteBetter, Route.better, Route.reaches, Route.resolve, hr, hm]
          · simp [ipRouteBetter, Route.better, Route.reaches, Route.resolve, hr]
        rw [List.map_cons, List.foldl_cons, List.foldl_cons, hstep, ih]
  exact fold none

/-- Changing routes that do not reach a destination, before or after, does
not change the lookup. -/
theorem lookup_map {f : Route → Route} {routes : List Route} {dst : IpAddr}
    (h : ∀ r ∈ routes, f r = r ∨ ¬ r.reaches dst ∧ ¬ (f r).reaches dst) :
    routeLookup (routes.map f) dst = routeLookup routes dst := by
  have fold : ∀ c : Option Route,
      (routes.map f).foldl (Route.better dst) c = routes.foldl (Route.better dst) c := by
    induction routes with
    | nil => exact fun _ => rfl
    | cons r rest ih =>
        intro c
        have hstep : (f r).better dst c = r.better dst c := by
          rcases h r List.mem_cons_self with he | ⟨hb, ha⟩
          · rw [he]
          · exact (if_neg ha).trans (if_neg hb).symm
        rw [List.map_cons, List.foldl_cons, List.foldl_cons, hstep,
          ih fun r hr => h r (List.mem_cons_of_mem _ hr)]
  exact fold none

/-! ## Reconfiguration -/

/-- A route without a gateway. -/
def Route.connected (route : Route) : Prop := route.nexthop = ipAddrAny

instance decConnected (route : Route) : Decidable route.connected :=
  inferInstanceAs (Decidable (_ = _))

/-- What a reconfiguration of `iface` should make of the table `before`: the
connected routes of the interface change, no other route does, and the lookup
of a destination outside every connected subnet, old or new, stays as it is. -/
structure Frame (iface : IfaceId) (unicast netmask : IpAddr) (before after : List Route) :
    Prop where
  size : after.length = before.length
  gateway : ∀ (k : Nat) (r : Route), before[k]? = some r → ¬ r.connected → after[k]? = some r
  elsewhere : ∀ (k : Nat) (r : Route), before[k]? = some r → r.iface ≠ iface → after[k]? = some r
  connected : ∀ (k : Nat) (r : Route), before[k]? = some r → r.connected → r.iface = iface →
    after[k]? = some ⟨unicast &&& netmask, netmask, ipAddrAny, iface⟩
  lookup : ∀ dst, (∀ r ∈ before, r.connected → ¬ r.reaches dst) →
    (∀ r ∈ after, r.connected → ¬ r.reaches dst) → routeLookup after dst = routeLookup before dst

/-- A gateway route of the table is a default route. -/
def DefaultGateways (s : RouteState) : Prop :=
  ∀ r ∈ s.routes, ¬ r.connected → r.network = 0 ∧ r.netmask = 0

theorem add_gateways {s : RouteState} (h : DefaultGateways s) {route : Route}
    (hr : ¬ route.connected → route.network = 0 ∧ route.netmask = 0) (alloc : Bool) :
    DefaultGateways (ipRouteAdd s route alloc) := by
  unfold ipRouteAdd
  split
  · intro r hmem hc
    rcases List.mem_cons.mp hmem with rfl | hmem
    · exact hr hc
    · exact h r hmem hc
  · exact h

theorem step_gateways {s : RouteState} (h : DefaultGateways s) (e : RouteEvent) :
    DefaultGateways (s.step e) := by
  cases e with
  | register dev iface alloc =>
      show DefaultGateways (ipIfaceRegister s dev iface alloc)
      unfold ipIfaceRegister
      split
      · exact h
      · have hlinked : DefaultGateways { s with linked := dev :: s.linked } := h
        refine add_gateways hlinked ?_ alloc
        intro hc
        exact absurd (Eq.refl ipAddrAny) hc
  | gateway iface gw alloc =>
      cases gw with
      | none => exact h
      | some gw => exact add_gateways h (fun _ => ⟨rfl, rfl⟩) alloc

/-- Every table that was built has default routes as its gateway routes. -/
theorem run_gateways (addr : IfaceId → IfaceAddr) (es : List RouteEvent) :
    DefaultGateways (run RouteState.step (.boot addr) es) :=
  inv_run DefaultGateways (fun _ e h _ => step_gateways h e)
    (fun _ hr => absurd hr List.not_mem_nil) (guarded_true _ _ es)

/-- The loop leaves other interfaces alone. -/
theorem reconfigure_elsewhere {r : Route} {iface : IfaceId} (h : r.iface ≠ iface)
    (unicast netmask : IpAddr) : r.reconfigure iface unicast netmask = r :=
  if_neg h

theorem reconfigure_nexthop (r : Route) (iface : IfaceId) (unicast netmask : IpAddr) :
    (r.reconfigure iface unicast netmask).nexthop = r.nexthop := by
  unfold Route.reconfigure
  split <;> rfl

/-- Where every gateway route stays as it is, the whole frame property holds. -/
theorem frame_of_gateways {routes : List Route} {iface : IfaceId} {unicast netmask : IpAddr}
    (h : ∀ r ∈ routes, ¬ r.connected → r.reconfigure iface unicast netmask = r) :
    Frame iface unicast netmask routes (routes.map (Route.reconfigure iface unicast netmask)) where
  size := List.length_map _
  gateway k r hk hc := by
    rw [List.getElem?_map, hk, Option.map_some, h r (List.mem_of_getElem? hk) hc]
  elsewhere k r hk he := by
    rw [List.getElem?_map, hk, Option.map_some, reconfigure_elsewhere he]
  connected k r hk hc he := by
    have hnext : r.nexthop = ipAddrAny := hc
    rw [List.getElem?_map, hk, Option.map_some, Route.reconfigure, if_pos he, hnext, he]
  lookup dst hbefore hafter := by
    refine lookup_map fun r hr => ?_
    by_cases hc : r.connected
    · refine .inr ⟨hbefore r hr hc, hafter _ (List.mem_map_of_mem hr) ?_⟩
      exact (reconfigure_nexthop r iface unicast netmask).trans hc
    · exact .inl (h r hr hc)

/-- **Reconfiguration.**  In a table that was built, the frame property holds
exactly when the interface has no gateway route, or its new mask is zero and
the connected subnet is everything. -/
theorem reconfigure_frame_iff (addr : IfaceId → IfaceAddr) (es : List RouteEvent)
    (iface : IfaceId) (unicast netmask : IpAddr) :
    let s := run RouteState.step (.boot addr) es
    Frame iface unicast netmask s.routes (ipIfaceReconfigure s iface unicast netmask).routes ↔
      netmask = 0 ∨ ∀ r ∈ s.routes, ¬ r.connected → r.iface ≠ iface := by
  have hdef := run_gateways addr es
  intro s
  constructor
  · intro hf
    by_cases hg : ∃ r ∈ s.routes, ¬ r.connected ∧ r.iface = iface
    · obtain ⟨r, hr, hc, rfl⟩ := hg
      obtain ⟨k, hk⟩ := List.mem_iff_getElem?.mp hr
      have hsame : (s.routes.map (Route.reconfigure r.iface unicast netmask))[k]? = some r :=
        hf.gateway k r hk hc
      rw [List.getElem?_map, hk, Option.map_some, Option.some.injEq] at hsame
      have hmask : (r.reconfigure r.iface unicast netmask).netmask = r.netmask :=
        congrArg Route.netmask hsame
      rw [Route.reconfigure, if_pos rfl, (hdef r hr hc).2] at hmask
      exact .inl hmask
    · exact .inr fun r hr hc he => hg ⟨r, hr, hc, he⟩
  · intro hcond
    refine frame_of_gateways fun r hr hc => ?_
    by_cases he : r.iface = iface
    · rcases hcond with rfl | hno
      · obtain ⟨hn, hm⟩ := hdef r hr hc
        obtain ⟨network, mask, nexthop, i⟩ := r
        cases hn
        cases hm
        simp [Route.reconfigure]
      · exact absurd he (hno r hr hc)
    · exact reconfigure_elsewhere he unicast netmask

/-- The interface 7.0.0.1/24 with a default gateway 7.0.0.254. -/
def sampleRoutes : List RouteEvent := [.register 0 1 true, .gateway 1 (some 0xfe000007) true]

/-- Setting the addresses it has again loses the default route. -/
theorem default_route_lost : ¬ ∀ (addr : IfaceId → IfaceAddr) (es : List RouteEvent)
    (iface : IfaceId) (unicast netmask : IpAddr),
      let s := run RouteState.step (.boot addr) es
      Frame iface unicast netmask s.routes (ipIfaceReconfigure s iface unicast netmask).routes := by
  intro h
  have hf := h (fun _ => ifaceAddr 0x01000007 0x00ffffff) sampleRoutes 1 0x01000007 0x00ffffff
  have hlookup := hf.lookup 0x08080808 (by decide) (by decide)
  exact absurd hlookup (by decide)

end Laplus.Net
