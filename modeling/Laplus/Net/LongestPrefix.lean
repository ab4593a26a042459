/-
# `Laplus.Net.LongestPrefix` — `ip_route_lookup` chooses the longest prefix

The lookup keeps a candidate and replaces it by a route with a greater mask,
read in host byte order.  It starts with the route added last, and of two
equal masks the first one stays.  So it is the `argmax` of the masks over the
routes that reach the destination; among contiguous masks the greater one is
the longer one.
-/
import Laplus.Net.Route
import Mathlib.Data.List.MinMax
import Mathlib.Data.Nat.Log

namespace Laplus.Net

/-! ## Contiguous masks -/

/-- So many ones, and zeros behind them. -/
def Contiguous (mask : IpAddr) : Prop :=
  ∃ len ≤ 32, (ntoh32 mask).toNat = 2 ^ 32 - 2 ^ (32 - len)

/-- The number of ones in front. -/
def prefixLen (mask : IpAddr) : Nat := 32 - Nat.log 2 (2 ^ 32 - (ntoh32 mask).toNat)

theorem prefixLen_eq {mask : IpAddr} {len : Nat} (hle : len ≤ 32)
    (h : (ntoh32 mask).toNat = 2 ^ 32 - 2 ^ (32 - len)) : prefixLen mask = len := by
  have hpow : 2 ^ (32 - len) ≤ 2 ^ 32 := Nat.pow_le_pow_right (by decide) (Nat.sub_le 32 len)
  have hsub : 2 ^ 32 - (2 ^ 32 - 2 ^ (32 - len)) = 2 ^ (32 - len) := Nat.sub_sub_self hpow
  rw [prefixLen, h, hsub, Nat.log_pow (by decide)]
  omega

/-- The order of contiguous masks in host byte order is that of their lengths. -/
theorem prefixLen_lt_iff {mask mask' : IpAddr} (h : Contiguous mask) (h' : Contiguous mask') :
    prefixLen mask < prefixLen mask' ↔ (ntoh32 mask).toNat < (ntoh32 mask').toNat := by
  obtain ⟨len, hle, hmask⟩ := h
  obtain ⟨len', hle', hmask'⟩ := h'
  rw [prefixLen_eq hle hmask, prefixLen_eq hle' hmask', hmask, hmask']
  have hpow : 2 ^ (32 - len) ≤ 2 ^ 32 := Nat.pow_le_pow_right (by decide) (Nat.sub_le 32 len)
  have hpow' : 2 ^ (32 - len') ≤ 2 ^ 32 := Nat.pow_le_pow_right (by decide) (Nat.sub_le 32 len')
  have hiff : 2 ^ (32 - len') < 2 ^ (32 - len) ↔ 32 - len' < 32 - len :=
    Nat.pow_lt_pow_iff_right (by decide)
  omega

/-! ## The lookup -/

/-- The mask of a route, as `ip_route_lookup` compares it. -/
def Route.mask (route : Route) : Nat := (ntoh32 route.netmask).toNat

/-- The lookup is the first maximum among the routes that reach the destination. -/
theorem routeLookup_eq_argmax (routes : List Route) (dst : IpAddr) :
    routeLookup routes dst = (routes.filter (·.reaches dst)).argmax Route.mask := by
  induction routes using List.reverseRecOn with
  | nil => rfl
  | append_singleton routes route ih =>
      have hstep : routeLookup (routes ++ [route]) dst =
          route.better dst (routeLookup routes dst) := by
        rw [routeLookup, List.foldl_append]
        rfl
      rw [hstep, ih, List.filter_append]
      by_cases hr : route.reaches dst
      · have hone : [route].filter (·.reaches dst) = [route] := by simp [hr]
        unfold Route.better
        rw [hone, List.argmax_concat, if_pos hr]
        cases (routes.filter (·.reaches dst)).argmax Route.mask with
        | none => rfl
        | some c => exact if_congr UInt32.lt_iff_toNat_lt rfl rfl
      · have hone : [route].filter (·.reaches dst) = [] := by simp [hr]
        unfold Route.better
        rw [hone, List.append_nil, if_neg hr]

section Lookup
variable {routes : List Route} {dst : IpAddr}

theorem lookup_none : routeLookup routes dst = none ↔ ∀ r ∈ routes, ¬ r.reaches dst := by
  simp [routeLookup_eq_argmax]

/-- A route in front of the table: it is chosen if it reaches the destination and nothing
behind it that does has a greater mask. -/
theorem lookup_cons (route : Route) :
    routeLookup (route :: routes) dst =
      if route.reaches dst then
        match routeLookup routes dst with
        | none => some route
        | some c => if route.mask < c.mask then some c else some route
      else routeLookup routes dst := by
  simp only [routeLookup_eq_argmax]
  by_cases hr : route.reaches dst
  · rw [List.filter_cons_of_pos (by simpa using hr), List.argmax_cons, if_pos hr]
    cases (routes.filter (·.reaches dst)).argmax Route.mask <;> rfl
  · rw [List.filter_cons_of_neg (by simpa using hr), if_neg hr]

theorem le_of_lookup {r q : Route} (h : routeLookup routes dst = some r) (hq : q ∈ routes)
    (hreach : q.reaches dst) : q.mask ≤ r.mask := by
  rw [routeLookup_eq_argmax] at h
  exact List.le_of_mem_argmax (List.mem_filter.mpr ⟨hq, by simpa using hreach⟩) h

/-- The route that is chosen: no route added later has as great a mask, and no route added
before a greater one. -/
theorem lookup_splits {r : Route} (h : routeLookup routes dst = some r) :
    ∃ later before, routes = later ++ r :: before ∧ r.reaches dst ∧
      (∀ q ∈ later, q.reaches dst → q.mask < r.mask) ∧
      ∀ q ∈ before, q.reaches dst → q.mask ≤ r.mask := by
  induction routes with
  | nil => cases h
  | cons route rest ih =>
      -- the route in front is not chosen
      have hskip : routeLookup rest dst = some r → (route.reaches dst → route.mask < r.mask) →
          ∃ later before, route :: rest = later ++ r :: before ∧ r.reaches dst ∧
            (∀ q ∈ later, q.reaches dst → q.mask < r.mask) ∧
            ∀ q ∈ before, q.reaches dst → q.mask ≤ r.mask := by
        intro hrest hlt
        obtain ⟨later, before, rfl, hr, hlater, hbefore⟩ := ih hrest
        refine ⟨route :: later, before, rfl, hr, ?_, hbefore⟩
        intro q hq hreach
        rcases List.mem_cons.mp hq with rfl | hq
        · exact hlt hreach
        · exact hlater q hq hreach
      rw [lookup_cons] at h
      by_cases hr : route.reaches dst
      · rw [if_pos hr] at h
        cases hrest : routeLookup rest dst with
        | none =>
            rw [hrest] at h
            cases h
            refine ⟨[], rest, rfl, hr, fun q hq => (List.not_mem_nil hq).elim, ?_⟩
            exact fun q hq hreach => absurd hreach (lookup_none.mp hrest q hq)
        | some c =>
            rw [hrest] at h
            dsimp only at h
            split at h
            · rename_i hlt
              cases h
              exact hskip hrest fun _ => hlt
            · rename_i hlt
              cases h
              refine ⟨[], rest, rfl, hr, fun q hq => (List.not_mem_nil hq).elim, ?_⟩
              intro q hq hreach
              exact (le_of_lookup hrest hq hreach).trans (not_lt.mp hlt)
      · rw [if_neg hr] at h
        exact hskip h fun hreach => absurd hreach hr

/-- A route that does not reach the destination, wherever it stands in the table. -/
theorem lookup_unreached {r : Route} (hr : ¬ r.reaches dst) (later before : List Route) :
    routeLookup (later ++ r :: before) dst = routeLookup (later ++ before) dst := by
  have hfilter : (r :: before).filter (·.reaches dst) = before.filter (·.reaches dst) :=
    List.filter_cons_of_neg (by simpa using hr)
  rw [routeLookup_eq_argmax, routeLookup_eq_argmax, List.filter_append, List.filter_append, hfilter]

end Lookup

/-- **Longest prefix match.**  For every table with contiguous masks: there is no route exactly
when none reaches the destination; the route found is a longest among those that do, and the one
added last among equals; and a new route changes nothing for the destinations it does not reach. -/
theorem lookup_longest_match (s : RouteState) (h : ∀ r ∈ s.routes, Contiguous r.netmask)
    (dst : IpAddr) :
    (routeLookup s.routes dst = none ↔ ∀ r ∈ s.routes, ¬ r.reaches dst) ∧
    (∀ r, routeLookup s.routes dst = some r →
      ∃ later before, s.routes = later ++ r :: before ∧ r.reaches dst ∧
        (∀ q ∈ later, q.reaches dst → prefixLen q.netmask < prefixLen r.netmask) ∧
        ∀ q ∈ before, q.reaches dst → prefixLen q.netmask ≤ prefixLen r.netmask) ∧
    ∀ (route : Route) (alloc : Bool), ¬ route.reaches dst →
      routeLookup (ipRouteAdd s route alloc).routes dst = routeLookup s.routes dst := by
  refine ⟨lookup_none, fun r hr => ?_, fun route alloc hroute => ?_⟩
  · obtain ⟨later, before, heq, hreach, hlater, hbefore⟩ := lookup_splits hr
    have hmem : r ∈ s.routes := by rw [heq]; simp
    refine ⟨later, before, heq, hreach, fun q hq hqr => ?_, fun q hq hqr => ?_⟩
    · have hqs : q ∈ s.routes := by rw [heq]; simp [hq]
      exact (prefixLen_lt_iff (h q hqs) (h r hmem)).mpr (hlater q hq hqr)
    · have hqs : q ∈ s.routes := by rw [heq]; simp [hq]
      have hlt := not_lt.mpr (hbefore q hq hqr)
      exact not_lt.mp fun hlen => hlt ((prefixLen_lt_iff (h r hmem) (h q hqs)).mp hlen)
  · unfold ipRouteAdd
    split
    · exact lookup_unreached hroute [] s.routes
    · rfl

/-- The routes to 7.0.0.0/24 and to everything. -/
def twoRoutes : RouteState :=
  ⟨fun _ => ifaceAddr 0x01000007 0x00ffffff, [0],
    [⟨ipAddrAny, ipAddrAny, 0xfe000007, 1⟩, ⟨0x00000007, 0x00ffffff, ipAddrAny, 1⟩]⟩

theorem twoRoutes_contiguous : ∀ r ∈ twoRoutes.routes, Contiguous r.netmask := by
  intro r hr
  have hcases : r = ⟨ipAddrAny, ipAddrAny, 0xfe000007, 1⟩ ∨
      r = ⟨0x00000007, 0x00ffffff, ipAddrAny, 1⟩ := by
    simpa [twoRoutes] using hr
  rcases hcases with rfl | rfl
  · exact ⟨0, by decide, by decide⟩
  · exact ⟨24, by decide, by decide⟩

theorem lookup_longest_match_sample :
    routeLookup twoRoutes.routes 0x05000007 = some ⟨0x00000007, 0x00ffffff, ipAddrAny, 1⟩ ∧
    ∃ later before, twoRoutes.routes =
        later ++ ⟨0x00000007, 0x00ffffff, ipAddrAny, 1⟩ :: before ∧
      ∀ q ∈ later, q.reaches 0x05000007 → prefixLen q.netmask < prefixLen 0x00ffffff := by
  have hfound : routeLookup twoRoutes.routes 0x05000007 =
      some ⟨0x00000007, 0x00ffffff, ipAddrAny, 1⟩ := by decide
  obtain ⟨later, before, heq, -, hlater, -⟩ :=
    (lookup_longest_match twoRoutes twoRoutes_contiguous 0x05000007).2.1 _ hfound
  exact ⟨hfound, later, before, heq, hlater⟩

end Laplus.Net
