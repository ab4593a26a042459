/-
# `Laplus.Net.ArpCache` — the ARP cache is consistent

At most one entry in use has a protocol address: a message updates the entry
of its sender before it may make a new one, and a request makes one when there
is none.  A resolved entry holds what the last message of its address said, and
has been there since that message.  There is always an entry to use, and the
timer leaves none that is older than it should be.
-/
import Laplus.Lib.Since
import Laplus.Net.Arp

namespace Laplus.Net

open Lib

/-! ## The machine -/

/-- What `gettimeofday` answers. -/
abbrev Clock := {now : Timeval // now.Normal}

/-- A message arrives, an address is looked up, the timer runs. -/
inductive ArpEvent where
  | input (now : Clock) (data : List UInt8) (iface : Option Iface)
  | resolve (now : Clock) (iface : Iface) (pa : IpAddr)
  | timer (now : Clock)

def ArpEvent.now : ArpEvent → Clock
  | .input now _ _ | .resolve now _ _ | .timer now => now

def Caches.boot : Caches := fun _ => .clear

/-- One event, with the whole cache to itself. -/
def Caches.step (t : Caches) : ArpEvent → Caches
  | .input now data iface => (arpInput t now data iface).1
  | .resolve now iface pa => (arpResolve t now iface pa).1
  | .timer now => arpTimer t now

/-- The event is a valid message of the sender `pa` with the address `ha`. -/
def ArpEvent.Tells (pa : IpAddr) (ha : EtherAddr) : ArpEvent → Prop
  | .input _ data _ => ∃ msg, arpMessage data = some msg ∧ msg.spa = pa ∧ msg.sha = ha
  | _ => False

/-- The entry is for the address `pa`. -/
def ArpCache.Is (pa : IpAddr) (entry : ArpCache) : Prop := entry.state ≠ .free ∧ entry.pa = pa

/-- The last valid message of the sender `pa` said `ha`, and the entry `i` has been the one for
`pa` since then. -/
def Heard (es : List ArpEvent) (i : CacheId) (pa : IpAddr) (ha : EtherAddr) : Prop :=
  Since Caches.step .boot (ArpEvent.Tells pa ha) (fun e => ∃ ha', e.Tells pa ha')
    (fun t => (t i).Is pa) es

/-! ## Finding an entry -/

section Find
variable {t : Caches} {pa : IpAddr} {i : CacheId}

theorem select_none_iff : arpCacheSelect t pa = none ↔ ∀ i, ¬ (t i).Is pa := by
  simp [arpCacheSelect, ArpCache.Is]

theorem select_is (h : arpCacheSelect t pa = some i) : (t i).Is pa := by
  simpa [ArpCache.Is] using List.find?_some h

/-- What `arp_cache_alloc` returns: a free entry, or one with the oldest time stamp. -/
def Reusable (t : Caches) (i : CacheId) : Prop :=
  (t i).state = .free ∨
    (∀ j, (t j).state ≠ .free) ∧ ∀ j, (t i).timestamp.usec ≤ (t j).timestamp.usec

/-- The loop, with the candidate it has so far. -/
theorem allocFrom_spec (hn : ∀ j, (t j).timestamp.Normal) {is : List CacheId}
    {oldest : Option CacheId} (h : arpCacheAllocFrom t oldest is = some i) :
    (t i).state = .free ∨ (∀ j ∈ is, (t j).state ≠ .free) ∧
      ∀ j, j ∈ oldest ∨ j ∈ is → (t i).timestamp.usec ≤ (t j).timestamp.usec := by
  induction is generalizing oldest with
  | nil =>
      cases h
      refine .inr ⟨fun j hj => (List.not_mem_nil hj).elim, ?_⟩
      rintro j (hj | hj)
      · cases hj
        exact le_rfl
      · exact (List.not_mem_nil hj).elim
  | cons k is ih =>
      unfold arpCacheAllocFrom at h
      split at h
      · rename_i hfree
        cases h
        exact .inl hfree
      rename_i hused
      -- the candidate for the rest is no younger than the one so far and than `k`
      have hcand {c : CacheId} (hc : arpCacheAllocFrom t (some c) is = some i)
          (hle : ∀ j, j ∈ oldest ∨ j = k → (t c).timestamp.usec ≤ (t j).timestamp.usec) :
          (t i).state = .free ∨ (∀ j ∈ k :: is, (t j).state ≠ .free) ∧
            ∀ j, j ∈ oldest ∨ j ∈ k :: is → (t i).timestamp.usec ≤ (t j).timestamp.usec := by
        rcases ih hc with hfree | ⟨hall, hmin⟩
        · exact .inl hfree
        · refine .inr ⟨List.forall_mem_cons.mpr ⟨hused, hall⟩, fun j hj => ?_⟩
          rcases hj with hj | hj
          · exact (hmin c (.inl rfl)).trans (hle j (.inl hj))
          · rcases List.mem_cons.mp hj with hj | hj
            · exact (hmin c (.inl rfl)).trans (hle j (.inr hj))
            · exact hmin j (.inr hj)
      cases oldest with
      | none =>
          refine hcand h fun j hj => ?_
          rcases hj with hj | rfl
          · cases hj
          · exact le_rfl
      | some o =>
          dsimp only at h
          split at h
          · rename_i hgt
            have hlt := (Timeval.gt_iff (hn o) (hn k)).mp hgt
            refine hcand h fun j hj => ?_
            rcases hj with hj | rfl
            · cases hj
              exact hlt.le
            · exact le_rfl
          · rename_i hgt
            have hle := not_lt.mp fun hlt => hgt ((Timeval.gt_iff (hn o) (hn k)).mpr hlt)
            refine hcand h fun j hj => ?_
            rcases hj with hj | rfl
            · cases hj
              exact le_rfl
            · exact hle

theorem allocFrom_some (o : CacheId) (is : List CacheId) :
    ∃ i, arpCacheAllocFrom t (some o) is = some i := by
  induction is generalizing o with
  | nil => exact ⟨o, rfl⟩
  | cons k is ih =>
      rw [arpCacheAllocFrom]
      split
      · exact ⟨k, rfl⟩
      · split
        · exact ih k
        · exact ih o

/-- `arp_cache_alloc` never fails. -/
theorem alloc_some (t : Caches) : ∃ i, arpCacheAlloc t = some i := by
  have hcons : List.finRange 32 = 0 :: (List.finRange 31).map Fin.succ := List.finRange_succ
  rw [arpCacheAlloc, hcons, arpCacheAllocFrom]
  split
  · exact ⟨0, rfl⟩
  · exact allocFrom_some 0 _

theorem alloc_reusable (hn : ∀ j, (t j).timestamp.Normal) (h : arpCacheAlloc t = some i) :
    Reusable t i := by
  rcases allocFrom_spec hn h with hfree | ⟨hall, hmin⟩
  · exact .inl hfree
  · exact .inr ⟨fun j => hall j (List.mem_finRange j), fun j => hmin j (.inr (List.mem_finRange j))⟩

end Find

/-! ## One event -/

/-- No two entries are for one address. -/
def Caches.Unique (t : Caches) : Prop := ∀ pa i j, (t i).Is pa → (t j).Is pa → i = j

/-- What an event makes of the cache. -/
inductive Change (t : Caches) (e : ArpEvent) : Caches → Prop
  | kept (hquiet : ∀ i pa ha, e.Tells pa ha → ¬ (t i).Is pa) : Change t e t
  | told (i : CacheId) (pa : IpAddr) (ha : EtherAddr) (htells : e.Tells pa ha)
      (hother : ∀ j, j ≠ i → ¬ (t j).Is pa) :
      Change t e (Function.update t i ⟨.resolved, pa, ha, e.now.val⟩)
  | asked (i : CacheId) (pa : IpAddr) (hquiet : ∀ pa ha, ¬ e.Tells pa ha)
      (hother : ∀ j, ¬ (t j).Is pa) :
      Change t e (Function.update t i
        { t i with state := .incomplete, pa, timestamp := e.now.val })
  | expired (t' : Caches) (hquiet : ∀ pa ha, ¬ e.Tells pa ha)
      (h : ∀ i, t' i = t i ∨ t' i = .clear) : Change t e t'

section Step
variable {t : Caches}

/-- A message tells one thing. -/
theorem ArpEvent.Tells.unique {e : ArpEvent} {pa pa' : IpAddr} {ha ha' : EtherAddr}
    (h : e.Tells pa ha) (h' : e.Tells pa' ha') : pa = pa' ∧ ha = ha' := by
  cases e with
  | input now data iface =>
      obtain ⟨msg, hmsg, rfl, rfl⟩ := h
      obtain ⟨msg', hmsg', rfl, rfl⟩ := h'
      cases hmsg.symm.trans hmsg'
      exact ⟨rfl, rfl⟩
  | resolve => exact h.elim
  | timer => exact h.elim

/-- `arp_input`. -/
theorem input_change (hu : t.Unique) (now : Clock) (data : List UInt8) (iface : Option Iface) :
    Change t (.input now data iface) (arpInput t now data iface).1 := by
  unfold arpInput
  cases hmsg : arpMessage data with
  | none =>
      refine .kept fun i pa ha htells => ?_
      obtain ⟨msg, hmsg', -⟩ := htells
      cases hmsg.symm.trans hmsg'
  | some msg =>
      have htells : (ArpEvent.input now data iface).Tells msg.spa msg.sha := ⟨msg, hmsg, rfl, rfl⟩
      dsimp only
      cases hsel : arpCacheSelect t msg.spa with
      | some i =>
          -- the entry of the sender is updated, whatever the message is for
          have hpa : (t i).pa = msg.spa := (select_is hsel).2
          have hup : arpCacheUpdate t now msg.spa msg.sha =
              some (Function.update t i ⟨.resolved, msg.spa, msg.sha, now⟩) := by
            rw [arpCacheUpdate, hsel, Option.map_some]
            simp only [hpa]
          have hother : ∀ j, j ≠ i → ¬ (t j).Is msg.spa := fun j hj his =>
            hj (hu _ _ _ his (select_is hsel))
          have hchange := Change.told i msg.spa msg.sha htells hother
          rw [hup]
          cases iface with
          | none => exact hchange
          | some iface =>
              dsimp only
              split
              · exact hchange
              · exact hchange
      | none =>
          have hup : arpCacheUpdate t now msg.spa msg.sha = none := by
            rw [arpCacheUpdate, hsel, Option.map_none]
          have hnone := select_none_iff.mp hsel
          have hkept : Change t (.input now data iface) t := by
            refine .kept fun i pa ha htells' his => hnone i ?_
            rwa [← (htells'.unique htells).1]
          rw [hup]
          cases iface with
          | none => exact hkept
          | some iface =>
              dsimp only
              split
              · obtain ⟨i, hi⟩ := alloc_some t
                have hins : arpCacheInsert t now msg.spa msg.sha =
                    some (Function.update t i ⟨.resolved, msg.spa, msg.sha, now⟩) := by
                  rw [arpCacheInsert, hi, Option.map_some]
                show Change t _ ((arpCacheInsert t now msg.spa msg.sha).getD t)
                rw [hins]
                exact .told i msg.spa msg.sha htells fun j _ => hnone j
              · exact hkept

/-- `arp_resolve`. -/
theorem resolve_change (now : Clock) (iface : Iface) (pa : IpAddr) :
    Change t (.resolve now iface pa) (arpResolve t now iface pa).1 := by
  have hkept : Change t (.resolve now iface pa) t := .kept fun _ _ _ htells => htells.elim
  unfold arpResolve
  split
  · exact hkept
  split
  · exact hkept
  cases hsel : arpCacheSelect t pa with
  | none =>
      obtain ⟨i, hi⟩ := alloc_some t
      rw [hi]
      exact .asked i pa (fun _ _ htells => htells) (select_none_iff.mp hsel)
  | some i =>
      dsimp only
      split
      · exact hkept
      · exact hkept

theorem expire_cases (now : Timeval) (entry : ArpCache) :
    entry.expire now = entry ∨ entry.expire now = .clear := by
  unfold ArpCache.expire
  split
  · split
    · exact .inr rfl
    · exact .inl rfl
  · exact .inl rfl

theorem step_change (hu : t.Unique) (e : ArpEvent) : Change t e (t.step e) := by
  cases e with
  | input now data iface => exact input_change hu now data iface
  | resolve now iface pa => exact resolve_change now iface pa
  | timer now => exact .expired _ (fun _ _ htells => htells) fun i => expire_cases now (t i)

end Step

/-! ## Runs -/

/-- The cache and the messages that led to it. -/
structure Caches.Consistent (es : List ArpEvent) (t : Caches) : Prop where
  unique : t.Unique
  dynamic : ∀ i, (t i).state ≠ .static
  normal : ∀ i, (t i).timestamp.Normal
  heard : ∀ i, (t i).state = .resolved → Heard es i (t i).pa (t i).ha

theorem clear_not_is (pa : IpAddr) : ¬ ArpCache.clear.Is pa := fun h => h.1 rfl

theorem clear_dynamic : ArpCache.clear.state ≠ .static := by decide

theorem clear_normal : ArpCache.clear.timestamp.Normal := by decide

/-- A new entry for an address that no other one is for. -/
theorem Caches.Unique.update {t : Caches} (h : t.Unique) {i : CacheId} {c : ArpCache}
    (hother : ∀ j, j ≠ i → ¬ (t j).Is c.pa) : Caches.Unique (Function.update t i c) := by
  have hne {pa : IpAddr} {j : CacheId} (hc : c.Is pa) (hj : j ≠ i) : ¬ (t j).Is pa := by
    rw [← hc.2]
    exact hother j hj
  intro pa j k hj hk
  rw [Function.update_apply] at hj hk
  split at hj <;> split at hk
  · rename_i hji hki
    rw [hji, hki]
  · rename_i hji hki
    exact absurd hk (hne hj hki)
  · rename_i hji hki
    exact absurd hj (hne hk hji)
  · exact h pa j k hj hk

/-- **One event.** -/
theorem Caches.Consistent.step {es : List ArpEvent}
    (h : Caches.Consistent es (run Caches.step .boot es)) (e : ArpEvent) :
    Caches.Consistent (es ++ [e]) (Caches.step (run Caches.step .boot es) e) := by
  generalize ht : run Caches.step .boot es = t at h
  have hchange := step_change h.unique e
  generalize ht' : t.step e = t' at hchange
  have hstep : Caches.step (run Caches.step .boot es) e = t' := by rw [ht, ht']
  -- an entry that stays, and that the event is not about, has heard what it had heard
  have hlater {i : CacheId} (hsame : t' i = t i)
      (hquiet : ∀ ha, e.Tells (t i).pa ha → ¬ (t i).Is (t i).pa)
      (hres : (t' i).state = .resolved) : Heard (es ++ [e]) i (t' i).pa (t' i).ha := by
    rw [hsame] at hres ⊢
    have hlive : (t i).Is (t i).pa := ⟨by rw [hres]; decide, rfl⟩
    refine (h.heard i hres).later ?_ ?_
    · rintro ⟨ha, htells⟩
      exact hquiet ha htells hlive
    · rw [hstep, hsame]
      exact hlive
  cases hchange with
  | kept hquiet =>
      refine ⟨h.unique, h.dynamic, h.normal, fun i hres => ?_⟩
      exact hlater rfl (fun ha htells => hquiet i _ ha htells) hres
  | told i pa ha htells hother =>
      refine ⟨h.unique.update hother, fun j => ?_, fun j => ?_, fun j hres => ?_⟩
      · rw [Function.update_apply]
        split
        · exact fun hs => by cases hs
        · exact h.dynamic j
      · rw [Function.update_apply]
        split
        · exact e.now.property
        · exact h.normal j
      · by_cases hj : j = i
        · -- the entry the message is about
          subst hj
          refine Since.now ?_ ?_
          · rw [Function.update_self]
            exact htells
          · rw [hstep, Function.update_self]
            exact ⟨fun hs => (by cases hs), rfl⟩
        · refine hlater (Function.update_of_ne hj _ _) (fun ha' htells' his => ?_) hres
          rw [(htells'.unique htells).1] at his
          exact hother j hj his
  | asked i pa hquiet hother =>
      refine ⟨h.unique.update fun j _ => hother j, fun j => ?_, fun j => ?_, fun j hres => ?_⟩
      · rw [Function.update_apply]
        split
        · exact fun hs => by cases hs
        · exact h.dynamic j
      · rw [Function.update_apply]
        split
        · exact e.now.property
        · exact h.normal j
      · by_cases hj : j = i
        · subst hj
          rw [Function.update_self] at hres
          cases hres
        · exact hlater (Function.update_of_ne hj _ _)
            (fun ha' htells' => absurd htells' (hquiet _ ha')) hres
  | expired _ hquiet hcases =>
      refine ⟨fun pa i j hi hj => ?_, fun i => ?_, fun i => ?_, fun i hres => ?_⟩
      · have hback {k : CacheId} (hk : (t' k).Is pa) : (t k).Is pa := by
          rcases hcases k with hk' | hk'
          · rwa [← hk']
          · rw [hk'] at hk
            exact absurd hk (clear_not_is pa)
        exact h.unique pa i j (hback hi) (hback hj)
      · rcases hcases i with hi | hi
        · rw [hi]
          exact h.dynamic i
        · rw [hi]
          exact clear_dynamic
      · rcases hcases i with hi | hi
        · rw [hi]
          exact h.normal i
        · rw [hi]
          exact clear_normal
      · rcases hcases i with hi | hi
        · exact hlater hi (fun ha htells => absurd htells (hquiet _ ha)) hres
        · rw [hi] at hres
          cases hres

/-- **Every run.** -/
theorem run_consistent (es : List ArpEvent) :
    Caches.Consistent es (run Caches.step .boot es) :=
  inv_trace Caches.Consistent (fun _ e h => h.step e)
    ⟨fun pa i _ hi _ => absurd hi (clear_not_is pa), fun _ => clear_dynamic, fun _ => clear_normal,
      fun _ hres => by cases hres⟩ es

/-! ## The cache -/

/-- The timer leaves no entry with an age of 31 seconds. -/
theorem timer_age {entry : ArpCache} (now : Clock) (hn : entry.timestamp.Normal)
    (hs : (entry.expire now).state = .incomplete ∨ (entry.expire now).state = .resolved) :
    now.val.usec < (entry.expire now).timestamp.usec + 31 * 1000000 := by
  unfold ArpCache.expire at hs ⊢
  by_cases hlive : entry.state ≠ .free ∧ entry.state ≠ .static
  · rw [if_pos hlive] at hs ⊢
    split at hs
    · rcases hs with hs | hs <;> cases hs
    · rename_i hyoung
      rw [if_neg hyoung]
      refine not_le.mp fun hle => hyoung ?_
      exact (Timeval.le_sub_tvSec_iff now.property hn 31).mpr hle
  · rw [if_neg hlive] at hs
    refine absurd ?_ hlive
    rcases hs with hs | hs <;> rw [hs] <;> decide

/-- **The cache is consistent** after every run: an address has one entry at most; an answer is
what the last valid message of the address said, which came when its entry was there or made it;
no request fails, and the entry it takes is free or has the oldest time stamp; and the timer leaves
no entry that is older than 31 seconds. -/
theorem arp_cache_consistent (es : List ArpEvent) :
    let t := run Caches.step .boot es
    (∀ pa i j, (t i).Is pa → (t j).Is pa → i = j) ∧
    (∀ (now : Clock) (iface : Iface) (pa : IpAddr) (ha : EtherAddr),
      (arpResolve t now iface pa).2.1 = .found ha →
        ∃ i, (t i).Is pa ∧ (t i).state = .resolved ∧ (t i).ha = ha ∧ Heard es i pa ha) ∧
    (∀ (now : Clock) (iface : Iface) (pa : IpAddr), iface.dev.type = netDeviceTypeEthernet →
      iface.family = netIfaceFamilyIp →
        (arpResolve t now iface pa).2.1 ≠ .error ∧
        ((∀ i, ¬ (t i).Is pa) → ∃ i, Reusable t i ∧ (arpResolve t now iface pa).1 =
          Function.update t i { t i with state := .incomplete, pa, timestamp := now.val })) ∧
    ∀ (now : Clock) (i : CacheId),
      (arpTimer t now i).state = .incomplete ∨ (arpTimer t now i).state = .resolved →
        now.val.usec < (arpTimer t now i).timestamp.usec + 31 * 1000000 := by
  intro t
  have h : t.Consistent es := run_consistent es
  refine ⟨h.unique, fun now iface pa ha hfound => ?_, fun now iface pa htype hfamily => ?_,
    fun now i hs => timer_age now (h.normal i) hs⟩
  · unfold arpResolve at hfound
    split at hfound
    · cases hfound
    split at hfound
    · cases hfound
    cases hsel : arpCacheSelect t pa with
    | none =>
        obtain ⟨i, hi⟩ := alloc_some t
        rw [hsel, hi] at hfound
        cases hfound
    | some i =>
        have his := select_is hsel
        rw [hsel] at hfound
        dsimp only at hfound
        split at hfound
        · cases hfound
        · rename_i hcomplete
          cases hfound
          have hres : (t i).state = .resolved := by
            have hfree := his.1
            have hstatic := h.dynamic i
            cases hs : (t i).state <;> simp_all
          refine ⟨i, his, hres, rfl, ?_⟩
          rw [← his.2]
          exact h.heard i hres
  · unfold arpResolve
    rw [if_neg (not_not.mpr htype), if_neg (not_not.mpr hfamily)]
    cases hsel : arpCacheSelect t pa with
    | none =>
        obtain ⟨i, hi⟩ := alloc_some t
        rw [hi]
        exact ⟨fun hr => (by cases hr), fun _ => ⟨i, alloc_reusable h.normal hi, rfl⟩⟩
    | some i =>
        refine ⟨?_, fun hnone => absurd (select_is hsel) (hnone i)⟩
        dsimp only
        split
        · exact fun hr => by cases hr
        · exact fun hr => by cases hr

end Laplus.Net
