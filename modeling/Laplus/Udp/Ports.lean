/-
# `Laplus.Udp.Ports` — who owns a port

`udp_pcb_select` takes the first block that is bound to the address or to
`IP_ADDR_ANY`.  `udp_bind` and the port search of `udp_sendto` ask it whether
a port is taken, at one address: the address asked for, or the address of the
interface.  A block that then listens on every address may have passed a
block that is bound to another one, and which of the two gets a datagram
depends on the order of the slots.
-/
import Laplus.Lib.Run
import Laplus.Tcp.User
import Laplus.Udp.Pcb

namespace Laplus.Udp

open Net Lib

/-! ## Receiving and sleeping -/

/-- How far a call of `udp_recvfrom` got. -/
inductive Recv where
  | returned (entry : Option QueueEntry)
  | asleep
deriving DecidableEq

/-- The loop of `udp_recvfrom`: the next entry, or `cond_wait`. -/
def recvLoop (t : Table) (tid : Tcp.TaskId) (i : PcbId) : Table × Recv :=
  match (t i).queue with
  | entry :: queue => (Function.update t i { t i with queue }, .returned (some entry))
  | [] =>
      (Function.update t i { t i with cond := ⟨tid, (t i).cond.num + 1⟩ }, .asleep)

/-- `udp_recvfrom` up to its return or its first sleep. -/
def udpRecvfrom (t : Table) (tid : Tcp.TaskId) (id : Int) : Table × Recv :=
  match udpPcbGet t id with
  | none => (t, .returned none)
  | some i => recvLoop t tid i

/-- `udp_recvfrom` from where it sleeps: the block it sleeps on was open. -/
def recvAwake (t : Table) (tid : Tcp.TaskId) (i : PcbId) : Table × Recv :=
  let t := Function.update t i { t i with cond := { (t i).cond with num := (t i).cond.num - 1 } }
  if (t i).state = .open then recvLoop t tid i
  else if (t i).state = .closing then (udpPcbRelease t i, .returned none)
  else (t, .returned none)

/-! ## The machine -/

/-- The table, and the block on which a task sleeps in `udp_recvfrom`. -/
structure World where
  tab : Table
  tasks : Tcp.TaskId → Option PcbId

def World.boot : World := ⟨fun _ => .zero, fun _ => none⟩

/-- A user command; the routes are those at the time of the call. -/
inductive Command where
  | open
  | bind (id : Int) (localEp : Endpoint)
  | sendto (id : Int) (foreign : Endpoint) (routes : List IpRoute)
  | recvfrom (id : Int)
  | close (id : Int)

/-- A task calls, a sleeping task runs on, a datagram arrives. -/
inductive Event where
  | call (tid : Tcp.TaskId) (c : Command)
  | resume (tid : Tcp.TaskId)
  | input (a : Arrival) (alloc : Bool)

/-- A task that has received, or sleeps. -/
def World.received (w : World) (tid : Tcp.TaskId) (i : Option PcbId) (r : Table × Recv) : World where
  tab := r.1
  tasks := Function.update w.tasks tid (if r.2 = .asleep then i else none)

def Command.run (w : World) (tid : Tcp.TaskId) : Command → World
  | «open» => { w with tab := (udpOpen w.tab).1 }
  | bind id localEp => { w with tab := (udpBind w.tab id localEp).1 }
  | sendto id foreign routes =>
      { w with tab := ((udpSendto routes w.tab id foreign).map Prod.fst).getD w.tab }
  | recvfrom id => w.received tid (udpPcbGet w.tab id) (udpRecvfrom w.tab tid id)
  | close id => { w with tab := (udpClose w.tab id).1 }

/-- One event.  A task that sleeps calls nothing. -/
def World.step (w : World) : Event → World
  | .call tid c => if (w.tasks tid).isSome then w else c.run w tid
  | .resume tid =>
      match w.tasks tid with
      | none => w
      | some i => w.received tid i (recvAwake w.tab tid i)
  | .input a alloc => { w with tab := udpDeliver alloc w.tab a }

/-! ## Owners -/

/-- A block bound to `e` is found for the endpoint `f`. -/
def Endpoint.Covers (e f : Endpoint) : Prop :=
  (e.addr = ipAddrAny ∨ e.addr = f.addr) ∧ e.port = f.port

instance decCovers (e f : Endpoint) : Decidable (e.Covers f) :=
  inferInstanceAs (Decidable (_ ∧ _))

/-- An OPEN block is found for the endpoint `f`. -/
def Pcb.Finds (p : Pcb) (f : Endpoint) : Prop := p.state = .open ∧ p.localEp.Covers f

instance decFinds (p : Pcb) (f : Endpoint) : Decidable (p.Finds f) :=
  inferInstanceAs (Decidable (_ ∧ _))

/-- An endpoint a datagram can be sent to. -/
def Endpoint.Concrete (f : Endpoint) : Prop := f.addr ≠ ipAddrAny ∧ f.port ≠ 0

/-- Every endpoint has one owner at most, and its receiver is the same in
every order of the slots. -/
structure Table.Owned (t : Table) : Prop where
  one : ∀ f : Endpoint, f.Concrete → ∀ i j, (t i).Finds f → (t j).Finds f → i = j
  receiver : ∀ f : Endpoint, f.Concrete → ∀ π : Equiv.Perm PcbId,
    udpPcbSelect (t ∘ π) f.addr f.port = (udpPcbSelect t f.addr f.port).map π.symm

/-- A block comes to listen on every address of a port that another one uses. -/
inductive Shadows (w : World) : Event → Prop
  | bind (tid : Tcp.TaskId) (id : Int) (i j : PcbId) (e : Endpoint) (hidle : w.tasks tid = none)
      (hid : udpPcbGet w.tab id = some i) (ha : e.addr = ipAddrAny) (hp : e.port ≠ 0)
      (hfree : udpPcbSelect w.tab e.addr e.port = none) (hj : j ≠ i)
      (hs : (w.tab j).state = .open) (hport : (w.tab j).localEp.port = e.port) :
      Shadows w (.call tid (.bind id e))
  | sendto (tid : Tcp.TaskId) (id : Int) (i j : PcbId) (f : Endpoint) (routes : List IpRoute)
      (a : IpAddr) (p : UInt16) (hidle : w.tasks tid = none) (hid : udpPcbGet w.tab id = some i)
      (ha : (w.tab i).localEp.addr = ipAddrAny) (hp : (w.tab i).localEp.port = 0)
      (hroute : (w.tab i).source routes f = some a)
      (hfree : (sourcePorts.find? fun p => (udpPcbSelect w.tab a (hton16 p)).isNone) = some p)
      (hj : j ≠ i) (hs : (w.tab j).state = .open)
      (hport : (w.tab j).localEp.port = hton16 p) : Shadows w (.call tid (.sendto id f routes))

section Select
variable {t : Table} {f : Endpoint} {i : PcbId}

theorem udpPcbSelect_eq (t : Table) (f : Endpoint) :
    udpPcbSelect t f.addr f.port = (List.finRange 16).find? fun i => (t i).Finds f := rfl

theorem select_none : udpPcbSelect t f.addr f.port = none ↔ ∀ i, ¬ (t i).Finds f := by
  simp [udpPcbSelect_eq, List.find?_eq_none]

theorem select_finds (h : udpPcbSelect t f.addr f.port = some i) : (t i).Finds f := by
  rw [udpPcbSelect_eq] at h
  simpa using List.find?_some h

theorem udpPcbGet_open {id : Int} (h : udpPcbGet t id = some i) : (t i).state = .open := by
  unfold udpPcbGet at h
  split at h
  · dsimp only at h
    split at h
    · cases h
    · rename_i hs
      cases h
      exact not_not.mp hs
  · cases h

/-- Where there is one owner, every order of the slots finds it. -/
theorem owned_iff : t.Owned ↔
    ∀ f : Endpoint, f.Concrete → ∀ i j, (t i).Finds f → (t j).Finds f → i = j := by
  refine ⟨Table.Owned.one, fun h => ⟨h, fun f hf π => ?_⟩⟩
  cases hs : udpPcbSelect t f.addr f.port with
  | none =>
      rw [select_none] at hs
      exact select_none.mpr fun i => hs (π i)
  | some i =>
      have hi := select_finds hs
      cases hs' : udpPcbSelect (t ∘ π) f.addr f.port with
      | none =>
          refine absurd ?_ (select_none.mp hs' (π.symm i))
          simpa using hi
      | some j =>
          have hj : ((t ∘ π) j).Finds f := select_finds hs'
          rw [Option.map_some, h f hf i (π j) hi hj, Equiv.symm_apply_apply]

end Select

/-! ## What an event leaves alone -/

/-- What a block is found for. -/
structure Table.Quiet (t t' : Table) : Prop where
  bound : ∀ i, (t' i).state = .open → (t' i).localEp.port ≠ 0 →
    (t i).state = .open ∧ (t i).localEp = (t' i).localEp
  clean : ∀ i, (t' i).state = .free → (t' i).localEp.port ≠ 0 →
    (t i).state = .free ∧ (t i).localEp = (t' i).localEp

/-- A slot that is free is bound to no port. -/
def Table.Clean (t : Table) : Prop := ∀ i, (t i).state = .free → (t i).localEp.port = 0

section Quiet
variable {t t' t'' : Table} {i : PcbId} {p : Pcb}

theorem Table.Quiet.refl (t : Table) : t.Quiet t :=
  ⟨fun _ h _ => ⟨h, rfl⟩, fun _ h _ => ⟨h, rfl⟩⟩

theorem Table.Quiet.trans (h : t.Quiet t') (h' : t'.Quiet t'') : t.Quiet t'' where
  bound i hs hp := by
    obtain ⟨hs', he⟩ := h'.bound i hs hp
    obtain ⟨hs'', he'⟩ := h.bound i hs' (he ▸ hp)
    exact ⟨hs'', he'.trans he⟩
  clean i hs hp := by
    obtain ⟨hs', he⟩ := h'.clean i hs hp
    obtain ⟨hs'', he'⟩ := h.clean i hs' (he ▸ hp)
    exact ⟨hs'', he'.trans he⟩

/-- One block changes, and is found for nothing else. -/
theorem quiet_update (hopen : p.state = .open → p.localEp.port ≠ 0 →
    (t i).state = .open ∧ (t i).localEp = p.localEp)
    (hfree : p.state = .free → p.localEp.port ≠ 0 →
      (t i).state = .free ∧ (t i).localEp = p.localEp) :
    t.Quiet (Function.update t i p) := by
  refine ⟨fun j hs hp => ?_, fun j hs hp => ?_⟩
  all_goals
    by_cases hj : j = i
    · subst hj
      rw [Function.update_self] at hs hp ⊢
      first | exact hopen hs hp | exact hfree hs hp
    · rw [Function.update_of_ne hj] at hs hp ⊢
      exact ⟨hs, rfl⟩

/-- The state and the endpoint stay. -/
theorem quiet_same (hs : p.state = (t i).state) (he : p.localEp = (t i).localEp) :
    t.Quiet (Function.update t i p) :=
  quiet_update (fun h _ => ⟨hs ▸ h, he.symm⟩) fun h _ => ⟨hs ▸ h, he.symm⟩

theorem Table.Owned.quiet (h : t.Owned) (hq : t.Quiet t') : t'.Owned := by
  have before {f : Endpoint} (hf : f.Concrete) {i : PcbId} (hi : (t' i).Finds f) :
      (t i).Finds f := by
    obtain ⟨hs, he⟩ := hq.bound i hi.1 (hi.2.2 ▸ hf.2)
    exact ⟨hs, he ▸ hi.2⟩
  exact owned_iff.mpr fun f hf i j hi hj => h.one f hf i j (before hf hi) (before hf hj)

theorem Table.Clean.quiet (h : t.Clean) (hq : t.Quiet t') : t'.Clean := by
  intro i hs
  by_contra hp
  obtain ⟨hs', he⟩ := hq.clean i hs hp
  exact hp (he ▸ h i hs')

theorem release_quiet (t : Table) (i : PcbId) : t.Quiet (udpPcbRelease t i) := by
  unfold udpPcbRelease
  split
  · exact quiet_update (fun h => by cases h) fun h => by cases h
  · exact quiet_update (fun h => by cases h) fun _ hp => absurd rfl hp

theorem recvLoop_quiet (tid : Tcp.TaskId) : t.Quiet (recvLoop t tid i).1 := by
  unfold recvLoop
  split
  · exact quiet_same rfl rfl
  · exact quiet_same rfl rfl

theorem recvfrom_quiet (tid : Tcp.TaskId) (id : Int) : t.Quiet (udpRecvfrom t tid id).1 := by
  unfold udpRecvfrom
  split
  · exact .refl t
  · exact recvLoop_quiet tid

theorem recvAwake_quiet (tid : Tcp.TaskId) : t.Quiet (recvAwake t tid i).1 := by
  have hawake : t.Quiet (Function.update t i
      { t i with cond := { (t i).cond with num := (t i).cond.num - 1 } }) := quiet_same rfl rfl
  unfold recvAwake
  dsimp only
  split
  · exact hawake.trans (recvLoop_quiet tid)
  split
  · exact hawake.trans (release_quiet _ i)
  · exact hawake

theorem deliver_quiet (alloc : Bool) (a : Arrival) : t.Quiet (udpDeliver alloc t a) := by
  unfold udpDeliver
  split
  · exact .refl t
  split
  · exact quiet_same rfl rfl
  · exact .refl t

theorem close_quiet (id : Int) : t.Quiet (udpClose t id).1 := by
  unfold udpClose
  split
  · exact .refl t
  · exact release_quiet t _

/-- A block that is opened is bound to nothing. -/
theorem open_quiet (h : t.Clean) : t.Quiet (udpOpen t).1 := by
  simp only [udpOpen, udpPcbAlloc]
  cases hf : (List.finRange 16).find? fun i => (t i).state = .free with
  | none => exact .refl t
  | some i =>
      have hfree : (t i).state = .free := by simpa using List.find?_some hf
      exact quiet_update (fun _ hp => absurd (h i hfree) hp) fun hs => by cases hs

end Quiet

/-! ## Binding -/

section Bind
variable {t : Table} {i : PcbId} {e : Endpoint}

/-- Binding a block, after the port was found free at one address, keeps the owners
apart exactly when it does not bind it to every address of a port in use. -/
theorem bound_iff (h : t.Owned) (hs : (t i).state = .open) {a : IpAddr}
    (hfree : udpPcbSelect t a e.port = none) (ha : e.addr ≠ ipAddrAny → a = e.addr) :
    Table.Owned (Function.update t i { t i with localEp := e }) ↔
      (e.addr = ipAddrAny → e.port ≠ 0 → ∀ j, j ≠ i → (t j).state = .open →
        (t j).localEp.port ≠ e.port) := by
  have hnone (j : PcbId) : ¬ (t j).Finds ⟨a, e.port⟩ := select_none (f := ⟨a, e.port⟩) |>.mp hfree j
  have new (f : Endpoint) :
      (Function.update t i { t i with localEp := e } i).Finds f ↔ e.Covers f := by
    rw [Function.update_self]
    exact and_iff_right hs
  have other {j : PcbId} (hj : j ≠ i) :
      Function.update t i { t i with localEp := e } j = t j := Function.update_of_ne hj _ _
  constructor
  · intro h' hany hp j hj hjs hport
    -- the other block is bound to an address, and is found there
    have hjany : (t j).localEp.addr ≠ ipAddrAny := fun hjany => hnone j ⟨hjs, .inl hjany, hport⟩
    refine hj (h'.one ⟨(t j).localEp.addr, e.port⟩ ⟨hjany, hp⟩ j i ?_ ?_)
    · rw [other hj]
      exact ⟨hjs, .inr rfl, hport⟩
    · rw [new]
      exact ⟨.inl hany, rfl⟩
  · intro hok
    -- whoever else is found where the block now is, was found when the port was asked for
    have apart {f : Endpoint} (hf : f.Concrete) {j : PcbId} (hj : j ≠ i)
        (hfind : (t j).Finds f) (hc : e.Covers f) : False := by
      by_cases hany : e.addr = ipAddrAny
      · exact hok hany (hc.2 ▸ hf.2) j hj hfind.1 (hfind.2.2.trans hc.2.symm)
      · have hea : e.addr = f.addr := hc.1.resolve_left hany
        refine hnone j ⟨hfind.1, ?_, hfind.2.2.trans hc.2.symm⟩
        rw [ha hany, hea]
        exact hfind.2.1
    refine owned_iff.mpr fun f hf j k hj hk => ?_
    by_cases hji : j = i
    · by_cases hki : k = i
      · rw [hji, hki]
      · subst hji
        rw [new] at hj
        rw [other hki] at hk
        exact (apart hf hki hk hj).elim
    · rw [other hji] at hj
      by_cases hki : k = i
      · subst hki
        rw [new] at hk
        exact (apart hf hji hj hk).elim
      · rw [other hki] at hk
        exact h.one f hf j k hj hk

/-- `udp_bind` of an open block. -/
theorem bind_owned_iff (h : t.Owned) {id : Int} (hid : udpPcbGet t id = some i) :
    Table.Owned (udpBind t id e).1 ↔ (udpPcbSelect t e.addr e.port = none → e.addr = ipAddrAny →
      e.port ≠ 0 → ∀ j, j ≠ i → (t j).state = .open → (t j).localEp.port ≠ e.port) := by
  simp only [udpBind, hid]
  cases hsel : udpPcbSelect t e.addr e.port with
  | some j => simp [h]
  | none =>
      refine (bound_iff h (udpPcbGet_open hid) hsel fun _ => rfl).trans ?_
      exact ⟨fun hok _ => hok, fun hok => hok rfl⟩

theorem hton16_eq_zero {p : UInt16} : hton16 p = 0 ↔ p = 0 := by
  refine ⟨fun h => ?_, fun h => by rw [h]; decide⟩
  rw [← ntoh16_hton16 p, h]
  decide

theorem sourcePorts_ne_zero {p : UInt16} (h : p ∈ sourcePorts) : p ≠ 0 := by
  obtain ⟨k, hk, rfl⟩ := List.mem_map.mp h
  rw [List.mem_range] at hk
  intro h0
  have hn := congrArg UInt16.toNat h0
  rw [UInt16.toNat_ofNat', UInt16.toNat_zero] at hn
  omega

/-- `udp_sendto` of an open block. -/
theorem sendto_owned_iff (h : t.Owned) {id : Int} (hid : udpPcbGet t id = some i) (f : Endpoint)
    (routes : List IpRoute) :
    Table.Owned (((udpSendto routes t id f).map Prod.fst).getD t) ↔
      ∀ a p, (t i).source routes f = some a → (t i).localEp.port = 0 →
        (sourcePorts.find? fun p => (udpPcbSelect t a (hton16 p)).isNone) = some p →
        (t i).localEp.addr = ipAddrAny → ∀ j, j ≠ i → (t j).state = .open →
          (t j).localEp.port ≠ hton16 p := by
  simp only [udpSendto, hid, Option.bind_some]
  cases hsrc : (t i).source routes f with
  | none => simp [h]
  | some a =>
      rw [Option.bind_some]
      by_cases hport : (t i).localEp.port = 0
      · rw [if_pos hport]
        cases hfind : sourcePorts.find? fun p => (udpPcbSelect t a (hton16 p)).isNone with
        | none =>
            refine iff_of_true (by simpa using h) fun a' p ha _ hp => ?_
            cases ha
            cases hfind.symm.trans hp
        | some p =>
            have hfree : udpPcbSelect t a (hton16 p) = none := by
              simpa using List.find?_some hfind
            have hp : hton16 p ≠ 0 := fun h0 =>
              sourcePorts_ne_zero (List.mem_of_find?_eq_some hfind) (hton16_eq_zero.mp h0)
            have hsame : (t i).localEp.addr ≠ ipAddrAny → a = (t i).localEp.addr := by
              intro hany
              rw [Pcb.source, if_neg hany] at hsrc
              exact (Option.some.inj hsrc).symm
            have hiff := bound_iff h (udpPcbGet_open hid) (a := a)
              (e := { (t i).localEp with port := hton16 p }) hfree hsame
            rw [Option.map_some, Option.map_some, Option.getD_some, hiff]
            simp only [ne_eq, hp, not_false_eq_true, forall_const]
            constructor
            · intro hok a' p' ha _ hp' hany
              cases ha
              cases hfind.symm.trans hp'
              exact hok hany
            · exact fun hok => hok a p rfl hport hfind
      · rw [if_neg hport]
        simp [h, hport]

end Bind

/-! ## Runs -/

section Step
variable {w : World}

/-- Nothing else binds a block. -/
theorem step_quiet {e : Event} (hc : w.tab.Clean) (hb : ∀ tid id ep, e ≠ .call tid (.bind id ep))
    (hs : ∀ tid id f routes, e ≠ .call tid (.sendto id f routes)) :
    w.tab.Quiet (w.step e).tab := by
  cases e with
  | input a alloc => exact deliver_quiet alloc a
  | resume tid =>
      simp only [World.step]
      cases w.tasks tid with
      | none => exact .refl _
      | some i => exact recvAwake_quiet tid
  | call tid c =>
      simp only [World.step]
      split
      · exact .refl _
      cases c with
      | «open» => exact open_quiet hc
      | bind id ep => exact absurd rfl (hb tid id ep)
      | sendto id f routes => exact absurd rfl (hs tid id f routes)
      | recvfrom id => exact recvfrom_quiet tid id
      | close id => exact close_quiet id

/-- Binding a block in use keeps the free ones. -/
theorem clean_update {i : PcbId} {p : Pcb} (h : w.tab.Clean) (hs : p.state = .open) :
    Table.Clean (Function.update w.tab i p) := by
  intro j hj
  by_cases hji : j = i
  · subst hji
    rw [Function.update_self, hs] at hj
    cases hj
  · rw [Function.update_of_ne hji] at hj ⊢
    exact h j hj

theorem step_clean (h : w.tab.Clean) (e : Event) : (w.step e).tab.Clean := by
  by_cases hb : ∃ tid id ep, e = .call tid (.bind id ep)
  · obtain ⟨tid, id, ep, rfl⟩ := hb
    simp only [World.step]
    split
    · exact h
    simp only [Command.run, udpBind]
    cases hid : udpPcbGet w.tab id with
    | none => exact h
    | some i =>
        simp only
        split
        · exact h
        · exact clean_update h (udpPcbGet_open hid)
  by_cases hs : ∃ tid id f routes, e = .call tid (.sendto id f routes)
  · obtain ⟨tid, id, f, routes, rfl⟩ := hs
    simp only [World.step]
    split
    · exact h
    simp only [Command.run]
    cases hsend : udpSendto routes w.tab id f with
    | none => exact h
    | some r =>
        simp only [udpSendto, Option.bind_eq_some_iff] at hsend
        obtain ⟨i, hid, a, -, hr⟩ := hsend
        split at hr
        · obtain ⟨p, -, rfl⟩ := Option.map_eq_some_iff.mp hr
          exact clean_update h (udpPcbGet_open hid)
        · cases hr
          exact h
  · exact h.quiet (step_quiet h (fun tid id ep he => hb ⟨tid, id, ep, he⟩)
      fun tid id f routes he => hs ⟨tid, id, f, routes, he⟩)

/-- **One event** keeps one owner for every endpoint exactly when it lets no block
shadow another. -/
theorem step_owned_iff {e : Event} (hc : w.tab.Clean) (h : w.tab.Owned) :
    (w.step e).tab.Owned ↔ ¬ Shadows w e := by
  by_cases hb : ∃ tid id ep, e = .call tid (.bind id ep)
  · obtain ⟨tid, id, ep, rfl⟩ := hb
    cases hidle : w.tasks tid with
    | some i =>
        refine iff_of_true (by simpa [World.step, hidle] using h) ?_
        rintro ⟨⟩
        cases hidle.symm.trans ‹_›
    | none =>
        have hstep : (w.step (.call tid (.bind id ep))).tab = (udpBind w.tab id ep).1 := by
          simp [World.step, hidle, Command.run]
        rw [hstep]
        cases hid : udpPcbGet w.tab id with
        | none =>
            refine iff_of_true (by simpa [udpBind, hid] using h) ?_
            rintro ⟨⟩
            cases hid.symm.trans ‹_›
        | some i =>
            rw [bind_owned_iff h hid]
            constructor
            · rintro hok (⟨_, _, i', j, _, _, hid', ha, hp, hfree, hj, hs, hport⟩ | _)
              cases hid.symm.trans hid'
              exact hok hfree ha hp j hj hs hport
            · intro hsh hfree ha hp j hj hs hport
              exact hsh (.bind tid id i j ep hidle hid ha hp hfree hj hs hport)
  by_cases hs : ∃ tid id f routes, e = .call tid (.sendto id f routes)
  · obtain ⟨tid, id, f, routes, rfl⟩ := hs
    cases hidle : w.tasks tid with
    | some i =>
        refine iff_of_true (by simpa [World.step, hidle] using h) ?_
        rintro ⟨⟩
        cases hidle.symm.trans ‹_›
    | none =>
        have hstep : (w.step (.call tid (.sendto id f routes))).tab =
            ((udpSendto routes w.tab id f).map Prod.fst).getD w.tab := by
          simp [World.step, hidle, Command.run]
        rw [hstep]
        cases hid : udpPcbGet w.tab id with
        | none =>
            refine iff_of_true (by simpa [udpSendto, hid] using h) ?_
            rintro ⟨⟩
            cases hid.symm.trans ‹_›
        | some i =>
            rw [sendto_owned_iff h hid]
            constructor
            · rintro hok (_ | ⟨_, _, i', j, _, _, a, p, _, hid', ha, hp, hroute, hfree, hj, hs, hport⟩)
              cases hid.symm.trans hid'
              exact hok a p hroute hp hfree ha j hj hs hport
            · intro hsh a p hroute hp hfree ha j hj hs hport
              exact hsh (.sendto tid id i j f routes a p hidle hid ha hp hroute hfree hj hs hport)
  · refine iff_of_true (h.quiet (step_quiet hc (fun tid id ep he => hb ⟨tid, id, ep, he⟩)
      fun tid id f routes he => hs ⟨tid, id, f, routes, he⟩)) ?_
    rintro (⟨tid, id, -, -, ep⟩ | ⟨tid, id, -, -, f, routes⟩)
    · exact hb ⟨tid, id, ep, rfl⟩
    · exact hs ⟨tid, id, f, routes, rfl⟩

end Step

/-! ## Two binds -/

/-- Both binds are accepted, the one after the other. -/
def bindBoth (t : Table) (i : PcbId) (e : Endpoint) (j : PcbId) (f : Endpoint) : Prop :=
  (udpBind t (udpPcbId i) e).2 = 0 ∧ (udpBind (udpBind t (udpPcbId i) e).1 (udpPcbId j) f).2 = 0

section Order
variable {t : Table} {i j : PcbId} {e f : Endpoint}

theorem udpPcbGet_id (h : (t i).state = .open) : udpPcbGet t (udpPcbId i) = some i := by
  have hi : 0 ≤ udpPcbId i ∧ udpPcbId i < 16 := by
    have := i.isLt
    rw [udpPcbId]
    omega
  simp only [udpPcbGet, dif_pos hi]
  exact if_neg (not_not.mpr h)

theorem bind_accepted (h : (t i).state = .open) :
    (udpBind t (udpPcbId i) e).2 = 0 ↔ ∀ k, ¬ (t k).Finds e := by
  simp only [udpBind, udpPcbGet_id h]
  rw [← select_none]
  cases udpPcbSelect t e.addr e.port <;> simp

theorem bindBoth_iff (hij : i ≠ j) (hi : (t i).state = .open) (hj : (t j).state = .open) :
    bindBoth t i e j f ↔
      (∀ k, ¬ (t k).Finds e) ∧ (∀ k, k ≠ i → ¬ (t k).Finds f) ∧ ¬ e.Covers f := by
  rw [bindBoth, bind_accepted hi]
  refine and_congr_right fun hfree => ?_
  have htab : (udpBind t (udpPcbId i) e).1 = Function.update t i { t i with localEp := e } := by
    simp only [udpBind, udpPcbGet_id hi, select_none.mpr hfree]
  have hj' : (Function.update t i { t i with localEp := e } j).state = .open := by
    rwa [Function.update_of_ne hij.symm]
  rw [htab, bind_accepted hj']
  constructor
  · intro hall
    refine ⟨fun k hk => ?_, fun hc => ?_⟩
    · have hkf := hall k
      rwa [Function.update_of_ne hk] at hkf
    · have hif := hall i
      rw [Function.update_self] at hif
      exact hif ⟨hi, hc⟩
  · rintro ⟨hall, hc⟩ k
    by_cases hk : k = i
    · subst hk
      rw [Function.update_self]
      exact fun hkf => hc hkf.2
    · rw [Function.update_of_ne hk]
      exact hall k hk

/-- Two binds that nobody else stands against are accepted in one order only
exactly when one of them, or the block it is for, covers the other. -/
theorem order_free_iff (hij : i ≠ j) (hi : (t i).state = .open) (hj : (t j).state = .open) :
    (bindBoth t i e j f ↔ bindBoth t j f i e) ↔
      ((∀ k, k ≠ j → ¬ (t k).Finds e) → (∀ k, k ≠ i → ¬ (t k).Finds f) →
        (e.Covers f ∨ (t j).Finds e ↔ f.Covers e ∨ (t i).Finds f)) := by
  rw [bindBoth_iff hij hi hj, bindBoth_iff hij.symm hj hi]
  have split (k : PcbId) (g : Endpoint) :
      (∀ a, ¬ (t a).Finds g) ↔ (∀ a, a ≠ k → ¬ (t a).Finds g) ∧ ¬ (t k).Finds g := by
    refine ⟨fun h => ⟨fun a _ => h a, h k⟩, fun ⟨h, hk⟩ a => ?_⟩
    by_cases ha : a = k
    · exact ha ▸ hk
    · exact h a ha
  rw [split j e, split i f]
  tauto

end Order

theorem boot_owned : World.boot.tab.Owned :=
  owned_iff.mpr fun _ _ _ _ h => by cases h.1

/-- **Every endpoint has one owner** in the states of a run exactly when in the run
no block comes to listen on every address of a port that another block uses;
and two binds are accepted in both orders or in none exactly when neither
covers the other alone. -/
theorem ports_owned_iff (es : List Event) :
    ((∀ es', es' <+: es → (run World.step .boot es').tab.Owned) ↔
      Guarded World.step (fun w e => ¬ Shadows w e) .boot es) ∧
    ∀ (t : Table) (i j : PcbId) (e f : Endpoint), i ≠ j → (t i).state = .open →
      (t j).state = .open →
      ((bindBoth t i e j f ↔ bindBoth t j f i e) ↔
        ((∀ k, k ≠ j → ¬ (t k).Finds e) → (∀ k, k ≠ i → ¬ (t k).Finds f) →
          (e.Covers f ∨ (t j).Finds e ↔ f.Covers e ∨ (t i).Finds f))) := by
  refine ⟨?_, fun t i j e f hij hi hj => order_free_iff hij hi hj⟩
  exact prefix_iff_guarded (fun w : World => w.tab.Clean) (fun w => w.tab.Owned)
    (fun w e h => step_clean h e) (fun w e hc h => step_owned_iff hc h) (fun _ _ => rfl) boot_owned

/-- A port is bound at one address and then at every address: two blocks are found
for the first address.  The other way round the second bind is refused. -/
theorem wildcard_after :
    let own : Endpoint := ⟨1, 53⟩
    let any : Endpoint := ⟨ipAddrAny, 53⟩
    let opened : List Event := [.call 1 .open, .call 1 .open]
    let w := run World.step .boot opened
    ¬ (run World.step w [.call 1 (.bind 0 own), .call 1 (.bind 1 any)]).tab.Owned ∧
      bindBoth w.tab 0 own 1 any ∧ ¬ bindBoth w.tab 1 any 0 own := by
  refine ⟨fun h => ?_, ?_, ?_⟩
  · have hone := h.one ⟨1, 53⟩ ⟨by decide, by decide⟩ 0 1 (by decide +kernel) (by decide +kernel)
    exact absurd hone (by decide)
  · exact ⟨by decide +kernel, by decide +kernel⟩
  · exact fun h => absurd h.2 (by decide +kernel)

end Laplus.Udp
