/-
# `Laplus.Tcp.Listener` — listeners, their children and the backlog

A child points to its listener, and the listener's backlog points to the
children whose handshake is over.  Nothing tells one when the other's slot is
released: `tcp_pcb_release` takes the queued children with it and leaves the
others pointing at a free slot, and it does not look whether the slot itself
is queued.  As long as no release leaves a pointer behind, the two agree, and
`tcp_accept` hands out every connection at most once.
-/
import Laplus.Lib.Placed
import Laplus.Tcp.Conform
import Laplus.Tcp.Sleepers

namespace Laplus.Tcp

open Net Lib Relation

/-! ## Consistency -/

/-- The backlog of every slot. -/
def Table.backlogs (t : Table) (q : PcbId) : List PcbId := (t.pcb q).backlog

/-- The parent of every slot. -/
def Table.parents (t : Table) (c : PcbId) : Option PcbId := (t.pcb c).parent

/-- Listeners and children agree: a pcb in use has a listening parent, if it
has one, what is queued is in use and the child of the listener it is queued
on, it is queued in one place only, and only listeners have anything queued. -/
structure Table.Consistent (t : Table) : Prop where
  parent : ∀ c q, (t.pcb c).state ≠ .free → (t.pcb c).parent = some q → (t.pcb q).state = .listen
  used : ∀ q c, c ∈ (t.pcb q).backlog → (t.pcb c).state ≠ .free
  placed : Placed t.backlogs t.parents
  idle : ∀ q, (t.pcb q).state ≠ .listen → (t.pcb q).backlog = []

/-- The commands of a server. -/
def Command.serves : Command → Bool
  | .open | .bind _ _ | .listen _ | .accept _ | .close _ => true
  | _ => false

/-- A command of a server, a segment, the timer, or a call running on. -/
def Event.serves : Event → Bool
  | .user _ c => c.serves
  | _ => true

/-- Nothing is left pointing at a slot that the event takes away. -/
structure Tidy (w : World) (x : Env × Event) : Prop where
  serves : x.2.serves
  /-- No slot is released while it is queued. -/
  queued : w.acts x.2 → ∀ r q, Frees w x.1 x.2 r → r ∉ ((w.found x.2).pcb q).backlog
  /-- Whoever has a parent that goes, goes with it. -/
  orphan : w.acts x.2 → ∀ r q c, Frees w x.1 x.2 r → Linked (w.found x.2) r q →
    ((w.found x.2).pcb c).state ≠ .free → ((w.found x.2).pcb c).parent = some q →
    Linked (w.found x.2) r c
  /-- A listener whose deadline passes has no children that stay. -/
  deadline : x.2 = .timer → ∀ q, (w.tab.pcb q).state = .listen →
    (w.tab.pcb q).queue.any (·.expired x.1) → (w.tab.pcb q).backlog = [] ∧
      ∀ c, (w.tab.pcb c).state ≠ .free → (w.tab.pcb c).parent = some q →
        (w.tab.pcb c).timewaitElapsed x.1

/-- No connection dies in a backlog: its deadline does not pass there, and
`tcp_listen` does not turn it into a listener. -/
structure Lively (w : World) (x : Env × Event) : Prop where
  deadline : x.2 = .timer → ∀ q c, c ∈ (w.tab.pcb q).backlog →
    (w.tab.pcb c).queue.any (·.expired x.1) = false
  listen : ∀ tid q c, x.2 = .user tid (.listen (tcpPcbId c)) → c ∉ (w.tab.pcb q).backlog

/-! ## The invariant -/

/-- What else holds while only servers run: every pcb is a socket's, a free
slot has no parent, nobody is in SYN-SENT, and a queued child is past the
handshake. -/
structure Table.Serving (t : Table) : Prop extends t.Consistent where
  mode : ∀ j, (t.pcb j).state ≠ .free → (t.pcb j).mode = .socket
  clean : ∀ j, (t.pcb j).state = .free → (t.pcb j).parent = none
  passive : ∀ j, (t.pcb j).state ≠ .synSent
  ready : ∀ q c, c ∈ (t.pcb q).backlog → (t.pcb c).state ≠ .synReceived

/-- A pcb from `p` to `p'` as an edit in place leaves it. -/
structure Remains (p p' : Pcb) : Prop where
  mode : p'.mode = p.mode
  parent : p'.parent = p.parent
  backlog : p'.backlog = p.backlog
  used : p'.state = .free ↔ p.state = .free
  ready : p'.state = .synReceived → p.state = .synReceived
  passive : p.state ≠ .synSent → p'.state ≠ .synSent

theorem Remains.refl (p : Pcb) : Remains p p := ⟨rfl, rfl, rfl, .rfl, id, id⟩

theorem Remains.of_state {p p' : Pcb} (hm : p'.mode = p.mode) (hp : p'.parent = p.parent)
    (hb : p'.backlog = p.backlog) (hs : p'.state = p.state) : Remains p p' where
  mode := hm
  parent := hp
  backlog := hb
  used := by rw [hs]
  ready h := hs ▸ h
  passive h := hs ▸ h

section Tables
variable {t t' : Table} {i j q c : PcbId} {p : Pcb} {rest : List PcbId}

/-- **Rule of the pointers.**  Every slot is zeroed or stays; the pointers agree
afterwards if no listener goes that a pcb in use points to, no queued pcb
goes without its listener, and a listener that stops listening has an empty
backlog. -/
theorem Table.Serving.next (h : t.Serving)
    (hj : ∀ j, t'.pcb j = .zero ∨ Remains (t.pcb j) (t'.pcb j))
    (hparent : ∀ c q, (t'.pcb c).state ≠ .free → (t.pcb c).parent = some q →
      (t.pcb q).state = .listen → (t'.pcb q).state = .listen)
    (hqueued : ∀ q c, (t'.pcb q).backlog ≠ [] → c ∈ (t.pcb q).backlog → (t'.pcb c).state ≠ .free)
    (hidle : ∀ q, (t.pcb q).state = .listen → (t'.pcb q).state ≠ .listen →
      (t'.pcb q).backlog = []) : t'.Serving := by
  have stays {c : PcbId} (hc : (t'.pcb c).state ≠ .free) : Remains (t.pcb c) (t'.pcb c) := by
    rcases hj c with hz | hr
    · rw [hz] at hc
      exact absurd rfl hc
    · exact hr
  have before {q c : PcbId} (hc : c ∈ (t'.pcb q).backlog) :
      c ∈ (t.pcb q).backlog ∧ (t'.pcb c).state ≠ .free := by
    have hold : c ∈ (t.pcb q).backlog := by
      rcases hj q with hz | hr
      · rw [hz] at hc
        exact absurd hc List.not_mem_nil
      · exact hr.backlog ▸ hc
    exact ⟨hold, hqueued q c (List.ne_nil_of_mem hc) hold⟩
  exact {
    parent := fun c q hc hp => by
      have hr := stays hc
      have hp' : (t.pcb c).parent = some q := hr.parent ▸ hp
      exact hparent c q hc hp' (h.parent c q (fun hf => hc (hr.used.mpr hf)) hp')
    used := fun q c hc => (before hc).2
    placed := h.placed.shrink
      (fun q => by
        rcases hj q with hz | hr
        · rw [Table.backlogs, hz]
          exact List.nil_sublist _
        · rw [Table.backlogs, hr.backlog]
          exact .refl _)
      (fun q c hc => (stays (before hc).2).parent)
    idle := fun q hq => by
      by_cases hl : (t.pcb q).state = .listen
      · exact hidle q hl hq
      · rcases hj q with hz | hr
        · rw [hz]
          rfl
        · rw [hr.backlog]
          exact h.idle q hl
    mode := fun j hu => by
      have hr := stays hu
      rw [hr.mode]
      exact h.mode j fun hf => hu (hr.used.mpr hf)
    clean := fun j hf => by
      rcases hj j with hz | hr
      · rw [hz]
        rfl
      · rw [hr.parent]
        exact h.clean j (hr.used.mp hf)
    passive := fun j => by
      rcases hj j with hz | hr
      · rw [hz]
        simp [Pcb.zero]
      · exact hr.passive (h.passive j)
    ready := fun q c hc hs => by
      obtain ⟨hold, hu⟩ := before hc
      exact h.ready q c hold ((stays hu).ready hs) }

/-- Edits in place, after which a listener still listens. -/
theorem Table.Serving.remain (h : t.Serving) (hj : ∀ j, Remains (t.pcb j) (t'.pcb j))
    (hl : ∀ j, (t.pcb j).state = .listen → (t'.pcb j).state = .listen) : t'.Serving := by
  refine h.next (fun j => .inr (hj j)) (fun _ q _ _ hq => hl q hq) (fun q c _ hc hf => ?_)
    (fun q hq hq' => absurd (hl q hq) hq')
  exact h.used q c hc ((hj c).used.mp hf)

theorem Table.Serving.same (h : t.Serving) (hs : SameButCond t t') : t'.Serving := by
  have heq (j : PcbId) : ∃ c, t'.pcb j = { t.pcb j with cond := c } := core_eq (hs.2 j)
  refine h.remain (fun j => ?_) fun j hl => ?_
  · obtain ⟨c, hc⟩ := heq j
    rw [hc]
    exact .of_state rfl rfl rfl rfl
  · rwa [hs.state]

/-- A slot is rewritten in place. -/
theorem Table.Serving.set (h : t.Serving) (hr : Remains (t.pcb i) p)
    (hl : (t.pcb i).state = .listen → p.state = .listen) : (t.set i p).Serving := by
  refine h.remain (fun j => ?_) fun j hj => ?_
  · by_cases hji : j = i
    · subst hji
      rwa [Table.set_pcb_self]
    · rw [Table.set_pcb_ne _ _ hji]
      exact .refl _
  · by_cases hji : j = i
    · subst hji
      rw [Table.set_pcb_self]
      exact hl hj
    · rwa [Table.set_pcb_ne _ _ hji]

/-- A free slot is handed out, to a socket or as the child of a listener. -/
theorem Table.Serving.claim (h : t.Serving) (hi : (t.pcb i).state = .free)
    (hm : p.mode = .socket) (hb : p.backlog = (t.pcb i).backlog)
    (hs : p.state = .closed ∨ p.state = .synReceived)
    (hp : ∀ q, p.parent = some q → (t.pcb q).state = .listen) : ((t.claim i).set i p).Serving := by
  have hother {j : PcbId} (hj : j ≠ i) : ((t.claim i).set i p).pcb j = t.pcb j := by
    rw [Table.set_pcb_ne _ _ hj, Table.claim_pcb_ne _ hj]
  have hlisten {q : PcbId} (hq : (t.pcb q).state = .listen) : q ≠ i := by
    rintro rfl
    rw [hi] at hq
    cases hq
  have hqueued {q c : PcbId} (hc : c ∈ (t.pcb q).backlog) : c ≠ i := by
    rintro rfl
    exact h.used q c hc hi
  have hback (q : PcbId) : (((t.claim i).set i p).pcb q).backlog = (t.pcb q).backlog := by
    by_cases hq : q = i
    · subst hq
      rw [Table.set_pcb_self, hb]
    · rw [hother hq]
  exact {
    parent := fun c q hc hpar => by
      have hq : (t.pcb q).state = .listen := by
        by_cases hci : c = i
        · subst hci
          rw [Table.set_pcb_self] at hpar
          exact hp q hpar
        · rw [hother hci] at hc hpar
          exact h.parent c q hc hpar
      rw [hother (hlisten hq)]
      exact hq
    used := fun q c hc => by
      rw [hback] at hc
      rw [hother (hqueued hc)]
      exact h.used q c hc
    placed := h.placed.shrink
      (fun q => by rw [Table.backlogs, hback]; exact .refl _)
      (fun q c hc => by
        rw [Table.backlogs, hback] at hc
        rw [Table.parents, hother (hqueued hc)]
        rfl)
    idle := fun q hq => by
      rw [hback]
      by_cases hqi : q = i
      · subst hqi
        exact h.idle q (by rw [hi]; simp)
      · rw [hother hqi] at hq
        exact h.idle q hq
    mode := fun j hu => by
      by_cases hj : j = i
      · subst hj
        rwa [Table.set_pcb_self]
      · rw [hother hj] at hu ⊢
        exact h.mode j hu
    clean := fun j hf => by
      by_cases hj : j = i
      · subst hj
        rw [Table.set_pcb_self] at hf
        rcases hs with hs | hs <;> rw [hs] at hf <;> cases hf
      · rw [hother hj] at hf ⊢
        exact h.clean j hf
    passive := fun j => by
      by_cases hj : j = i
      · subst hj
        rw [Table.set_pcb_self]
        rcases hs with hs | hs <;> simp [hs]
      · rw [hother hj]
        exact h.passive j
    ready := fun q c hc => by
      rw [hback] at hc
      rw [hother (hqueued hc)]
      exact h.ready q c hc }

/-- The backlog of a slot is replaced; `pushBacklog` and `queue_pop` do so. -/
def Table.setBacklog (t : Table) (q : PcbId) (b : List PcbId) : Table :=
  t.set q { t.pcb q with backlog := b }

theorem setBacklog_backlogs (t : Table) (q : PcbId) (b : List PcbId) :
    (t.setBacklog q b).backlogs = Function.update t.backlogs q b := by
  funext j
  by_cases hj : j = q
  · subst hj
    rw [Function.update_self, Table.backlogs, Table.setBacklog, Table.set_pcb_self]
  · rw [Function.update_of_ne hj, Table.backlogs, Table.setBacklog, Table.set_pcb_ne _ _ hj]
    rfl

theorem setBacklog_pcb (t : Table) (q : PcbId) (b : List PcbId) (j : PcbId) :
    ∃ b', (t.setBacklog q b).pcb j = { t.pcb j with backlog := b' } := by
  by_cases hj : j = q
  · subst hj
    exact ⟨b, by rw [Table.setBacklog, Table.set_pcb_self]⟩
  · exact ⟨(t.pcb j).backlog, by rw [Table.setBacklog, Table.set_pcb_ne _ _ hj]⟩

theorem setBacklog_state (t : Table) (q : PcbId) (b : List PcbId) (j : PcbId) :
    ((t.setBacklog q b).pcb j).state = (t.pcb j).state := by
  obtain ⟨b', hj⟩ := setBacklog_pcb t q b j
  rw [hj]

theorem pushBacklog_state (t : Table) (q i j : PcbId) :
    ((t.pushBacklog q i).pcb j).state = (t.pcb j).state :=
  setBacklog_state t q ((t.pcb q).backlog ++ [i]) j

/-- A backlog changes, and all backlogs are in order afterwards. -/
theorem Table.Serving.setBacklog {b : List PcbId} (h : t.Serving) (hq : (t.pcb q).state = .listen)
    (hp : Placed (Function.update t.backlogs q b) t.parents)
    (hb : ∀ c ∈ b, (t.pcb c).state ≠ .free ∧ (t.pcb c).state ≠ .synReceived) :
    (t.setBacklog q b).Serving := by
  have hstate (j : PcbId) := setBacklog_state t q b j
  have hparent (j : PcbId) : ((t.setBacklog q b).pcb j).parent = (t.pcb j).parent := by
    obtain ⟨b', hj⟩ := setBacklog_pcb t q b j
    rw [hj]
  have hmode (j : PcbId) : ((t.setBacklog q b).pcb j).mode = (t.pcb j).mode := by
    obtain ⟨b', hj⟩ := setBacklog_pcb t q b j
    rw [hj]
  have hback (j : PcbId) : ((t.setBacklog q b).pcb j).backlog =
      Function.update t.backlogs q b j := congrFun (setBacklog_backlogs t q b) j
  have hmem {j c : PcbId} (hc : c ∈ ((t.setBacklog q b).pcb j).backlog) :
      (t.pcb c).state ≠ .free ∧ (t.pcb c).state ≠ .synReceived := by
    rw [hback] at hc
    by_cases hj : j = q
    · subst hj
      rw [Function.update_self] at hc
      exact hb c hc
    · rw [Function.update_of_ne hj] at hc
      exact ⟨h.used j c hc, h.ready j c hc⟩
  exact {
    parent := fun c r hc hpar => by
      rw [hstate] at hc ⊢
      rw [hparent] at hpar
      exact h.parent c r hc hpar
    used := fun j c hc => by
      rw [hstate]
      exact (hmem hc).1
    placed := by
      rw [setBacklog_backlogs, show (t.setBacklog q b).parents = t.parents from funext hparent]
      exact hp
    idle := fun j hj => by
      rw [hstate] at hj
      have hjq : j ≠ q := fun e => hj (e ▸ hq)
      rw [hback, Function.update_of_ne hjq]
      exact h.idle j hj
    mode := fun j hj => by
      rw [hstate] at hj
      rw [hmode]
      exact h.mode j hj
    clean := fun j hj => by
      rw [hstate] at hj
      rw [hparent]
      exact h.clean j hj
    passive := fun j => by
      rw [hstate]
      exact h.passive j
    ready := fun j c hc => by
      rw [hstate]
      exact (hmem hc).2 }

/-- A listener that has something queued listens. -/
theorem Table.Consistent.listens (h : t.Consistent) (hb : (t.pcb q).backlog ≠ []) :
    (t.pcb q).state = .listen := by
  by_contra hq
  exact hb (h.idle q hq)

/-- A child past its handshake joins the backlog of its parent. -/
theorem Table.Serving.push (h : t.Serving) (hp : (t.pcb c).parent = some q)
    (hu : (t.pcb c).state ≠ .free) (hs : (t.pcb c).state ≠ .synReceived)
    (hc : c ∉ (t.pcb q).backlog) : (t.pushBacklog q c).Serving := by
  refine h.setBacklog (h.parent c q hu hp) (h.placed.push hp hc) fun a ha => ?_
  rw [List.mem_append, List.mem_singleton] at ha
  rcases ha with ha | rfl
  · exact ⟨h.used q a ha, h.ready q a ha⟩
  · exact ⟨hu, hs⟩

/-- The first child of a backlog is taken off. -/
theorem Table.Serving.pop (h : t.Serving) (hb : (t.pcb q).backlog = c :: rest) :
    (t.setBacklog q rest).Serving := by
  refine h.setBacklog (h.listens (by rw [hb]; simp)) (h.placed.pop hb) fun a ha => ?_
  have ha' : a ∈ (t.pcb q).backlog := by
    rw [hb]
    exact List.mem_cons_of_mem c ha
  exact ⟨h.used q a ha', h.ready q a ha'⟩

/-- A release that leaves no pointer behind. -/
theorem Table.Serving.release (h : t.Serving) (hq : ∀ q, i ∉ (t.pcb q).backlog)
    (ho : ∀ q c, Linked t i q → (t.pcb c).state ≠ .free → (t.pcb c).parent = some q →
      Linked t i c) : (tcpPcbRelease t i).Serving := by
  have zeroed {j : PcbId} : Linked t i j → (tcpPcbRelease t i).pcb j = .zero :=
    (tcpPcbRelease_pcb t i j).1
  have kept {j : PcbId} : ¬ Linked t i j → (tcpPcbRelease t i).pcb j = t.pcb j :=
    (tcpPcbRelease_pcb t i j).2
  refine h.next (fun j => ?_) (fun c q hc hp hl => ?_) (fun q c hb hc => ?_) fun q _ hl => ?_
  · by_cases hj : Linked t i j
    · exact .inl (zeroed hj)
    · exact .inr (kept hj ▸ .refl _)
  · have hnc : ¬ Linked t i c := fun hlc => hc (by rw [zeroed hlc]; rfl)
    rw [kept hnc] at hc
    rw [kept fun hlq => hnc (ho q c hlq hc hp)]
    exact hl
  · have hnq : ¬ Linked t i q := fun hlq => hb (by rw [zeroed hlq]; rfl)
    -- a queued pcb goes with the listener it is queued on, and only so
    have hnc : ¬ Linked t i c := fun hlc => by
      rcases ReflTransGen.cases_tail hlc with rfl | ⟨a, hla, hca⟩
      · exact hq q hc
      · exact hnq (h.placed.alone hca hc ▸ hla)
    rw [kept hnc]
    exact h.used q c hc
  · by_cases hlq : Linked t i q
    · rw [zeroed hlq]
      rfl
    · rw [kept hlq] at hl ⊢
      exact h.idle q hl

end Tables

/-! ## Edits in place -/

section Rewrites
variable {w : World} {env : Env} {e : Event} {i : PcbId} {p p' : Pcb} {eff : List Effect}

/-- The handler does not bring a connection back into its handshake. -/
theorem handled_opening {seg : SegmentInfo} {flags : UInt8} {data : List UInt8} {l f : Endpoint}
    {o : Outcome} (h : Handled env i seg flags data l f p o) (hs : p.state.pastOpen) :
    o.pcb.state = p.state ∧ o.queued = false ∨ o.pcb.state.opening = false := by
  cases h with
  | dropped => exact .inl ⟨rfl, rfl⟩
  | answered =>
      rw [Outcome.output_pcb, tcpOutput_pcb]
      exact .inl ⟨rfl, rfl⟩
  | refused => exact .inl ⟨rfl, rfl⟩
  | reset _ o ho =>
      rcases ho with rfl | rfl <;> exact .inr rfl
  | processed _ o ho =>
      rw [arrivesText_state]
      split
      · exact .inr (finState_opening _ _ (passed_opening ho hs))
      · exact .inr (passed_opening ho hs)

theorem ne_of_opening {s : PcbState} (h : s.opening = false) : s ≠ .synReceived ∧ s ≠ .synSent := by
  constructor <;> rintro rfl <;> cases h

/-- What the handler leaves of a pcb, if it leaves it. -/
theorem otherwise_remains {s : TcpSegment} (hs : p.state.pastOpen)
    (hr : (p.otherwise env i s).released = false) : Remains p (p.otherwise env i s).pcb := by
  have hh : Handled env i s.info s.flg s.data s.foreignEp s.localEp p (p.otherwise env i s) :=
    arrivesOtherwise_handled _ _ _ _ _ _ _ _
  have hk := handled_keeps hh
  have hopen := handled_opening hh hs
  refine ⟨hk.mode, hk.parent, hk.backlog, ⟨fun hf => ?_, handled_free hh⟩, fun h => ?_, fun hne => ?_⟩
  · by_contra hu
    have hsync : p.state.synchronized := by
      by_contra hn
      exact hu (free_of_pastOpen hs (by simpa using hn))
    have hsync' := handled_synchronized hh hr hsync
    rw [hf] at hsync'
    cases hsync'
  · rcases hopen with ho | ho
    · exact ho.1 ▸ h
    · exact absurd h (ne_of_opening ho).1
  · rcases hopen with ho | ho
    · exact ho.1 ▸ hne
    · exact (ne_of_opening ho).2

/-- While only servers run a pcb remains, and a listener listens on. -/
theorem rewrites_remains (h : Rewrites w env i p e p' eff) (he : e.serves) (ht : e ≠ .timer)
    (hsyn : p.state ≠ .synSent) (hm : p.state ≠ .free → p.mode = .socket) :
    Remains p p' ∧ (p.state = .listen → p'.state = .listen) := by
  cases h with
  | synSent s hs => exact absurd hs hsyn
  | otherwise s hs hr =>
      refine ⟨otherwise_remains hs hr, fun hl => ?_⟩
      rw [hl] at hs
      cases hs
  | passive s hs hm' => exact absurd (hm (by rw [hs]; simp)) hm'
  | ticked => exact absurd rfl ht
  | connecting => cases he
  | bound => exact ⟨.of_state rfl rfl rfl rfl, id⟩
  | listening tid hs =>
      refine ⟨⟨rfl, rfl, rfl, ⟨fun h => ?_, fun h => absurd h hs⟩, fun h => ?_, fun _ => ?_⟩,
        fun _ => rfl⟩
      · cases h
      · cases h
      · simp
  | sent dev data n =>
      rw [burst_keeps (burst_bursts env dev p data n)]
      exact ⟨.of_state rfl rfl rfl rfl, id⟩
  | received => exact ⟨.of_state rfl rfl rfl rfl, id⟩
  | closing tid s hs =>
      have hu : p.state ≠ .free := by
        rintro hf
        rw [hf] at hs
        rcases hs with ⟨h | h, -⟩ | ⟨h, -⟩ <;> cases h
      have hs' : s = .finWait1 ∨ s = .lastAck := hs.imp And.right And.right
      refine ⟨⟨rfl, rfl, rfl, ⟨fun h => ?_, fun h => absurd h hu⟩, fun h => ?_, fun _ h => ?_⟩,
        fun hl => ?_⟩
      · rcases hs' with rfl | rfl <;> cases h
      · rcases hs' with rfl | rfl <;> cases h
      · rcases hs' with rfl | rfl <;> cases h
      · rw [hl] at hs
        rcases hs with ⟨h | h, -⟩ | ⟨h, -⟩ <;> cases h

/-- A connection that remains in use stays up, unless it is made a listener. -/
theorem rewrites_synchronized (h : Rewrites w env i p e p' eff) (he : e.serves) (ht : e ≠ .timer)
    (hl : ∀ tid, e ≠ .user tid (.listen (tcpPcbId i))) (hs : p.state.synchronized) :
    p'.state.synchronized := by
  cases h with
  | synSent s hsyn =>
      rw [hsyn] at hs
      cases hs
  | otherwise s _ hr => exact handled_synchronized (arrivesOtherwise_handled _ _ _ _ _ _ _ _) hr hs
  | passive s hlis =>
      rw [hlis] at hs
      cases hs
  | ticked => exact absurd rfl ht
  | connecting => cases he
  | bound => exact hs
  | listening tid => exact absurd rfl (hl tid)
  | sent dev data n => rwa [burst_keeps (burst_bursts env dev p data n)]
  | received => exact hs
  | closing tid s hst => rcases hst with ⟨-, rfl⟩ | ⟨-, rfl⟩ <;> rfl

end Rewrites

/-! ## Edits -/

/-- Nothing joins a backlog but a child that ends its handshake, and no slot
enters the handshake unless it is handed out anew. -/
structure Moves (t t' : Table) : Prop where
  gen : ∀ c, t.gen c ≤ t'.gen c
  fresh : ∀ c, t'.gen c = t.gen c → (t'.pcb c).state = .synReceived →
    (t.pcb c).state = .synReceived
  joins : ∀ q, (t'.backlogs q).Sublist (t.backlogs q) ∨ ∃ c, t'.backlogs q = t.backlogs q ++ [c] ∧
    (t.pcb c).state = .synReceived ∧ (t.pcb c).parent = some q

section Edits
variable {w : World} {env : Env} {e : Event} {t t' t'' : Table} {i : PcbId} {eff : List Effect}

/-- Slots are zeroed or remain. -/
theorem Moves.of_remains (hg : t'.gen = t.gen)
    (hj : ∀ j, t'.pcb j = .zero ∨ Remains (t.pcb j) (t'.pcb j)) : Moves t t' where
  gen c := by rw [hg]
  fresh c _ hs := by
    rcases hj c with hz | hr
    · rw [hz] at hs
      cases hs
    · exact hr.ready hs
  joins q := .inl (by
    rcases hj q with hz | hr
    · rw [Table.backlogs, hz]
      exact List.nil_sublist _
    · rw [Table.backlogs, hr.backlog]
      exact .refl _)

theorem Moves.of_same (h : SameButCond t t') : Moves t t' := by
  refine .of_remains h.1 fun j => .inr ?_
  obtain ⟨c, hc⟩ := core_eq (h.2 j)
  rw [hc]
  exact .of_state rfl rfl rfl rfl

theorem moves_release (t : Table) (i : PcbId) : Moves t (tcpPcbRelease t i) := by
  refine .of_remains (tcpPcbRelease_gen t i) fun j => ?_
  rcases tcpPcbRelease_cases t i j with hz | ⟨-, hz⟩
  · exact .inl hz
  · exact .inr (hz ▸ .refl _)

theorem set_remains {p : Pcb} (hr : Remains (t.pcb i) p) (j : PcbId) :
    Remains (t.pcb j) ((t.set i p).pcb j) := by
  by_cases hj : j = i
  · subst hj
    rwa [Table.set_pcb_self]
  · rw [Table.set_pcb_ne _ _ hj]
    exact .refl _

/-- A free slot is handed out. -/
theorem moves_claim {p : Pcb} (hb : p.backlog = (t.pcb i).backlog) :
    Moves t ((t.claim i).set i p) where
  gen c := by
    rw [Table.set_gen]
    by_cases hc : c = i
    · subst hc
      rw [Table.claim_gen_self]
      exact Nat.le_succ _
    · rw [Table.claim_gen_ne _ hc]
  fresh c hg hs := by
    have hc : c ≠ i := by
      rintro rfl
      rw [Table.set_gen, Table.claim_gen_self] at hg
      omega
    rwa [Table.set_pcb_ne _ _ hc, Table.claim_pcb_ne _ hc] at hs
  joins q := .inl (by
    rw [Table.backlogs]
    by_cases hq : q = i
    · subst hq
      rw [Table.set_pcb_self, hb]
      exact .refl _
    · rw [Table.set_pcb_ne _ _ hq, Table.claim_pcb_ne _ hq]
      exact .refl _)

/-- One backlog changes besides. -/
theorem Moves.setBacklog {q : PcbId} {b : List PcbId} (h : Moves t t')
    (hback : t'.backlogs = t.backlogs)
    (hb : b.Sublist (t.backlogs q) ∨ ∃ c, b = t.backlogs q ++ [c] ∧
      (t.pcb c).state = .synReceived ∧ (t.pcb c).parent = some q) :
    Moves t (t'.setBacklog q b) where
  gen := h.gen
  fresh c hg hs := by
    rw [setBacklog_state] at hs
    exact h.fresh c hg hs
  joins r := by
    rw [setBacklog_backlogs, hback]
    by_cases hr : r = q
    · subst hr
      rwa [Function.update_self]
    · rw [Function.update_of_ne hr]
      exact .inl (.refl _)

/-- What a server's events hand out. -/
theorem allocates_serving {p' : Pcb} (h : t.Serving) (hi : (t.pcb i).state = .free)
    (ha : Allocates env t i e p' eff) (he : e.serves) :
    p'.mode = .socket ∧ p'.backlog = (t.pcb i).backlog ∧
      (p'.state = .closed ∨ p'.state = .synReceived) ∧
        ∀ q, p'.parent = some q → (t.pcb q).state = .listen := by
  cases ha with
  | «open» tid =>
      rw [Table.claim_pcb_self]
      refine ⟨rfl, rfl, .inl rfl, fun q hq => ?_⟩
      have hnone : (t.pcb i).parent = none := h.clean i hi
      cases hnone.symm.trans hq
  | passive => cases he
  | active => cases he
  | child s q _ hs =>
      rw [synTaken_pcb, Table.claim_pcb_self]
      refine ⟨rfl, rfl, .inr rfl, fun r hr => ?_⟩
      cases hr
      exact hs

/-- **One edit moves** the table on. -/
theorem edit_moves (h : t.Serving) (hs : e.serves) (ht : e ≠ .timer)
    (he : Edit w env e t t' eff) : Moves t t' := by
  cases he with
  | rewrite i p' _ hr =>
      have hrem := (rewrites_remains hr hs ht (h.passive i) (h.mode i)).1
      exact .of_remains rfl fun j => .inr (set_remains hrem j)
  | allocate i p' _ hi ha =>
      exact moves_claim (allocates_serving h (firstFree_free hi) ha hs).2.1
  | spent _ _ _ _ _ he =>
      rw [he] at hs
      cases hs
  | release i => exact moves_release t i
  | enqueue i q s hsel hev hst hp hr hq =>
      have hrem := (rewrites_remains hr hs ht (h.passive i) (h.mode i)).1
      have hset : Moves t (t.set i ((t.pcb i).otherwise env i s).pcb) :=
        .of_remains rfl fun j => .inr (set_remains hrem j)
      have hback : (t.set i ((t.pcb i).otherwise env i s).pcb).backlogs = t.backlogs :=
        funext fun j => (set_remains hrem j).backlog
      refine hset.setBacklog hback (.inr ⟨i, ?_, hst, hp⟩)
      rw [← hback]
      rfl
  | dequeue i c rest hb =>
      refine (Moves.of_same (.refl t)).setBacklog rfl (.inl ?_)
      rw [Table.backlogs, hb]
      exact List.sublist_cons_self c rest
  | silent => exact .of_same (.refl t)

/-- **One edit** that leaves no pointer behind. -/
theorem edit_serving (h : t.Serving) (hx : Tidy w (env, e)) (hact : w.acts e) (ht : e ≠ .timer)
    (hfound : t = w.found e) (he : Edit w env e t t' eff) : t'.Serving := by
  cases he with
  | rewrite i p' _ hr =>
      obtain ⟨hrem, hl⟩ := rewrites_remains hr hx.serves ht (h.passive i) (h.mode i)
      exact h.set hrem hl
  | allocate i p' _ hi ha =>
      obtain ⟨hm, hb, hs, hp⟩ := allocates_serving h (firstFree_free hi) ha hx.serves
      exact h.claim (firstFree_free hi) hm hb hs hp
  | spent _ _ _ _ _ he =>
      have hs : e.serves := hx.serves
      rw [he] at hs
      cases hs
  | release i _ hr =>
      subst hfound
      have hfrees : Frees w env e i := .release e i hr
      exact h.release (fun q => hx.queued hact i q hfrees)
        fun q c => hx.orphan hact i q c hfrees
  | enqueue i q s hsel hev hst hp hr hq =>
      obtain ⟨hrem, hl⟩ := rewrites_remains hr hx.serves ht (h.passive i) (h.mode i)
      have hset : (t.set i ((t.pcb i).otherwise env i s).pcb).Serving := h.set hrem hl
      have hpast : (t.pcb i).state.pastOpen := by
        rw [hst]
        rfl
      have hover : ((t.pcb i).otherwise env i s).pcb.state ≠ .synReceived := by
        rcases handled_opening (arrivesOtherwise_handled _ _ _ _ _ _ _ _) hpast with ho | ho
        · exact absurd hq (by rw [Pcb.otherwise, ho.2]; simp)
        · exact (ne_of_opening ho).1
      refine hset.push ?_ ?_ ?_ fun hc => ?_
      · rw [Table.set_pcb_self, hrem.parent, hp]
      · rw [Table.set_pcb_self]
        intro hf
        rw [hrem.used.mp hf] at hst
        cases hst
      · rwa [Table.set_pcb_self]
      · rw [(set_remains hrem q).backlog] at hc
        exact h.ready q i hc hst
  | dequeue i c rest hb => exact h.pop hb
  | silent => exact h

/-- What is queued is up. -/
def Table.Lively (t : Table) : Prop :=
  ∀ q c, c ∈ (t.pcb q).backlog → (t.pcb c).state.synchronized

/-- What is queued afterwards has been up before. -/
theorem Table.Lively.before {q c : PcbId} (hl : t.Lively) (hm : Moves t t')
    (hc : c ∈ (t'.pcb q).backlog) : (t.pcb c).state.synchronized := by
  rcases hm.joins q with hq | ⟨d, hq, hd, -⟩
  · exact hl q c (hq.subset hc)
  · have hc' : c ∈ t.backlogs q ++ [d] := hq ▸ hc
    rw [List.mem_append, List.mem_singleton] at hc'
    rcases hc' with hc' | rfl
    · exact hl q c hc'
    · rw [hd]
      rfl

/-- **One edit** keeps up what is queued. -/
theorem edit_lively (h : t.Serving) (h' : t'.Serving) (hl : t.Lively) (hs : e.serves)
    (ht : e ≠ .timer) (hlis : ∀ tid q c, e = .user tid (.listen (tcpPcbId c)) → c ∉ (t.pcb q).backlog)
    (he : Edit w env e t t' eff) : t'.Lively := by
  intro q c hc
  have hm := edit_moves h hs ht he
  have hup : (t.pcb c).state.synchronized := hl.before hm hc
  have hu : (t'.pcb c).state ≠ .free := h'.used q c hc
  cases he with
  | rewrite i p' _ hr =>
      by_cases hci : c = i
      · subst hci
        rw [Table.set_pcb_self]
        refine rewrites_synchronized hr hs ht (fun tid hev => ?_) hup
        have hrem := (rewrites_remains hr hs ht (h.passive c) (h.mode c)).1
        rw [(set_remains hrem q).backlog] at hc
        exact hlis tid q c hev hc
      · rwa [Table.set_pcb_ne _ _ hci]
  | allocate i p' _ hi =>
      have hci : c ≠ i := by
        rintro rfl
        rw [firstFree_free hi] at hup
        cases hup
      rwa [Table.set_pcb_ne _ _ hci, Table.claim_pcb_ne _ hci]
  | spent _ _ _ _ _ he =>
      rw [he] at hs
      cases hs
  | release i =>
      rcases tcpPcbRelease_cases t i c with hz | ⟨-, hz⟩
      · rw [hz] at hu
        exact absurd rfl hu
      · rwa [hz]
  | enqueue i r s hsel hev hst hp hr hq =>
      rw [pushBacklog_state]
      by_cases hci : c = i
      · subst hci
        rw [Table.set_pcb_self]
        exact rewrites_synchronized hr hs ht (fun tid hev' => by rw [hev] at hev'; cases hev') hup
      · rwa [Table.set_pcb_ne _ _ hci]
  | dequeue i d rest hb =>
      have hstate := setBacklog_state t i rest c
      rw [Table.setBacklog] at hstate
      rwa [hstate]
  | silent => exact hup

end Edits

/-! ## The timer -/

/-- What the timer makes of a pcb that is not released with another. -/
def Pcb.afterTimer (env : Env) (i : PcbId) (p : Pcb) : Pcb :=
  if p.state = .free then p else if p.timewaitElapsed env then .zero else p.ticked env i

section Timer
variable {env : Env} {t : Table}

/-- Without a backlog a slot goes alone. -/
theorem linked_alone {i j : PcbId} (hb : (t.pcb i).backlog = []) (h : Linked t i j) : j = i := by
  rcases ReflTransGen.cases_head h with rfl | ⟨a, ha, -⟩
  · rfl
  · rw [hb] at ha
    exact absurd ha List.not_mem_nil

theorem afterTimer_backlog {p : Pcb} {i : PcbId} (h : p.timewaitElapsed env = false) :
    (p.afterTimer env i).backlog = p.backlog := by
  unfold Pcb.afterTimer
  split
  · rfl
  · rw [h, if_neg Bool.false_ne_true, Pcb.ticked, emitQueue_pcb]

/-- One round of the loop releases the slot, with everything below it, or works on
its pcb alone. -/
theorem timerSlot_pcb (env : Env) (t : Table) (i : PcbId) :
    (t.pcb i).timewaitElapsed env ∧ (timerSlot env t i).1 = tcpPcbRelease t i ∨
      (t.pcb i).timewaitElapsed env = false ∧
        (timerSlot env t i).1.pcb i = (t.pcb i).afterTimer env i ∧
          ∀ j, j ≠ i → (timerSlot env t i).1.pcb j = t.pcb j := by
  simp only [timerSlot, Pcb.afterTimer]
  by_cases hf : (t.pcb i).state = .free
  · refine .inr ⟨by simp [Pcb.timewaitElapsed, hf], ?_, ?_⟩
    · rw [if_pos hf, if_pos hf]
    · intro j _
      rw [if_pos hf]
  rw [if_neg hf]
  cases hel : (t.pcb i).timewaitElapsed env with
  | true => exact .inl ⟨rfl, by rw [if_pos rfl]⟩
  | false =>
      refine .inr ⟨rfl, ?_, ?_⟩
      · rw [if_neg Bool.false_ne_true, if_neg hf, if_neg Bool.false_ne_true, Table.set_pcb_self]
        rfl
      · intro j hj
        rw [if_neg Bool.false_ne_true, Table.set_pcb_ne _ _ hj]

theorem timerSlot_gen (i : PcbId) : (timerSlot env t i).1.gen = t.gen := by
  simp only [timerSlot]
  split
  · rfl
  split
  · exact tcpPcbRelease_gen t i
  · rfl

/-- Slot `j` hangs below a connection of the list whose TIME-WAIT is over. -/
def Table.Lapses (env : Env) (t : Table) (is : List PcbId) (j : PcbId) : Prop :=
  ∃ r ∈ is, (t.pcb r).timewaitElapsed env ∧ Linked t r j

/-- What does not hang below a released slot hangs where it hung. -/
theorem linked_release {i r j : PcbId} (hj : ¬ Linked t i j) (h : Linked t r j) :
    Linked (tcpPcbRelease t i) r j := by
  induction h with
  | refl => exact .refl
  | tail _ hb ih =>
      have ha := fun ha => hj (ReflTransGen.tail ha hb)
      refine (ih ha).tail ?_
      rwa [(tcpPcbRelease_pcb t i _).2 ha]

theorem lapses_release {i j : PcbId} {rest : List PcbId} (hel : (t.pcb i).timewaitElapsed env) :
    t.Lapses env (i :: rest) j ↔ Linked t i j ∨ (tcpPcbRelease t i).Lapses env rest j := by
  have hback (a : PcbId) : ((tcpPcbRelease t i).pcb a).backlog ⊆ (t.pcb a).backlog := by
    rcases tcpPcbRelease_cases t i a with hz | ⟨-, hz⟩
    · rw [hz]
      exact List.nil_subset _
    · rw [hz]
      exact fun _ h => h
  constructor
  · rintro ⟨r, hr, her, hl⟩
    by_cases hij : Linked t i j
    · exact .inl hij
    · have hir : ¬ Linked t i r := fun hir => hij (hir.trans hl)
      rcases List.mem_cons.mp hr with rfl | hr
      · exact absurd .refl hir
      · exact .inr ⟨r, hr, by rwa [(tcpPcbRelease_pcb t i r).2 hir], linked_release hij hl⟩
  · rintro (hij | ⟨r, hr, her, hl⟩)
    · exact ⟨i, List.mem_cons_self, hel, hij⟩
    · refine ⟨r, List.mem_cons_of_mem i hr, ?_, hl.mono hback⟩
      rcases tcpPcbRelease_cases t i r with hz | ⟨-, hz⟩
      · rw [hz] at her
        simp [Pcb.timewaitElapsed, Pcb.zero] at her
      · rwa [hz] at her

/-- **Every slot once.**  What hangs below a connection that is over is zeroed, and
of every other pcb the loop makes what the timer makes of it. -/
theorem timerLoop_pcb (env : Env) (is : List PcbId) : ∀ {t : Table}, is.Nodup → ∀ j,
    (t.Lapses env is j → (timerLoop env t is).1.pcb j = .zero) ∧
      (¬ t.Lapses env is j → (timerLoop env t is).1.pcb j =
        if j ∈ is then (t.pcb j).afterTimer env j else t.pcb j) := by
  induction is with
  | nil =>
      intro t _ j
      refine ⟨fun ⟨r, hr, _⟩ => absurd hr List.not_mem_nil, fun _ => ?_⟩
      rw [if_neg List.not_mem_nil]
      rfl
  | cons i rest ih =>
      intro t hnd j
      obtain ⟨hi, hnd'⟩ := List.nodup_cons.mp hnd
      have hloop : (timerLoop env t (i :: rest)).1 =
          (timerLoop env (timerSlot env t i).1 rest).1 := rfl
      rw [hloop]
      have hih := ih (t := (timerSlot env t i).1) hnd' j
      rcases timerSlot_pcb env t i with ⟨hel, hslot⟩ | ⟨hel, hself, hother⟩
      · rw [hslot] at hih ⊢
        rw [lapses_release hel]
        by_cases hij : Linked t i j
        · have hz : (tcpPcbRelease t i).pcb j = .zero := (tcpPcbRelease_pcb t i j).1 hij
          refine ⟨fun _ => ?_, fun hn => absurd (.inl hij) hn⟩
          by_cases hl : (tcpPcbRelease t i).Lapses env rest j
          · exact hih.1 hl
          · rw [hih.2 hl, hz]
            simp [Pcb.afterTimer, Pcb.zero]
        · have hji : j ≠ i := fun h => hij (h ▸ .refl)
          simp only [hij, false_or]
          refine ⟨hih.1, fun hn => ?_⟩
          rw [hih.2 hn, (tcpPcbRelease_pcb t i j).2 hij]
          simp [hji]
      · have hback (a : PcbId) : ((timerSlot env t i).1.pcb a).backlog = (t.pcb a).backlog := by
          by_cases ha : a = i
          · subst ha
            rw [hself]
            exact afterTimer_backlog hel
          · rw [hother a ha]
        have hlinked (r : PcbId) : Linked (timerSlot env t i).1 r j ↔ Linked t r j :=
          ⟨fun h => h.mono fun a => by rw [hback]; exact fun _ h => h,
            fun h => h.mono fun a => by rw [hback]; exact fun _ h => h⟩
        have hlapses : (timerSlot env t i).1.Lapses env rest j ↔ t.Lapses env (i :: rest) j := by
          constructor
          · rintro ⟨r, hr, her, hl⟩
            have hri : r ≠ i := fun h => hi (h ▸ hr)
            rw [hother r hri] at her
            exact ⟨r, List.mem_cons_of_mem i hr, her, (hlinked r).mp hl⟩
          · rintro ⟨r, hr, her, hl⟩
            rcases List.mem_cons.mp hr with rfl | hr
            · rw [hel] at her
              cases her
            · have hri : r ≠ i := fun h => hi (h ▸ hr)
              exact ⟨r, hr, by rwa [hother r hri], (hlinked r).mpr hl⟩
        rw [← hlapses]
        refine ⟨hih.1, fun hn => ?_⟩
        rw [hih.2 hn]
        by_cases hj : j = i
        · subst hj
          rw [if_neg hi, if_pos List.mem_cons_self, hself]
        · rw [hother j hj]
          simp [hj]

theorem timerLoop_gen (is : List PcbId) : ∀ {t : Table}, (timerLoop env t is).1.gen = t.gen := by
  induction is with
  | nil => intro t; rfl
  | cons i rest ih =>
      intro t
      rw [show (timerLoop env t (i :: rest)).1 = (timerLoop env (timerSlot env t i).1 rest).1 from rfl,
        ih, timerSlot_gen]

/-- **The table after the timer.** -/
theorem tcpTimer_pcb (env : Env) (t : Table) (j : PcbId) :
    (t.Lapses env slots j → (tcpTimer env t).1.pcb j = .zero) ∧
      (¬ t.Lapses env slots j → (tcpTimer env t).1.pcb j = (t.pcb j).afterTimer env j) := by
  obtain ⟨hz, hk⟩ := timerLoop_pcb env slots (t := t) (List.nodup_finRange 16) j
  rw [tcpTimer]
  refine ⟨hz, fun hn => ?_⟩
  rw [hk hn, if_pos (mem_slots j)]

/-- Whoever is in TIME-WAIT has nothing queued, and goes alone. -/
theorem Table.Consistent.timer_pcb (h : t.Consistent) (env : Env) (j : PcbId) :
    (tcpTimer env t).1.pcb j = (t.pcb j).afterTimer env j := by
  by_cases hl : t.Lapses env slots j
  · rw [(tcpTimer_pcb env t j).1 hl]
    obtain ⟨r, -, her, hrj⟩ := hl
    have hst : (t.pcb r).state = .timeWait := by
      simp only [Pcb.timewaitElapsed, Bool.and_eq_true, decide_eq_true_eq] at her
      exact her.1
    have hj : j = r := linked_alone (h.idle r (by rw [hst]; simp)) hrj
    subst hj
    simp [Pcb.afterTimer, her, hst]
  · exact (tcpTimer_pcb env t j).2 hl

/-- A pcb is released, or remains and perhaps is closed. -/
theorem afterTimer_cases (env : Env) (i : PcbId) (p : Pcb) :
    p.timewaitElapsed env ∧ p.afterTimer env i = .zero ∨
      p.timewaitElapsed env = false ∧ Remains p (p.afterTimer env i) ∧
        ((p.afterTimer env i).state = p.state ∨
          p.queue.any (·.expired env) ∧ (p.afterTimer env i).state = .closed) := by
  unfold Pcb.afterTimer
  by_cases hf : p.state = .free
  · rw [if_pos hf]
    exact .inr ⟨by simp [Pcb.timewaitElapsed, hf], .refl p, .inl rfl⟩
  rw [if_neg hf]
  cases hel : p.timewaitElapsed env with
  | true => exact .inl ⟨rfl, rfl⟩
  | false =>
      rw [if_neg Bool.false_ne_true, Pcb.ticked, emitQueue_pcb]
      refine .inr ⟨rfl, ?_, ?_⟩
      · cases hexp : p.queue.any (·.expired env) with
        | true => exact ⟨rfl, rfl, rfl, by simp [hf], by simp, by simp⟩
        | false => exact .of_state rfl rfl rfl (by simp)
      · cases hexp : p.queue.any (·.expired env) with
        | true => exact .inr ⟨rfl, by simp⟩
        | false => exact .inl (by simp)

/-- **The timer** leaves no pointer behind, if no queued connection is over and
no listener expires that has children which stay. -/
theorem Table.Serving.timer (h : t.Serving)
    (hq : ∀ q c, (t.pcb c).timewaitElapsed env → c ∉ (t.pcb q).backlog)
    (hd : ∀ q, (t.pcb q).state = .listen → (t.pcb q).queue.any (·.expired env) →
      (t.pcb q).backlog = [] ∧ ∀ c, (t.pcb c).state ≠ .free → (t.pcb c).parent = some q →
        (t.pcb c).timewaitElapsed env) : (tcpTimer env t).1.Serving := by
  have hpcb := h.toConsistent.timer_pcb env
  refine h.next (fun j => ?_) (fun c q hc hp hl => ?_) (fun q c _ hc => ?_) fun q hl hl' => ?_
  · rw [hpcb]
    rcases afterTimer_cases env j (t.pcb j) with ⟨-, hz⟩ | ⟨-, hr, -⟩
    · exact .inl hz
    · exact .inr hr
  · rw [hpcb] at hc ⊢
    rcases afterTimer_cases env c (t.pcb c) with ⟨-, hz⟩ | ⟨hel, hr, -⟩
    · rw [hz] at hc
      exact absurd rfl hc
    · rcases afterTimer_cases env q (t.pcb q) with ⟨helq, -⟩ | ⟨-, -, hs | ⟨hexp, -⟩⟩
      · simp [Pcb.timewaitElapsed, hl] at helq
      · rw [hs, hl]
      · rw [(hd q hl hexp).2 c (fun hf => hc (hr.used.mpr hf)) hp] at hel
        cases hel
  · rw [hpcb]
    rcases afterTimer_cases env c (t.pcb c) with ⟨hel, -⟩ | ⟨-, hr, -⟩
    · exact absurd hc (hq q c hel)
    · exact fun hf => h.used q c hc (hr.used.mp hf)
  · rw [hpcb] at hl' ⊢
    rcases afterTimer_cases env q (t.pcb q) with ⟨-, hz⟩ | ⟨-, hr, hs | ⟨hexp, -⟩⟩
    · rw [hz]
      rfl
    · exact absurd (hs.trans hl) hl'
    · rw [hr.backlog]
      exact (hd q hl hexp).1

theorem moves_timer (h : t.Consistent) : Moves t (tcpTimer env t).1 := by
  refine .of_remains (timerLoop_gen slots) fun j => ?_
  rw [h.timer_pcb]
  rcases afterTimer_cases env j (t.pcb j) with ⟨-, hz⟩ | ⟨-, hr, -⟩
  · exact .inl hz
  · exact .inr hr

end Timer

/-! ## One event -/

section Step
variable {w : World} {x : Env × Event} {t t' t'' : Table}

theorem Moves.congr (hs : SameButCond t t') (h : Moves t' t'') : Moves t t'' := by
  have heq (j : PcbId) : ∃ c, t'.pcb j = { t.pcb j with cond := c } := core_eq (hs.2 j)
  have hback (q : PcbId) : t'.backlogs q = t.backlogs q := by
    obtain ⟨c, hc⟩ := heq q
    rw [Table.backlogs, hc]
    rfl
  refine ⟨fun c => ?_, fun c hg hst => ?_, fun q => ?_⟩
  · rw [← hs.1]
    exact h.gen c
  · rw [← hs.state]
    exact h.fresh c (by rw [hg, hs.1]) hst
  · rw [← hback]
    refine (h.joins q).imp id fun ⟨c, hq, hst, hp⟩ => ⟨c, hq, ?_, ?_⟩
    · rwa [← hs.state]
    · obtain ⟨d, hd⟩ := heq c
      rwa [hd] at hp

theorem Moves.cond (h : Moves t t') (i : PcbId) (c : Cond) :
    Moves t (t'.set i { t'.pcb i with cond := c }) := by
  have heq (j : PcbId) : ∃ d, (t'.set i { t'.pcb i with cond := c }).pcb j =
      { t'.pcb j with cond := d } := core_eq ((sameButCond_set t' i c).2 j)
  refine ⟨h.gen, fun j hg hst => ?_, fun q => ?_⟩
  · obtain ⟨d, hd⟩ := heq j
    rw [hd] at hst
    exact h.fresh j hg hst
  · obtain ⟨d, hd⟩ := heq q
    rw [Table.backlogs, hd]
    exact h.joins q

theorem Table.Lively.cond (h : t.Lively) (i : PcbId) (c : Cond) :
    (t.set i { t.pcb i with cond := c }).Lively := by
  have heq (j : PcbId) : ∃ d, (t.set i { t.pcb i with cond := c }).pcb j =
      { t.pcb j with cond := d } := core_eq ((sameButCond_set t i c).2 j)
  intro q a ha
  obtain ⟨d, hd⟩ := heq q
  obtain ⟨d', hd'⟩ := heq a
  rw [hd] at ha
  rw [hd']
  exact h q a ha

theorem step_timer (hx : x.2 = .timer) : (w.step x).tab = (tcpTimer x.1 w.tab).1 := by
  simp only [World.step, hx, World.after]

/-- A server's event moves the table on. -/
theorem step_moves (h : w.tab.Serving) (hs : x.2.serves) : Moves w.tab (w.step x).tab := by
  by_cases ht : x.2 = .timer
  · rw [step_timer ht]
    exact moves_timer h.toConsistent
  · refine step_edits w x (fun t _ => Moves w.tab t) (.of_same (.refl _)) ?_ ?_
    · exact fun t eff i c hm => hm.cond i c
    · intro t t' eff eff' hb _ he
      have hsame : SameButCond w.tab t := (hb.once ht).2 ▸ found_same w x.2
      exact .congr hsame (edit_moves (h.same hsame) hs ht he)

/-- **One event** that leaves no pointer behind. -/
theorem step_serving (h : w.tab.Serving) (hx : Tidy w x) : (w.step x).tab.Serving := by
  by_cases ht : x.2 = .timer
  · rw [step_timer ht]
    have hact : w.acts x.2 := by
      rw [ht]
      intro tid c hc
      cases hc
    have hfound : w.found x.2 = w.tab := by
      rw [ht]
      rfl
    refine h.timer (fun q c hel => ?_) (hx.deadline ht)
    have hfrees : Frees w x.1 x.2 c := .release x.2 c (by rw [ht]; exact .elapsed hel)
    have hq := hx.queued hact c q hfrees
    rwa [hfound] at hq
  · refine step_edits w x (fun t _ => t.Serving) h ?_ ?_
    · exact fun t eff i c hm => hm.same (sameButCond_set t i c)
    · intro t t' eff eff' hb hserv he
      exact edit_serving hserv hx hb.acts ht (hb.once ht).2 he

/-- Nor does what is queued die. -/
theorem step_lively (h : w.tab.Serving) (hl : w.tab.Lively) (hx : Tidy w x) (hv : Lively w x) :
    (w.step x).tab.Lively := by
  by_cases ht : x.2 = .timer
  · have h' := step_serving h hx
    have hm := step_moves h hx.serves
    rw [step_timer ht] at h' hm ⊢
    intro q c hc
    have hup := hl.before hm hc
    have hold : c ∈ (w.tab.pcb q).backlog := by
      rw [h.toConsistent.timer_pcb] at hc
      rcases afterTimer_cases x.1 q (w.tab.pcb q) with ⟨-, hz⟩ | ⟨-, hr, -⟩
      · rw [hz] at hc
        exact absurd hc List.not_mem_nil
      · exact hr.backlog ▸ hc
    have hu := h'.used q c hc
    rw [h.toConsistent.timer_pcb] at hu ⊢
    rcases afterTimer_cases x.1 c (w.tab.pcb c) with ⟨-, hz⟩ | ⟨-, -, hs | ⟨hexp, -⟩⟩
    · rw [hz] at hu
      exact absurd rfl hu
    · rwa [hs]
    · rw [hv.deadline ht q c hold] at hexp
      cases hexp
  · have hP := step_edits w x (fun t _ => t.Serving ∧ t.Lively) ⟨h, hl⟩ ?_ ?_
    · exact hP.2
    · exact fun t eff i c hm => ⟨hm.1.same (sameButCond_set t i c), hm.2.cond i c⟩
    · intro t t' eff eff' hb hP he
      have h' := edit_serving hP.1 hx hb.acts ht (hb.once ht).2 he
      refine ⟨h', edit_lively hP.1 h' hP.2 hx.serves ht (fun tid q c hev hc => ?_) he⟩
      obtain ⟨d, hd⟩ := core_eq (hb.core ht q)
      rw [hd] at hc
      exact hv.listen tid q c hev hc

end Step

/-! ## `tcp_accept` -/

/-- The event runs `tcp_accept` of task `tid` on the pcb of slot `i`. -/
inductive Accepting (w : World) (tid : TaskId) : Event → PcbId → Prop
  | call (i : PcbId) : Accepting w tid (.user tid (.accept (tcpPcbId i))) i
  | again (b : Blocked) (hb : w.tasks tid = some b) (hw : b.wait = .accept) :
      Accepting w tid (.resume tid) b.pcb

/-- `tcp_accept` on the pcb of slot `i` returns the id of slot `c`. -/
def World.Returns (w : World) (x : Env × Event) (i c : PcbId) : Prop :=
  ∃ tid r, Accepting w tid x.2 i ∧ w.answer tid x = some r ∧ r.val = tcpPcbId c

section Accept
variable {w : World} {x : Env × Event} {t t' : Table} {i c : PcbId}

theorem acceptLoop_returns {r : Ret} (h : (acceptLoop t i).progress.answer = some r)
    (hc : r.val = tcpPcbId c) : ∃ rest, (t.pcb i).backlog = c :: rest ∧
      acceptLoop t i = ⟨t.setBacklog i rest, [], .returned r⟩ := by
  cases hb : (t.pcb i).backlog with
  | nil =>
      simp only [acceptLoop, hb] at h
      cases h
  | cons d rest =>
      simp only [acceptLoop, hb] at h ⊢
      cases h
      have hd : d = c := Fin.ext (Int.ofNat_inj.mp hc)
      subst hd
      exact ⟨rest, rfl, rfl⟩

/-- What is returned was the first of the backlog, and is taken off. -/
theorem returns_pop (h : w.Returns x i c) : ∃ rest, ((w.found x.2).pcb i).backlog = c :: rest ∧
    (w.step x).tab = (w.found x.2).setBacklog i rest := by
  obtain ⟨env, e⟩ := x
  obtain ⟨tid, r, ha, hr, hc⟩ := h
  cases ha with
  | call =>
      cases hb : w.tasks tid with
      | some b => simp [World.answer, callResult, hb] at hr
      | none =>
          simp only [World.answer, callResult, hb, Option.isSome_none, Bool.false_eq_true, if_false,
            if_true, Command.call, tcpAccept] at hr
          cases hid : socketPcb w.tab (tcpPcbId i) with
          | none =>
              simp only [hid] at hr
              cases hr
              cases hc
          | some j =>
              obtain ⟨hij, -⟩ := socketPcb_eq_some hid
              have hji : j = i := Fin.ext (Int.ofNat_inj.mp hij.symm)
              subst hji
              simp only [hid] at hr
              by_cases hl : (w.tab.pcb j).state = .listen
              · rw [if_pos hl] at hr
                obtain ⟨rest, hback, hloop⟩ := acceptLoop_returns hr hc
                refine ⟨rest, hback, ?_⟩
                simp only [World.step, callResult, hb, Option.isSome_none, Bool.false_eq_true,
                  if_false, Command.call, tcpAccept, hid, if_pos hl, hloop, World.finish,
                  World.after, World.found]
              · rw [if_neg hl] at hr
                cases hr
                cases hc
  | again b hb hw =>
      simp only [World.answer, callResult, hb, if_true, hw, Wait.retry] at hr
      obtain ⟨rest, hback, hloop⟩ := acceptLoop_returns hr hc
      refine ⟨rest, ?_, ?_⟩
      · simpa only [World.found, hb] using hback
      · simp only [World.step, callResult, hb, hw, Wait.retry, hloop, World.finish, World.after,
          World.found]

/-- The connection with number `g` of slot `c` has been handed out: nothing
queues it again. -/
def Handed (t : Table) (c : PcbId) (g : Nat) : Prop :=
  g ≤ t.gen c ∧ (t.gen c = g → (t.pcb c).state ≠ .synReceived ∧ ∀ q, c ∉ t.backlogs q)

theorem Handed.moves {g : Nat} (h : Handed t c g) (hm : Moves t t') : Handed t' c g := by
  refine ⟨h.1.trans (hm.gen c), fun hg => ?_⟩
  have hold : t.gen c = g := Nat.le_antisymm (hg ▸ hm.gen c) h.1
  obtain ⟨hs, hq⟩ := h.2 hold
  refine ⟨fun hs' => hs (hm.fresh c (hg.trans hold.symm) hs'), fun q hc => ?_⟩
  rcases hm.joins q with hsub | ⟨d, heq, hd, -⟩
  · exact hq q (hsub.subset hc)
  · rw [heq, List.mem_append, List.mem_singleton] at hc
    rcases hc with hc | rfl
    · exact hq q hc
    · exact hs hd

/-- **What `tcp_accept` returns** was queued on the listener, and is not queued
any more. -/
theorem returns_handed (h : w.tab.Serving) (hr : w.Returns x i c) :
    c ∈ (w.tab.pcb i).backlog ∧ Handed (w.step x).tab c (w.tab.gen c) := by
  obtain ⟨rest, hb, hstep⟩ := returns_pop hr
  have hsame := found_same w x.2
  have hserv : (w.found x.2).Serving := h.same hsame
  have hc : c ∈ ((w.found x.2).pcb i).backlog := by
    rw [hb]
    exact List.mem_cons_self
  refine ⟨?_, ?_⟩
  · obtain ⟨d, hd⟩ := core_eq (hsame.2 i)
    rwa [hd] at hc
  · rw [hstep, ← hsame.1]
    refine ⟨Nat.le_refl _, fun _ => ⟨?_, fun q => ?_⟩⟩
    · rw [setBacklog_state]
      exact hserv.ready i c hc
    · rw [setBacklog_backlogs]
      exact hserv.placed.popped hb q

/-- What has been handed out is not returned again. -/
theorem Handed.later {g : Nat} (h : Handed w.tab c g) (hs : w.tab.Serving) (hr : w.Returns x i c) :
    g < w.tab.gen c := by
  refine Nat.lt_of_le_of_ne h.1 fun hg => ?_
  exact (h.2 hg.symm).2 i (returns_handed hs hr).1

end Accept

/-! ## Runs -/

theorem boot_serving : World.boot.tab.Serving where
  parent c q hc := absurd rfl hc
  used q c hc := absurd hc List.not_mem_nil
  placed := placed_nil _
  idle q _ := rfl
  mode j hj := absurd rfl hj
  clean j _ := rfl
  passive j hj := by cases hj
  ready q c hc := absurd hc List.not_mem_nil

section Runs
variable {w : World} {es : List (Env × Event)}

theorem run_serving (h : w.tab.Serving) (hg : Guarded World.step Tidy w es) :
    (run World.step w es).tab.Serving :=
  inv_run (fun w => w.tab.Serving) (fun _ _ h hx => step_serving h hx) h hg

theorem run_handed {c : PcbId} {g : Nat} (h : w.tab.Serving) (hc : Handed w.tab c g)
    (hg : Guarded World.step Tidy w es) : Handed (run World.step w es).tab c g := by
  have hrun := inv_run (fun w : World => w.tab.Serving ∧ Handed w.tab c g)
    (fun _ _ h hx => ⟨step_serving h.1 hx, h.2.moves (step_moves h.1 hx.serves)⟩) ⟨h, hc⟩ hg
  exact hrun.2

theorem run_lively (h : w.tab.Serving) (hl : w.tab.Lively) (hg : Guarded World.step Tidy w es)
    (hv : Guarded World.step Lively w es) : (run World.step w es).tab.Lively := by
  have hrun := inv_run (fun w : World => w.tab.Serving ∧ w.tab.Lively)
    (fun _ _ h hx => ⟨step_serving h.1 hx.1, step_lively h.1 h.2 hx.1 hx.2⟩) ⟨h, hl⟩
    (guarded_and.mpr ⟨hg, hv⟩)
  exact hrun.2

end Runs

/-- An event that releases nothing, and is not the timer. -/
theorem Tidy.of_silent {w : World} {x : Env × Event} (hs : x.2.serves) (ht : x.2 ≠ .timer)
    (hf : ∀ r, ¬ Frees w x.1 x.2 r) : Tidy w x where
  serves := hs
  queued _ r _ h := absurd h (hf r)
  orphan _ r _ _ h := absurd h (hf r)
  deadline h := absurd h ht

/-- A server comes up and a peer asks for a connection. -/
def serverAsked : List (Env × Event) :=
  [(.ideal .zero 0 [], .user 1 .open), (.ideal .zero 0 [], .user 1 (.bind 0 sampleLocal)),
   (.ideal .zero 0 [], .user 1 (.listen 0)),
   (.ideal .zero 0 [], .segment (peerSegment 100 0 flgSyn []))]

/-- The handshake ends. -/
def peerAnswers : Env × Event :=
  (.ideal .zero 0 [], .segment (peerSegment 101 1 flgAck []))

/-- The server accepts. -/
def serverAccepts : Env × Event := (.ideal .zero 0 [], .user 1 (.accept 0))

/-- A segment that does not reset the connection it is for. -/
theorem not_frees_segment {w : World} {env : Env} {s : TcpSegment} {i : PcbId}
    (hsel : selected w.tab s = some i) (hr : (w.tab.pcb i).resetBy s.info s.flg = false)
    (hs : (w.tab.pcb i).state ≠ .synSent) (r : PcbId) : ¬ Frees w env (.segment s) r := by
  intro h
  cases h with
  | release _ _ h =>
      cases h with
      | reset _ hsel' h =>
          cases hsel.symm.trans hsel'
          rw [show w.found (.segment s) = w.tab from rfl, hr] at h
          cases h
      | refused _ hsel' h =>
          cases hsel.symm.trans hsel'
          exact hs h

theorem not_frees_user {w : World} {env : Env} {tid : TaskId} {c : Command} (hs : c.serves)
    (hc : ∀ id, c ≠ .close id) (r : PcbId) : ¬ Frees w env (.user tid c) r := by
  intro h
  cases h with
  | release _ _ h =>
      cases h with
      | closed => exact hc _ rfl
      | unconnected => cases hs
      | unsent => cases hs
  | spend => cases hs

end Laplus.Tcp
