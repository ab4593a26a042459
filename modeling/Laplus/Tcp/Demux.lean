/-
# `Laplus.Tcp.Demux` — which pcb gets a segment

`tcp_pcb_select` asks three things of a slot: the local endpoint matches, an
address of ANY included; the foreign endpoint is equal; and failing that, the
pcb listens and has no foreign endpoint.  It never asks whether the slot is in
use, and it takes the first slot that answers the first two.  What it should
do is `Demultiplexes`; where it does not is `Misdirects`.
-/
import Laplus.Tcp.Expected

namespace Laplus.Tcp

open Net Lib

/-! ## What a pcb says to a pair of endpoints -/

section Match
variable (p : Pcb) (l f : Endpoint)

/-- The local endpoint matches: the address is equal or ANY, the port equal. -/
def Pcb.isAt : Prop :=
  (p.localEp.addr = ipAddrAny ∨ p.localEp.addr = l.addr) ∧ p.localEp.port = l.port

/-- The test that ends the loop. -/
def Pcb.hits : Prop := p.isAt l ∧ p.foreignEp = f

/-- A listener for the local endpoint. -/
def Pcb.listensAt : Prop := p.state = .listen ∧ p.isAt l ∧ p.foreignEp = .zero

/-- A pcb in use with exactly these endpoints. -/
def Pcb.connects : Prop := p.state ≠ .free ∧ p.localEp = l ∧ p.foreignEp = f

instance : Decidable (p.isAt l) :=
  inferInstanceAs (Decidable ((p.localEp.addr = ipAddrAny ∨ p.localEp.addr = l.addr) ∧
    p.localEp.port = l.port))

instance : Decidable (p.hits l f) := inferInstanceAs (Decidable (p.isAt l ∧ p.foreignEp = f))

instance : Decidable (p.listensAt l) :=
  inferInstanceAs (Decidable (p.state = .listen ∧ p.isAt l ∧ p.foreignEp = .zero))

end Match

theorem Endpoint.eq_iff {e f : Endpoint} : e = f ↔ e.addr = f.addr ∧ e.port = f.port := by
  cases e
  cases f
  simp

theorem Pcb.connects.hits {p : Pcb} {l f : Endpoint} (h : p.connects l f) : p.hits l f :=
  ⟨⟨.inr (by rw [h.2.1]), by rw [h.2.1]⟩, h.2.2⟩

/-! ## The loop -/

section Loop
variable {t : Table} {l f : Endpoint} {i j : PcbId}

/-- The loop stops at the first hit, and otherwise answers the last listener. -/
inductive Selects (t : Table) (l f : Endpoint) (is : List PcbId) (acc : Option PcbId) :
    Option PcbId → Prop
  | hit (i : PcbId) (before after : List PcbId) (his : is = before ++ i :: after)
      (hi : (t.pcb i).hits l f) (hb : ∀ j ∈ before, ¬ (t.pcb j).hits l f) :
      Selects t l f is acc (some i)
  | listener (i : PcbId) (hi : i ∈ is) (hl : (t.pcb i).listensAt l)
      (hn : ∀ j ∈ is, ¬ (t.pcb j).hits l f) : Selects t l f is acc (some i)
  | nobody (hn : ∀ j ∈ is, ¬ (t.pcb j).hits l f) (hl : ∀ j ∈ is, ¬ (t.pcb j).listensAt l) :
      Selects t l f is acc acc

/-- One more slot in front that the loop passes over. -/
theorem Selects.skip {is : List PcbId} {acc r : Option PcbId} (h : Selects t l f is acc r)
    (hi : ¬ (t.pcb i).hits l f) (hl : ¬ (t.pcb i).listensAt l) :
    Selects t l f (i :: is) acc r := by
  cases h with
  | hit j before after his hj hb =>
      exact .hit j (i :: before) after (by rw [his]; rfl) hj (by simpa [hi] using hb)
  | listener j hj hlj hn => exact .listener j (List.mem_cons_of_mem _ hj) hlj (by simpa [hi] using hn)
  | nobody hn hn' => exact .nobody (by simpa [hi] using hn) (by simpa [hl] using hn')

/-- One more slot in front that the loop keeps as its listener. -/
theorem Selects.keep {is : List PcbId} {acc r : Option PcbId} (h : Selects t l f is (some i) r)
    (hi : ¬ (t.pcb i).hits l f) (hl : (t.pcb i).listensAt l) : Selects t l f (i :: is) acc r := by
  cases h with
  | hit j before after his hj hb =>
      exact .hit j (i :: before) after (by rw [his]; rfl) hj (by simpa [hi] using hb)
  | listener j hj hlj hn => exact .listener j (List.mem_cons_of_mem _ hj) hlj (by simpa [hi] using hn)
  | nobody hn _ => exact .listener i List.mem_cons_self hl (by simpa [hi] using hn)

theorem selectLoop_selects (is : List PcbId) (acc : Option PcbId) :
    Selects t l f is acc (selectLoop t l (some f) is acc) := by
  induction is generalizing acc with
  | nil => exact .nobody (by simp) (by simp)
  | cons i is ih =>
      simp only [selectLoop]
      split
      · rename_i hat
        split
        · rename_i hf
          exact .hit i [] is rfl ⟨hat, Endpoint.eq_iff.mpr hf⟩ (by simp)
        · rename_i hf
          have hn : ¬ (t.pcb i).hits l f := fun h => hf (Endpoint.eq_iff.mp h.2)
          split
          · rename_i hl
            exact (ih (some i)).keep hn ⟨hl.1, hat, Endpoint.eq_iff.mpr hl.2⟩
          · rename_i hl
            exact (ih acc).skip hn fun h => hl ⟨h.1, Endpoint.eq_iff.mp h.2.2⟩
      · rename_i hat
        exact (ih acc).skip (fun h => hat h.1) fun h => hat h.2.1

/-- The first slot in table order that ends the loop. -/
def FirstHit (t : Table) (l f : Endpoint) (i : PcbId) : Prop :=
  (t.pcb i).hits l f ∧ ∀ j < i, ¬ (t.pcb j).hits l f

theorem FirstHit.unique (h : FirstHit t l f i) (h' : FirstHit t l f j) : i = j := by
  rcases lt_trichotomy i j with hlt | heq | hlt
  · exact absurd h.1 (h'.2 i hlt)
  · exact heq
  · exact absurd h'.1 (h.2 j hlt)

/-- **What `tcp_pcb_select` answers**: the first hit; without a hit a listener;
without a listener nothing. -/
theorem tcpPcbSelect_cases (t : Table) (l f : Endpoint) :
    (∃ i, FirstHit t l f i ∧ tcpPcbSelect t l (some f) = some i) ∨
      (∀ j, ¬ (t.pcb j).hits l f) ∧
        ((∃ i, (t.pcb i).listensAt l ∧ tcpPcbSelect t l (some f) = some i) ∨
          (∀ j, ¬ (t.pcb j).listensAt l) ∧ tcpPcbSelect t l (some f) = none) := by
  have h : Selects t l f slots none (tcpPcbSelect t l (some f)) := selectLoop_selects slots none
  generalize tcpPcbSelect t l (some f) = r at h ⊢
  cases h with
  | hit i before after his hi hb =>
      refine .inl ⟨i, ⟨hi, fun j hj => hb j ?_⟩, rfl⟩
      -- the slots before `i` in the table are those before it in the list
      have hsort : (before ++ i :: after).Pairwise (· < ·) := his ▸ List.pairwise_lt_finRange 16
      have hmem : j ∈ before ++ i :: after := his ▸ mem_slots j
      rcases List.mem_append.mp hmem with h | h
      · exact h
      · rcases List.mem_cons.mp h with rfl | h
        · exact absurd hj (lt_irrefl _)
        · have hlt := List.rel_of_pairwise_cons (List.pairwise_append.mp hsort).2.1 h
          exact absurd (hj.trans hlt) (lt_irrefl _)
  | listener i _ hl hn => exact .inr ⟨fun j => hn j (mem_slots j), .inl ⟨i, hl, rfl⟩⟩
  | nobody hn hl =>
      exact .inr ⟨fun j => hn j (mem_slots j), .inr ⟨fun j => hl j (mem_slots j), rfl⟩⟩

theorem FirstHit.select (h : FirstHit t l f i) : tcpPcbSelect t l (some f) = some i := by
  rcases tcpPcbSelect_cases t l f with ⟨j, hj, hs⟩ | ⟨hn, -⟩
  · rw [hs, hj.unique h]
  · exact absurd h.1 (hn i)

end Loop

/-! ## Demultiplexing -/

/-- What the selection is for: a slot in use, the connection of the pair if
there is one, and otherwise a listener for the local endpoint. -/
structure Demultiplexes (t : Table) (l f : Endpoint) (r : Option PcbId) : Prop where
  used : ∀ i, r = some i → (t.pcb i).state ≠ .free
  connection : ∀ i, (t.pcb i).connects l f → r = some i
  listener : (∀ i, ¬ (t.pcb i).connects l f) →
    (∃ i, r = some i ∧ (t.pcb i).listensAt l) ∨ r = none ∧ ∀ i, ¬ (t.pcb i).listensAt l

/-- The first slot that ends the loop is not in use, or another slot is the
connection of the pair, or it has a local address of ANY and does not listen. -/
def Misdirects (t : Table) (l f : Endpoint) : Prop :=
  ∃ i, FirstHit t l f i ∧ ((t.pcb i).state = .free ∨
    (∃ j, j ≠ i ∧ (t.pcb j).connects l f) ∨
    (t.pcb i).localEp ≠ l ∧ ¬ (t.pcb i).listensAt l)

theorem demultiplexes_iff (t : Table) (l f : Endpoint) :
    Demultiplexes t l f (tcpPcbSelect t l (some f)) ↔ ¬ Misdirects t l f := by
  constructor
  · rintro h ⟨i, hi, hbad⟩
    have hs := hi.select
    rcases hbad with hf | ⟨j, hj, hc⟩ | ⟨hl, hn⟩
    · exact h.used i hs hf
    · have heq := h.connection j hc
      rw [hs] at heq
      exact hj (Option.some.inj heq).symm
    · by_cases hc : ∃ j, (t.pcb j).connects l f
      · obtain ⟨j, hc⟩ := hc
        have heq := h.connection j hc
        rw [hs] at heq
        cases heq
        exact hl hc.2.1
      · rcases h.listener fun j hj => hc ⟨j, hj⟩ with ⟨j, heq, hlis⟩ | ⟨heq, -⟩
        · rw [hs] at heq
          cases heq
          exact hn hlis
        · rw [hs] at heq
          cases heq
  · intro h
    rcases tcpPcbSelect_cases t l f with ⟨i, hi, hs⟩ | ⟨hn, hlis⟩
    · rw [hs]
      have hgood : (t.pcb i).state ≠ .free ∧ (∀ j, (t.pcb j).connects l f → j = i) ∧
          ((t.pcb i).localEp = l ∨ (t.pcb i).listensAt l) := by
        refine ⟨fun hf => h ⟨i, hi, .inl hf⟩, fun j hj => ?_, ?_⟩
        · by_contra hne
          exact h ⟨i, hi, .inr (.inl ⟨j, hne, hj⟩)⟩
        · by_contra hne
          rw [not_or] at hne
          exact h ⟨i, hi, .inr (.inr hne)⟩
      obtain ⟨hused, hconn, hlis⟩ := hgood
      refine ⟨?_, fun j hj => by rw [hconn j hj], fun hnone => .inl ⟨i, rfl, ?_⟩⟩
      · rintro j ⟨⟩
        exact hused
      · exact hlis.resolve_left fun hl => hnone i ⟨hused, hl, hi.1.2⟩
    · refine ⟨?_, fun i hc => absurd hc.hits (hn i), fun _ => ?_⟩
      · rcases hlis with ⟨i, hl, hs⟩ | ⟨-, hs⟩
        · rintro j hj
          rw [hs] at hj
          cases hj
          rw [hl.1]
          simp
        · rintro j hj
          rw [hs] at hj
          cases hj
      · rcases hlis with ⟨i, hl, hs⟩ | ⟨hl, hs⟩
        · exact .inl ⟨i, hs, hl⟩
        · exact .inr ⟨hs, hl⟩

/-! ## Slots not in use -/

/-- The segment ends the connection of slot `i`. -/
def Ends (t : Table) (s : TcpSegment) (i : PcbId) : Prop :=
  selected t s = some i ∧ ((t.pcb i).resetBy s.info s.flg ∨
    (t.pcb i).state = .synSent ∧ flgIsSet s.flg flgRst ∧
      synSentAcceptable (t.pcb i) s.info s.flg ∧ synSentBadAck (t.pcb i) s.info s.flg = false)

/-- A segment for a connection changes a slot that is not in use. -/
inductive Strays (env : Env) (t : Table) (s : TcpSegment) : Prop
  /-- It completes the handshake of a child whose listener has gone. -/
  | queue (i q : PcbId) (hsel : selected t s = some i) (hs : (t.pcb i).state = .synReceived)
      (hp : (t.pcb i).parent = some q) (hq : (t.pcb q).state = .free)
      (hr : (t.pcb i).reachesText s.info s.flg) (hm : env.calloc 0)
  /-- It ends a connection with such a slot still in its backlog. -/
  | sweep (i j : PcbId) (h : Ends t s i) (hl : Linked t i j) (hf : (t.pcb j).state = .free)
      (hz : t.pcb j ≠ .zero)

section Segment
variable {env : Env} {t : Table} {s : TcpSegment} {i q : PcbId}

theorem Releases.ends {w : World} (h : Releases w env t i (.segment s)) : Ends t s i := by
  cases h with
  | reset _ hsel h => exact ⟨hsel, .inl h⟩
  | refused _ hsel hs hf ha hb => exact ⟨hsel, .inr ⟨hs, hf, ha, hb⟩⟩

theorem resetBy_released {p : Pcb} {seg : SegmentInfo} {flags : UInt8} {data : List UInt8}
    {l f : Endpoint} (h : p.resetBy seg flags) :
    (arrivesOtherwise env i seg flags data l f p).released := by
  simp only [Pcb.resetBy, Bool.and_eq_true] at h
  obtain ⟨⟨hs, hacc⟩, h⟩ := h
  cases hrst : flgIsSet flags flgRst with
  | true => simp [arrivesOtherwise, hs, hacc, hrst]
  | false =>
      cases hsyn : flgIsSet flags flgSyn with
      | true => simp [arrivesOtherwise, hs, hacc, hrst, hsyn]
      | false =>
          simp only [hrst, hsyn, Bool.or_self, Bool.false_or, Bool.and_eq_true,
            decide_eq_true_eq] at h
          obtain ⟨⟨hlast, hack⟩, heq⟩ := h
          simp [arrivesOtherwise, hlast, PcbState.synchronized, hacc, hrst, hsyn, hack,
            arrivesAck, heq]

theorem arrive_ended (h : Ends t s i) : (arrive env t s).1 = tcpPcbRelease t i := by
  obtain ⟨hsel, hreset | ⟨hs, hrst, hacc, hbad⟩⟩ := h
  · have hpast : (t.pcb i).state.pastOpen := by
      simp only [Pcb.resetBy, Bool.and_eq_true] at hreset
      have hsync := hreset.1.1
      cases hst : (t.pcb i).state <;> simp_all [PcbState.synchronized, PcbState.pastOpen]
    have hh : Handled env i s.info s.flg s.data s.foreignEp s.localEp (t.pcb i)
        ((t.pcb i).otherwise env i s) := arrivesOtherwise_handled _ _ _ _ _ _ _ _
    have hr : ((t.pcb i).otherwise env i s).released := resetBy_released hreset
    rw [arrive_otherwise env hsel hpast]
    exact settle_released hr (handled_released hh hr).2.1 (handled_keeps hh).backlog
  · have hsel' : tcpPcbSelect t s.foreignEp (some s.localEp) = some i := hsel
    have ho : arrivesSynSent env i s.info s.flg s.foreignEp s.localEp (t.pcb i) =
        (Outcome.start (t.pcb i)).release := by
      simp [arrivesSynSent, hbad, hrst, hacc]
    simp only [arrive, tcpSegmentArrives, hsel', hs, ho]
    exact settle_released rfl rfl rfl

/-- A child is queued when its handshake is completed and there is memory. -/
theorem queued_reaches {o : Outcome} {p : Pcb} {seg : SegmentInfo} {flags : UInt8}
    {data : List UInt8} {l f : Endpoint} (h : Handled env i seg flags data l f p o)
    (hq : o.queued) : p.reachesText seg flags ∧ env.calloc 0 := by
  cases h with
  | dropped => simp at hq
  | answered => simp at hq
  | refused => simp at hq
  | reset h o ho => rcases ho with rfl | rfl <;> simp at hq
  | processed ha o ho =>
      simp only [arrivesText_queued] at hq
      cases ho with
      | opened hs hlo hhi =>
          refine ⟨by simp [Pcb.reachesText, ha, hs, hlo, hhi], ?_⟩
          simp only [Outcome.setPcb_queued, establish_queued, Outcome.start_pcb,
            Outcome.start_queued] at hq
          cases hp : p.parent with
          | none => simp [hp] at hq
          | some q => simpa [hp] using hq
      | shared => simp at hq
      | timeWait => split at hq <;> simp at hq
      | unused => simp at hq

theorem arrive_queued (hsel : selected t s = some i) (hs : (t.pcb i).state = .synReceived)
    (hp : (t.pcb i).parent = some q) (hne : q ≠ i) (hr : (t.pcb i).reachesText s.info s.flg)
    (hm : env.calloc 0) :
    (arrive env t s).1.pcb q = { t.pcb q with backlog := (t.pcb q).backlog ++ [i] } := by
  have hh : Handled env i s.info s.flg s.data s.foreignEp s.localEp (t.pcb i)
      ((t.pcb i).otherwise env i s) := arrivesOtherwise_handled _ _ _ _ _ _ _ _
  have hrel : ((t.pcb i).otherwise env i s).released = false := reached_kept hr
  have hqueued : ((t.pcb i).otherwise env i s).queued := by
    simp only [Pcb.reachesText, hs, Bool.and_eq_true, decide_eq_true_eq] at hr
    obtain ⟨ha, hlo, hhi⟩ := hr
    rw [Pcb.otherwise, arrivesOtherwise_opened hs ha hlo hhi, arrivesText_queued,
      Outcome.setPcb_queued, establish_queued]
    simp [hp, hm]
  rw [arrive_otherwise env hsel (by rw [hs]; rfl),
    settle_queued hrel hqueued ((handled_keeps hh).parent.trans hp), Table.pushBacklog,
    Table.set_pcb_self, Table.set_pcb_ne _ _ hne]

/-- A segment that is not misdirected and does not stray leaves a slot that is
not in use alone, or hands it out. -/
theorem free_untouched (hd : Demultiplexes t s.foreignEp s.localEp (selected t s))
    (hs : ¬ Strays env t s) (hf : (t.pcb i).state = .free) :
    (arrive env t s).1.pcb i = t.pcb i ∨ ((arrive env t s).1.pcb i).state ≠ .free := by
  have hsel : selected t s ≠ some i := fun h => hd.used i h hf
  have he := arrive_edit .boot env t s
  generalize (arrive env t s).1 = t' at he ⊢
  generalize (arrive env t s).2 = eff at he
  cases he with
  | rewrite j p' _ _ hj =>
      have hne : i ≠ j := fun h => hsel (h ▸ hj s rfl)
      exact .inl (Table.set_pcb_ne _ _ hne)
  | allocate j p' _ hfree ha =>
      by_cases hij : i = j
      · subst hij
        right
        rw [Table.set_pcb_self]
        cases ha with
        | child => rw [synTaken_pcb]; simp
      · exact .inl (by rw [Table.set_pcb_ne _ _ hij, Table.claim_pcb_ne _ hij])
  | spent j _ _ _ _ he => cases he
  | release j _ hr _ =>
      left
      by_cases hl : Linked t j i
      · have hz : t.pcb i = .zero := by
          by_contra hz
          exact hs (.sweep j i hr.ends hl hf hz)
        rw [(tcpPcbRelease_pcb t j i).1 hl, hz]
      · exact (tcpPcbRelease_pcb t j i).2 hl
  | enqueue j q s' hj hev hst hp _ hq =>
      cases hev
      have hne : i ≠ j := fun h => hsel (h ▸ hj)
      by_cases hiq : i = q
      · subst hiq
        obtain ⟨hreach, hm⟩ := queued_reaches (arrivesOtherwise_handled _ _ _ _ _ _ _ _) hq
        exact absurd (.queue j i hj hst hp hf hreach hm) hs
      · exact .inl (by rw [Table.pushBacklog, Table.set_pcb_ne _ _ hiq, Table.set_pcb_ne _ _ hne])
  | dequeue _ _ _ _ he => rcases he with ⟨_, he, -⟩ | ⟨_, _, he, -⟩ <;> cases he
  | silent => exact .inl rfl

theorem strays_touches (h : Strays env t s) : ∃ i, (t.pcb i).state = .free ∧
    (arrive env t s).1.pcb i ≠ t.pcb i ∧ ((arrive env t s).1.pcb i).state = .free := by
  cases h with
  | queue i q hsel hs hp hq hr hm =>
      have hne : q ≠ i := by
        rintro rfl
        rw [hs] at hq
        cases hq
      have hpcb := arrive_queued hsel hs hp hne hr hm
      refine ⟨q, hq, fun heq => ?_, by rw [hpcb]; exact hq⟩
      rw [hpcb] at heq
      exact absurd (congrArg (fun p : Pcb => p.backlog.length) heq) (by simp)
  | sweep i j h hl hf hz =>
      have hpcb : (arrive env t s).1.pcb j = .zero := by
        rw [arrive_ended h]
        exact (tcpPcbRelease_pcb t i j).1 hl
      exact ⟨j, hf, fun heq => hz (heq.symm.trans hpcb), by rw [hpcb]; rfl⟩

end Segment

/-! ## A segment without ports -/

/-- A FIN from port 0 of no host to port 0. -/
def portless : TcpSegment :=
  { seq := 5, ack := 0, flg := flgAck ||| flgFin, wnd := 0, data := [],
    localEp := .zero, foreignEp := ⟨7, 0⟩ }

end Laplus.Tcp
