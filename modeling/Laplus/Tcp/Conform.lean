/-
# `Laplus.Tcp.Conform` — the state diagram of RFC 793

`Edge` is the diagram, one constructor for each arrow between two states of a
connection.  A change of a pcb's state conforms when it is a path of arrows,
or ends the connection.  Three things break the rule, and nothing else does:
`tcp_listen` and `tcp_connect` do not look at the state, and in SYN-RECEIVED
an acknowledgement of `iss` itself passes for one of our SYN.
-/
import Laplus.Tcp.SendWindow

namespace Laplus.Tcp

open Net Lib Relation

/-! ## The diagram -/

/-- The arrows of the diagram.  The ones into CLOSED are left to `Conforms`. -/
inductive Edge : PcbState → PcbState → Prop
  | create : Edge .free .closed
  | passiveOpen : Edge .closed .listen
  | activeOpen : Edge .closed .synSent
  | sendOpen : Edge .listen .synSent
  | rcvSyn : Edge .listen .synReceived
  | rcvSynCrossing : Edge .synSent .synReceived
  | rcvSynAck : Edge .synSent .established
  | rcvAckOfSyn : Edge .synReceived .established
  | closeOpening : Edge .synReceived .finWait1
  | close : Edge .established .finWait1
  | rcvFin : Edge .established .closeWait
  | rcvAckOfFin : Edge .finWait1 .finWait2
  | rcvFinCrossing : Edge .finWait1 .closing
  | rcvFinLast : Edge .finWait2 .timeWait
  | rcvAckClosing : Edge .closing .timeWait
  | closeLast : Edge .closeWait .lastAck

/-- A path of the diagram, or the end of the connection: a close before it is
up, the acknowledgement of the last FIN, 2MSL, a reset, an abort, the
retransmission deadline. -/
def Conforms (s s' : PcbState) : Prop :=
  ReflTransGen Edge s s' ∨ s' = .closed ∨ s' = .free

/-- The connection has not been up yet. -/
def PcbState.rising : PcbState → Bool
  | .free | .closed | .listen | .synSent | .synReceived => true
  | _ => false

/-- The connection is up; from below one gets here through ESTABLISHED. -/
def PcbState.up : PcbState → Bool
  | .established | .closeWait => true
  | _ => false

/-- What the diagram asks of a change from `p` to `p'`. -/
structure Pcb.Follows (p p' : Pcb) : Prop where
  path : Conforms p.state p'.state
  acked : p.state.rising → p'.state.up → p'.iss < p'.snd.una

/-- Where `tcp_connect` sends from: the address and the port it settles on. -/
def sourceEndpoint (env : Env) (t : Table) (pcb : Pcb) (foreignEp : Endpoint) : Option Endpoint :=
  (pcb.source env foreignEp).map fun addr =>
    ⟨addr, if pcb.localEp.port = 0 then sourcePort t addr foreignEp else pcb.localEp.port⟩

/-- The three ways off the diagram. -/
inductive Breach (w : World) (env : Env) : Event → Prop
  /-- `tcp_listen` on a pcb that is neither CLOSED nor listening. -/
  | listen (tid : TaskId) (i : PcbId) (hm : (w.tab.pcb i).mode = .socket)
      (hs : (w.tab.pcb i).state.live) : Breach w env (.user tid (.listen (tcpPcbId i)))
  /-- `tcp_connect` on a connection, and its SYN goes out. -/
  | connect (tid : TaskId) (i : PcbId) (f l : Endpoint) (hm : (w.tab.pcb i).mode = .socket)
      (hs : (w.tab.pcb i).state.synchronized)
      (hl : sourceEndpoint env w.tab (w.tab.pcb i) f = some l)
      (ho : tcpOutputSegment env
        (({ w.tab.pcb i with localEp := l, foreignEp := f }.opening env).segment flgSyn [])) :
      Breach w env (.user tid (.connect (tcpPcbId i) f))
  /-- In SYN-RECEIVED, the acknowledgement of `snd.una`. -/
  | ack (s : TcpSegment) (i : PcbId) (hsel : selected w.tab s = some i)
      (hs : (w.tab.pcb i).state = .synReceived)
      (ha : (w.tab.pcb i).admits s.info s.flg) (hack : s.ack = (w.tab.pcb i).snd.una)
      (hle : s.ack ≤ (w.tab.pcb i).snd.nxt) : Breach w env (.segment s)

/-! ## Paths -/

theorem Edge.live {s s' : PcbState} (h : Edge s s') (hs : s.live) : s'.live := by
  cases h <;> simp_all [PcbState.live, PcbState.synchronized]

theorem Edge.synchronized {s s' : PcbState} (h : Edge s s') (hs : s.synchronized) :
    s'.synchronized := by
  cases h <;> simp_all [PcbState.synchronized]

theorem not_up_of_rising {s : PcbState} (h : s.rising) : s.up = false := by
  cases s <;> simp_all [PcbState.rising, PcbState.up]

theorem path_keeps {s s' : PcbState} {P : PcbState → Bool}
    (hP : ∀ s s', Edge s s' → P s → P s') (h : ReflTransGen Edge s s') (hs : P s) : P s' := by
  induction h with
  | refl => exact hs
  | tail _ he ih => exact hP _ _ he ih

/-- A connection does not go back to LISTEN. -/
theorem not_conforms_listen {s : PcbState} (hs : s.live) : ¬ Conforms s .listen := by
  rintro (h | h | h)
  · exact absurd (path_keeps (fun _ _ => Edge.live) h hs) (by decide)
  · cases h
  · cases h

/-- A connection whose peer has been heard does not go back to SYN-SENT. -/
theorem not_conforms_synSent {s : PcbState} (hs : s.synchronized) : ¬ Conforms s .synSent := by
  rintro (h | h | h)
  · exact absurd (path_keeps (fun _ _ => Edge.synchronized) h hs) (by decide)
  · cases h
  · cases h

section Follows
variable {p p' : Pcb}

theorem Pcb.Follows.of_state (h : p'.state = p.state) : p.Follows p' where
  path := .inl (h ▸ .refl)
  acked hr hu := by
    rw [h, not_up_of_rising hr] at hu
    cases hu

theorem Pcb.Follows.of_end (h : p'.state = .closed ∨ p'.state = .free) : p.Follows p' where
  path := .inr h
  acked _ hu := by rcases h with h | h <;> rw [h] at hu <;> exact absurd hu (by decide)

/-- A path that does not come up from below. -/
theorem Pcb.Follows.of_path (h : ReflTransGen Edge p.state p'.state)
    (hn : p.state.rising = false ∨ p'.state.up = false) : p.Follows p' where
  path := .inl h
  acked hr hu := by rcases hn with hn | hn <;> simp_all

/-- One arrow. -/
theorem Pcb.Follows.of_edge {s s' : PcbState} (hp : p.state = s) (hp' : p'.state = s')
    (h : Edge s s') (hn : s.rising = false ∨ s'.up = false) : p.Follows p' :=
  .of_path (by rw [hp, hp']; exact .single h) (by rwa [hp, hp'])

end Follows

/-! ## The handler -/

section Handler
variable {env : Env} {i : PcbId} {seg : SegmentInfo} {flags : UInt8} {data : List UInt8}
  {l f : Endpoint} {p : Pcb}

/-- Until it is acknowledged `snd.una` is `iss`. -/
def Pcb.Initial (p : Pcb) : Prop :=
  p.state = .synSent ∨ p.state = .synReceived → p.snd.una = p.iss

theorem fin_path (p : Pcb) (seg : SegmentInfo) : ReflTransGen Edge p.state (p.finState seg) := by
  unfold Pcb.finState
  cases hs : p.state with
  | synReceived => exact .tail (.single .rcvAckOfSyn) .rcvFin
  | established => exact .single .rcvFin
  | finWait1 =>
      simp only []
      split
      · exact .tail (.single .rcvAckOfFin) .rcvFinLast
      · exact .single .rcvFinCrossing
  | finWait2 => exact .single .rcvFinLast
  | _ => exact .refl

theorem text_path (i : PcbId) (data : List UInt8) (o : Outcome) :
    ReflTransGen Edge o.pcb.state (arrivesText env i seg flags data o).pcb.state := by
  rw [arrivesText_state]
  split
  · exact fin_path _ _
  · exact .refl

theorem arrivesText_iss (o : Outcome) : (arrivesText env i seg flags data o).pcb.iss = o.pcb.iss :=
  (arrivesText_keeps env i seg flags data o).iss

theorem handled_follows {o : Outcome} (h : Handled env i seg flags data l f p o)
    (hr : o.released = false) (hst : p.state.pastOpen) (hi : p.Initial)
    (hb : p.state = .synReceived → p.admits seg flags → seg.ack ≤ p.snd.nxt →
      seg.ack ≠ p.snd.una) : p.Follows o.pcb := by
  have hh := h
  cases h with
  | dropped => exact .of_state rfl
  | answered => exact .of_state (by rw [Outcome.output_pcb, tcpOutput_pcb]; rfl)
  | refused => exact .of_state rfl
  | reset => simp at hr
  | processed ha o ho =>
      cases ho with
      | opened hs hlo hhi =>
          have hne := hb hs ha hhi
          have hlt : p.snd.una < seg.ack := UInt32.lt_of_le_of_ne hlo (Ne.symm hne)
          have hfresh : { p with state := .established }.freshAck seg := by
            simp [Pcb.freshAck, hlt, hhi]
          set o := (establish env i (.start p)).setPcb ({ p with state := .established }.acked seg)
            with ho
          refine ⟨.inl ?_, fun _ _ => ?_⟩
          · rw [hs]
            exact .trans (.single .rcvAckOfSyn) (text_path i data o)
          · have hiss : o.pcb.iss = p.iss := rfl
            have huna : o.pcb.snd.una = seg.ack := by
              rw [ho, Outcome.setPcb_pcb, Pcb.acked_fresh hfresh]
              exact updateWindow_una _ _
            rw [arrivesText_iss, arrivesText_snd, hiss, huna, ← hi (.inr hs)]
            exact hlt
      | shared hs hack =>
          refine .of_path (.trans ?_ (text_path _ _ _)) (.inl ?_)
          · have hstart : ((Outcome.start p).setPcb (p.acked seg)).pcb.state = p.state := rfl
            rw [ackedFin_state, hstart]
            split
            · cases hp : p.state with
              | finWait1 => exact .single .rcvAckOfFin
              | closing => exact .single .rcvAckClosing
              | _ => exact .refl
            · exact .refl
          · cases hp : p.state <;> simp_all [PcbState.acking, PcbState.rising]
      | timeWait hs =>
          refine .of_path (.trans ?_ (text_path _ _ _)) (.inl (by rw [hs]; rfl))
          split <;> exact .refl
      | unused hs =>
          have hfree : p.state = .free := free_of_pastOpen hst hs
          exact .of_end (.inr (handled_free hh hfree))

theorem synSent_follows {o : Outcome} (h : SynSentHandled env i seg flags l f p o)
    (hr : o.released = false) (hs : p.state = .synSent) : p.Follows o.pcb := by
  cases h with
  | dropped => exact .of_state rfl
  | refused => exact .of_state rfl
  | reset => simp at hr
  | taken _ _ _ o _ _ ho =>
      cases ho with
      | established hlow heq _ =>
          rw [heq]
          exact ⟨.inl (by rw [hs]; exact .single .rcvSynAck), fun _ _ => hlow⟩
      | crossed _ heq _ =>
          rw [heq]
          exact .of_edge hs rfl .rcvSynCrossing (.inr rfl)

end Handler

/-! ## Until it is acknowledged -/

/-- The handshake is under way. -/
def PcbState.opening : PcbState → Bool
  | .synSent | .synReceived => true
  | _ => false

theorem Pcb.Initial.of_state {p : Pcb} (h : p.state.opening = false) : p.Initial := by
  rintro (hs | hs) <;> rw [hs] at h <;> cases h

theorem finState_opening (p : Pcb) (seg : SegmentInfo) (h : p.state.opening = false) :
    (p.finState seg).opening = false := by
  unfold Pcb.finState
  cases hs : p.state with
  | finWait1 => simp only []; split <;> rfl
  | synSent | synReceived => rw [hs] at h; cases h
  | _ => rfl

theorem passed_opening {env : Env} {i : PcbId} {seg : SegmentInfo} {flags : UInt8} {p : Pcb}
    {o : Outcome} (h : Passed env i seg flags p o) (hs : p.state.pastOpen) :
    o.pcb.state.opening = false := by
  cases h with
  | opened => rfl
  | shared ha =>
      rw [ackedFin_state]
      have hp : ((Outcome.start p).setPcb (p.acked seg)).pcb.state = p.state := rfl
      rw [hp]
      cases h : p.state with
      | synSent | synReceived => rw [h] at ha; exact absurd ha (by decide)
      | _ => split <;> rfl
  | timeWait ht => split <;> simp [Outcome.setTimewaitTimer, ht, PcbState.opening]
  | unused hu => rw [Outcome.start_pcb, free_of_pastOpen hs hu]; rfl

theorem handled_initial {env : Env} {i : PcbId} {seg : SegmentInfo} {flags : UInt8}
    {data : List UInt8} {l f : Endpoint} {p : Pcb} {o : Outcome}
    (h : Handled env i seg flags data l f p o) (hs : p.state.pastOpen) (hi : p.Initial) :
    o.pcb.Initial := by
  cases h with
  | dropped => exact hi
  | answered =>
      rw [Outcome.output_pcb, tcpOutput_pcb]
      exact hi
  | refused => exact hi
  | reset => exact .of_state rfl
  | processed _ o ho =>
      refine .of_state ?_
      rw [arrivesText_state]
      split
      · exact finState_opening _ _ (passed_opening ho hs)
      · exact passed_opening ho hs

theorem synSent_initial {env : Env} {i : PcbId} {seg : SegmentInfo} {flags : UInt8}
    {l f : Endpoint} {p : Pcb} {o : Outcome} (h : SynSentHandled env i seg flags l f p o)
    (hs : p.state = .synSent) (hi : p.Initial) : o.pcb.Initial := by
  cases h with
  | dropped => exact hi
  | refused => exact hi
  | reset => exact .of_state rfl
  | taken _ _ _ o _ _ ho =>
      cases ho with
      | established _ heq => rw [heq]; exact .of_state rfl
      | crossed hle heq =>
          rw [heq]
          intro _
          show (synSentSyn p seg (synSentAcceptable p seg flags)).snd.una =
            (synSentSyn p seg (synSentAcceptable p seg flags)).iss
          have huna : p.snd.una = p.iss := hi (.inl hs)
          cases hacc : synSentAcceptable p seg flags with
          | false => exact huna
          | true =>
              -- the acknowledgement is not beyond `iss`, nor is it before
              have hge : p.snd.una ≤ seg.ack := by
                simp only [synSentAcceptable, Bool.and_eq_true, decide_eq_true_eq] at hacc
                exact hacc.2.1
              have hle' : seg.ack ≤ p.iss := by
                rw [hacc] at hle
                exact UInt32.not_lt.mp hle
              exact UInt32.le_antisymm hle' (huna ▸ hge)

theorem initial_slotwise (w : World) (env : Env) (e : Event) :
    Slotwise w (env, e) Pcb.Initial where
  zero := .of_state rfl
  cond _ _ h := h
  backlog _ _ h := h
  rewrite t eff i p' eff' _ _ h hi := by
    cases h with
    | synSent s hs => exact synSent_initial (arrivesSynSent_handled _ _ _ _ _ _ _) hs hi
    | otherwise s hs => exact handled_initial (arrivesOtherwise_handled _ _ _ _ _ _ _ _) hs hi
    | passive => rw [synTaken_pcb]; exact fun _ => rfl
    | ticked =>
        rw [Pcb.ticked, emitQueue_pcb]
        show _ ∨ _ → _
        split
        · rintro (h | h) <;> cases h
        · exact hi
    | connecting => exact fun _ => rfl
    | bound => exact hi
    | listening => exact .of_state rfl
    | sent dev data n =>
        rw [burst_keeps (burst_bursts env dev (t.pcb i) data n)]
        exact hi
    | received => exact hi
    | closing _ s hs =>
        refine .of_state ?_
        rcases hs with ⟨-, rfl⟩ | ⟨-, rfl⟩ <;> rfl
  allocate t i p' eff hf h hi := by
    cases h with
    | «open» => exact .of_state (by simp [PcbState.opening])
    | passive => exact .of_state rfl
    | active => exact fun _ => rfl
    | child => rw [synTaken_pcb]; exact fun _ => rfl

theorem initial_reachable (es : List (Env × Event)) (i : PcbId) :
    ((run World.step .boot es).tab.pcb i).Initial :=
  inv_run (fun w : World => ∀ i, (w.tab.pcb i).Initial)
    (fun w x h _ => (initial_slotwise w x.1 x.2).step h) (fun _ => .of_state rfl)
    (guarded_true World.step .boot es) i

/-! ## Edits -/

section Edits
variable {w : World} {env : Env} {e : Event} {i : PcbId} {t t' : Table} {eff eff' : List Effect}
  {p' : Pcb}

/-- **A pcb that changes in place** follows the diagram. -/
theorem rewrites_follows (hb : Before w (env, e) t eff)
    (hsel : ∀ s, e = .segment s → selected t s = some i)
    (h : Rewrites w env i (t.pcb i) e p' eff') (hi : (t.pcb i).Initial)
    (hcon : ∀ tid id f, e ≠ .user tid (.connect id f)) (hq : ¬ Breach w env e) :
    (t.pcb i).Follows p' := by
  cases h with
  | synSent s hs hr => exact synSent_follows (arrivesSynSent_handled _ _ _ _ _ _ _) hr hs
  | otherwise s hs hr =>
      obtain rfl := hb.segment s rfl
      exact handled_follows (arrivesOtherwise_handled _ _ _ _ _ _ _ _) hr hs hi
        fun hst ha hle hack => hq (.ack s i (hsel s rfl) hst ha hack hle)
  | passive s hs =>
      rw [synTaken_pcb]
      exact .of_edge hs rfl .rcvSyn (.inr rfl)
  | ticked hs =>
      rcases ticked_state env i (t.pcb i) with hst | hst
      · exact .of_end (.inl hst)
      · exact .of_state hst
  | connecting tid => exact absurd rfl (hcon tid _ _)
  | bound => exact .of_state rfl
  | listening tid hs hm =>
      have ht : t = w.tab := (hb.once (by simp)).2
      subst ht
      have hlive : (w.tab.pcb i).state.live = false := by
        rw [← Bool.not_eq_true]
        exact fun hl => hq (.listen tid i hm hl)
      cases hst : (w.tab.pcb i).state with
      | closed => exact .of_edge hst rfl .passiveOpen (.inr rfl)
      | listen => exact .of_state hst.symm
      | free => exact absurd hst hs
      | _ => rw [hst] at hlive; exact absurd hlive (by decide)
  | sent dev data n he hs =>
      refine .of_state ?_
      rw [burst_keeps (burst_bursts env dev (t.pcb i) data n)]
  | received => exact .of_state rfl
  | closing tid s hs =>
      rcases hs with ⟨hs | hs, rfl⟩ | ⟨hs, rfl⟩
      · exact .of_edge hs rfl .closeOpening (.inr rfl)
      · exact .of_edge hs rfl .close (.inr rfl)
      · exact .of_edge hs rfl .closeLast (.inr rfl)

theorem allocates_follows (hf : (t.pcb i).state = .free) (h : Allocates env t i e p' eff') :
    (t.pcb i).Follows p' := by
  cases h with
  | «open» => exact .of_end (.inl (by simp))
  | passive =>
      refine .of_path ?_ (.inr rfl)
      rw [hf]
      exact .tail (.single .create) .passiveOpen
  | active =>
      refine .of_path ?_ (.inr rfl)
      rw [hf]
      exact .tail (.single .create) .activeOpen
  | child =>
      rw [synTaken_pcb]
      refine .of_path ?_ (.inr rfl)
      rw [hf]
      exact .tail (.tail (.single .create) .passiveOpen) .rcvSyn

/-- **One edit** follows the diagram in every slot. -/
theorem edit_follows (hb : Before w (env, e) t eff) (hi : ∀ j, (t.pcb j).Initial)
    (hcon : ∀ tid id f, e ≠ .user tid (.connect id f)) (hq : ¬ Breach w env e)
    (he : Edit w env e t t' eff') (j : PcbId) : (t.pcb j).Follows (t'.pcb j) := by
  have hslot := he.slot j
  generalize t'.pcb j = p' at hslot ⊢
  cases hslot with
  | zeroed => exact .of_end (.inr rfl)
  | kept b => exact .of_state rfl
  | rewritten p' _ b hr hsel =>
      have h := rewrites_follows hb hsel hr (hi j) hcon hq
      exact ⟨h.path, h.acked⟩
  | allocated p' _ hf ha => exact allocates_follows hf ha

/-- The timer keeps the state of a pcb or ends the connection. -/
theorem timer_edit_state (he : Edit w env .timer t t' eff') (j : PcbId) :
    (t'.pcb j).state = (t.pcb j).state ∨ (t'.pcb j).state = .closed ∨
      (t'.pcb j).state = .free := by
  cases he with
  | rewrite i p' _ hr =>
      by_cases hj : j = i
      · subst hj
        rw [Table.set_pcb_self]
        cases hr with
        | ticked hs =>
            rcases ticked_state env j (t.pcb j) with h | h
            · exact .inr (.inl h)
            · exact .inl h
        | sent _ _ _ hon => exact absurd hon.isCall (by simp [Event.isCall])
        | received _ hcall => cases hcall
      · rw [Table.set_pcb_ne _ _ hj]
        exact .inl rfl
  | allocate i p' _ hf ha => cases ha
  | spent i hf tid l f hev => cases hev
  | release i _ _ _ =>
      rcases tcpPcbRelease_cases t i j with hz | ⟨-, hz⟩
      · exact .inr (.inr (by rw [hz]; rfl))
      · exact .inl (by rw [hz])
  | enqueue i c s hsel hev => cases hev
  | dequeue i c rest hb hev => rcases hev with ⟨_, h, -⟩ | ⟨_, _, h, -⟩ <;> cases h
  | silent => exact .inl rfl

end Edits

/-! ## `tcp_connect` -/

section Connect
variable {env : Env} {t : Table} {i : PcbId} {id : Int} {f l : Endpoint}

/-- With an address to send from, `tcp_connect` sends its SYN or gives up the slot. -/
theorem tcpConnect_tab (hid : socketPcb t id = some i)
    (hl : sourceEndpoint env t (t.pcb i) f = some l) :
    (tcpConnect env t id f).tab =
      if tcpOutputSegment env
          (({ t.pcb i with localEp := l, foreignEp := f }.opening env).segment flgSyn []) then
        t.set i ({ t.pcb i with localEp := l, foreignEp := f }.opened env)
      else tcpPcbRelease t i := by
  obtain ⟨addr, ha, rfl⟩ := Option.map_eq_some_iff.mp hl
  simp only [tcpConnect, hid, ha]
  rw [sendSyn_eq _ _ _ _ _ (by rfl)]
  exact apply_ite CallResult.tab _ _ _

theorem tcpConnect_refused (h : socketPcb t id = none ∨
    ∃ i, socketPcb t id = some i ∧ sourceEndpoint env t (t.pcb i) f = none) :
    (tcpConnect env t id f).tab = t := by
  rcases h with h | ⟨i, h, hl⟩
  · simp only [tcpConnect, h, CallResult.ret]
  · simp only [sourceEndpoint, Option.map_eq_none_iff] at hl
    simp only [tcpConnect, h, hl, CallResult.ret]

theorem connect_follows {w : World} {tid : TaskId}
    (hq : ¬ Breach w env (.user tid (.connect id f))) (j : PcbId) :
    (w.tab.pcb j).Follows ((tcpConnect env w.tab id f).tab.pcb j) := by
  cases hid : socketPcb w.tab id with
  | none => exact .of_state (by rw [tcpConnect_refused (.inl hid)])
  | some i =>
      cases hl : sourceEndpoint env w.tab (w.tab.pcb i) f with
      | none => exact .of_state (by rw [tcpConnect_refused (.inr ⟨i, hid, hl⟩)])
      | some l =>
          obtain ⟨rfl, hs, hm⟩ := socketPcb_eq_some hid
          rw [tcpConnect_tab hid hl]
          split
          · rename_i ho
            by_cases hj : j = i
            · subst hj
              rw [Table.set_pcb_self]
              have hsync : (w.tab.pcb j).state.synchronized = false := by
                rw [← Bool.not_eq_true]
                exact fun h => hq (.connect tid j f l hm h hl ho)
              cases hst : (w.tab.pcb j).state with
              | closed => exact .of_edge hst rfl .activeOpen (.inr rfl)
              | listen => exact .of_edge hst rfl .sendOpen (.inr rfl)
              | synSent => exact .of_state hst.symm
              | free => exact absurd hst hs
              | _ => rw [hst] at hsync; cases hsync
            · exact .of_state (by rw [Table.set_pcb_ne _ _ hj])
          · rcases tcpPcbRelease_cases w.tab i j with hz | ⟨-, hz⟩
            · exact .of_end (.inr (by rw [hz]; rfl))
            · exact .of_state (by rw [hz])

end Connect

/-! ## One event -/

theorem Pcb.Follows.congr {p p' q q' : Pcb} (hp : q.core = p.core) (hp' : q'.core = p'.core)
    (h : p.Follows p') : q.Follows q' := by
  obtain ⟨c, rfl⟩ := core_eq hp
  obtain ⟨c', rfl⟩ := core_eq hp'
  exact ⟨h.path, h.acked⟩

/-- **An event that is no breach** follows the diagram in every slot. -/
theorem step_follows {w : World} {env : Env} {e : Event} (hi : ∀ j, (w.tab.pcb j).Initial)
    (hq : w.acts e → ¬ Breach w env e) (j : PcbId) :
    (w.tab.pcb j).Follows ((w.step (env, e)).tab.pcb j) := by
  have kept {t t' : Table} {eff eff' : List Effect} (hb : Before w (env, e) t eff)
      (h : ∀ j, (t.pcb j).Initial) (he : Edit w env e t t' eff') : ∀ j, (t'.pcb j).Initial :=
    (initial_slotwise w env e).edit hb h he
  by_cases htimer : e = .timer
  · subst htimer
    have h := step_edits w (env, .timer) (fun t _ => ∀ j,
      (t.pcb j).state = (w.tab.pcb j).state ∨ (t.pcb j).state = .closed ∨
        (t.pcb j).state = .free) (fun _ => .inl rfl)
      (fun t _ i c h j => by
        by_cases hj : j = i
        · subst hj
          simpa using h j
        · simpa [hj] using h j)
      (fun t t' _ _ _ h he j => by
        rcases timer_edit_state he j with hs | hs
        · rw [hs]
          exact h j
        · exact .inr hs) j
    rcases h with h | h
    · exact .of_state h
    · exact .of_end h
  by_cases hcon : ∃ tid id f, e = .user tid (.connect id f)
  · obtain ⟨tid, id, f, rfl⟩ := hcon
    by_cases hbusy : (w.tasks tid).isSome
    · simp only [World.step, callResult, if_pos hbusy]
      exact .of_state rfl
    · simp only [World.step, callResult, if_neg hbusy]
      have hact : w.acts (.user tid (.connect id f)) := by
        rintro tid' c' ⟨⟩
        simpa using hbusy
      exact (connect_follows (hq hact) j).congr rfl (finish_core _ _ _ _)
  · refine (step_edits w (env, e) (fun t _ => (∀ j, (t.pcb j).Initial) ∧
      ∀ j, (w.tab.pcb j).Follows (t.pcb j)) ⟨hi, fun _ => .of_state rfl⟩ ?_ ?_).2 j
    · rintro t _ i c ⟨hinit, h⟩
      have hsame := (sameButCond_set t i c).2
      refine ⟨fun j => ?_, fun j => (h j).congr rfl (hsame j)⟩
      obtain ⟨c', hc'⟩ := core_eq (hsame j)
      rw [hc']
      exact hinit j
    · rintro t t' eff eff' hb ⟨hinit, -⟩ he
      refine ⟨kept hb hinit he, fun j => ?_⟩
      exact (edit_follows hb hinit (fun tid id f h => hcon ⟨tid, id, f, h⟩) (hq hb.acts) he j).congr
        (hb.core htimer j).symm rfl


/-! ## The breaches -/

section Breaches
variable {w : World} {env : Env} {i : PcbId}

theorem socketPcb_self {t : Table} (hs : (t.pcb i).state ≠ .free) (hm : (t.pcb i).mode = .socket) :
    socketPcb t (tcpPcbId i) = some i := by
  rw [socketPcb, tcpPcbGet_eq_some.mpr ⟨rfl, hs⟩]
  simp [hm]

theorem ne_free_of_live {s : PcbState} (h : s.live) : s ≠ .free := by
  rintro rfl
  cases h

/-- A command of an idle task changes the states the call changes. -/
theorem user_step_state {tid : TaskId} {c : Command} (hact : w.acts (.user tid c)) (j : PcbId) :
    ((w.step (env, .user tid c)).tab.pcb j).state = ((c.call env w.tab).tab.pcb j).state := by
  have hidle : w.tasks tid = none := hact tid c rfl
  simp only [World.step, callResult, hidle, Option.isSome_none, Bool.false_eq_true, if_false]
  obtain ⟨_, hc⟩ := core_eq (finish_core w tid (c.call env w.tab) j)
  rw [hc]

theorem acknowledged_breaks {s : TcpSegment} (hi : (w.tab.pcb i).Initial)
    (hsel : selected w.tab s = some i) (hs : (w.tab.pcb i).state = .synReceived)
    (ha : (w.tab.pcb i).admits s.info s.flg) (hack : s.ack = (w.tab.pcb i).snd.una)
    (hle : s.ack ≤ (w.tab.pcb i).snd.nxt) :
    ¬ (w.tab.pcb i).Follows ((w.step (env, .segment s)).tab.pcb i) := by
  intro hf
  set p := w.tab.pcb i with hp
  set o := (establish env i (.start p)).setPcb ({ p with state := .established }.acked s.info)
    with ho
  have heq : p.otherwise env i s = arrivesText env i s.info s.flg s.data o :=
    arrivesOtherwise_opened hs ha (hack ▸ UInt32.le_refl _) hle
  have hrel : (p.otherwise env i s).released = false := by
    rw [heq]
    simp [ho]
  have htab : (w.step (env, .segment s)).tab = settle w.tab i (p.otherwise env i s) := by
    show (arrive env w.tab s).1 = _
    rw [arrive_otherwise env hsel (by rw [hs]; rfl)]
  obtain ⟨b, hb⟩ := settle_self (t := w.tab) hrel
  rw [htab, hb, heq] at hf
  -- nothing new is acknowledged
  have hstale : { p with state := .established }.freshAck s.info = false := by
    have : ¬ p.snd.una < s.ack := by rw [hack]; exact UInt32.lt_irrefl _
    simp [Pcb.freshAck, TcpSegment.info, this]
  have hopcb : o.pcb = { p with state := .established } := by
    rw [ho, Outcome.setPcb_pcb, Pcb.acked_stale hstale]
  have hup : (arrivesText env i s.info s.flg s.data o).pcb.state.up := by
    rw [arrivesText_state, hopcb]
    split <;> rfl
  have hlt := hf.acked (by rw [hs]; rfl) hup
  simp only [arrivesText_iss, arrivesText_snd, hopcb, hi (.inr hs)] at hlt
  exact UInt32.lt_irrefl _ hlt

/-- **A breach** takes a pcb off the diagram. -/
theorem breach_breaks {e : Event} (hi : ∀ j, (w.tab.pcb j).Initial) (hact : w.acts e)
    (h : Breach w env e) :
    ∃ j, ¬ (w.tab.pcb j).Follows ((w.step (env, e)).tab.pcb j) := by
  cases h with
  | listen tid i hm hs =>
      refine ⟨i, fun hf => not_conforms_listen hs ?_⟩
      have hst : ((w.step (env, .user tid (.listen (tcpPcbId i)))).tab.pcb i).state = .listen := by
        rw [user_step_state hact]
        simp only [Command.call, tcpListen, socketPcb_self (ne_free_of_live hs) hm,
          CallResult.ret, Table.set_pcb_self]
      exact hst ▸ hf.path
  | connect tid i f l hm hs hl ho =>
      refine ⟨i, fun hf => not_conforms_synSent hs ?_⟩
      have hst : ((w.step (env, .user tid (.connect (tcpPcbId i) f))).tab.pcb i).state =
          .synSent := by
        rw [user_step_state hact, Command.call, tcpConnect_tab
          (socketPcb_self (ne_free_of_live (live_of_synchronized hs)) hm) hl, if_pos ho,
          Table.set_pcb_self]
        rfl
      exact hst ▸ hf.path
  | ack s i hsel hs ha hack hle => exact ⟨i, acknowledged_breaks (hi i) hsel hs ha hack hle⟩

end Breaches

/-- A socket connects to the sample peer, which answers. -/
def connected : List (Env × Event) :=
  [(.ideal .zero 0 [sampleRoute], .user 1 .open),
   (.ideal .zero 0 [sampleRoute], .user 1 (.connect 0 samplePeer)),
   (.ideal .zero 0 [], .segment { peerSegment 100 1 (flgSyn ||| flgAck) [] with
     foreignEp := ⟨sampleLocal.addr, 49152⟩ })]

end Laplus.Tcp
