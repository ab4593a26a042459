/-
# `Laplus.Tcp.Edit` — the changes one event makes to the table

Inversion of `World.step`.  Every event changes the table by a short list of
edits: the pcb of one slot is rewritten in place, a free slot is handed out,
a slot is released, an established child is queued on its listener, or a
queued child is taken off.  `Edit` lists them with what caused each, and
`step_edits` turns a statement about single edits into one about the step,
so that no invariant below unfolds a handler or a user command.
-/
import Laplus.Tcp.Burst
import Laplus.Tcp.Handled

namespace Laplus.Tcp

open Net Lib

variable {env : Env} {e : Event} {t t' : Table} {i j q : PcbId} {eff : List Effect}

/-! ## What an event can do to the pcb of one slot -/

/-- The pcb that gets a segment of the peer. -/
def selected (t : Table) (s : TcpSegment) : Option PcbId :=
  tcpPcbSelect t s.foreignEp (some s.localEp)

/-- The states in which the handler goes past `Otherwise`. -/
def PcbState.pastOpen : PcbState → Bool
  | .closed | .listen | .synSent => false
  | _ => true

theorem free_of_pastOpen {s : PcbState} (h : s.pastOpen) (hs : s.synchronized = false) :
    s = .free := by
  cases s <;> simp_all [PcbState.pastOpen, PcbState.synchronized]

/-- The outcome of the handler for a segment of the peer, after `Otherwise`. -/
def Pcb.otherwise (env : Env) (i : PcbId) (p : Pcb) (s : TcpSegment) : Outcome :=
  arrivesOtherwise env i s.info s.flg s.data s.foreignEp s.localEp p

/-- The same in SYN-SENT. -/
def Pcb.synSentOutcome (env : Env) (i : PcbId) (p : Pcb) (s : TcpSegment) : Outcome :=
  arrivesSynSent env i s.info s.flg s.foreignEp s.localEp p

/-- The pcb after the SYN of an active open. -/
def Pcb.opened (env : Env) (p : Pcb) : Pcb :=
  { p.opening env with
    queue := (p.opening env).queueAfter env (env.calloc 0) flgSyn []
    hist := { (p.opening env).hist with
      sent := p.hist.sent ++ [(p.opening env).segment flgSyn []] }
    snd := { p.snd with una := env.random, nxt := env.random + 1 }
    state := .synSent }

/-- The pcb after `tcp_receive` has taken `len` bytes. -/
def Pcb.received (p : Pcb) (len : Nat) : Pcb :=
  { p with
    buf := moveDown p.buf len (p.remain - len)
    rcv := { p.rcv with wnd := p.rcv.wnd + UInt16.ofNat len }
    hist := { p.hist with taken := p.hist.taken ++ slice p.buf len } }

/-- The pcb after our FIN. -/
def Pcb.closing (env : Env) (p : Pcb) (s : PcbState) : Pcb :=
  { p with
    queue := p.queueAfter env (env.calloc 0) (flgAck ||| flgFin) []
    hist := { p.hist with sent := p.hist.sent ++ [p.segment (flgAck ||| flgFin) []] }
    snd := { p.snd with nxt := p.snd.nxt + 1 }
    state := s }

/-- The states in which `tcp_receive` hands out bytes. -/
def PcbState.readable : PcbState → Bool
  | .established | .finWait1 | .finWait2 | .closeWait => true
  | _ => false

/-- The pcb after the retransmit queue has been walked. -/
def Pcb.ticked (env : Env) (i : PcbId) (p : Pcb) : Pcb :=
  { (emitQueue env i p p.queue).1 with queue := (emitQueue env i p p.queue).2.1 }

/-- The walk closes the connection, when an entry has expired. -/
theorem ticked_state (env : Env) (i : PcbId) (p : Pcb) :
    (p.ticked env i).state = .closed ∨ (p.ticked env i).state = p.state := by
  rw [Pcb.ticked, emitQueue_pcb]
  show (if _ then _ else _) = _ ∨ (if _ then _ else _) = _
  split
  · exact .inl rfl
  · exact .inr rfl

theorem ticked_keeps (env : Env) (i : PcbId) (p : Pcb) :
    (p.ticked env i).iss = p.iss ∧ (p.ticked env i).snd = p.snd ∧
      (p.ticked env i).rcv = p.rcv ∧ (p.ticked env i).irs = p.irs ∧
      (p.ticked env i).parent = p.parent := by
  rw [Pcb.ticked, emitQueue_pcb]
  exact ⟨rfl, rfl, rfl, rfl, rfl⟩

/-- A listening pcb, or its new child, after a SYN. -/
def Pcb.synTaken (env : Env) (i : PcbId) (p : Pcb) (s : TcpSegment) : Outcome :=
  arrivesListenSyn env i s.info s.foreignEp s.localEp p

/-- The pcb that answers a SYN, when its SYN|ACK goes out. -/
def Pcb.synTaking (env : Env) (p : Pcb) (s : TcpSegment) : Pcb :=
  { p with
    localEp := s.foreignEp
    foreignEp := s.localEp
    rcv := ⟨s.seq + 1, 8192⟩
    irs := s.seq
    iss := env.random
    hist := ⟨[], [], p.hist.sent⟩ }

theorem synTaken_pcb (env : Env) (i : PcbId) (p : Pcb) (s : TcpSegment) :
    (p.synTaken env i s).pcb =
      { p.synTaking env s with
        queue := (p.synTaking env s).queueAfter env (env.calloc 0) (flgSyn ||| flgAck) []
        hist := ⟨[], [], p.hist.sent ++ [(p.synTaking env s).segment (flgSyn ||| flgAck) []]⟩
        snd := { p.snd with nxt := env.random + 1, una := env.random }
        state := .synReceived } := by
  simp only [Pcb.synTaken, arrivesListenSyn, Outcome.setPcb_pcb, Outcome.output_pcb,
    Outcome.start_pcb, tcpOutput_pcb]
  rfl

theorem synTaken_effects (env : Env) (i : PcbId) (p : Pcb) (s : TcpSegment) :
    (p.synTaken env i s).effects =
      [.output i ((p.synTaking env s).segment (flgSyn ||| flgAck) [])] := rfl

/-- A user command or a blocked one running on. -/
def Event.isCall : Event → Bool
  | user _ _ | resume _ => true
  | _ => false

/-- The event runs `tcp_send` on slot `i`, from the `sent`-th byte of `data` on. -/
def World.sendsOn (w : World) (i : PcbId) (data : List UInt8) (sent : Nat) (e : Event) : Prop :=
  (∃ tid, e = .user tid (.send (tcpPcbId i) data) ∧ sent = 0) ∨
    ∃ tid b, e = .resume tid ∧ w.tasks tid = some b ∧ b.pcb = i ∧ b.wait = .send data sent

theorem World.sendsOn.isCall {w : World} {i : PcbId} {data : List UInt8} {sent : Nat}
    {e : Event} (h : w.sendsOn i data sent e) : e.isCall := by
  rcases h with ⟨tid, rfl, -⟩ | ⟨tid, b, rfl, -⟩ <;> rfl

/-- The event may hand down segments the pcb does not keep. -/
def World.submits (w : World) (e : Event) : Prop :=
  (∃ tid c, e = .user tid c) ∨ ∃ i data sent, w.sendsOn i data sent e

/-- `tcp_send` cuts its segments for this device. -/
def Pcb.sendsBy (env : Env) (p : Pcb) (dev : NetDevice) : Prop :=
  ∃ iface, ipRouteGetIface env.routes p.localEp.addr = some iface ∧ iface.dev = dev

/-- `p` becomes `p'` in slot `i`. -/
inductive Rewrites (w : World) (env : Env) (i : PcbId) (p : Pcb) :
    Event → Pcb → List Effect → Prop
  | synSent (s : TcpSegment) (hs : p.state = .synSent)
      (hr : (p.synSentOutcome env i s).released = false) :
      Rewrites w env i p (.segment s) (p.synSentOutcome env i s).pcb
        (p.synSentOutcome env i s).effects
  | otherwise (s : TcpSegment) (hs : p.state.pastOpen)
      (hr : (p.otherwise env i s).released = false) :
      Rewrites w env i p (.segment s) (p.otherwise env i s).pcb (p.otherwise env i s).effects
  | passive (s : TcpSegment) (hs : p.state = .listen) (hm : p.mode ≠ .socket)
      (hf : flgIsSet s.flg flgSyn) (hr : flgIsSet s.flg flgRst = false)
      (ha : flgIsSet s.flg flgAck = false) :
      Rewrites w env i p (.segment s) (p.synTaken env i s).pcb (p.synTaken env i s).effects
  | ticked (hs : p.state ≠ .free) (ht : p.timewaitElapsed env = false) :
      Rewrites w env i p .timer (p.ticked env i) (emitQueue env i p p.queue).2.2
  | connecting (tid : TaskId) (f l : Endpoint) (hs : p.state ≠ .free) (hm : p.mode = .socket)
      (hl : p.source env f = some l.addr) :
      Rewrites w env i p (.user tid (.connect (tcpPcbId i) f))
        ({ p with localEp := l, foreignEp := f }.opened env)
        [.output i (({ p with localEp := l, foreignEp := f }.opening env).segment flgSyn [])]
  | bound (tid : TaskId) (l : Endpoint) (hs : p.state ≠ .free) (hm : p.mode = .socket) :
      Rewrites w env i p (.user tid (.bind (tcpPcbId i) l)) { p with localEp := l } []
  | listening (tid : TaskId) (hs : p.state ≠ .free) (hm : p.mode = .socket) :
      Rewrites w env i p (.user tid (.listen (tcpPcbId i))) { p with state := .listen } []
  | sent {e : Event} (dev : NetDevice) (data : List UInt8) (sent : Nat)
      (he : w.sendsOn i data sent e)
      (hs : p.state = .established ∨ p.state = .closeWait)
      (hstop : (p.burst env dev data sent).stop ≠ .failed) (hd : p.sendsBy env dev) :
      Rewrites w env i p e (p.burst env dev data sent).pcb
        ((p.burst env dev data sent).trace.map fun x => .output i x.seg)
  | received {e : Event} (size : Nat) (he : e.isCall) (hs : p.state.readable) (hr : p.remain ≠ 0) :
      Rewrites w env i p e (p.received (min size p.remain)) []
  | closing (tid : TaskId) (s : PcbState)
      (hs : (p.state = .synReceived ∨ p.state = .established) ∧ s = .finWait1 ∨
        p.state = .closeWait ∧ s = .lastAck) :
      Rewrites w env i p (.user tid (.close (tcpPcbId i))) (p.closing env s)
        [.output i (p.segment (flgAck ||| flgFin) []), .broadcast i]

/-- The free slot `i` is handed out; `p'` is its new pcb. -/
inductive Allocates (env : Env) (t : Table) (i : PcbId) : Event → Pcb → List Effect → Prop
  | «open» (tid : TaskId) :
      Allocates env t i (.user tid .open)
        { (t.claim i).pcb i with mode := .socket } []
  | passive (tid : TaskId) (l : Endpoint) (f : Option Endpoint) :
      Allocates env t i (.user tid (.openPassive l f))
        { (t.claim i).pcb i with
          mode := .rfc793, localEp := l, foreignEp := f.getD (t.pcb i).foreignEp,
          state := .listen } []
  | active (tid : TaskId) (l f : Endpoint) :
      Allocates env t i (.user tid (.openActive l f))
        ({ (t.claim i).pcb i with mode := .rfc793, localEp := l, foreignEp := f }.opened env)
        [.output i (({ (t.claim i).pcb i with
          mode := .rfc793, localEp := l, foreignEp := f }.opening env).segment flgSyn [])]
  | child (s : TcpSegment) (q : PcbId) (hsel : selected t s = some q)
      (hs : (t.pcb q).state = .listen) (hm : (t.pcb q).mode = .socket)
      (hf : flgIsSet s.flg flgSyn) (hr : flgIsSet s.flg flgRst = false)
      (ha : flgIsSet s.flg flgAck = false) :
      Allocates env t i (.segment s)
        ({ (t.claim i).pcb i with mode := .socket, parent := some q }.synTaken env i s).pcb
        ({ (t.claim i).pcb i with mode := .socket, parent := some q }.synTaken env i s).effects

/-- Why slot `i` is released. -/
inductive Releases (w : World) (env : Env) (t : Table) (i : PcbId) : Event → Prop
  /-- A segment resets the connection, or acknowledges our last FIN. -/
  | reset (s : TcpSegment) (hsel : selected t s = some i)
      (h : (t.pcb i).resetBy s.info s.flg) : Releases w env t i (.segment s)
  /-- A reset answers our SYN. -/
  | refused (s : TcpSegment) (hsel : selected t s = some i) (hs : (t.pcb i).state = .synSent)
      (hf : flgIsSet s.flg flgRst) (ha : synSentAcceptable (t.pcb i) s.info s.flg)
      (hb : synSentBadAck (t.pcb i) s.info s.flg = false) :
      Releases w env t i (.segment s)
  /-- TIME-WAIT is over. -/
  | elapsed (h : (t.pcb i).timewaitElapsed env) : Releases w env t i .timer
  /-- The user closes a pcb in LISTEN or SYN-SENT. -/
  | closed (tid : TaskId) (hs : (t.pcb i).state = .listen ∨ (t.pcb i).state = .synSent) :
      Releases w env t i (.user tid (.close (tcpPcbId i)))
  /-- `tcp_connect` could not send its SYN. -/
  | unconnected (tid : TaskId) (f l : Endpoint) (hs : (t.pcb i).state ≠ .free)
      (hm : (t.pcb i).mode = .socket)
      (ho : tcpOutputSegment env
        (({ t.pcb i with localEp := l, foreignEp := f }.opening env).segment flgSyn []) = false)
      (hl : (t.pcb i).source env f = some l.addr) :
      Releases w env t i (.user tid (.connect (tcpPcbId i) f))
  /-- `tcp_send` could not send. -/
  | unsent (tid : TaskId) (dev : NetDevice) (data : List UInt8)
      (hs : (t.pcb i).state = .established ∨ (t.pcb i).state = .closeWait)
      (hstop : ((t.pcb i).burst env dev data 0).stop = .failed)
      (hd : (t.pcb i).sendsBy env dev) :
      Releases w env t i (.user tid (.send (tcpPcbId i) data))
  /-- `tcp_send` could not send after a wait. -/
  | unsentAgain (tid : TaskId) (b : Blocked) (hb : w.tasks tid = some b) (hi : b.pcb = i)
      (dev : NetDevice) (data : List UInt8) (sent : Nat) (hw : b.wait = .send data sent)
      (hs : (t.pcb i).state = .established ∨ (t.pcb i).state = .closeWait)
      (hstop : ((t.pcb i).burst env dev data sent).stop = .failed)
      (hd : (t.pcb i).sendsBy env dev) :
      Releases w env t i (.resume tid)
  /-- A waiting open finds the connection gone. -/
  | unopened (tid : TaskId) (b : Blocked) (hb : w.tasks tid = some b) (hi : b.pcb = i)
      (s : PcbState) (hw : b.wait = .openRfc793 s ∨ b.wait = .connect s)
      (hst : (t.pcb i).state ≠ s) (hs : (t.pcb i).state ≠ .established)
      (hr : (t.pcb i).state ≠ .synReceived) : Releases w env t i (.resume tid)

/-- **One edit of the table.** -/
inductive Edit (w : World) (env : Env) (e : Event) (t : Table) : Table → List Effect → Prop
  /-- A pcb changes in place. -/
  | rewrite (i : PcbId) (p' : Pcb) (eff : List Effect) (h : Rewrites w env i (t.pcb i) e p' eff)
      (hsel : ∀ s, e = .segment s → selected t s = some i) :
      Edit w env e t (t.set i p') eff
  /-- A free slot is handed out. -/
  | allocate (i : PcbId) (p' : Pcb) (eff : List Effect) (hi : firstFree t = some i)
      (h : Allocates env t i e p' eff) :
      Edit w env e t ((t.claim i).set i p') eff
  /-- `tcp_open_rfc793` takes a slot, cannot send its SYN and gives the slot back. -/
  | spent (i : PcbId) (hi : firstFree t = some i) (tid : TaskId) (l f : Endpoint)
      (he : e = .user tid (.openActive l f)) (eff : List Effect) (heff : OnlyOutputs eff)
      (ho : tcpOutputSegment env (({ (t.claim i).pcb i with
        mode := .rfc793, localEp := l, foreignEp := f }.opening env).segment flgSyn []) = false) :
      Edit w env e t (tcpPcbRelease (t.claim i) i) eff
  | release (i : PcbId) (eff : List Effect) (h : Releases w env t i e) (heff : OnlyOutputs eff)
      (hres : w.submits e ∨ OnlyResets eff) :
      Edit w env e t (tcpPcbRelease t i) eff
  /-- The handshake of a child is completed and the child queued on its listener. -/
  | enqueue (i q : PcbId) (s : TcpSegment) (hsel : selected t s = some i)
      (he : e = .segment s) (hs : (t.pcb i).state = .synReceived)
      (hp : (t.pcb i).parent = some q)
      (h : Rewrites w env i (t.pcb i) e ((t.pcb i).otherwise env i s).pcb
        ((t.pcb i).otherwise env i s).effects)
      (hq : ((t.pcb i).otherwise env i s).queued) :
      Edit w env e t ((t.set i ((t.pcb i).otherwise env i s).pcb).pushBacklog q i)
        ((t.pcb i).otherwise env i s).effects
  /-- `tcp_accept` takes a child off. -/
  | dequeue (i c : PcbId) (rest : List PcbId) (hb : (t.pcb i).backlog = c :: rest)
      (he : (∃ tid, e = .user tid (.accept (tcpPcbId i)) ∧ (t.pcb i).state = .listen) ∨
        ∃ tid b, e = .resume tid ∧ w.tasks tid = some b ∧ b.pcb = i ∧ b.wait = .accept) :
      Edit w env e t (t.set i { t.pcb i with backlog := rest }) []
  /-- The table stays as it is; an answer that belongs to no pcb may go out. -/
  | silent (eff : List Effect) (heff : OnlyResets eff) : Edit w env e t t eff

/-! ## The segment handler -/

theorem settle_kept {o : Outcome} (hr : o.released = false) (hq : o.queued = false) :
    settle t i o = t.set i o.pcb := by
  simp [settle, hr, hq]

theorem settle_released {o : Outcome} (hr : o.released) (hq : o.queued = false)
    (hb : o.pcb.backlog = (t.pcb i).backlog) : settle t i o = tcpPcbRelease t i := by
  simp [settle, hr, hq, tcpPcbRelease_set hb]

theorem settle_queued {o : Outcome} (hr : o.released = false) (hq : o.queued)
    (hp : o.pcb.parent = some q) : settle t i o = (t.set i o.pcb).pushBacklog q i := by
  simp [settle, hr, hq, hp]

/-- What the handler leaves in the slot of its pcb, if that is not released. -/
theorem settle_self {o : Outcome} (hr : o.released = false) :
    ∃ b, (settle t i o).pcb i = { o.pcb with backlog := b } := by
  cases hq : o.queued with
  | false => exact ⟨_, by rw [settle_kept hr hq, Table.set_pcb_self]⟩
  | true =>
      cases hp : o.pcb.parent with
      | none =>
          have hset : settle t i o = t.set i o.pcb := by simp [settle, hr, hq, hp]
          exact ⟨o.pcb.backlog, by rw [hset, Table.set_pcb_self]⟩
      | some q =>
          rw [settle_queued hr hq hp, Table.pushBacklog]
          by_cases hi : i = q
          · subst hi
            exact ⟨_, by rw [Table.set_pcb_self, Table.set_pcb_self]⟩
          · exact ⟨_, by rw [Table.set_pcb_ne _ _ hi, Table.set_pcb_self]⟩

theorem replyClosed_onlyResets (seg : SegmentInfo) (flags : UInt8) (l f : Endpoint) :
    OnlyResets (replyClosed seg flags l f) := by
  have single (s : TcpSegment) (hd : s.data = []) (hr : flgIsSet s.flg flgRst)
      (hf : flgIsSet s.flg flgFin = false) : OnlyResets [.reply s] := by
    intro x hx
    exact ⟨s, .inr (List.mem_singleton.mp hx), hd, hr, hf⟩
  unfold replyClosed
  split
  · exact onlyResets_nil
  · split
    · exact single _ rfl flgRst_bits.1 flgRst_bits.2
    · have hbits : flgIsSet (flgRst ||| flgAck) flgRst = true ∧
          flgIsSet (flgRst ||| flgAck) flgFin = false := by decide
      exact single _ rfl hbits.1 hbits.2

theorem resetReply_onlyResets (seg : SegmentInfo) (l f : Endpoint) :
    OnlyResets [resetReply seg l f] := by
  intro x hx
  exact ⟨_, .inr (List.mem_singleton.mp hx), rfl, flgRst_bits.1, flgRst_bits.2⟩

/-- Two unreachable flags of a child's or a passive opener's outcome. -/
theorem synTaken_kept (p : Pcb) (s : TcpSegment) :
    (p.synTaken env i s).released = false ∧ (p.synTaken env i s).queued = false :=
  ⟨rfl, rfl⟩

section Segment
variable (w : World) (env : Env) (t : Table) (s : TcpSegment)

theorem otherwise_edit (hsel : selected t s = some i) (hs : (t.pcb i).state.pastOpen) :
    Edit w env (.segment s) t (settle t i ((t.pcb i).otherwise env i s))
      ((t.pcb i).otherwise env i s).effects := by
  have hh : Handled env i s.info s.flg s.data s.foreignEp s.localEp (t.pcb i)
      ((t.pcb i).otherwise env i s) := arrivesOtherwise_handled _ _ _ _ _ _ _ _
  have hk := handled_keeps hh
  have hsel' : ∀ s', Event.segment s = .segment s' → selected t s' = some i := by
    rintro s' ⟨⟩
    exact hsel
  cases hr : ((t.pcb i).otherwise env i s).released with
  | true =>
      obtain ⟨h, hq, heff⟩ := handled_released hh hr
      rw [settle_released hr hq hk.backlog]
      exact .release i _ (.reset s hsel h) heff.onlyOutputs (.inr heff)
  | false =>
      cases hq : ((t.pcb i).otherwise env i s).queued with
      | true =>
          obtain ⟨hst, q, hp⟩ := handled_queued hh hq
          rw [settle_queued hr hq (hk.parent.trans hp)]
          exact .enqueue i q s hsel rfl hst hp (.otherwise s hs hr) hq
      | false =>
          rw [settle_kept hr hq]
          exact .rewrite i _ _ (.otherwise s hs hr) hsel'

theorem synSent_edit (hsel : selected t s = some i) (hs : (t.pcb i).state = .synSent) :
    Edit w env (.segment s) t (settle t i ((t.pcb i).synSentOutcome env i s))
      ((t.pcb i).synSentOutcome env i s).effects := by
  have hh : SynSentHandled env i s.info s.flg s.foreignEp s.localEp (t.pcb i)
      ((t.pcb i).synSentOutcome env i s) := arrivesSynSent_handled _ _ _ _ _ _ _
  have hsel' : ∀ s', Event.segment s = .segment s' → selected t s' = some i := by
    rintro s' ⟨⟩
    exact hsel
  have kept (hr : ((t.pcb i).synSentOutcome env i s).released = false)
      (hq : ((t.pcb i).synSentOutcome env i s).queued = false) :
      Edit w env (.segment s) t (settle t i ((t.pcb i).synSentOutcome env i s))
        ((t.pcb i).synSentOutcome env i s).effects := by
    rw [settle_kept hr hq]
    exact .rewrite i _ _ (.synSent s hs hr) hsel'
  generalize ho : (t.pcb i).synSentOutcome env i s = o at hh kept ⊢
  cases hh with
  | dropped => exact kept rfl rfl
  | refused hb => exact kept rfl rfl
  | reset hb hr ha =>
      rw [settle_released rfl rfl rfl]
      exact .release i _ (.refused s hsel hs hr ha hb) onlyResets_nil.onlyOutputs (.inr onlyResets_nil)
  | taken hb hr hsyn _ hrel hq hot => exact kept hrel hq

theorem listen_edit (hsel : selected t s = some i) (hs : (t.pcb i).state = .listen) :
    Edit w env (.segment s) t
      (arrivesListen env t i s.info s.flg s.foreignEp s.localEp).1
      (arrivesListen env t i s.info s.flg s.foreignEp s.localEp).2 := by
  have hsel' : ∀ s', Event.segment s = .segment s' → selected t s' = some i := by
    rintro s' ⟨⟩
    exact hsel
  have passive (hr : flgIsSet s.flg flgRst = false) (ha : flgIsSet s.flg flgAck = false)
      (hf : flgIsSet s.flg flgSyn) (hm : (t.pcb i).mode ≠ .socket) :
      Edit w env (.segment s) t (settle t i ((t.pcb i).synTaken env i s))
        ((t.pcb i).synTaken env i s).effects := by
    rw [settle_kept (synTaken_kept _ _).1 (synTaken_kept _ _).2]
    exact .rewrite i _ _ (.passive s hs hm hf hr ha) hsel'
  unfold arrivesListen
  split
  · exact .silent _ onlyResets_nil
  rename_i hr
  split
  · exact .silent _ (resetReply_onlyResets _ _ _)
  rename_i hk
  simp only [Bool.not_eq_true] at hr hk
  split
  · rename_i hf
    cases hm : (t.pcb i).mode with
    | socket =>
        simp only []
        cases ha : tcpPcbAlloc t with
        | none => exact .silent _ onlyResets_nil
        | some r =>
            obtain ⟨j, t'⟩ := r
            obtain ⟨hj, rfl⟩ := tcpPcbAlloc_eq_some.mp ha
            let child := { (t.claim j).pcb j with mode := .socket, parent := some i }
            show Edit w env (.segment s) t (settle (t.claim j) j (child.synTaken env j s)) _
            rw [settle_kept (synTaken_kept child s).1 (synTaken_kept child s).2]
            exact .allocate j _ _ hj (.child s i hsel hs hm hf hr hk)
    | rfc793 => exact passive hr hk hf (by simp [hm])
    | none => exact passive hr hk hf (by simp [hm])
  · exact .silent _ onlyResets_nil

/-- Past `Otherwise` the handler works on the selected pcb. -/
theorem arrive_otherwise {t : Table} {s : TcpSegment} (hsel : selected t s = some i)
    (hs : (t.pcb i).state.pastOpen) :
    arrive env t s =
      (settle t i ((t.pcb i).otherwise env i s), ((t.pcb i).otherwise env i s).effects) := by
  have hsel' : tcpPcbSelect t s.foreignEp (some s.localEp) = some i := hsel
  unfold arrive tcpSegmentArrives
  rw [hsel']
  cases h : (t.pcb i).state <;> simp_all [PcbState.pastOpen, Pcb.otherwise]

theorem arrive_edit :
    Edit w env (.segment s) t (arrive env t s).1 (arrive env t s).2 := by
  unfold arrive tcpSegmentArrives
  split
  · exact .silent _ (replyClosed_onlyResets _ _ _ _)
  · rename_i i hsel
    split
    · exact .silent _ (replyClosed_onlyResets _ _ _ _)
    · rename_i hs
      exact listen_edit w env t s hsel hs
    · rename_i hs
      exact synSent_edit w env t s hsel hs
    · rename_i h₁ h₂ h₃
      refine otherwise_edit w env t s hsel ?_
      cases hs : (t.pcb i).state <;> simp_all [PcbState.pastOpen]

end Segment

/-! ## The user commands -/

theorem closeRelease_eq : closeRelease t i = tcpPcbRelease t i :=
  tcpPcbRelease_set rfl

@[simp] theorem Table.set_set (t : Table) (i : PcbId) (p p' : Pcb) :
    (t.set i p).set i p' = t.set i p' := by
  simp [Table.set]

@[simp] theorem Table.claim_set (t : Table) (i : PcbId) : t.set i (t.pcb i) = t := by
  simp [Table.set]

theorem socketPcb_eq_some {id : Int} (h : socketPcb t id = some i) :
    id = tcpPcbId i ∧ (t.pcb i).state ≠ .free ∧ (t.pcb i).mode = .socket := by
  simp only [socketPcb, Option.filter_eq_some_iff, decide_eq_true_eq] at h
  obtain ⟨h, hm⟩ := h
  obtain ⟨rfl, hs⟩ := tcpPcbGet_eq_some.mp h
  exact ⟨rfl, hs, hm⟩

/-- The SYN of an active open: it goes out and the pcb waits in SYN-SENT, or
the slot is released. -/
theorem sendSyn_eq (env : Env) (t : Table) (i : PcbId) (wait : PcbState → Wait) (p : Pcb)
    (hb : p.backlog = (t.pcb i).backlog) :
    sendSyn env t i wait p =
      if tcpOutputSegment env ((p.opening env).segment flgSyn []) then
        ⟨t.set i (p.opened env), [.output i ((p.opening env).segment flgSyn [])],
          .blocked i (wait .synSent)⟩
      else ⟨tcpPcbRelease t i, [.output i ((p.opening env).segment flgSyn [])],
          .returned (.of (-1))⟩ := by
  have hp : (tcpOutput env (env.calloc 0) (p.opening env) flgSyn []).pcb.synOut =
      p.opened env := by
    rw [tcpOutput_pcb]
    rfl
  have hst : (p.opened env).state = .synSent := rfl
  simp only [sendSyn, tcpOutput_ok, tcpOutput_seg, hp]
  split
  · simp [awaitOpen, hst]
  · rw [closeRelease_eq, tcpPcbRelease_set]
    rw [tcpOutput_pcb]
    exact hb

theorem burst_backlog (env : Env) (dev : NetDevice) (p : Pcb) (data : List UInt8) (sent : Nat) :
    (p.burst env dev data sent).pcb.backlog = p.backlog := by
  rw [burst_keeps (burst_bursts env dev p data sent)]

theorem onlyOutputs_trace (l : List Emission) :
    OnlyOutputs (l.map fun x => .output i x.seg) := by
  intro x hx
  obtain ⟨y, -, rfl⟩ := List.mem_map.mp hx
  exact .inl ⟨i, y.seg, rfl⟩

/-- `tcp_send` from `RETRY` on; `hrel` names the release if a segment fails. -/
theorem sendRetry_edit (w : World) (data : List UInt8) (sent : Nat)
    (he : w.sendsOn i data sent e)
    (hrel : ∀ dev, (t.pcb i).state = .established ∨ (t.pcb i).state = .closeWait →
      ((t.pcb i).burst env dev data sent).stop = .failed → (t.pcb i).sendsBy env dev →
      Releases w env t i e) :
    Edit w env e t (sendRetry env t i data sent).result.tab
      (sendRetry env t i data sent).result.effects := by
  have hsel : ∀ s, e = .segment s → selected t s = some i := by
    rintro s rfl
    exact absurd he.isCall (by simp [Event.isCall])
  have ho := sendRetry_outcome env t i data sent
  generalize sendRetry env t i data sent = r at ho
  cases ho with
  | refused => exact .silent _ onlyResets_nil
  | sending hs iface hr =>
      have kept (hstop : ((t.pcb i).burst env iface.dev data sent).stop ≠ .failed) :
          Edit w env e t (t.set i ((t.pcb i).burst env iface.dev data sent).pcb)
            (((t.pcb i).burst env iface.dev data sent).trace.map fun x => .output i x.seg) :=
        .rewrite i _ _ (.sent iface.dev data sent he hs hstop ⟨iface, hr, rfl⟩) hsel
      cases hstop : ((t.pcb i).burst env iface.dev data sent).stop with
      | failed =>
          simp only [sendEnd, hstop, closeRelease_eq]
          rw [tcpPcbRelease_set (burst_backlog _ _ _ _ _)]
          exact .release i _ (hrel _ hs hstop ⟨iface, hr, rfl⟩) (onlyOutputs_trace _)
            (.inl (.inr ⟨i, data, sent, he⟩))
      | finished =>
          simp only [sendEnd, hstop]
          exact kept (by simp [hstop])
      | window =>
          simp only [sendEnd, hstop]
          exact kept (by simp [hstop])
      | fuel => exact absurd hstop (burst_stop _ _ _ _ _)

/-- `tcp_receive` from `RETRY` on. -/
theorem receiveRetry_edit (w : World) (size : Nat) (he : e.isCall) :
    Edit w env e t (receiveRetry t i size).tab (receiveRetry t i size).effects := by
  have hsel : ∀ s, e = .segment s → selected t s = some i := by
    rintro s rfl
    simp [Event.isCall] at he
  have taken (hs : (t.pcb i).state.readable) (hr : (t.pcb i).remain ≠ 0) :
      Edit w env e t (takeBytes t i size).tab (takeBytes t i size).effects :=
    .rewrite i _ _ (.received size he hs hr) hsel
  have silent : Edit w env e t t [] := .silent _ onlyResets_nil
  cases hs : (t.pcb i).state with
  | closeWait =>
      simp only [receiveRetry, hs]
      split
      · exact silent
      · rename_i h
        exact taken (by rw [hs]; rfl) h
  | established | finWait1 | finWait2 =>
      simp only [receiveRetry, hs]
      split
      · exact silent
      · rename_i h
        exact taken (by rw [hs]; rfl) h
  | _ =>
      simp only [receiveRetry, hs]
      exact silent

/-- The wait after an open; `hrel` names the release if the connection is gone. -/
theorem awaitOpen_edit (w : World) (wait : PcbState → Wait) (s : PcbState)
    (hrel : (t.pcb i).state ≠ s → (t.pcb i).state ≠ .established →
      (t.pcb i).state ≠ .synReceived → Releases w env t i e) :
    Edit w env e t (awaitOpen wait t i s []).tab (awaitOpen wait t i s []).effects := by
  simp only [awaitOpen]
  split
  · exact .silent _ onlyResets_nil
  rename_i h₁
  split
  · exact .silent _ onlyResets_nil
  rename_i h₂
  split
  · exact .silent _ onlyResets_nil
  rename_i h₃
  rw [closeRelease_eq]
  exact .release i _ (hrel h₁ h₂ h₃) onlyResets_nil.onlyOutputs (.inr onlyResets_nil)

theorem acceptLoop_edit (w : World)
    (he : (∃ tid, e = .user tid (.accept (tcpPcbId i)) ∧ (t.pcb i).state = .listen) ∨
        ∃ tid b, e = .resume tid ∧ w.tasks tid = some b ∧ b.pcb = i ∧ b.wait = .accept) :
    Edit w env e t (acceptLoop t i).tab (acceptLoop t i).effects := by
  unfold acceptLoop
  split
  · exact .silent _ onlyResets_nil
  · rename_i c rest hb
    exact .dequeue i c rest hb he

theorem close_edit (w : World) (tid : TaskId) (id : Int) :
    Edit w env (.user tid (.close id)) t (tcpClose env t id).tab (tcpClose env t id).effects := by
  unfold tcpClose
  split
  · exact .silent _ onlyResets_nil
  rename_i i hid
  obtain ⟨rfl, -⟩ := tcpPcbGet_eq_some.mp hid
  have fin (s : PcbState) (hs : ((t.pcb i).state = .synReceived ∨
      (t.pcb i).state = .established) ∧ s = .finWait1 ∨
        (t.pcb i).state = .closeWait ∧ s = .lastAck) :
      Edit w env (.user tid (.close (tcpPcbId i))) t (sendFin env t i s).tab
        (sendFin env t i s).effects := by
    have h : Edit w env (.user tid (.close (tcpPcbId i))) t _ _ :=
      .rewrite i _ _ (.closing tid s hs) (by simp)
    simpa only [sendFin, tcpOutput_pcb, Pcb.closing, tcpOutput_seg] using h
  cases hs : (t.pcb i).state with
  | listen =>
      simp only [closeRelease_eq]
      exact .release i _ (.closed tid (.inl hs)) onlyResets_nil.onlyOutputs (.inr onlyResets_nil)
  | synSent =>
      simp only [closeRelease_eq]
      exact .release i _ (.closed tid (.inr hs)) onlyResets_nil.onlyOutputs (.inr onlyResets_nil)
  | synReceived => exact fin _ (.inl ⟨.inl hs, rfl⟩)
  | established => exact fin _ (.inl ⟨.inr hs, rfl⟩)
  | closeWait => exact fin _ (.inr ⟨hs, rfl⟩)
  | _ => exact .silent _ onlyResets_nil

theorem connectSyn_edit (w : World) (tid : TaskId) (f l : Endpoint)
    (hs : (t.pcb i).state ≠ .free) (hm : (t.pcb i).mode = .socket)
    (hl : (t.pcb i).source env f = some l.addr) :
    Edit w env (.user tid (.connect (tcpPcbId i) f)) t
      (sendSyn env t i .connect { t.pcb i with localEp := l, foreignEp := f }).tab
      (sendSyn env t i .connect { t.pcb i with localEp := l, foreignEp := f }).effects := by
  rw [sendSyn_eq]
  · split
    · exact .rewrite i _ _ (.connecting tid f l hs hm hl) (by simp)
    · rename_i ho
      exact .release i _ (.unconnected tid f l hs hm (by simpa using ho) hl)
        (by simp [OnlyOutputs]) (.inl (.inl ⟨_, _, rfl⟩))
  · rfl

/-- **A user command up to its return or its first wait.** -/
theorem call_edit (w : World) (env : Env) (t : Table) (tid : TaskId) (c : Command) :
    Edit w env (.user tid c) t (c.call env t).tab (c.call env t).effects := by
  have silent {e : Event} : Edit w env e t t [] := .silent _ onlyResets_nil
  have hsel {e : Event} {i : PcbId} (he : ∀ s, e ≠ .segment s) :
      ∀ s, e = .segment s → selected t s = some i := fun s h => absurd h (he s)
  cases c with
  | openPassive l f =>
      simp only [Command.call, tcpOpenPassive]
      cases ha : tcpPcbAlloc t with
      | none => exact silent
      | some r =>
          obtain ⟨i, t'⟩ := r
          obtain ⟨hi, rfl⟩ := tcpPcbAlloc_eq_some.mp ha
          have h : Edit w env (.user tid (.openPassive l f)) t _ _ :=
            .allocate i _ _ hi (.passive tid l f)
          simpa [awaitOpen] using h
  | openActive l f =>
      simp only [Command.call, tcpOpenActive]
      cases ha : tcpPcbAlloc t with
      | none => exact silent
      | some r =>
          obtain ⟨i, t'⟩ := r
          obtain ⟨hi, rfl⟩ := tcpPcbAlloc_eq_some.mp ha
          simp only []
          rw [sendSyn_eq]
          · split
            · exact .allocate i _ _ hi (.active tid l f)
            · rename_i ho
              exact .spent i hi tid l f rfl _ (by simp [OnlyOutputs]) (by simpa using ho)
          · rfl
  | «open» =>
      simp only [Command.call, tcpOpen]
      cases ha : tcpPcbAlloc t with
      | none => exact silent
      | some r =>
          obtain ⟨i, t'⟩ := r
          obtain ⟨hi, rfl⟩ := tcpPcbAlloc_eq_some.mp ha
          exact .allocate i _ _ hi (.open tid)
  | connect id f =>
      simp only [Command.call, tcpConnect]
      split
      · exact silent
      rename_i i hid
      obtain ⟨rfl, hs, hm⟩ := socketPcb_eq_some hid
      split
      · exact silent
      · rename_i hl
        exact connectSyn_edit w tid f _ hs hm hl
  | bind id l =>
      simp only [Command.call, tcpBind]
      split
      · exact silent
      rename_i i hid
      obtain ⟨rfl, hs, hm⟩ := socketPcb_eq_some hid
      split
      · exact silent
      · exact .rewrite i _ _ (.bound tid l hs hm) (hsel (by simp))
  | listen id =>
      simp only [Command.call, tcpListen]
      split
      · exact silent
      rename_i i hid
      obtain ⟨rfl, hs, hm⟩ := socketPcb_eq_some hid
      exact .rewrite i _ _ (.listening tid hs hm) (hsel (by simp))
  | accept id =>
      simp only [Command.call, tcpAccept]
      split
      · exact silent
      rename_i i hid
      obtain ⟨rfl, hs, hm⟩ := socketPcb_eq_some hid
      split
      · rename_i hl
        exact acceptLoop_edit w (.inl ⟨tid, rfl, hl⟩)
      · exact silent
  | send id data =>
      simp only [Command.call, tcpSend]
      split
      · exact silent
      rename_i i hid
      obtain ⟨rfl, -⟩ := tcpPcbGet_eq_some.mp hid
      exact sendRetry_edit w data 0 (.inl ⟨tid, rfl, rfl⟩) fun dev hs hstop hd =>
        .unsent tid dev data hs hstop hd
  | receive id size =>
      simp only [Command.call, tcpReceive]
      split
      · exact silent
      exact receiveRetry_edit w size rfl
  | close id => exact close_edit w tid id

/-- **A blocked call from where it sleeps.** -/
theorem retry_edit (w : World) (env : Env) (t : Table) (tid : TaskId) (b : Blocked)
    (hb : w.tasks tid = some b) :
    Edit w env (.resume tid) t (b.wait.retry env t b.pcb).tab
      (b.wait.retry env t b.pcb).effects := by
  cases hw : b.wait with
  | openRfc793 s =>
      exact awaitOpen_edit w _ s fun h₁ h₂ h₃ => .unopened tid b hb rfl s (.inl hw) h₁ h₂ h₃
  | connect s =>
      exact awaitOpen_edit w _ s fun h₁ h₂ h₃ => .unopened tid b hb rfl s (.inr hw) h₁ h₂ h₃
  | accept => exact acceptLoop_edit w (.inr ⟨tid, b, rfl, hb, rfl, hw⟩)
  | send data sent =>
      exact sendRetry_edit w data sent (.inr ⟨tid, b, rfl, hb, rfl, hw⟩) fun dev hs hstop hd =>
        .unsentAgain tid b hb rfl dev data sent hw hs hstop hd
  | receive size => exact receiveRetry_edit w size rfl

/-! ## The timer -/

theorem timerSlot_edit (w : World) (env : Env) (t : Table) (i : PcbId) :
    Edit w env .timer t (timerSlot env t i).1 (timerSlot env t i).2 := by
  simp only [timerSlot]
  split
  · exact .silent _ onlyResets_nil
  rename_i hs
  split
  · rename_i h
    exact .release i _ (.elapsed h) onlyResets_nil.onlyOutputs (.inr onlyResets_nil)
  · rename_i h
    exact .rewrite i _ _ (.ticked hs (by simpa using h)) (by simp)

theorem timerLoop_edits (P : Table → List Effect → Prop) {w : World} {env : Env}
    (hedit : ∀ t t' eff eff', P t eff → Edit w env .timer t t' eff' → P t' (eff ++ eff'))
    (is : List PcbId) : ∀ {t : Table} {eff : List Effect}, P t eff →
      P (timerLoop env t is).1 (eff ++ (timerLoop env t is).2) := by
  induction is with
  | nil => intro t eff h; simpa [timerLoop] using h
  | cons i rest ih =>
      intro t eff h
      have := ih (hedit _ _ _ _ h (timerSlot_edit w env t i))
      simpa [timerLoop] using this

/-! ## One event -/

/-- The pcb but for its condition variable. -/
def Pcb.core (p : Pcb) : Pcb := { p with cond := .zero }

theorem core_eq {p p' : Pcb} (h : p'.core = p.core) : ∃ c, p' = { p with cond := c } := by
  refine ⟨p'.cond, ?_⟩
  have h' : { p'.core with cond := p'.cond } = { p.core with cond := p'.cond } := by rw [h]
  exact h'

/-- The two tables differ in condition variables only. -/
def SameButCond (t t' : Table) : Prop :=
  t'.gen = t.gen ∧ ∀ j, (t'.pcb j).core = (t.pcb j).core

theorem SameButCond.refl (t : Table) : SameButCond t t := ⟨rfl, fun _ => rfl⟩

theorem SameButCond.state (h : SameButCond t t') (j : PcbId) :
    (t'.pcb j).state = (t.pcb j).state := by
  obtain ⟨c, hc⟩ := core_eq (h.2 j)
  rw [hc]

theorem sameButCond_set (t : Table) (i : PcbId) (c : Cond) :
    SameButCond t (t.set i { t.pcb i with cond := c }) := by
  refine ⟨rfl, fun j => ?_⟩
  by_cases h : j = i
  · subst h
    simp [Pcb.core]
  · simp [h]

/-- The effects of one event. -/
def World.effects (w : World) (x : Env × Event) : List Effect :=
  match x.2 with
  | .segment s => (arrive x.1 w.tab s).2
  | .timer => (tcpTimer x.1 w.tab).2
  | e =>
      match callResult w x.1 e with
      | none => []
      | some (_, _, r) => r.effects

/-- Returning or going to sleep touches condition variables only. -/
theorem finish_core (w : World) (tid : TaskId) (r : CallResult) (j : PcbId) :
    ((w.finish tid r).tab.pcb j).core = (r.tab.pcb j).core := by
  unfold World.finish
  cases r.progress with
  | returned => rfl
  | blocked i wait => exact (sameButCond_set r.tab i _).2 j

theorem awake_core (w : World) (tid : TaskId) (i j : PcbId) :
    ((w.awake tid i).tab.pcb j).core = (w.tab.pcb j).core :=
  (sameButCond_set w.tab i _).2 j

theorem finish_tab_of (P : Table → Prop) {w : World} {tid : TaskId} {r : CallResult}
    (hcond : ∀ i c, P (r.tab.set i { r.tab.pcb i with cond := c })) (h : P r.tab) :
    P (w.finish tid r).tab := by
  unfold World.finish
  cases r.progress with
  | returned => exact h
  | blocked i wait => exact hcond i _

/-- A call leaves every other task asleep where it was. -/
theorem finish_tasks_ne {w : World} {tid tid' : TaskId} (h : tid ≠ tid') (r : CallResult) :
    (w.finish tid' r).tasks tid = (w.tasks tid).map (wake r.effects) := by
  unfold World.finish
  cases r.progress with
  | returned => rfl
  | blocked i wt => exact Function.update_of_ne h _ _

/-- The table an event finds: a task that runs on is off its condition variable. -/
def World.found (w : World) : Event → Table
  | .resume tid =>
      match w.tasks tid with
      | none => w.tab
      | some b => (w.awake tid b.pcb).tab
  | _ => w.tab

theorem found_same (w : World) (e : Event) : SameButCond w.tab (w.found e) := by
  cases e with
  | resume tid =>
      simp only [World.found]
      split
      · exact .refl _
      · exact sameButCond_set _ _ _
  | _ => exact .refl _

/-- A busy task issues no command. -/
def World.acts (w : World) (e : Event) : Prop := ∀ tid c, e = .user tid c → w.tasks tid = none

/-- Where an edit of the event starts: all but the timer make one edit, on the
table they find. -/
structure Before (w : World) (x : Env × Event) (t : Table) (eff : List Effect) : Prop where
  acts : w.acts x.2
  once : x.2 ≠ .timer → eff = [] ∧ t = w.found x.2

theorem Before.segment {w : World} {x : Env × Event} (h : Before w x t eff) (s : TcpSegment)
    (hs : x.2 = .segment s) : t = w.tab := by
  have := (h.once (by simp [hs])).2
  rwa [hs] at this

/-- A call finds the pcbs as the event does, but for condition variables. -/
theorem Before.core {w : World} {x : Env × Event} (h : Before w x t eff) (hx : x.2 ≠ .timer)
    (j : PcbId) : (t.pcb j).core = (w.tab.pcb j).core := by
  rw [(h.once hx).2]
  exact (found_same w x.2).2 j

theorem Before.state {w : World} {x : Env × Event} (h : Before w x t eff) (hx : x.2 ≠ .timer)
    (j : PcbId) : (t.pcb j).state = (w.tab.pcb j).state := by
  obtain ⟨c, hc⟩ := core_eq (h.core hx j)
  rw [hc]

theorem Before.snd {w : World} {x : Env × Event} (h : Before w x t eff) (hx : x.2 ≠ .timer)
    (j : PcbId) : (t.pcb j).snd = (w.tab.pcb j).snd := by
  obtain ⟨c, hc⟩ := core_eq (h.core hx j)
  rw [hc]

/-- What the timer leaves of a table: no connection is closer to the end of
TIME-WAIT than before, and nothing has been queued. -/
def Waning (env : Env) (t t' : Table) : Prop :=
  ∀ j, ((t'.pcb j).timewaitElapsed env → (t.pcb j).timewaitElapsed env) ∧
    (t'.pcb j).backlog ⊆ (t.pcb j).backlog

theorem Waning.refl (env : Env) (t : Table) : Waning env t t := fun _ => ⟨id, fun _ => id⟩

theorem Waning.cond {t₀ : Table} (h : Waning env t₀ t) (i : PcbId) (c : Cond) :
    Waning env t₀ (t.set i { t.pcb i with cond := c }) := by
  intro j
  by_cases hj : j = i
  · subst hj
    rw [Table.set_pcb_self]
    exact h j
  · rw [Table.set_pcb_ne _ _ hj]
    exact h j

/-- The timer only ticks and releases. -/
theorem Waning.edit {w : World} {t₀ : Table} (h : Waning env t₀ t)
    (he : Edit w env .timer t t' eff) : Waning env t₀ t' := by
  intro j
  have hj := h j
  cases he with
  | rewrite i p' _ hr hsel =>
      by_cases hji : j = i
      · subst hji
        rw [Table.set_pcb_self]
        cases hr with
        | ticked hs ht =>
            have hpcb := emitQueue_pcb env j (t.pcb j) (t.pcb j).queue
            rw [Pcb.ticked, hpcb]
            refine ⟨fun hel => hj.1 ?_, hj.2⟩
            simp only [Pcb.timewaitElapsed, Bool.and_eq_true, decide_eq_true_eq] at hel ⊢
            refine ⟨?_, hel.2⟩
            split at hel
            · exact absurd hel.1 (by simp)
            · exact hel.1
        | sent _ _ _ he => cases he.isCall
        | received _ he => cases he
      · rw [Table.set_pcb_ne _ _ hji]
        exact hj
  | allocate i p' _ hi ha => cases ha
  | spent _ _ _ _ _ he => cases he
  | release i _ hr _ =>
      rcases tcpPcbRelease_cases t i j with hz | ⟨-, hz⟩
      · rw [hz]
        exact ⟨fun hel => by simp [Pcb.timewaitElapsed, Pcb.zero] at hel, List.nil_subset _⟩
      · rw [hz]
        exact hj
  | enqueue _ _ _ _ he => cases he
  | dequeue _ _ _ _ he => rcases he with ⟨_, he, -⟩ | ⟨_, _, he, -⟩ <;> cases he
  | silent => exact hj

/-- What an edit releases the event itself releases. -/
theorem Releases.found {w : World} (hw : e = .timer → Waning env w.tab t)
    (hb : Before w (env, e) t eff) (hr : Releases w env t i e) (hl : Linked t i j) :
    Releases w env (w.found e) i e ∧ Linked (w.found e) i j := by
  by_cases he : e = .timer
  · subst he
    cases hr with
    | elapsed hel => exact ⟨.elapsed ((hw rfl i).1 hel), hl.mono fun j => (hw rfl j).2⟩
  · have ht : t = w.found e := (hb.once he).2
    exact ht ▸ ⟨hr, hl⟩

section Step
variable (w : World) (x : Env × Event) (P : Table → List Effect → Prop)

/-- **Edit rule.**  What single edits and the condition variables keep holds
after the event. -/
theorem step_edits (h₀ : P w.tab [])
    (hcond : ∀ t eff i c, P t eff → P (t.set i { t.pcb i with cond := c }) eff)
    (hedit : ∀ t t' eff eff', Before w x t eff → P t eff →
      Edit w x.1 x.2 t t' eff' → P t' (eff ++ eff')) :
    P (w.step x).tab (w.effects x) := by
  obtain ⟨env, e⟩ := x
  have call (tid : TaskId) (w' : World) (r : CallResult) (he : e ≠ .timer) (hact : w.acts e)
      (hfound : w'.tab = w.found e) (h : P w'.tab [])
      (hr : Edit w env e w'.tab r.tab r.effects) : P (w.finish tid r).tab r.effects := by
    have hP : P r.tab r.effects := by
      simpa using hedit _ _ [] _ ⟨hact, fun _ => ⟨rfl, hfound⟩⟩ h hr
    exact finish_tab_of (fun t => P t r.effects) (fun i c => hcond _ _ i c hP) hP
  cases e with
  | segment s =>
      simpa [World.step, World.effects, World.after] using
        hedit _ _ [] _ ⟨by simp [World.acts], fun _ => ⟨rfl, rfl⟩⟩ h₀ (arrive_edit w env w.tab s)
  | timer =>
      have := timerLoop_edits P (fun t t' eff eff' =>
        hedit t t' eff eff' ⟨by simp [World.acts], fun h => absurd rfl h⟩) slots h₀
      simpa [World.step, World.effects, World.after, tcpTimer] using this
  | user tid c =>
      by_cases hb : (w.tasks tid).isSome
      · simpa only [World.step, World.effects, callResult, if_pos hb] using h₀
      · have hact : w.acts (.user tid c) := by
          rintro tid' c' ⟨⟩
          simpa using hb
        simpa only [World.step, World.effects, callResult, if_neg hb] using
          call tid w _ (by simp) hact rfl h₀ (call_edit w env w.tab tid c)
  | resume tid =>
      simp only [World.step, World.effects, callResult]
      cases hb : w.tasks tid with
      | none => exact h₀
      | some b =>
          have hP : P (w.awake tid b.pcb).tab [] := hcond _ _ _ _ h₀
          have hfound : (w.awake tid b.pcb).tab = w.found (.resume tid) := by
            simp only [World.found, hb]
          have hr : Edit w env (.resume tid) (w.awake tid b.pcb).tab
              (b.wait.retry env (w.awake tid b.pcb).tab b.pcb).tab
              (b.wait.retry env (w.awake tid b.pcb).tab b.pcb).effects :=
            retry_edit w env _ tid b hb
          have h := hedit _ _ [] _ ⟨by simp [World.acts], fun _ => ⟨rfl, hfound⟩⟩ hP hr
          simp only [List.nil_append] at h
          exact finish_tab_of (fun t => P t _) (fun i c => hcond _ _ i c h) h

end Step

/-! ## Invariants of single pcbs -/

/-- What one edit makes of the pcb of slot `j`. -/
inductive SlotEdit (w : World) (env : Env) (e : Event) (t : Table) (j : PcbId) : Pcb → Prop
  | zeroed : SlotEdit w env e t j .zero
  | kept (b : List PcbId) : SlotEdit w env e t j { t.pcb j with backlog := b }
  | rewritten (p' : Pcb) (eff : List Effect) (b : List PcbId)
      (h : Rewrites w env j (t.pcb j) e p' eff) (hsel : ∀ s, e = .segment s → selected t s = some j) :
      SlotEdit w env e t j { p' with backlog := b }
  | allocated (p' : Pcb) (eff : List Effect) (hf : (t.pcb j).state = .free)
      (h : Allocates env t j e p' eff) : SlotEdit w env e t j p'

/-- **One edit, slot by slot.** -/
theorem Edit.slot {w : World} (he : Edit w env e t t' eff) (j : PcbId) :
    SlotEdit w env e t j (t'.pcb j) := by
  have same {p' : Pcb} (h : p' = t.pcb j) : SlotEdit w env e t j p' := by
    rw [h]
    exact .kept (t.pcb j).backlog
  have zero {p' : Pcb} (h : p' = .zero) : SlotEdit w env e t j p' := by
    rw [h]
    exact .zeroed
  cases he with
  | rewrite i p' _ hr hsel =>
      by_cases hj : j = i
      · subst hj
        rw [Table.set_pcb_self]
        exact .rewritten p' _ p'.backlog hr hsel
      · exact same (Table.set_pcb_ne _ _ hj)
  | allocate i p' _ hf ha =>
      by_cases hj : j = i
      · subst hj
        rw [Table.set_pcb_self]
        exact .allocated p' _ (firstFree_free hf) ha
      · exact same (by rw [Table.set_pcb_ne _ _ hj, Table.claim_pcb_ne _ hj])
  | spent i hf =>
      rcases tcpPcbRelease_cases (t.claim i) i j with hz | ⟨hj, hz⟩
      · exact zero hz
      · exact same (by rw [hz, Table.claim_pcb_ne _ hj])
  | release i _ _ _ =>
      rcases tcpPcbRelease_cases t i j with hz | ⟨-, hz⟩
      · exact zero hz
      · exact same hz
  | enqueue i q s hsel hev hs hp hr hq =>
      have hsel' : ∀ s', e = .segment s' → selected t s' = some i := by
        rintro s' rfl
        cases hev
        exact hsel
      have hset (b : List PcbId) : SlotEdit w env e t j
          { (t.set i ((t.pcb i).otherwise env i s).pcb).pcb j with backlog := b } := by
        by_cases hj : j = i
        · subst hj
          rw [Table.set_pcb_self]
          exact .rewritten _ _ b hr hsel'
        · rw [Table.set_pcb_ne _ _ hj]
          exact .kept b
      by_cases hj : j = q
      · subst hj
        rw [Table.pushBacklog, Table.set_pcb_self]
        exact hset _
      · rw [Table.pushBacklog, Table.set_pcb_ne _ _ hj]
        exact hset _
  | dequeue i c rest hb' =>
      by_cases hj : j = i
      · subst hj
        rw [Table.set_pcb_self]
        exact .kept rest
      · exact same (Table.set_pcb_ne _ _ hj)
  | silent => exact same rfl

/-- A property of single pcbs that the event keeps: `I` does not depend on the
condition variable or the backlog, and every way a pcb is rewritten or handed
out keeps it. -/
structure Slotwise (w : World) (x : Env × Event) (I : Pcb → Prop) : Prop where
  zero : I .zero
  cond : ∀ p c, I p → I { p with cond := c }
  backlog : ∀ p b, I p → I { p with backlog := b }
  rewrite : ∀ t eff i p' eff', Before w x t eff →
    (∀ s, x.2 = .segment s → selected t s = some i) →
    Rewrites w x.1 i (t.pcb i) x.2 p' eff' → I (t.pcb i) → I p'
  allocate : ∀ t i p' eff, (t.pcb i).state = .free → Allocates x.1 t i x.2 p' eff →
    I (t.pcb i) → I p'

/-- **Slot rule.**  One edit keeps a property of single pcbs. -/
theorem Slotwise.edit {w : World} {x : Env × Event} {I : Pcb → Prop} (h : Slotwise w x I)
    {t t' : Table} {eff eff' : List Effect} (hb : Before w x t eff)
    (hi : ∀ j, I (t.pcb j)) (he : Edit w x.1 x.2 t t' eff') (j : PcbId) : I (t'.pcb j) := by
  have hslot := he.slot j
  generalize t'.pcb j = p' at hslot ⊢
  cases hslot with
  | zeroed => exact h.zero
  | kept b => exact h.backlog _ b (hi j)
  | rewritten p' _ b hr hsel => exact h.backlog _ b (h.rewrite t eff j p' _ hb hsel hr (hi j))
  | allocated p' _ hf ha => exact h.allocate t j _ _ hf ha (hi j)

/-- One event keeps a property of single pcbs. -/
theorem Slotwise.step {w : World} {x : Env × Event} {I : Pcb → Prop} (h : Slotwise w x I)
    (hi : ∀ j, I (w.tab.pcb j)) : ∀ j, I ((w.step x).tab.pcb j) := by
  refine step_edits w x (fun t _ => ∀ j, I (t.pcb j)) hi ?_ ?_
  · intro t _ i c hi j
    by_cases hj : j = i
    · subst hj
      simpa using h.cond _ c (hi j)
    · simpa [hj] using hi j
  · intro t t' eff eff' hb hi he
    exact h.edit hb hi he

end Laplus.Tcp
