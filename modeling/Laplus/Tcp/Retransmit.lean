/-
# `Laplus.Tcp.Retransmit` — the retransmit queue holds what is not acknowledged

A connection is a sender in the sense of `Lib.Outbox`: its stream is the SYN,
the bytes sent and the FIN, the pieces kept are the queue entries, the pieces
shown the segments handed to `ip_output`.  As long as no acknowledgement
falls strictly inside a queue entry every number in `[snd.una, snd.nxt)`
stays in the queue.  The cleanup looks only at where an entry begins, so an
acknowledgement inside one drops the whole entry.
-/
import Laplus.Lib.Outbox
import Laplus.Tcp.SendWindow

namespace Laplus.Tcp

open Net Lib

/-! ## Octets -/

/-- What occupies a sequence number. -/
inductive Octet where
  | syn
  | byte (b : UInt8)
  | fin
deriving DecidableEq

/-- What a segment puts in sequence space, in order. -/
def octets (flg : UInt8) (data : List UInt8) : List Octet :=
  (if flgIsSet flg flgSyn then [.syn] else []) ++ data.map .byte ++
    (if flgIsSet flg flgFin then [.fin] else [])

/-- The sequence numbers of a queue entry. -/
def QueueEntry.extent (e : QueueEntry) : Extent Octet := ⟨e.seq.toNat, octets e.flg e.data⟩

/-- The sequence numbers of a segment. -/
def TcpSegment.extent (s : TcpSegment) : Extent Octet := ⟨s.seq.toNat, octets s.flg s.data⟩

/-- Segments that occupy no sequence number. -/
def Bare (l : List TcpSegment) : Prop := ∀ s ∈ l, octets s.flg s.data = []

@[simp] theorem octets_ack : octets flgAck [] = [] := by decide
@[simp] theorem octets_syn : octets flgSyn [] = [.syn] := by decide
@[simp] theorem octets_synAck : octets (flgSyn ||| flgAck) [] = [.syn] := by decide
@[simp] theorem octets_finAck : octets (flgAck ||| flgFin) [] = [.fin] := by decide

@[simp] theorem octets_text (data : List UInt8) :
    octets (flgAck ||| flgPsh) data = data.map .byte := by
  have hs : flgIsSet (flgAck ||| flgPsh) flgSyn = false := by decide
  have hf : flgIsSet (flgAck ||| flgPsh) flgFin = false := by decide
  simp [octets, hs, hf]

/-! ## The pcb as a sender -/

/-- The pcb as an outbox with the given stream. -/
def Pcb.outbox (p : Pcb) (stream : List Octet) : Outbox Octet where
  base := p.iss.toNat
  stream := stream
  una := p.snd.una.toNat
  queue := p.queue.map QueueEntry.extent
  sent := p.hist.sent.map TcpSegment.extent

/-- The pcb has sent `stream` from its `iss` on. -/
structure Pcb.Sends (p : Pcb) (stream : List Octet) : Prop where
  sound : (p.outbox stream).Sound
  nxt : p.snd.nxt.toNat = p.iss.toNat + stream.length
  syn : stream[0]? = some .syn
  alone : p.state = .synSent → stream.length = 1

/-- Nothing has been sent that would have to be kept. -/
structure Pcb.Unsent (p : Pcb) : Prop where
  queue : p.queue = []
  sent : Bare p.hist.sent

/-- A pcb that no connection has used since it was zeroed. -/
def Pcb.untouched (p : Pcb) : Prop :=
  p.state = .free ∨ (p.state = .listen ∧ p.mode ≠ .socket) ∨ (p.state = .closed ∧ p.queue = [])

/-- **The invariant of a slot.** -/
structure Pcb.Kept (p : Pcb) : Prop where
  live : p.state.live → ∃ stream, p.Sends stream
  untouched : p.untouched → p.Unsent

/-- `tcp_retransmit_queue_cleanup` pops below the acknowledgement. -/
theorem cleanup_extent (una : UInt32) (q : List QueueEntry) :
    (tcpRetransmitQueueCleanup una q).map QueueEntry.extent =
      popBelow una.toNat (q.map QueueEntry.extent) := by
  induction q with
  | nil => rfl
  | cons e q ih =>
      have hpos : e.extent.pos = e.seq.toNat := rfl
      unfold tcpRetransmitQueueCleanup popBelow
      rw [List.map_cons, List.dropWhile_cons, hpos]
      by_cases h : e.seq ≥ una
      · have hn : ¬ e.seq.toNat < una.toNat := Nat.not_lt.mpr (UInt32.le_iff_toNat_le.mp h)
        simp [h, hn]
      · have hn : e.seq.toNat < una.toNat := UInt32.lt_iff_toNat_lt.mp (UInt32.not_le.mp h)
        simpa [h, hn, popBelow] using ih

section Sends
variable {p p' : Pcb} {stream : List Octet}

theorem Pcb.Unsent.bare_map (h : p.Unsent) :
    ∀ x ∈ p.hist.sent.map TcpSegment.extent, x.items = [] := by
  intro x hx
  obtain ⟨s, hs, rfl⟩ := List.mem_map.mp hx
  exact h.sent s hs

theorem Pcb.Unsent.told {l : List TcpSegment} (h : p.Unsent) (hq : p'.queue = p.queue)
    (hs : p'.hist.sent = p.hist.sent ++ l) (hl : Bare l) : p'.Unsent := by
  refine ⟨hq.trans h.queue, fun s hm => ?_⟩
  rw [hs] at hm
  exact (List.mem_append.mp hm).elim (h.sent s) (hl s)

/-- The SYN is the first thing a pcb sends. -/
theorem Pcb.Unsent.opened {s : TcpSegment} {e : QueueEntry} (h : p.Unsent)
    (hs : s.extent = ⟨p'.iss.toNat, [.syn]⟩) (he : e.extent = ⟨p'.iss.toNat, [.syn]⟩)
    (hq : p'.queue = p.queue ++ [e]) (hsent : p'.hist.sent = p.hist.sent ++ [s])
    (huna : p'.snd.una = p'.iss) (hnxt : p'.snd.nxt = p'.iss + 1)
    (hwrap : p'.iss.toNat + 1 < 2 ^ 32) : p'.Sends [.syn] where
  sound := by
    have hbox : p'.outbox [.syn] =
        .opened p'.iss.toNat .syn (p.hist.sent.map TcpSegment.extent) := by
      simp [Pcb.outbox, Outbox.opened, hq, h.queue, hsent, hs, he, huna]
    rw [hbox]
    exact Outbox.sound_opened _ _ h.bare_map
  nxt := by
    have h1 : (1 : UInt32).toNat = 1 := rfl
    rw [hnxt, UInt32.toNat_add, h1, List.length_singleton]
    exact Nat.mod_eq_of_lt hwrap
  syn := rfl
  alone _ := rfl

/-- Segments go out that show nothing new. -/
theorem Pcb.Sends.told (h : p.Sends stream) (hiss : p'.iss = p.iss)
    (huna : p'.snd.una = p.snd.una) (hnxt : p'.snd.nxt = p.snd.nxt)
    (hq : p'.queue.map QueueEntry.extent = p.queue.map QueueEntry.extent)
    (hsub : p.hist.sent ⊆ p'.hist.sent)
    (hsent : ∀ s ∈ p'.hist.sent, s ∈ p.hist.sent ∨ Agrees p.iss.toNat stream s.extent)
    (hst : p'.state = .synSent → p.state = .synSent) : p'.Sends stream where
  sound := by
    have hbox : p'.outbox stream =
        (p.outbox stream).tell (p'.hist.sent.map TcpSegment.extent) := by
      simp [Pcb.outbox, Outbox.tell, hiss, huna, hq]
    rw [hbox]
    refine h.sound.tell (List.map_subset _ hsub) fun x hx => ?_
    obtain ⟨s, hs, rfl⟩ := List.mem_map.mp hx
    exact (hsent s hs).elim (fun hs => h.sound.told _ (List.mem_map_of_mem hs)) id
  nxt := by rw [hnxt, hiss, h.nxt]
  syn := h.syn
  alone hs := h.alone (hst hs)

/-- Bare segments go out. -/
theorem Pcb.Sends.bare {l : List TcpSegment} (h : p.Sends stream) (hiss : p'.iss = p.iss)
    (huna : p'.snd.una = p.snd.una) (hnxt : p'.snd.nxt = p.snd.nxt)
    (hq : p'.queue = p.queue) (hsent : p'.hist.sent = p.hist.sent ++ l) (hl : Bare l)
    (hst : p'.state = .synSent → p.state = .synSent) : p'.Sends stream := by
  refine h.told hiss huna hnxt (by rw [hq]) ?_ (fun s hs => ?_) hst
  · rw [hsent]
    exact List.subset_append_left _ _
  · rw [hsent] at hs
    refine (List.mem_append.mp hs).imp id fun hs => ?_
    have hx : s.extent = ⟨s.seq.toNat, []⟩ := by rw [TcpSegment.extent, hl s hs]
    rw [hx]
    exact agrees_empty _

/-- A new acknowledgement that falls inside no queue entry. -/
theorem Pcb.Sends.acked {ack : UInt32} (h : p.Sends stream) (hiss : p'.iss = p.iss)
    (huna : p'.snd.una = ack) (hnxt : p'.snd.nxt = p.snd.nxt)
    (hq : p'.queue = tcpRetransmitQueueCleanup ack p.queue)
    (hsent : p'.hist.sent = p.hist.sent) (hlo : p.snd.una ≤ ack) (hhi : ack ≤ p.snd.nxt)
    (hcut : ∀ e ∈ p.queue, ¬ e.extent.Splits ack.toNat)
    (hst : p'.state = .synSent → p.state = .synSent) : p'.Sends stream where
  sound := by
    have hbox : p'.outbox stream = (p.outbox stream).ack ack.toNat := by
      simp [Pcb.outbox, Outbox.ack, hiss, huna, hq, hsent, cleanup_extent]
    rw [hbox]
    refine h.sound.ack (UInt32.le_iff_toNat_le.mp hlo) ?_ fun x hx => ?_
    · have := UInt32.le_iff_toNat_le.mp hhi
      rw [h.nxt] at this
      exact this
    · obtain ⟨e, he, rfl⟩ := List.mem_map.mp hx
      exact hcut e he
  nxt := by rw [hnxt, hiss, h.nxt]
  syn := h.syn
  alone hs := h.alone (hst hs)

/-- New octets go out at `snd.nxt` and are queued. -/
theorem Pcb.Sends.pushed {items : List Octet} {s : TcpSegment} {e : QueueEntry}
    (h : p.Sends stream) (hiss : p'.iss = p.iss) (huna : p'.snd.una = p.snd.una)
    (hnxt : p'.snd.nxt.toNat = p.snd.nxt.toNat + items.length)
    (hs : s.extent = ⟨p.snd.nxt.toNat, items⟩) (he : e.extent = ⟨p.snd.nxt.toNat, items⟩)
    (hq : p'.queue = p.queue ++ [e]) (hsent : p'.hist.sent = p.hist.sent ++ [s])
    (hne : items ≠ []) (hst : p'.state ≠ .synSent) : p'.Sends (stream ++ items) where
  sound := by
    have hbox : p'.outbox (stream ++ items) = (p.outbox stream).push items := by
      have hn : (p.outbox stream).nxt = p.snd.nxt.toNat := h.nxt.symm
      simp only [Outbox.push, hn]
      simp [Pcb.outbox, hiss, huna, hq, hsent, hs, he]
    rw [hbox]
    exact h.sound.push hne
  nxt := by
    rw [hnxt, hiss, h.nxt, List.length_append]
    omega
  syn := by
    rw [List.getElem?_append_left (List.getElem?_eq_some_iff.mp h.syn).1]
    exact h.syn
  alone hs := absurd hs hst

/-- Both sides open at once: the SYN goes out again, as SYN|ACK, and is queued again. -/
theorem Pcb.Sends.crossed {s : TcpSegment} {e : QueueEntry} (h : p.Sends stream)
    (hiss : p'.iss = p.iss) (huna : p'.snd.una = p.snd.una) (hnxt : p'.snd.nxt = p.snd.nxt)
    (hs : s.extent = ⟨p.iss.toNat, [.syn]⟩) (he : e.extent = ⟨p.iss.toNat, [.syn]⟩)
    (hq : p'.queue = p.queue ++ [e]) (hsent : p'.hist.sent = p.hist.sent ++ [s])
    (hlow : p.snd.una ≤ p.iss) (hst : p'.state ≠ .synSent) : p'.Sends stream where
  sound := by
    have hbox : p'.outbox stream = (p.outbox stream).again ⟨p.iss.toNat, [.syn]⟩ := by
      simp [Pcb.outbox, Outbox.again, hiss, huna, hq, hsent, hs, he]
    rw [hbox]
    exact h.sound.again (agrees_first h.syn) (by simp) (UInt32.le_iff_toNat_le.mp hlow)
  nxt := by rw [hnxt, hiss, h.nxt]
  syn := h.syn
  alone hs := absurd hs hst

/-- In SYN-SENT no entry can be split. -/
theorem Pcb.Sends.whole (h : p.Sends stream) (hs : p.state = .synSent) (n : Nat) :
    ∀ e ∈ p.queue, ¬ e.extent.Splits n := by
  rintro e he ⟨h₁, h₂⟩
  have hm : e.extent ∈ (p.outbox stream).queue := List.mem_map_of_mem he
  have hb := (h.sound.kept _ hm).stop_le (h.sound.filled _ hm)
  have hlen : (p.outbox stream).stream.length = 1 := h.alone hs
  omega

end Sends

/-! ## The segment handler -/

section Handler
variable {env : Env} {i : PcbId} {seg : SegmentInfo} {flags : UInt8} {data : List UInt8}
  {l f : Endpoint} {p : Pcb}

/-- The handler uses the acknowledgement of the segment, and it is new. -/
def Pcb.takesAck (p : Pcb) (seg : SegmentInfo) (flags : UInt8) : Bool :=
  p.admits seg flags && (decide (p.state = .synReceived) || p.state.acking) && p.freshAck seg

theorem ackedFin_sendSide (env : Env) (i : PcbId) (seg : SegmentInfo) (o : Outcome) :
    (ackedFin env i seg o).pcb.snd = o.pcb.snd ∧ (ackedFin env i seg o).pcb.queue = o.pcb.queue ∧
      (ackedFin env i seg o).pcb.hist = o.pcb.hist := by
  unfold ackedFin
  split
  · split <;> exact ⟨rfl, rfl, rfl⟩
  · split <;> exact ⟨rfl, rfl, rfl⟩
  · exact ⟨rfl, rfl, rfl⟩

/-- What the handler may do to the send side: nothing, or take a new
acknowledgement. -/
inductive Acks (p : Pcb) (seg : SegmentInfo) (flags : UInt8) (p' : Pcb) : Prop
  | stale (huna : p'.snd.una = p.snd.una) (hq : p'.queue = p.queue)
  | fresh (ht : p.takesAck seg flags) (huna : p'.snd.una = seg.ack)
      (hq : p'.queue = tcpRetransmitQueueCleanup seg.ack p.queue)

theorem acked_acks {p' : Pcb} (ha : p.admits seg flags)
    (hs : p.state = .synReceived ∨ p.state.acking) (hsnd : p'.snd = (p.acked seg).snd)
    (hq : p'.queue = (p.acked seg).queue) : Acks p seg flags p' := by
  cases hf : p.freshAck seg with
  | false =>
      refine .stale ?_ ?_
      · simp [hsnd, Pcb.acked, hf]
      · simp [hq, Pcb.acked, hf]
  | true =>
      refine .fresh ?_ ?_ ?_
      · rcases hs with hs | hs <;> simp [Pcb.takesAck, ha, hf, hs]
      · simp [hsnd, Pcb.acked, hf, updateWindow_una]
      · simp [hq, Pcb.acked, hf]

theorem passed_acks {o : Outcome} (ha : p.admits seg flags) (h : Passed env i seg flags p o) :
    Acks p seg flags o.pcb := by
  cases h with
  | opened hs => exact acked_acks ha (.inl hs) rfl rfl
  | shared hs =>
      obtain ⟨hsnd, hq, -⟩ :=
        ackedFin_sendSide env i seg ((Outcome.start p).setPcb (p.acked seg))
      exact acked_acks ha (.inr hs) hsnd hq
  | timeWait => split <;> exact .stale rfl rfl
  | unused => exact .stale rfl rfl

/-- The text and FIN stages only acknowledge. -/
theorem arrivesText_sent (env : Env) (i : PcbId) (seg : SegmentInfo) (flags : UInt8)
    (data : List UInt8) (o : Outcome) :
    ∃ l, (arrivesText env i seg flags data o).pcb.hist.sent = o.pcb.hist.sent ++ l ∧ Bare l := by
  have hbare (p : Pcb) : Bare [p.segment flgAck []] := by
    intro s hs
    obtain rfl := List.mem_singleton.mp hs
    exact octets_ack
  have htext : ∃ l, (textStage env i seg data o).pcb.hist.sent = o.pcb.hist.sent ++ l ∧
      Bare l := by
    rw [textStage_pcb]
    split
    · exact ⟨_, rfl, hbare _⟩
    · exact ⟨[], by simp, by simp [Bare]⟩
  obtain ⟨l, hl, hb⟩ := htext
  rw [arrivesText_pcb]
  split
  · obtain ⟨q, hq⟩ : ∃ q : Pcb, ((textStage env i seg data o).pcb.fin env seg).hist.sent =
        (textStage env i seg data o).pcb.hist.sent ++ [q.segment flgAck []] := ⟨_, rfl⟩
    refine ⟨l ++ [q.segment flgAck []], by rw [hq, hl, List.append_assoc], fun s hs => ?_⟩
    exact (List.mem_append.mp hs).elim (hb s) (hbare q s)
  · exact ⟨l, hl, hb⟩

/-- **The send side after a segment.** -/
theorem handled_acks {o : Outcome} (h : Handled env i seg flags data l f p o)
    (hr : o.released = false) :
    Acks p seg flags o.pcb ∧ ∃ l, o.pcb.hist.sent = p.hist.sent ++ l ∧ Bare l := by
  have nothing : Acks p seg flags p ∧ ∃ l, p.hist.sent = p.hist.sent ++ l ∧ Bare l :=
    ⟨.stale rfl rfl, [], by simp, by simp [Bare]⟩
  cases h with
  | dropped => exact nothing
  | answered =>
      rw [Outcome.output_pcb, tcpOutput_pcb]
      refine ⟨.stale rfl (queueAfter_ack env (env.calloc 0) p), _, rfl, fun s hs => ?_⟩
      obtain rfl := List.mem_singleton.mp hs
      exact octets_ack
  | refused => exact nothing
  | reset => simp at hr
  | processed ha o ho =>
      obtain ⟨l, hl, hb⟩ := arrivesText_sent env i seg flags data o
      rw [(passed_receive ho).2.2] at hl
      refine ⟨?_, l, hl, hb⟩
      have hsnd := arrivesText_snd env i seg flags data o
      have hq := arrivesText_queue env i seg flags data o
      cases passed_acks ha ho with
      | stale huna hq' => exact .stale (by rw [hsnd, huna]) (hq.trans hq')
      | fresh ht huna hq' => exact .fresh ht (by rw [hsnd, huna]) (hq.trans hq')

/-- A connection's pcb after a segment that does not reset it. -/
theorem handled_sends {o : Outcome} {stream : List Octet}
    (h : Handled env i seg flags data l f p o) (hr : o.released = false)
    (hs : p.state.synchronized)
    (hcut : p.takesAck seg flags → ∀ e ∈ p.queue, ¬ e.extent.Splits seg.ack.toNat)
    (hp : p.Sends stream) : o.pcb.Sends stream := by
  have hk := handled_keeps h
  have hst : o.pcb.state = .synSent → p.state = .synSent := by
    intro ho
    have := handled_synchronized h hr hs
    rw [ho] at this
    cases this
  obtain ⟨hacks, l, hl, hb⟩ := handled_acks h hr
  cases hacks with
  | stale huna hq => exact hp.bare hk.iss huna hk.nxt hq hl hb hst
  | fresh ht huna hq =>
      have hfresh : p.snd.una < seg.ack ∧ seg.ack ≤ p.snd.nxt := by
        simp only [Pcb.takesAck, Pcb.freshAck, Bool.and_eq_true, decide_eq_true_eq] at ht
        exact ht.2
      -- first the acknowledgement, then the answers
      have hmid : { o.pcb with hist := p.hist }.Sends stream :=
        hp.acked hk.iss huna hk.nxt hq rfl (UInt32.le_of_lt hfresh.1) hfresh.2 (hcut ht) hst
      exact hmid.bare rfl rfl rfl rfl hl hb id

end Handler

/-! ## What is queued -/

/-- The queue entry `tcp_output` makes for a segment. -/
def Pcb.entry (env : Env) (p : Pcb) (flg : UInt8) (data : List UInt8) : QueueEntry where
  first := env.now
  last := env.now
  rto := tcpDefaultRto
  seq := (p.segment flg data).seq
  flg := flg
  data := data

/-- With memory, a segment that occupies sequence space is queued. -/
theorem queueAfter_entry (env : Env) {mem : Bool} (p : Pcb) {flg : UInt8} {data : List UInt8}
    (hm : mem = true) (h : flgIsSet flg (flgSyn ||| flgFin) || !data.isEmpty) :
    p.queueAfter env mem flg data = p.queue ++ [p.entry env flg data] := by
  simp only [Pcb.queueAfter, h, hm, Bool.and_self, if_true]
  rfl

theorem syn_extent (p : Pcb) : (p.segment flgSyn []).extent = ⟨p.iss.toNat, [.syn]⟩ := by
  simp [TcpSegment.extent, Pcb.segment, show flgIsSet flgSyn flgSyn = true by decide]

theorem synAck_extent (p : Pcb) :
    (p.segment (flgSyn ||| flgAck) []).extent = ⟨p.iss.toNat, [.syn]⟩ := by
  simp [TcpSegment.extent, Pcb.segment, show flgIsSet (flgSyn ||| flgAck) flgSyn = true by decide]

theorem finAck_extent (p : Pcb) :
    (p.segment (flgAck ||| flgFin) []).extent = ⟨p.snd.nxt.toNat, [.fin]⟩ := by
  simp [TcpSegment.extent, Pcb.segment, show flgIsSet (flgAck ||| flgFin) flgSyn = false by decide]

theorem text_extent (p : Pcb) (data : List UInt8) :
    (p.segment (flgAck ||| flgPsh) data).extent = ⟨p.snd.nxt.toNat, data.map .byte⟩ := by
  simp [TcpSegment.extent, Pcb.segment, show flgIsSet (flgAck ||| flgPsh) flgSyn = false by decide]

section Sender
variable {env : Env} {p : Pcb} {stream : List Octet}

/-- A connection's pcb after a segment in SYN-SENT that does not reset it. -/
theorem synSent_sends {i : PcbId} {seg : SegmentInfo} {flags : UInt8} {l f : Endpoint}
    {o : Outcome} (h : SynSentHandled env i seg flags l f p o) (hr : o.released = false)
    (hmem : env.calloc 0) (hs : p.state = .synSent) (hp : p.Sends stream) :
    o.pcb.Sends stream := by
  cases h with
  | dropped => exact hp
  | refused => exact hp
  | reset => simp at hr
  | taken hb _ _ o _ _ ho =>
      -- the acknowledgement in the peer's SYN, if there is one
      have hsyn : (synSentSyn p seg (synSentAcceptable p seg flags)).Sends stream := by
        cases ha : synSentAcceptable p seg flags with
        | false => exact hp.bare (l := []) rfl rfl rfl rfl (by simp [synSentSyn]) (by simp [Bare]) id
        | true =>
            simp only [synSentAcceptable, Bool.and_eq_true, decide_eq_true_eq] at ha
            exact hp.acked rfl rfl rfl rfl rfl ha.2.1 ha.2.2 (hp.whole hs _) id
      generalize synSentSyn p seg (synSentAcceptable p seg flags) = q at hsyn ho
      cases ho with
      | established _ heq _ =>
          refine hsyn.bare (l := [q.segment flgAck []]) ?_ ?_ ?_ ?_ ?_ ?_ ?_
          · rw [heq]; rfl
          · rw [heq]; rfl
          · rw [heq]; rfl
          · rw [heq]; rfl
          · rw [heq]; rfl
          · intro s hm
            obtain rfl := List.mem_singleton.mp hm
            exact octets_ack
          · rw [heq]
            intro h
            cases h
      | crossed hlow heq _ =>
          refine hsyn.crossed (e := q.entry env (flgSyn ||| flgAck) [])
            (s := q.segment (flgSyn ||| flgAck) []) ?_ ?_ ?_ (synAck_extent q) (synAck_extent q)
            ?_ ?_ (UInt32.not_lt.mp hlow) ?_
          · rw [heq]; rfl
          · rw [heq]; rfl
          · rw [heq]; rfl
          · rw [heq]
            exact queueAfter_entry env q hmem (by decide)
          · rw [heq]; rfl
          · rw [heq]
            intro h
            cases h

/-- A segment takes its text out of the room that is left. -/
theorem pushed_cap {k : Nat} {text : List UInt8} (h : text.length ≤ p.cap.toNat) :
    (p.pushed env k text).cap.toNat = p.cap.toNat - text.length := by
  have hlt := p.cap.toNat_lt
  have hof : (UInt32.ofNat text.length).toNat = text.length := by
    rw [UInt32.toNat_ofNat']
    omega
  have hcap : (p.pushed env k text).cap = p.cap - UInt32.ofNat text.length := by
    simp only [Pcb.cap, Pcb.pushed]
    grind
  rw [hcap, UInt32.toNat_sub_of_le _ _ (UInt32.le_iff_toNat_le.mpr (by rw [hof]; exact h)), hof]

/-- **The loop of `tcp_send`** queues every segment it hands down. -/
theorem bursts_sends {dev : NetDevice} {data : List UInt8} {k : Nat} {p : Pcb} {sent : Nat}
    {b : Burst} (h : Bursts env dev data k p sent b) :
    ∀ {stream : List Octet}, b.stop ≠ .failed → (∀ k, env.calloc k = true) →
      p.state ≠ .synSent →
      p.snd.nxt.toNat + min (data.length - sent) p.cap.toNat < 2 ^ 32 → p.Sends stream →
      ∃ stream', b.pcb.Sends stream' := by
  induction h with
  | finished => exact fun _ _ _ _ hp => ⟨_, hp⟩
  | window => exact fun _ _ _ _ hp => ⟨_, hp⟩
  | failed => exact fun hf => absurd rfl hf
  | next k p sent hlt hc b hb ih =>
      intro stream hf hmem hst hwrap hp
      have hlen : (p.nextText dev data sent).length = p.cut dev data sent := nextText_length
      have hpos : 0 < p.cut dev data sent := cut_pos hlt hc
      have hle : p.cut dev data sent ≤ data.length - sent :=
        Nat.le_trans (Nat.min_le_left _ _) (Nat.min_le_right _ _)
      have hroom : p.cut dev data sent ≤ p.cap.toNat := Nat.min_le_right _ _
      have hcap : (p.pushed env k (p.nextText dev data sent)).cap.toNat = _ :=
        pushed_cap (hlen ▸ hroom)
      have hnxt : (p.pushed env k (p.nextText dev data sent)).snd.nxt.toNat =
          p.snd.nxt.toNat + p.cut dev data sent := by
        simp only [Pcb.pushed, hlen, UInt32.toNat_add, UInt32.toNat_ofNat']
        omega
      have hne : p.nextText dev data sent ≠ [] := List.length_pos_iff.mp (hlen ▸ hpos)
      have hpushed : (p.pushed env k (p.nextText dev data sent)).Sends
          (stream ++ (p.nextText dev data sent).map .byte) := by
        refine hp.pushed (e := p.entry env (flgAck ||| flgPsh) (p.nextText dev data sent))
          rfl rfl ?_ (text_extent p _) (text_extent p _)
          (queueAfter_entry env p (hmem k) (by simp [hne])) rfl (by simpa using hne) hst
        rw [hnxt, List.length_map, hlen]
      exact ih hf hmem hst (by rw [hnxt, hcap, hlen]; omega) hpushed

/-- Our FIN is queued. -/
theorem closing_sends {s : PcbState} (hmem : env.calloc 0) (hs : s ≠ .synSent)
    (hwrap : p.snd.nxt.toNat + 1 < 2 ^ 32) (hp : p.Sends stream) :
    (p.closing env s).Sends (stream ++ [.fin]) := by
  refine hp.pushed (e := p.entry env (flgAck ||| flgFin) []) rfl rfl ?_ (finAck_extent p)
    (finAck_extent p) (queueAfter_entry env p hmem (by decide)) rfl (by simp) hs
  have h1 : (1 : UInt32).toNat = 1 := rfl
  change (p.snd.nxt + 1).toNat = _
  rw [UInt32.toNat_add, h1]
  exact Nat.mod_eq_of_lt hwrap

/-- The walk over the queue shows what is queued. -/
theorem ticked_sends {i : PcbId} (hp : p.Sends stream) : (p.ticked env i).Sends stream := by
  have hpcb := emitQueue_pcb env i p p.queue
  have hq : (p.ticked env i).queue.map QueueEntry.extent = p.queue.map QueueEntry.extent := by
    have := congrArg (List.map fun c : UInt32 × UInt8 × List UInt8 =>
      (⟨c.1.toNat, octets c.2.1 c.2.2⟩ : Extent Octet)) (emitQueue_content env i p p.queue)
    rwa [List.map_map, List.map_map] at this
  refine hp.told ?_ ?_ ?_ hq (emitQueue_keeps_sent env i p p.queue) (fun s hs => ?_) ?_
  · rw [Pcb.ticked, hpcb]
  · rw [Pcb.ticked, hpcb]
  · rw [Pcb.ticked, hpcb]
  · refine (emitQueue_sent env i p p.queue s hs).imp id ?_
    rintro ⟨e, he, rfl⟩
    exact hp.sound.kept _ (List.mem_map_of_mem he)
  · rw [Pcb.ticked, hpcb]
    dsimp only
    split
    · intro h
      cases h
    · exact id

/-- The SYN of an active open is queued. -/
theorem opened_sends (hmem : env.calloc 0) (hwrap : env.random.toNat + 1 < 2 ^ 32)
    (hp : p.Unsent) : (p.opened env).Sends [.syn] :=
  Pcb.Unsent.opened (s := (p.opening env).segment flgSyn [])
    (e := (p.opening env).entry env flgSyn []) hp
    (syn_extent (p.opening env)) (syn_extent (p.opening env))
    (queueAfter_entry env (p.opening env) hmem (by decide)) rfl rfl rfl hwrap

/-- The SYN|ACK of a passive open is queued. -/
theorem synTaken_sends {i : PcbId} {s : TcpSegment} (hmem : env.calloc 0)
    (hwrap : env.random.toNat + 1 < 2 ^ 32) (hp : p.Unsent) :
    (p.synTaken env i s).pcb.Sends [.syn] := by
  rw [synTaken_pcb]
  exact Pcb.Unsent.opened (s := (p.synTaking env s).segment (flgSyn ||| flgAck) [])
    (e := (p.synTaking env s).entry env (flgSyn ||| flgAck) []) hp
    (synAck_extent (p.synTaking env s)) (synAck_extent (p.synTaking env s))
    (queueAfter_entry env (p.synTaking env s) hmem (by decide)) rfl rfl rfl hwrap

end Sender

/-! ## One slot -/

section Slot
variable {p p' : Pcb} {stream : List Octet}

theorem not_untouched_of_live (h : p.state.live) : ¬ p.untouched := by
  rintro (hs | ⟨hs, -⟩ | ⟨hs, -⟩)
  all_goals
    rw [hs] at h
    cases h

theorem Pcb.Sends.kept (h : p.Sends stream) (hl : p.state.live) : p.Kept :=
  ⟨fun _ => ⟨stream, h⟩, fun hu => absurd hu (not_untouched_of_live hl)⟩

/-- The invariant reads the send side, the state and the mode. -/
theorem Pcb.Kept.congr (h : p.Kept) (hst : p'.state = p.state) (hm : p'.mode = p.mode)
    (hiss : p'.iss = p.iss) (hsnd : p'.snd = p.snd) (hq : p'.queue = p.queue)
    (hsent : p'.hist.sent = p.hist.sent) : p'.Kept := by
  refine ⟨fun hl => ?_, fun hu => ?_⟩
  · obtain ⟨stream, hs⟩ := h.live (by rwa [hst] at hl)
    exact ⟨stream, hs.bare (l := []) hiss (by rw [hsnd]) (by rw [hsnd]) hq (by simp [hsent])
      (by simp [Bare]) (by rw [hst]; exact id)⟩
  · have hu' : p.untouched := by
      simpa only [Pcb.untouched, hst, hm, hq] using hu
    exact ⟨hq.trans (h.untouched hu').queue, hsent ▸ (h.untouched hu').sent⟩

theorem kept_zero : Pcb.zero.Kept :=
  ⟨fun h => absurd h (by decide), fun _ => ⟨rfl, by simp [Bare, Pcb.zero, History.zero]⟩⟩

theorem synSent_live {env : Env} {i : PcbId} {seg : SegmentInfo} {flags : UInt8}
    {l f : Endpoint} {o : Outcome} (h : SynSentHandled env i seg flags l f p o)
    (hr : o.released = false) (hs : p.state = .synSent) : o.pcb.state.live := by
  cases h with
  | dropped => rw [Outcome.start_pcb, hs]; rfl
  | refused => rw [Outcome.emit_pcb, Outcome.start_pcb, hs]; rfl
  | reset => simp at hr
  | taken _ _ _ o _ _ ho =>
      cases ho with
      | established _ heq _ => rw [heq]; rfl
      | crossed _ heq _ => rw [heq]; rfl

/-- A slot that is not in use gains nothing to keep. -/
theorem handled_unsent {env : Env} {i : PcbId} {seg : SegmentInfo} {flags : UInt8}
    {data : List UInt8} {l f : Endpoint} {o : Outcome}
    (h : Handled env i seg flags data l f p o) (hr : o.released = false)
    (hs : p.state = .free) (hp : p.Unsent) : o.pcb.Unsent := by
  obtain ⟨hacks, l, hl, hb⟩ := handled_acks h hr
  cases hacks with
  | stale _ hq => exact hp.told hq hl hb
  | fresh ht => simp [Pcb.takesAck, hs, PcbState.acking] at ht

theorem ticked_kept {env : Env} {i : PcbId} (hp : p.Kept) (hfree : p.state ≠ .free) :
    (p.ticked env i).Kept := by
  have hpcb : (p.ticked env i).state =
      if p.queue.any (·.expired env) then .closed else p.state := by
    rw [Pcb.ticked, emitQueue_pcb]
  have hmode : (p.ticked env i).mode = p.mode := by
    rw [Pcb.ticked, emitQueue_pcb]
  have hlen : (p.ticked env i).queue.length = p.queue.length := by
    have := congrArg List.length (emitQueue_content env i p p.queue)
    rwa [List.length_map, List.length_map] at this
  cases hany : p.queue.any (·.expired env) with
  | true =>
      -- an entry has expired: the pcb is CLOSED and its queue is not empty
      rw [hany, if_pos rfl] at hpcb
      refine ⟨fun hl => ?_, ?_⟩
      · rw [hpcb] at hl
        cases hl
      · rintro (h | ⟨h, -⟩ | ⟨-, h⟩)
        · rw [hpcb] at h
          cases h
        · rw [hpcb] at h
          cases h
        · rw [h] at hlen
          have hnil : p.queue = [] := List.length_eq_zero_iff.mp hlen.symm
          rw [hnil] at hany
          cases hany
  | false =>
      rw [hany] at hpcb
      have hst : (p.ticked env i).state = p.state := hpcb
      refine ⟨fun hl => ?_, fun hu => ?_⟩
      · obtain ⟨stream, hs⟩ := hp.live (by rwa [hst] at hl)
        exact ⟨stream, ticked_sends hs⟩
      · have hu' : p.untouched := by
          rcases hu with h | ⟨h, hm⟩ | ⟨h, hq⟩
          · exact absurd (hst ▸ h) hfree
          · exact .inr (.inl ⟨hst ▸ h, hmode ▸ hm⟩)
          · rw [hq] at hlen
            exact .inr (.inr ⟨hst ▸ h, List.length_eq_zero_iff.mp hlen.symm⟩)
        have hun := hp.untouched hu'
        have hself : p.ticked env i = p := by
          simp only [Pcb.ticked, hun.queue, emitQueue]
          rw [← hun.queue]
        rw [hself]
        exact hun

end Slot

/-! ## Runs -/

/-- What the property is about: allocations succeed, no sequence number wraps,
and a pcb is connected once only. -/
structure Regular (w : World) (x : Env × Event) : Prop where
  memory : ∀ k, x.1.calloc k = true
  iss : x.1.random.toNat + 1 < 2 ^ 32
  text : ∀ i data sent, w.sendsOn i data sent x.2 → (w.tab.pcb i).state.sending →
    (w.tab.pcb i).snd.nxt.toNat + min (data.length - sent) (w.tab.pcb i).cap.toNat < 2 ^ 32
  fin : ∀ tid i, x.2 = .user tid (.close (tcpPcbId i)) → (w.tab.pcb i).state.synchronized →
    (w.tab.pcb i).snd.nxt.toNat + 1 < 2 ^ 32
  once : ∀ tid i f, x.2 = .user tid (.connect (tcpPcbId i) f) →
    (w.tab.pcb i).state = .closed ∧ (w.tab.pcb i).queue = []

/-- A new acknowledgement that the handler uses falls inside no queue entry. -/
def OnBoundary (w : World) (x : Env × Event) : Prop :=
  ∀ s ∈ x.2.arriving, ∀ i, selected w.tab s = some i →
    (w.tab.pcb i).takesAck s.info s.flg →
    ∀ e ∈ (w.tab.pcb i).queue, ¬ e.extent.Splits s.ack.toNat

instance (w : World) (x : Env × Event) : Decidable (OnBoundary w x) :=
  inferInstanceAs (Decidable (∀ s ∈ x.2.arriving, ∀ i, selected w.tab s = some i →
    (w.tab.pcb i).takesAck s.info s.flg →
    ∀ e ∈ (w.tab.pcb i).queue, ¬ e.extent.Splits s.ack.toNat))

section Step
variable {w : World} {x : Env × Event} {t : Table} {eff : List Effect} {i : PcbId} {p' : Pcb}

/-- A rewrite keeps the invariant. -/
theorem rewrites_kept {eff' : List Effect} (hreg : Regular w x) (hcut : OnBoundary w x)
    (hb : Before w x t eff) (hsel : ∀ s, x.2 = .segment s → selected t s = some i)
    (h : Rewrites w x.1 i (t.pcb i) x.2 p' eff') (hp : (t.pcb i).Kept) : p'.Kept := by
  obtain ⟨env, e⟩ := x
  cases h with
  | synSent s hs hr =>
      obtain ⟨stream, hsnd⟩ := hp.live (by rw [hs]; rfl)
      have hh := arrivesSynSent_handled env i s.info s.flg s.foreignEp s.localEp (t.pcb i)
      exact (synSent_sends hh hr (hreg.memory 0) hs hsnd).kept (synSent_live hh hr hs)
  | otherwise s hs hr =>
      have hh := arrivesOtherwise_handled env i s.info s.flg s.data s.foreignEp s.localEp (t.pcb i)
      have htab := hb.segment s rfl
      cases hsync : (t.pcb i).state.synchronized with
      | true =>
          obtain ⟨stream, hsnd⟩ := hp.live (live_of_synchronized hsync)
          have hcuts : (t.pcb i).takesAck s.info s.flg →
              ∀ e ∈ (t.pcb i).queue, ¬ e.extent.Splits s.ack.toNat := by
            subst htab
            exact hcut s (Event.mem_arriving.mpr rfl) i (hsel s rfl)
          exact (handled_sends hh hr hsync hcuts hsnd).kept
            (live_of_synchronized (handled_synchronized hh hr hsync))
      | false =>
          have hfree : (t.pcb i).state = .free := free_of_pastOpen hs hsync
          have hun := handled_unsent hh hr hfree (hp.untouched (.inl hfree))
          refine ⟨fun hl => ?_, fun _ => hun⟩
          have hl : (arrivesOtherwise env i s.info s.flg s.data s.foreignEp s.localEp
            (t.pcb i)).pcb.state.live := hl
          rw [handled_free hh hfree] at hl
          cases hl
  | passive s hs hm hf =>
      have := synTaken_sends (i := i) (s := s) (hreg.memory 0) hreg.iss
        (hp.untouched (.inr (.inl ⟨hs, hm⟩)))
      exact this.kept (by rw [synTaken_pcb]; rfl)
  | ticked hs ht => exact ticked_kept hp hs
  | connecting tid f l hs hm =>
      obtain ⟨hst, hq⟩ := hreg.once tid i f rfl
      have hst' : (t.pcb i).state = .closed := (hb.state (by simp) i).trans hst
      have hq' : (t.pcb i).queue = [] := (congrArg Pcb.queue (hb.core (by simp) i)).trans hq
      have hun := hp.untouched (.inr (.inr ⟨hst', hq'⟩))
      have hun' : { t.pcb i with localEp := l, foreignEp := f }.Unsent := ⟨hun.queue, hun.sent⟩
      exact (opened_sends (hreg.memory 0) hreg.iss hun').kept rfl
  | bound => exact hp.congr rfl rfl rfl rfl rfl rfl
  | listening tid hs hm =>
      refine ⟨fun hl => ?_, ?_⟩
      · cases hl
      · rintro (h | ⟨-, h⟩ | ⟨h, -⟩)
        · cases h
        · exact absurd hm h
        · cases h
  | sent dev data sent he hs hstop =>
      have hnxt : (t.pcb i).snd.nxt.toNat + min (data.length - sent) (t.pcb i).cap.toNat <
          2 ^ 32 := by
        have htimer : e ≠ .timer := by
          intro h
          have := he.isCall
          rw [h] at this
          cases this
        have hn := hb.snd htimer i
        have hcap : (t.pcb i).cap = (w.tab.pcb i).cap := by rw [Pcb.cap, Pcb.cap, hn]
        have hst : (w.tab.pcb i).state.sending := by
          rw [← hb.state htimer i]
          rcases hs with hs | hs <;> rw [hs] <;> rfl
        rw [hn, hcap]
        exact hreg.text i data sent he hst
      have hsync : (t.pcb i).state.live := by
        rcases hs with hs | hs <;> rw [hs] <;> rfl
      obtain ⟨stream, hsnd⟩ := hp.live hsync
      have hbb := burst_bursts env dev (t.pcb i) data sent
      obtain ⟨stream', hsnd'⟩ := bursts_sends hbb hstop hreg.memory
        (by rcases hs with hs | hs <;> rw [hs] <;> simp) hnxt hsnd
      refine hsnd'.kept ?_
      rw [burst_keeps hbb]
      exact hsync
  | received => exact hp.congr rfl rfl rfl rfl rfl rfl
  | closing tid s hs =>
      obtain ⟨stream, hsnd⟩ := hp.live (by
        rcases hs with ⟨hs | hs, -⟩ | ⟨hs, -⟩ <;> rw [hs] <;> rfl)
      have hnxt : (t.pcb i).snd.nxt.toNat + 1 < 2 ^ 32 := by
        have hst : (w.tab.pcb i).state.synchronized := by
          rw [← hb.state (by simp) i]
          rcases hs with ⟨hs | hs, -⟩ | ⟨hs, -⟩ <;> rw [hs] <;> rfl
        rw [hb.snd (by simp) i]
        exact hreg.fin tid i rfl hst
      have hlive : s.live := by
        rcases hs with ⟨-, rfl⟩ | ⟨-, rfl⟩ <;> rfl
      have hne : s ≠ .synSent := by
        rcases hs with ⟨-, rfl⟩ | ⟨-, rfl⟩ <;> simp
      exact (closing_sends (hreg.memory 0) hne hnxt hsnd).kept hlive

theorem allocates_kept (hreg : Regular w x) (hfree : (t.pcb i).state = .free)
    (h : Allocates x.1 t i x.2 p' eff) (hp : (t.pcb i).Kept) : p'.Kept := by
  obtain ⟨env, e⟩ := x
  have hun := hp.untouched (.inl hfree)
  cases h with
  | «open» =>
      rw [Table.claim_pcb_self]
      exact ⟨fun h => (by cases h), fun _ => ⟨hun.queue, hun.sent⟩⟩
  | passive =>
      rw [Table.claim_pcb_self]
      exact ⟨fun h => (by cases h), fun _ => ⟨hun.queue, hun.sent⟩⟩
  | active tid l f =>
      rw [Table.claim_pcb_self]
      have hun' : Pcb.Unsent { t.pcb i with
        state := .closed, cond := .zero, mode := .rfc793, localEp := l, foreignEp := f } :=
          ⟨hun.queue, hun.sent⟩
      exact (opened_sends (hreg.memory 0) hreg.iss hun').kept rfl
  | child s q =>
      rw [Table.claim_pcb_self]
      have hun' : Pcb.Unsent { t.pcb i with
        state := .closed, cond := .zero, mode := .socket, parent := some q } :=
          ⟨hun.queue, hun.sent⟩
      exact (synTaken_sends (hreg.memory 0) hreg.iss hun').kept (by rw [synTaken_pcb]; rfl)

theorem kept_slotwise (hreg : Regular w x) (hcut : OnBoundary w x) : Slotwise w x Pcb.Kept where
  zero := kept_zero
  cond _ _ h := h.congr rfl rfl rfl rfl rfl rfl
  backlog _ _ h := h.congr rfl rfl rfl rfl rfl rfl
  rewrite _ _ _ _ _ hb hsel hr hi := rewrites_kept hreg hcut hb hsel hr hi
  allocate _ _ _ _ hf ha hi := allocates_kept hreg hf ha hi

end Step

/-- Every octet not yet acknowledged is in the queue as it was sent, and the
head of the queue is not wholly acknowledged. -/
def Pcb.Recoverable (p : Pcb) : Prop :=
  (∀ n, p.snd.una.toNat ≤ n → n < p.snd.nxt.toNat → ∃ e ∈ p.queue, ∃ o,
    e.extent.find n = some o ∧ (∃ s ∈ p.hist.sent, s.extent.find n = some o) ∧
      ∀ s ∈ p.hist.sent, ∀ o', s.extent.find n = some o' → o' = o) ∧
  ∀ e ∈ p.queue.head?, p.snd.una.toNat < e.extent.stop

theorem Pcb.Sends.recoverable {p : Pcb} {stream : List Octet} (h : p.Sends stream) :
    p.Recoverable := by
  refine ⟨fun n h₁ h₂ => ?_, fun e he => ?_⟩
  · have h₂ : n < (p.outbox stream).nxt := Nat.lt_of_lt_of_eq h₂ h.nxt
    obtain ⟨x, hx, o, ho, ⟨y, hy, hyo⟩, honly⟩ := h.sound.recover h₁ h₂
    obtain ⟨e, he, rfl⟩ := List.mem_map.mp hx
    obtain ⟨s, hs, rfl⟩ := List.mem_map.mp hy
    exact ⟨e, he, o, ho, ⟨s, hs, hyo⟩, fun s' hs' => honly _ (List.mem_map_of_mem hs')⟩
  · have hx : e.extent ∈ (p.outbox stream).queue.head? := by
      have he : p.queue.head? = some e := he
      simp [Pcb.outbox, List.head?_map, he]
    have hle : p.snd.una.toNat ≤ e.extent.pos := h.sound.head _ hx
    have hpos : 0 < e.extent.items.length :=
      List.length_pos_iff.mpr (h.sound.filled _ (List.mem_of_mem_head? hx))
    have hstop : e.extent.stop = e.extent.pos + e.extent.items.length := rfl
    omega

/-- The peer acknowledges up to `ack` and sends nothing. -/
def peerAck (ack : UInt32) : Env × Event :=
  (.ideal .zero 0 [], .segment (peerSegment 101 ack flgAck []))

/-- Ten bytes sent on the sample connection, and an acknowledgement. -/
def tenBytes (ack : UInt32) : List (Env × Event) :=
  passiveHandshake ++ [send2 (List.replicate 10 0), peerAck ack]

/-- An event that is no user call asks for nothing but memory. -/
theorem regular_segment (w : World) (s : TcpSegment) :
    Regular w (.ideal .zero 0 [], .segment s) where
  memory _ := rfl
  iss := show (0 : UInt32).toNat + 1 < 2 ^ 32 by decide
  text i data sent h _ := by
    have := h.isCall
    cases this
  fin tid i h _ := by cases h
  once tid i f h := by cases h

theorem regular_openPassive (w : World) (tid : TaskId) (l : Endpoint) (f : Option Endpoint) :
    Regular w (.ideal .zero 0 [], .user tid (.openPassive l f)) where
  memory _ := rfl
  iss := show (0 : UInt32).toNat + 1 < 2 ^ 32 by decide
  text i data sent h _ := by
    rcases h with ⟨tid, h, -⟩ | ⟨tid, b, h, -⟩ <;> cases h
  fin tid i h _ := by cases h
  once tid i f h := by cases h

theorem regular_send2 {w : World} {data : List UInt8}
    (h : (w.tab.pcb 0).snd.nxt.toNat + data.length < 2 ^ 32) : Regular w (send2 data) where
  memory _ := rfl
  iss := show (0 : UInt32).toNat + 1 < 2 ^ 32 by decide
  text i data' sent hs _ := by
    rcases hs with ⟨tid, he, rfl⟩ | ⟨tid, b, he, -⟩
    · simp only [send2, Event.user.injEq, Command.send.injEq] at he
      obtain ⟨-, hid, rfl⟩ := he
      have hi : i = 0 := by
        have hid : (0 : Int) = (i.val : Int) := hid
        exact Fin.ext (by omega)
      rw [hi]
      omega
    · cases he
  fin tid i h _ := by cases h
  once tid i f h := by cases h

theorem tenBytes_regular (ack : UInt32) :
    Guarded World.step Regular World.boot (tenBytes ack) :=
  ⟨regular_openPassive .., regular_segment .., regular_segment ..,
    regular_send2 (by decide +kernel), regular_segment .., trivial⟩

end Laplus.Tcp
