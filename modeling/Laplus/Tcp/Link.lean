/-
# `Laplus.Tcp.Link` — a connection over a line that keeps its order

Two hosts whose pcbs are ESTABLISHED, and a line in each direction that
delivers every segment once and in order.  On each host one task sends, any
number of tasks receive, and the retransmit timer runs as it likes.

What one program has given to `tcp_send` is at any time what the other has
got from `tcp_receive`, what waits in the buffer, what is on the line and
what the sending task has not handed down yet, in this order: `Flow.bytes`.
That text never arrives beyond the window rests on the marks of the segments,
`ack` with the right edge `ack + wnd`.  Over such a line they do not fall,
and a segment that gets as far as the ACK field begins at `rcv.nxt`, so a new
acknowledgement always brings its window with it.
-/
import Laplus.Lib.Fifo
import Laplus.Tcp.Handshake
import Laplus.Tcp.WindowUpdate

namespace Laplus.Tcp

open Net Lib

/-! ## Two hosts and a line in each direction -/

/-- The pcb of each host and the task that sends on it. -/
structure Connection where
  slot : Bool → PcbId
  writer : Bool → TaskId

/-- A task that sleeps in `tcp_receive`. -/
def Wait.receives : Wait → Bool
  | receive _ => true
  | _ => false

/-- Both hosts, what is on the line from each, what its program has given to
`tcp_send` and what its tasks have got from `tcp_receive`. -/
structure Link where
  world : Bool → World
  line : Bool → List TcpSegment
  given : Bool → List UInt8
  got : Bool → List UInt8

/-- What happens at a host: its program calls, a task of it runs on, the first
segment on the line arrives, the TCP timer runs. -/
inductive LinkEvent where
  | send (data : List UInt8)
  | receive (tid : TaskId) (size : Nat)
  | resume (tid : TaskId)
  | deliver
  | timer
deriving DecidableEq

/-- The bytes that the program gives away. -/
def LinkEvent.gives : LinkEvent → List UInt8
  | send data => data
  | _ => []

/-- What is left on the line to the host. -/
def LinkEvent.rest : LinkEvent → List TcpSegment → List TcpSegment
  | deliver, l => l.tail
  | _, l => l

namespace Connection
variable (c : Connection)

/-- The pcb of host `k`. -/
def pcb (l : Link) (k : Bool) : Pcb := (l.world k).tab.pcb (c.slot k)

/-- The event of the host's world. -/
def event (l : Link) (k : Bool) : LinkEvent → Option Event
  | .send data => some (.user (c.writer k) (.send (tcpPcbId (c.slot k)) data))
  | .receive tid size => some (.user tid (.receive (tcpPcbId (c.slot k)) size))
  | .resume tid => some (.resume tid)
  | .deliver => (l.line !k).head?.map .segment
  | .timer => some .timer

/-- One event at host `x.1`. -/
def step (l : Link) (x : Bool × Env × LinkEvent) : Link :=
  match c.event l x.1 x.2.2 with
  | none => l
  | some e =>
      { world := Function.update l.world x.1 ((l.world x.1).step (x.2.1, e))
        line := Function.update (Function.update l.line (!x.1) (x.2.2.rest (l.line !x.1))) x.1
          (l.line x.1 ++ segments ((l.world x.1).effects (x.2.1, e)))
        given := Function.update l.given x.1 (l.given x.1 ++ x.2.2.gives)
        got := Function.update l.got x.1 (l.got x.1 ++ (l.world x.1).handed (x.2.1, e)) }

/-- The line is up: there is a way out, and every segment of the event is taken. -/
def Up (l : Link) (x : Bool × Env × LinkEvent) : Prop :=
  (ipRouteGetIface x.2.1.routes (c.pcb l x.1).localEp.addr).isSome ∧
    ∀ e ∈ c.event l x.1 x.2.2, ∀ s ∈ segments ((l.world x.1).effects (x.2.1, e)),
      tcpOutputSegment x.2.1 s

/-- What may happen at a host.  One task sends, and not so much that a sequence number wraps; the
others receive; what arrives is on the line; and the line delivers before the timer gives up. -/
def Admits (l : Link) (x : Bool × Env × LinkEvent) : Prop :=
  c.Up l x ∧
    match x.2.2 with
    | .send data => (l.world x.1).tasks (c.writer x.1) = none ∧
        (c.pcb l x.1).snd.nxt.toNat + data.length + bufSize < 2 ^ 32
    | .receive _ _ => True
    | .resume tid => ∀ b ∈ (l.world x.1).tasks tid,
        b.pcb = c.slot x.1 ∧ (tid = c.writer x.1 ∨ b.wait.receives)
    | .deliver => l.line (!x.1) ≠ []
    | .timer => ∀ e ∈ (c.pcb l x.1).queue, e.expired x.2.1 = false

instance decUp (l : Link) (x : Bool × Env × LinkEvent) : Decidable (c.Up l x) :=
  inferInstanceAs (Decidable (_ ∧ ∀ e ∈ c.event l x.1 x.2.2,
    ∀ s ∈ segments ((l.world x.1).effects (x.2.1, e)), tcpOutputSegment x.2.1 s))

instance decAdmits (l : Link) : ∀ x : Bool × Env × LinkEvent, Decidable (c.Admits l x)
  | (k, env, .send data) => inferInstanceAs (Decidable (c.Up l (k, env, .send data) ∧ _ ∧ _))
  | (k, env, .receive tid size) =>
      inferInstanceAs (Decidable (c.Up l (k, env, .receive tid size) ∧ True))
  | (k, env, .resume tid) =>
      inferInstanceAs (Decidable (c.Up l (k, env, .resume tid) ∧ ∀ b ∈ (l.world k).tasks tid, _ ∧ _))
  | (k, env, .deliver) => inferInstanceAs (Decidable (c.Up l (k, env, .deliver) ∧ ¬ _ = _))
  | (k, env, .timer) =>
      inferInstanceAs (Decidable (c.Up l (k, env, .timer) ∧ ∀ e ∈ (c.pcb l k).queue, _ = _))

/-- Where the sending task of host `k` sleeps. -/
def waits (w : World) (k : Bool) : Option (PcbId × Wait) :=
  (w.tasks (c.writer k)).map fun b => (b.pcb, b.wait)

/-- What the sending task of host `k` has not handed down. -/
def pending (w : World) (k : Bool) : List UInt8 :=
  match c.waits w k with
  | some (_, .send data sent) => data.drop sent
  | _ => []

end Connection

/-! ## One direction -/

/-- The place and the text of a segment. -/
def TcpSegment.piece (s : TcpSegment) : Nat × List UInt8 := (s.seq.toNat, s.data)

/-- What a segment tells of its sender's window: where it begins and where it ends. -/
def TcpSegment.edge (s : TcpSegment) : Nat × Nat := (s.ack.toNat, s.ack.toNat + s.wnd.toNat)

/-- The window to receive. -/
def RcvSide.edge (rcv : RcvSide) : Nat × Nat := (rcv.nxt.toNat, rcv.nxt.toNat + rcv.wnd.toNat)

/-- The window to send, as the peer has told it last. -/
def SndSide.edge (snd : SndSide) : Nat × Nat := (snd.una.toNat, snd.una.toNat + snd.wnd.toNat)

/-- The stream from `p` to `q`, with the segments `out` on the line to `q` and `back` on that to
`p`. -/
structure Flow (given got pending : List UInt8) (p q : Pcb) (out back : List TcpSegment) :
    Prop where
  bytes : ∃ rest, Conveys q.rcv.nxt.toNat rest (out.map TcpSegment.piece) ∧
    p.snd.nxt.toNat = q.rcv.nxt.toNat + rest.length ∧ got ++ q.content ++ rest ++ pending = given
  room : p.snd.nxt.toNat + pending.length + bufSize < 2 ^ 32
  buffer : q.rcv.wnd.toNat ≤ bufSize
  edges : Ascending p.snd.edge (back.map TcpSegment.edge) q.rcv.edge
  una : p.snd.una.toNat ≤ p.snd.nxt.toNat
  within : p.snd.nxt.toNat ≤ p.snd.una.toNat + p.snd.wnd.toNat
  queue : ∀ e ∈ p.queue, e.flg = flgAck ||| flgPsh ∧ e.data ≠ [] ∧ e.data.length < 2 ^ 16 ∧
    e.seq.toNat + e.data.length ≤ p.snd.nxt.toNat
  newest : p.snd.wl1.toNat ≤ p.rcv.nxt.toNat ∧ p.snd.wl2.toNat ≤ p.snd.una.toNat

section Flow
variable {given got pending data : List UInt8} {p p' q q' : Pcb} {out back new : List TcpSegment}
  {s : TcpSegment} {env : Env} {i : PcbId}

/-- Condition variables and histories do not matter. -/
theorem Flow.congr (h : Flow given got pending p q out back) (hsnd : p'.snd = p.snd)
    (hqueue : p'.queue = p.queue) (hnxt : p.rcv.nxt.toNat ≤ p'.rcv.nxt.toNat)
    (hrcv : q'.rcv = q.rcv) (hcontent : q'.content = q.content) :
    Flow given got pending p' q' out back where
  bytes := by
    rw [hsnd, hrcv, hcontent]
    exact h.bytes
  room := hsnd ▸ h.room
  buffer := hrcv ▸ h.buffer
  edges := by
    rw [hsnd, hrcv]
    exact h.edges
  una := hsnd ▸ h.una
  within := hsnd ▸ h.within
  queue := by
    rw [hsnd, hqueue]
    exact h.queue
  newest := by
    rw [hsnd]
    exact ⟨Nat.le_trans h.newest.1 hnxt, h.newest.2⟩

theorem Flow.nxt_le (h : Flow given got pending p q out back) :
    q.rcv.nxt.toNat ≤ p.snd.nxt.toNat := by
  obtain ⟨rest, -, hnxt, -⟩ := h.bytes
  omega

/-! ### The receiver -/

/-- What `tcp_receive` takes and what it leaves. -/
theorem received_content {n : Nat} (hw : q.rcv.wnd.toNat ≤ bufSize) (hn : n ≤ q.remain) :
    slice q.buf n ++ (q.received n).content = q.content := by
  have hwnd := received_wnd hw hn
  have hrem := remain_of_le hw
  have hrem' : (q.received n).remain = q.remain - n := by
    rw [remain_of_le (by omega), hwnd, hrem]
    omega
  have hbuf : (q.received n).buf = moveDown q.buf n (q.remain - n) := rfl
  rw [Pcb.content, hrem', hbuf, slice_moveDown, slice_take _ hn, List.take_append_drop]
  rfl

/-- `tcp_receive` takes bytes out of the buffer and opens the window. -/
theorem Flow.received (h : Flow given got pending p q out back) {n : Nat} (hn : n ≤ q.remain) :
    Flow given (got ++ slice q.buf n) pending p (q.received n) out back where
  bytes := by
    obtain ⟨rest, hcar, hnxt, hbytes⟩ := h.bytes
    refine ⟨rest, hcar, hnxt, ?_⟩
    rw [← hbytes, List.append_assoc got, received_content h.buffer hn]
  room := h.room
  buffer := by
    have hw := received_wnd h.buffer hn
    have hrem := remain_of_le h.buffer
    have hle := h.buffer
    omega
  edges := h.edges.raise ⟨Nat.le_refl _, by
    have hw := received_wnd h.buffer hn
    have hnxt : (q.received n).rcv.nxt = q.rcv.nxt := rfl
    rw [RcvSide.edge, RcvSide.edge, hnxt, hw]
    omega⟩
  una := h.una
  within := h.within
  queue := h.queue
  newest := h.newest

/-- The receiver says what its window is. -/
theorem Flow.told (h : Flow given got pending p q out back)
    (hnew : ∀ s ∈ new, s.ack = q.rcv.nxt ∧ s.wnd = q.rcv.wnd) :
    Flow given got pending p q out (back ++ new) :=
  { h with
    edges := by
      rw [List.map_append]
      refine h.edges.append fun e he => ?_
      obtain ⟨s, hs, rfl⟩ := List.mem_map.mp he
      rw [TcpSegment.edge, RcvSide.edge, (hnew s hs).1, (hnew s hs).2] }

/-- **What arrives** is the next piece, inside the window, or has arrived before. -/
theorem Flow.arrives (h : Flow given got pending p q (s :: out) back) :
    (s.data ≠ [] ∧ s.seq.toNat + s.data.length ≤ q.rcv.nxt.toNat ∧
        Flow given got pending p q out back) ∨
      (s.seq = q.rcv.nxt ∧ s.data.length ≤ q.rcv.wnd.toNat ∧
        ∀ q' : Pcb, q'.rcv.nxt.toNat = q.rcv.nxt.toNat + s.data.length →
          q'.rcv.wnd.toNat + s.data.length = q.rcv.wnd.toNat →
          q'.content = q.content ++ s.data → Flow given got pending p q' out back) := by
  obtain ⟨rest, hcar, hnxt, hbytes⟩ := h.bytes
  have hright : p.snd.nxt.toNat ≤ q.rcv.nxt.toNat + q.rcv.wnd.toNat :=
    Nat.le_trans h.within h.edges.le.2
  rw [List.map_cons, TcpSegment.piece] at hcar
  generalize hr : q.rcv.nxt.toNat = r at hcar hnxt hright
  generalize hseq : s.seq.toNat = a at hcar
  cases hcar with
  | again ht ha hcar =>
      subst hr
      exact .inl ⟨ht, ha, { h with bytes := ⟨rest, hcar, hnxt, hbytes⟩ }⟩
  | @next _ _ rest _ hcar =>
      have hfit : s.data.length ≤ q.rcv.wnd.toNat := by
        rw [List.length_append] at hnxt
        omega
      refine .inr ⟨UInt32.toNat_inj.mp (hseq.trans hr.symm), hfit, fun q' hnxt' hwnd' hcon => ?_⟩
      rw [List.length_append] at hnxt
      refine { h with bytes := ⟨rest, ?_, ?_, ?_⟩, buffer := ?_, edges := h.edges.raise ⟨?_, ?_⟩ }
      · rwa [hnxt']
      · omega
      · rw [← hbytes, hcon]
        simp only [List.append_assoc]
      · exact Nat.le_trans (by omega) h.buffer
      · show q.rcv.nxt.toNat ≤ q'.rcv.nxt.toNat
        omega
      · show q.rcv.nxt.toNat + q.rcv.wnd.toNat ≤ q'.rcv.nxt.toNat + q'.rcv.wnd.toNat
        omega

/-! ### The sender -/

/-- Nothing but text in the window is sent: `cap` is what is left of it. -/
theorem Flow.cap (h : Flow given got pending p q out back) :
    p.cap.toNat = p.snd.una.toNat + p.snd.wnd.toNat - p.snd.nxt.toNat := by
  have hflight : p.flight = p.snd.nxt.toNat - p.snd.una.toNat :=
    UInt32.toNat_sub_of_le _ _ (UInt32.le_iff_toNat_le.mpr h.una)
  have hwithin : p.Within := by
    have hw := h.within
    rw [Pcb.Within, hflight]
    omega
  have huna := h.una
  rw [cap_toNat hwithin, hflight]
  omega

/-- The next text is handed down. -/
theorem Flow.pushed {k : Nat} (h : Flow given got (data ++ pending) p q out back) (hne : data ≠ [])
    (hcap : data.length ≤ p.cap.toNat) :
    Flow given got pending (p.pushed env k data) q
      (out ++ [p.segment (flgAck ||| flgPsh) data]) back := by
  have hroom := h.room
  rw [List.length_append] at hroom
  have hnxt : (p.pushed env k data).snd.nxt.toNat = p.snd.nxt.toNat + data.length := by
    show (p.snd.nxt + UInt32.ofNat data.length).toNat = _
    rw [UInt32.toNat_add, UInt32.toNat_ofNat']
    omega
  have hseq : (p.segment (flgAck ||| flgPsh) data).seq = p.snd.nxt := by
    have hsyn : flgIsSet (flgAck ||| flgPsh) flgSyn = false := by decide
    simp [Pcb.segment, hsyn]
  have hc := h.cap
  have hwithin := h.within
  obtain ⟨rest, hcar, hrest, hbytes⟩ := h.bytes
  refine ⟨⟨rest ++ data, ?_, ?_, ?_⟩, ?_, h.buffer, h.edges, ?_, ?_, ?_, h.newest⟩
  · have hpiece : (p.segment (flgAck ||| flgPsh) data).piece =
        (q.rcv.nxt.toNat + rest.length, data) := by
      rw [TcpSegment.piece, hseq, hrest]
      rfl
    rw [List.map_append, List.map_singleton, hpiece]
    exact hcar.concat data
  · rw [hnxt, List.length_append]
    omega
  · rw [← hbytes]
    simp only [List.append_assoc]
  · omega
  · have huna := h.una
    rw [hnxt]
    exact Nat.le_trans huna (Nat.le_add_right _ _)
  · rw [hnxt]
    show p.snd.nxt.toNat + data.length ≤ p.snd.una.toNat + p.snd.wnd.toNat
    omega
  · intro e he
    have he : e ∈ p.queueAfter env (env.calloc k) (flgAck ||| flgPsh) data := he
    rw [hnxt]
    have hold (he : e ∈ p.queue) : e.flg = flgAck ||| flgPsh ∧ e.data ≠ [] ∧
        e.data.length < 2 ^ 16 ∧ e.seq.toNat + e.data.length ≤ p.snd.nxt.toNat + data.length := by
      obtain ⟨h₁, h₂, h₃, h₄⟩ := h.queue e he
      exact ⟨h₁, h₂, h₃, Nat.le_trans h₄ (Nat.le_add_right _ _)⟩
    unfold Pcb.queueAfter at he
    split at he
    · rcases List.mem_append.mp he with he | he
      · exact hold he
      · rw [List.mem_singleton.mp he]
        have hwnd := p.snd.wnd.toNat_lt
        have huna := h.una
        exact ⟨rfl, hne, by show data.length < _; omega, by rw [hseq]⟩
    · exact hold he

/-- The loop of `tcp_send` hands down the text that follows. -/
theorem Flow.bursts {dev : NetDevice} {k sent : Nat} {b : Burst}
    (hb : Bursts env dev data k p sent b) (hstop : b.stop ≠ .failed)
    (h : Flow given got (data.drop sent) p q out back) :
    Flow given got (data.drop b.sent) b.pcb q (out ++ b.trace.map (·.seg)) back := by
  induction hb generalizing out with
  | finished => rwa [List.map_nil, List.append_nil]
  | window => rwa [List.map_nil, List.append_nil]
  | failed => exact absurd rfl hstop
  | next k p sent hs hc b hb ih =>
      have hcut := @cut_pos dev _ _ _ hs hc
      have hlen : (p.nextText dev data sent).length = p.cut dev data sent := nextText_length
      have hsplit : data.drop sent =
          p.nextText dev data sent ++ data.drop (sent + p.cut dev data sent) := by
        rw [Pcb.nextText, ← List.drop_drop, List.take_append_drop]
      rw [hsplit] at h
      have hpushed : Flow given got (data.drop (sent + p.cut dev data sent))
          (p.pushed env k (p.nextText dev data sent)) q
          (out ++ [p.segment (flgAck ||| flgPsh) (p.nextText dev data sent)]) back :=
        h.pushed (List.length_pos_iff.mp (by rw [hlen]; exact hcut))
          (by rw [hlen]; exact Nat.min_le_right _ _)
      have hrest := ih hstop hpushed
      rwa [List.append_assoc, List.singleton_append] at hrest

/-- An acknowledgement without text. -/
theorem Flow.speaks (h : Flow given got pending p q out back) :
    Flow given got pending (p.sending (p.segment flgAck [])) q (out ++ [p.segment flgAck []])
      back := by
  obtain ⟨rest, hcar, hnxt, hbytes⟩ := h.bytes
  have hseq : (p.segment flgAck []).seq = p.snd.nxt := by
    have hsyn : flgIsSet flgAck flgSyn = false := by decide
    simp [Pcb.segment, hsyn]
  have hpiece : (p.segment flgAck []).piece = (q.rcv.nxt.toNat + rest.length, []) := by
    rw [TcpSegment.piece, hseq, hnxt]
    rfl
  have hmore := hcar.concat []
  rw [List.append_nil, ← hpiece] at hmore
  refine { h with bytes := ⟨rest, ?_, hnxt, hbytes⟩ }
  rwa [List.map_append, List.map_singleton]

/-- Text that has been handed down before. -/
theorem Flow.repeats (h : Flow given got pending p q out back)
    (hnew : ∀ s ∈ new, s.data ≠ [] ∧ s.seq.toNat + s.data.length ≤ p.snd.nxt.toNat) :
    Flow given got pending p q (out ++ new) back := by
  obtain ⟨rest, hcar, hnxt, hbytes⟩ := h.bytes
  refine { h with bytes := ⟨rest, ?_, hnxt, hbytes⟩ }
  rw [List.map_append]
  refine hcar.repeats fun x hx => ?_
  obtain ⟨s, hs, rfl⟩ := List.mem_map.mp hx
  rw [← hnxt]
  exact hnew s hs

/-- What arrives does not acknowledge more than has been sent. -/
theorem Flow.ack_le (h : Flow given got pending p q out (s :: back)) : s.ack ≤ p.snd.nxt :=
  UInt32.le_iff_toNat_le.mpr (Nat.le_trans h.edges.2.le.1 h.nxt_le)

/-- A segment is dropped before its acknowledgement is looked at. -/
theorem Flow.skipped (h : Flow given got pending p q out (s :: back)) :
    Flow given got pending p q out back :=
  { h with edges := h.edges.tail }

/-- **A new acknowledgement brings its window with it**: the segment begins at `rcv.nxt`, so it is
not older than the one the window is from. -/
theorem Flow.acked (h : Flow given got pending p q out (s :: back)) (hseq : s.seq = p.rcv.nxt) :
    Flow given got pending (p.acked s.info) q out back := by
  have hle := h.ack_le
  by_cases hfresh : p.freshAck s.info
  · have hlt : p.snd.una < s.ack := by
      simp only [Pcb.freshAck, Bool.and_eq_true, decide_eq_true_eq] at hfresh
      exact hfresh.1
    have hltn := UInt32.lt_iff_toNat_lt.mp hlt
    have hnewer : p.snd.wl1 < s.seq ∨ p.snd.wl1 = s.seq ∧ p.snd.wl2 ≤ s.ack := by
      rcases Nat.lt_or_eq_of_le h.newest.1 with h₁ | h₁
      · exact .inl (hseq ▸ UInt32.lt_iff_toNat_lt.mpr h₁)
      · refine .inr ⟨hseq ▸ UInt32.toNat_inj.mp h₁, UInt32.le_iff_toNat_le.mpr ?_⟩
        exact Nat.le_of_lt (Nat.lt_of_le_of_lt h.newest.2 hltn)
    have hsnd : (p.acked s.info).snd =
        { p.snd with una := s.ack, wnd := s.wnd, wl1 := s.seq, wl2 := s.ack } := by
      rw [Pcb.acked_fresh hfresh]
      exact if_pos hnewer
    have hqueue : (p.acked s.info).queue ⊆ p.queue := by
      rw [Pcb.acked_fresh hfresh]
      exact cleanup_subset _ _
    refine ⟨?_, ?_, h.buffer, ?_, ?_, ?_, ?_, ?_⟩
    · rw [hsnd]
      exact h.bytes
    · rw [hsnd]
      exact h.room
    · rw [hsnd]
      exact h.edges.2
    · rw [hsnd]
      exact UInt32.le_iff_toNat_le.mp hle
    · rw [hsnd]
      exact Nat.le_trans h.within h.edges.1.2
    · intro e he
      rw [hsnd]
      exact h.queue e (hqueue he)
    · rw [hsnd]
      exact ⟨Nat.le_of_eq (congrArg UInt32.toNat hseq), Nat.le_refl _⟩
  · rw [Pcb.acked_stale (Bool.not_eq_true _ ▸ hfresh)]
    exact h.skipped

end Flow

/-! ## A segment of the line -/

/-- A segment that acknowledges and does nothing else but bring text. -/
structure TcpSegment.Plain (s : TcpSegment) : Prop where
  ack : flgIsSet s.flg flgAck
  rst : flgIsSet s.flg flgRst = false
  syn : flgIsSet s.flg flgSyn = false
  fin : flgIsSet s.flg flgFin = false
  length : s.data.length < 2 ^ 16

/-- The pcb `p` becomes `p'` and sends `new`. -/
structure Turn (p p' : Pcb) (new : List TcpSegment) : Prop where
  state : p'.state = .established
  localEp : p'.localEp = p.localEp
  foreignEp : p'.foreignEp = p.foreignEp
  plain : ∀ s ∈ new, s.Plain ∧ s.localEp = p.localEp ∧ s.foreignEp = p.foreignEp

theorem Turn.refl {p : Pcb} (h : p.state = .established) : Turn p p [] :=
  ⟨h, rfl, rfl, fun _ hs => (List.not_mem_nil hs).elim⟩

theorem plain_ack (p : Pcb) : (p.segment flgAck []).Plain := by
  have hflg : (p.segment flgAck []).flg = flgAck := rfl
  refine ⟨?_, ?_, ?_, ?_, Nat.two_pow_pos 16⟩ <;> rw [hflg] <;> decide

theorem plain_text {s : TcpSegment} (hflg : s.flg = flgAck ||| flgPsh)
    (hlen : s.data.length < 2 ^ 16) : s.Plain := by
  refine ⟨?_, ?_, ?_, ?_, hlen⟩ <;> rw [hflg] <;> decide

section Arrival
variable {p q : Pcb} {s : TcpSegment} {env : Env} {i : PcbId}

theorem TcpSegment.Plain.len (h : s.Plain) : s.info.len = UInt16.ofNat s.data.length := by
  simp [TcpSegment.info, TcpSegment.len, h.syn, h.fin]

theorem TcpSegment.Plain.len_toNat (h : s.Plain) : s.info.len.toNat = s.data.length := by
  rw [h.len]
  exact UInt16.toNat_ofNat_of_lt' h.length

/-- Text that has been taken is not acceptable, and answered with what is expected. -/
theorem otherwise_again (hs : p.state = .established) (hplain : s.Plain) (hne : s.data ≠ [])
    (hold : s.seq.toNat + s.data.length ≤ p.rcv.nxt.toNat) :
    p.otherwise env i s = (Outcome.start p).output env i flgAck := by
  have hpos : 0 < s.data.length := List.length_pos_iff.mpr hne
  have hlen := hplain.len_toNat
  have hlt := p.rcv.nxt.toNat_lt
  have hlen0 : s.info.len ≠ 0 := by
    intro h0
    rw [h0] at hlen
    have h00 : (0 : UInt16).toNat = 0 := rfl
    omega
  have hbefore : ¬ p.rcv.nxt ≤ s.seq := by
    rw [UInt32.le_iff_toNat_le]
    omega
  -- the last byte too lies before the window
  have hlast : ¬ p.rcv.nxt ≤ s.seq + s.info.len.toUInt32 - 1 := by
    have hone : (1 : UInt32) ≤ s.seq + s.info.len.toUInt32 := by
      rw [UInt32.le_iff_toNat_le, UInt32.toNat_add, UInt16.toNat_toUInt32, hlen, UInt32.toNat_one]
      omega
    rw [UInt32.le_iff_toNat_le, UInt32.toNat_sub_of_le _ _ hone, UInt32.toNat_add,
      UInt16.toNat_toUInt32, hlen, UInt32.toNat_one]
    omega
  have hacc : acceptable p.rcv s.info = false := by
    have hseq : s.info.seq = s.seq := rfl
    simp [acceptable, hlen0, inWindow, hseq, hbefore, hlast]
  unfold Pcb.otherwise arrivesOtherwise
  simp [hs, PcbState.synchronized, hacc, hplain.rst]

/-- A segment that begins at `rcv.nxt` and fits the window gets as far as its text. -/
theorem otherwise_next (hs : p.state = .established) (hplain : s.Plain) (hseq : s.seq = p.rcv.nxt)
    (hfit : s.data.length ≤ p.rcv.wnd.toNat)
    (hroom : p.rcv.nxt.toNat + p.rcv.wnd.toNat < 2 ^ 32) (hack : s.ack ≤ p.snd.nxt) :
    p.otherwise env i s =
      textStage env i s.info s.data ((Outcome.start p).setPcb (p.acked s.info)) := by
  have hacking : p.state.acking := by rw [hs]; rfl
  have hlen := hplain.len_toNat
  have hin (h : p.rcv.wnd ≠ 0) : inWindow p.rcv s.info.seq := by
    have hpos : 0 < p.rcv.wnd.toNat :=
      Nat.pos_of_ne_zero fun h0 => h (UInt16.toNat_inj.mp h0)
    have hinfo : s.info.seq = p.rcv.nxt := hseq
    rw [inWindow, hinfo, Bool.and_eq_true, decide_eq_true_eq, decide_eq_true_eq]
    refine ⟨UInt32.le_refl _, ?_⟩
    rw [UInt32.lt_iff_toNat_lt, UInt32.toNat_add, UInt16.toNat_toUInt32, Nat.mod_eq_of_lt hroom]
    omega
  have hacc : acceptable p.rcv s.info := by
    have hinfo : s.info.seq = p.rcv.nxt := hseq
    unfold acceptable
    by_cases hwnd : p.rcv.wnd = 0
    · have hzero : s.info.len = 0 := by
        rw [hwnd] at hfit
        exact UInt16.toNat_inj.mp (hlen.trans (Nat.le_zero.mp hfit))
      rw [if_pos hzero, if_pos hwnd, hinfo, decide_eq_true_eq]
    · simp [hwnd, hin hwnd]
  have hreset : p.resetBy s.info s.flg = false := by
    simp [Pcb.resetBy, hplain.rst, hplain.syn, hs]
  have hbeyond : (Outcome.start p).pcb.ackBeyond s.info = false := by
    have hinfo : s.info.ack = s.ack := rfl
    simp [Pcb.ackBeyond, hinfo, UInt32.not_lt.mpr hack]
  have hstate : ((Outcome.start p).setPcb (p.acked s.info)).pcb.state = .established := hs
  have hfin (o : Outcome) : arrivesFin env i s.info s.flg o = o := by
    rw [arrivesFin, if_neg (by simp [hplain.fin])]
  rw [Pcb.otherwise, arrivesOtherwise_acking hacking hacc hreset, if_pos hplain.ack,
    arrivesAckUpdate_eq, hbeyond, if_neg Bool.false_ne_true, arrivesText, hfin, ackedFin,
    Outcome.start_pcb, hstate]

/-- Text at `rcv.nxt` is stored behind what waits in the buffer. -/
theorem takeText_content {data : List UInt8} (hw : p.rcv.wnd.toNat ≤ bufSize)
    (hfit : data.length ≤ p.rcv.wnd.toNat) :
    (p.takeText s.info data).rcv.wnd.toNat + data.length = p.rcv.wnd.toNat ∧
      (p.takeText s.info data).content = p.content ++ data := by
  have hwnd : (p.takeText s.info data).rcv.wnd.toNat = p.rcv.wnd.toNat - data.length := wnd_sub hfit
  refine ⟨by omega, ?_⟩
  have hrem : (p.takeText s.info data).remain = p.remain + data.length := by
    rw [remain_of_le (by omega), remain_of_le hw, hwnd]
    omega
  have hbuf : (p.takeText s.info data).buf = copyAt p.buf p.remain data := rfl
  rw [Pcb.content, hrem, hbuf, slice_copyAt]
  rfl

/-- An acknowledgement leaves the receiving side alone. -/
theorem acked_receive (p : Pcb) (seg : SegmentInfo) : (p.acked seg).rcv = p.rcv ∧
    (p.acked seg).content = p.content ∧ (p.acked seg).state = p.state ∧
    (p.acked seg).localEp = p.localEp ∧ (p.acked seg).foreignEp = p.foreignEp :=
  ⟨rfl, rfl, rfl, rfl, rfl⟩

end Arrival

section Hears
variable {given given' got got' pending pending' : List UInt8} {p q : Pcb}
  {out rest : List TcpSegment} {s : TcpSegment} {env : Env} {i : PcbId}

/-- **The first segment on the line arrives.** -/
theorem Flow.hears (h : Flow given got pending p q out (s :: rest))
    (h' : Flow given' got' pending' q p (s :: rest) out) (hs : p.state = .established)
    (hplain : s.Plain) :
    let o := p.otherwise env i s
    o.released = false ∧ o.queued = false ∧ Turn p o.pcb (segments o.effects) ∧
      Flow given got pending o.pcb q (out ++ segments o.effects) rest ∧
      Flow given' got' pending' q o.pcb rest (out ++ segments o.effects) ∧
      ∀ j off text, .copy j off text ∈ o.effects → off + text.length ≤ bufSize := by
  intro o
  have hbuf := h'.buffer
  have hack := h.ack_le
  have hright : p.rcv.nxt.toNat + p.rcv.wnd.toNat < 2 ^ 32 := by
    have hle := h'.nxt_le
    have hroom := h'.room
    omega
  have answer (p₁ : Pcb) (hstate : p₁.state = .established) (hl : p₁.localEp = p.localEp)
      (hf : p₁.foreignEp = p.foreignEp) :
      Turn p (p₁.sending (p₁.segment flgAck [])) [p₁.segment flgAck []] := by
    refine ⟨hstate, hl, hf, fun s' hs' => ?_⟩
    rw [List.mem_singleton.mp hs']
    exact ⟨plain_ack p₁, hl, hf⟩
  have told (p₁ : Pcb) (s' : TcpSegment) (hs' : s' ∈ [p₁.segment flgAck []]) :
      s'.ack = p₁.rcv.nxt ∧ s'.wnd = p₁.rcv.wnd := by
    rw [List.mem_singleton.mp hs']
    exact ⟨rfl, rfl⟩
  have sent (p₁ : Pcb) : (tcpOutput env (env.calloc 0) p₁ flgAck []).pcb =
      p₁.sending (p₁.segment flgAck []) := by
    rw [tcpOutput_pcb, queueAfter_ack]
    rfl
  rcases h'.arrives with ⟨hne, hold, hflow⟩ | ⟨hseq, hfit, htaken⟩
  · -- text that has been taken before
    have ho : o = (Outcome.start p).output env i flgAck := otherwise_again hs hplain hne hold
    have hseg : segments o.effects = [p.segment flgAck []] := by rw [ho]; rfl
    have hpcb : o.pcb = p.sending (p.segment flgAck []) := by
      rw [ho, Outcome.output_pcb]
      exact sent p
    rw [hseg, hpcb]
    refine ⟨by rw [ho]; rfl, by rw [ho]; rfl, answer p hs rfl rfl, h.skipped.speaks, ?_, ?_⟩
    · exact (hflow.told (told p)).congr rfl rfl (Nat.le_refl _) rfl rfl
    · intro j off text hcopy
      rw [ho] at hcopy
      cases List.mem_singleton.mp hcopy
  · -- the next piece
    have ho : o = textStage env i s.info s.data ((Outcome.start p).setPcb (p.acked s.info)) :=
      otherwise_next hs hplain hseq hfit hright hack
    have hacked := h.acked hseq
    obtain ⟨hrcv, hcontent, hstate, hl, hf⟩ := acked_receive p s.info
    rw [hs] at hstate
    cases hdata : s.data with
    | nil =>
        have hnone : o = (Outcome.start p).setPcb (p.acked s.info) := by
          rw [ho, textStage, Outcome.setPcb_pcb, Pcb.takesText, hstate, hdata]
          rfl
        rw [hnone]
        refine ⟨rfl, rfl, ⟨hstate, hl, hf, fun _ h => (List.not_mem_nil h).elim⟩, ?_, ?_,
          fun _ _ _ h => (List.not_mem_nil h).elim⟩
        · rw [show segments ((Outcome.start p).setPcb (p.acked s.info)).effects = [] from rfl,
            List.append_nil]
          exact hacked
        · rw [show segments ((Outcome.start p).setPcb (p.acked s.info)).effects = [] from rfl,
            List.append_nil]
          exact htaken _ (by rw [hdata]; rfl) (by rw [hdata]; rfl)
            (by rw [hdata, List.append_nil]; exact hcontent)
    | cons b data =>
        have htakes : (p.acked s.info).takesText s.data := by
          rw [Pcb.takesText, hstate, hdata]
          rfl
        have htext : o = ((((Outcome.start p).setPcb ((p.acked s.info).takeText s.info s.data)).emit
            (.copy i (p.acked s.info).remain s.data)).output env i flgAck).emit (.broadcast i) := by
          rw [ho, textStage]
          exact if_pos htakes
        set p₁ := (p.acked s.info).takeText s.info s.data with hp₁
        have hseg : segments o.effects = [p₁.segment flgAck []] := by rw [htext]; rfl
        have hpcb : o.pcb = p₁.sending (p₁.segment flgAck []) := by
          rw [htext, Outcome.emit_pcb, Outcome.output_pcb]
          exact sent p₁
        have hstored : p₁.rcv.wnd.toNat + s.data.length = p.rcv.wnd.toNat ∧
            p₁.content = p.content ++ s.data :=
          takeText_content (p := p.acked s.info) (s := s) hbuf hfit
        have hnxt : p₁.rcv.nxt.toNat = p.rcv.nxt.toNat + s.data.length := by
          show (s.seq + s.info.len.toUInt32).toNat = _
          rw [hseq, UInt32.toNat_add, UInt16.toNat_toUInt32, hplain.len_toNat]
          omega
        rw [hseg, hpcb]
        refine ⟨by rw [htext]; rfl, by rw [htext]; rfl, answer p₁ hstate hl hf, ?_, ?_, ?_⟩
        · refine (hacked.congr (show p₁.snd = _ from rfl) rfl ?_ rfl rfl).speaks
          rw [hnxt]
          exact Nat.le_add_right _ _
        · exact ((htaken p₁ hnxt hstored.1 hstored.2).told (told p₁)).congr rfl rfl
            (Nat.le_refl _) rfl rfl
        · intro j off text hcopy
          have heff : o.effects = [.copy i p.remain s.data,
              .output i (p₁.segment flgAck []), .broadcast i] := by rw [htext]; rfl
          rw [heff] at hcopy
          rcases List.mem_cons.mp hcopy with hcopy | hcopy
          · cases hcopy
            have hrem := remain_of_le hbuf
            omega
          · rcases List.mem_cons.mp hcopy with hcopy | hcopy
            · cases hcopy
            · cases List.mem_singleton.mp hcopy

end Hears

/-! ## The timer -/

section Ticks
variable {given given' got got' pending pending' : List UInt8} {p q : Pcb}
  {out back : List TcpSegment} {env : Env} {i : PcbId}

/-- **What is not acknowledged is sent again.** -/
theorem Flow.ticks (h : Flow given got pending p q out back)
    (h' : Flow given' got' pending' q p back out) (hs : p.state = .established)
    (hexp : ∀ e ∈ p.queue, e.expired env = false) :
    let new := segments (emitQueue env i p p.queue).2.2
    Turn p (p.ticked env i) new ∧ Flow given got pending (p.ticked env i) q (out ++ new) back ∧
      Flow given' got' pending' q (p.ticked env i) back (out ++ new) := by
  intro new
  have hnone : p.queue.any (·.expired env) = false := by
    rw [List.any_eq_false]
    exact fun e he => Bool.eq_false_iff.mp (hexp e he)
  have hpcb : p.ticked env i =
      { p with queue := (p.ticked env i).queue, hist := (p.ticked env i).hist } := by
    rw [Pcb.ticked, emitQueue_pcb, hnone, if_neg Bool.false_ne_true]
  have hnew (s : TcpSegment) (hseg : s ∈ new) : ∃ e ∈ p.queue, s = p.retransmission e := by
    obtain ⟨x, hx, hxs⟩ := List.mem_filterMap.mp hseg
    rcases emitQueue_effects env i p p.queue x hx with rfl | ⟨e, he, rfl⟩
    · cases hxs
    · cases hxs
      exact ⟨e, he, rfl⟩
  have hqueue : ∀ e ∈ (p.ticked env i).queue, e.flg = flgAck ||| flgPsh ∧ e.data ≠ [] ∧
      e.data.length < 2 ^ 16 ∧ e.seq.toNat + e.data.length ≤ p.snd.nxt.toNat := by
    refine ticked_queue _ (fun e e' heq he => ?_) h.queue
    simp only [QueueEntry.content, Prod.mk.injEq] at heq
    rwa [heq.1, heq.2.1, heq.2.2]
  have hflow : Flow given got pending p q (out ++ new) back := by
    refine h.repeats fun s hseg => ?_
    obtain ⟨e, he, rfl⟩ := hnew s hseg
    obtain ⟨-, hne, -, hle⟩ := h.queue e he
    exact ⟨hne, hle⟩
  refine ⟨⟨?_, ?_, ?_, fun s hseg => ?_⟩, ?_, ?_⟩
  · rw [hpcb]
    exact hs
  · rw [hpcb]
  · rw [hpcb]
  · obtain ⟨e, he, rfl⟩ := hnew s hseg
    obtain ⟨hflg, -, hlen, -⟩ := h.queue e he
    exact ⟨plain_text hflg hlen, rfl, rfl⟩
  · rw [hpcb]
    exact { hflow with queue := hqueue }
  · have htold : Flow given' got' pending' q p back (out ++ new) := h'.told fun s hseg => by
      obtain ⟨e, -, rfl⟩ := hnew s hseg
      exact ⟨rfl, rfl⟩
    rw [hpcb]
    exact htold.congr rfl rfl (Nat.le_refl _) rfl rfl

end Ticks

/-! ## The rest of the table -/

/-- A slot that has nothing to send again: unused, or listening. -/
def Pcb.Quiet (p : Pcb) : Prop := p.state = .free ∨ p.state = .listen ∧ p.queue = []

instance (p : Pcb) : Decidable p.Quiet := inferInstanceAs (Decidable (_ ∨ _ ∧ _))

section Rest
variable {env : Env} {t t' : Table} {i j : PcbId} {is : List PcbId}

/-- The timer passes a quiet slot over. -/
theorem timerSlot_quiet (h : (t.pcb j).Quiet) : timerSlot env t j = (t, []) := by
  unfold timerSlot
  rcases h with h | ⟨h, hq⟩
  · rw [if_pos h]
  · have hfree : (t.pcb j).state ≠ .free := by
      rw [h]
      exact fun h => by cases h
    have hwait : (t.pcb j).timewaitElapsed env = false := by
      simp [Pcb.timewaitElapsed, h]
    have hself : { t.pcb j with queue := [] } = t.pcb j := by rw [← hq]
    simp only [if_neg hfree, hwait, hq, emitQueue, hself, Table.claim_set, Bool.false_eq_true,
      if_false]

theorem timerLoop_quiet (h : ∀ j ∈ is, (t.pcb j).Quiet) : timerLoop env t is = (t, []) := by
  induction is with
  | nil => rfl
  | cons j is ih =>
      rw [timerLoop, timerSlot_quiet (h j List.mem_cons_self)]
      simp only [ih fun j hj => h j (List.mem_cons_of_mem _ hj), List.append_nil]

theorem timerLoop_append (is js : List PcbId) :
    timerLoop env t (is ++ js) =
      ((timerLoop env (timerLoop env t is).1 js).1,
        (timerLoop env t is).2 ++ (timerLoop env (timerLoop env t is).1 js).2) := by
  induction is generalizing t with
  | nil => rfl
  | cons i is ih => simp only [List.cons_append, timerLoop, ih, List.append_assoc]

/-- With all others quiet the timer works on one slot. -/
theorem tcpTimer_alone (hq : ∀ j ≠ i, (t.pcb j).Quiet) (hs : (t.pcb i).state = .established) :
    tcpTimer env t = (t.set i ((t.pcb i).ticked env i),
      (emitQueue env i (t.pcb i) (t.pcb i).queue).2.2) := by
  have hslot : timerSlot env t i = (t.set i ((t.pcb i).ticked env i),
      (emitQueue env i (t.pcb i) (t.pcb i).queue).2.2) := by
    have hwait : (t.pcb i).timewaitElapsed env = false := by
      simp [Pcb.timewaitElapsed, hs]
    have hfree : (t.pcb i).state ≠ .free := by
      rw [hs]
      exact fun h => by cases h
    unfold timerSlot
    simp only [if_neg hfree, hwait, Bool.false_eq_true, if_false]
    rfl
  obtain ⟨pre, post, hsplit⟩ := List.append_of_mem (mem_slots i)
  have hnodup : (pre ++ i :: post).Nodup := hsplit ▸ List.nodup_finRange 16
  have hpre : ∀ j ∈ pre, j ≠ i := by
    rintro j hj rfl
    exact (List.nodup_append.mp hnodup).2.2 j hj j List.mem_cons_self rfl
  have hpost : ∀ j ∈ post, j ≠ i := by
    rintro j hj rfl
    exact (List.nodup_cons.mp (List.nodup_append.mp hnodup).2.1).1 hj
  have hafter : timerLoop env (t.set i ((t.pcb i).ticked env i)) post =
      (t.set i ((t.pcb i).ticked env i), []) := by
    refine timerLoop_quiet fun j hj => ?_
    rw [Table.set_pcb_ne _ _ (hpost j hj)]
    exact hq j (hpost j hj)
  rw [tcpTimer, hsplit, timerLoop_append, timerLoop_quiet fun j hj => hq j (hpre j hj), timerLoop,
    hslot, hafter, List.append_nil, List.nil_append]

/-- What `tcp_pcb_select` reads. -/
theorem select_congr (h : ∀ j, (t'.pcb j).localEp = (t.pcb j).localEp ∧
    (t'.pcb j).foreignEp = (t.pcb j).foreignEp ∧ (t'.pcb j).state = (t.pcb j).state)
    (l : Endpoint) (f : Option Endpoint) : tcpPcbSelect t' l f = tcpPcbSelect t l f := by
  have hloop (is : List PcbId) : ∀ x, selectLoop t' l f is x = selectLoop t l f is x := by
    induction is with
    | nil => exact fun _ => rfl
    | cons j is ih =>
        obtain ⟨hl, hf, hs⟩ := h j
        intro x
        simp only [selectLoop, hl, hf, hs, ih]
  exact hloop slots none

end Rest

/-! ## One host -/

namespace Connection
variable (c : Connection)

/-- What holds of host `k`. -/
structure Stands (k : Bool) (w : World) : Prop where
  state : (w.tab.pcb (c.slot k)).state = .established
  selected : tcpPcbSelect w.tab (w.tab.pcb (c.slot k)).localEp
    (some (w.tab.pcb (c.slot k)).foreignEp) = some (c.slot k)
  quiet : ∀ j ≠ c.slot k, (w.tab.pcb j).Quiet
  writer : ∀ x ∈ c.waits w k, x.1 = c.slot k ∧
    (x.2.receives ∨ ∃ data sent, x.2 = .send data sent)

/-- **A turn of host `k`**, from the pcb `p` with `pend` not handed down to the world `w'`: it hands
out the bytes `handed`, sends `new`, and takes what `back'` lacks of `back` off the line. -/
structure Turns (k : Bool) (p : Pcb) (pend : List UInt8) (w' : World) (handed : List UInt8)
    (new back back' : List TcpSegment) : Prop where
  stands : c.Stands k w'
  turn : Turn p (w'.tab.pcb (c.slot k)) new
  flows : ∀ {given got given' got' pend' : List UInt8} {q : Pcb} {out : List TcpSegment},
    Flow given got pend p q out back → Flow given' got' pend' q p back out →
      Flow given got (c.pending w' k) (w'.tab.pcb (c.slot k)) q (out ++ new) back' ∧
        Flow given' (got' ++ handed) pend' q (w'.tab.pcb (c.slot k)) back' (out ++ new)

variable {c} {k : Bool} {w w' : World} {p p' : Pcb} {pend handed : List UInt8}
  {new back back' : List TcpSegment} {tid : TaskId} {env : Env}

/-- The host rewrites its pcb, and nothing else but condition variables and sleepers. -/
theorem Stands.rewritten (h : c.Stands k w) (hown : (w'.tab.pcb (c.slot k)).core = p'.core)
    (hothers : ∀ j ≠ c.slot k, (w'.tab.pcb j).core = (w.tab.pcb j).core)
    (ht : Turn (w.tab.pcb (c.slot k)) p' new)
    (hw : ∀ x ∈ c.waits w' k, x.1 = c.slot k ∧
      (x.2.receives ∨ ∃ data sent, x.2 = .send data sent)) : c.Stands k w' := by
  obtain ⟨cond, hcond⟩ := core_eq hown
  have hstate : (w'.tab.pcb (c.slot k)).state = .established := hcond ▸ ht.state
  have hl : (w'.tab.pcb (c.slot k)).localEp = (w.tab.pcb (c.slot k)).localEp :=
    hcond ▸ ht.localEp
  have hf : (w'.tab.pcb (c.slot k)).foreignEp = (w.tab.pcb (c.slot k)).foreignEp :=
    hcond ▸ ht.foreignEp
  refine ⟨hstate, ?_, fun j hj => ?_, hw⟩
  · rw [hl, hf, select_congr fun j => ?_]
    · exact h.selected
    · by_cases hj : j = c.slot k
      · subst hj
        exact ⟨hl, hf, hstate.trans h.state.symm⟩
      · obtain ⟨cond', hcond'⟩ := core_eq (hothers j hj)
        rw [hcond']
        exact ⟨rfl, rfl, rfl⟩
  · obtain ⟨cond', hcond'⟩ := core_eq (hothers j hj)
    rw [hcond']
    exact h.quiet j hj

/-- Condition variables do not matter. -/
theorem Turns.of_core (h : c.Turns k p' pend w' handed new back back') (hc : p'.core = p.core) :
    c.Turns k p pend w' handed new back back' := by
  obtain ⟨cond, rfl⟩ := core_eq hc
  refine ⟨h.stands, ⟨h.turn.state, h.turn.localEp, h.turn.foreignEp, h.turn.plain⟩, ?_⟩
  intro given got given' got' pend' q out hk hk'
  exact h.flows (hk.congr rfl rfl (Nat.le_refl _) rfl rfl)
    (hk'.congr rfl rfl (Nat.le_refl _) rfl rfl)

/-- The flows see nothing of a condition variable. -/
theorem flows_core {given got given' got' pend' : List UInt8} {q : Pcb} {out : List TcpSegment}
    (hc : p'.core = p.core)
    (h : Flow given got pend p q out back ∧ Flow given' got' pend' q p back out) :
    Flow given got pend p' q out back ∧ Flow given' got' pend' q p' back out := by
  obtain ⟨cond, rfl⟩ := core_eq hc
  exact ⟨h.1.congr rfl rfl (Nat.le_refl _) rfl rfl, h.2.congr rfl rfl (Nat.le_refl _) rfl rfl⟩

/-! ### Sleepers -/

theorem waits_after (w : World) (t : Table) (eff : List Effect) (k : Bool) :
    c.waits (w.after t eff) k = c.waits w k := by
  unfold waits World.after
  rw [Option.map_map]
  rfl

theorem pending_after (w : World) (t : Table) (eff : List Effect) (k : Bool) :
    c.pending (w.after t eff) k = c.pending w k := by
  rw [pending, waits_after, pending]

/-- Where the sending task sleeps after a call of task `tid`. -/
theorem waits_finish (ht : w.tasks tid = none) (r : CallResult) (k : Bool) :
    c.waits (w.finish tid r) k =
      match r.progress with
      | .returned _ => c.waits w k
      | .blocked i wait => if tid = c.writer k then some (i, wait) else c.waits w k := by
  unfold World.finish
  cases r.progress with
  | returned => exact waits_after w r.tab r.effects k
  | blocked i wait =>
      by_cases htid : tid = c.writer k
      · subst htid
        simp [waits, World.sleep]
      · have hne : c.writer k ≠ tid := fun h => htid h.symm
        have hafter := waits_after (c := c) w r.tab r.effects k
        simp only [if_neg htid]
        rw [← hafter]
        simp only [waits, World.sleep, Function.update_of_ne hne]

theorem waits_none (ht : w.tasks (c.writer k) = none) : c.waits w k = none := by
  rw [waits, ht]
  rfl

theorem pending_none (ht : w.tasks (c.writer k) = none) : c.pending w k = [] := by
  rw [pending, waits_none ht]

/-- A call of task `tid` ends or goes to sleep on the pcb. -/
theorem Stands.finish (h : c.Stands k w) (ht : w.tasks tid = none) {r : CallResult}
    (hr : r.tab = w.tab.set (c.slot k) p') (hturn : Turn (w.tab.pcb (c.slot k)) p' new)
    (hwait : ∀ i wait, r.progress = .blocked i wait → i = c.slot k ∧
      (wait.receives ∨ ∃ data sent, wait = .send data sent)) : c.Stands k (w.finish tid r) := by
  refine h.rewritten ?_ (fun j hj => ?_) hturn fun x hx => ?_
  · rw [finish_core, hr, Table.set_pcb_self]
  · rw [finish_core, hr, Table.set_pcb_ne _ _ hj]
  · rw [waits_finish ht] at hx
    cases hprog : r.progress with
    | returned _ =>
        rw [hprog] at hx
        exact h.writer x hx
    | blocked i wait =>
        rw [hprog] at hx
        dsimp only at hx
        split at hx
        · cases Option.mem_some_iff.mp hx
          exact hwait i wait hprog
        · exact h.writer x hx

/-! ### Calls -/

/-- A call of task `tid`, from what it makes of the pcb. -/
theorem Stands.turns (h : c.Stands k w) (ht : w.tasks tid = none) {r : CallResult}
    (hr : r.tab = w.tab.set (c.slot k) p')
    (hturn : Turn (w.tab.pcb (c.slot k)) p' (segments r.effects))
    (hwait : ∀ i wait, r.progress = .blocked i wait → i = c.slot k ∧
      (wait.receives ∨ ∃ data sent, wait = .send data sent))
    (hflows : ∀ {given got given' got' pend' : List UInt8} {q : Pcb} {out : List TcpSegment},
      Flow given got pend (w.tab.pcb (c.slot k)) q out back →
      Flow given' got' pend' q (w.tab.pcb (c.slot k)) back out →
        Flow given got (c.pending (w.finish tid r) k) p' q (out ++ segments r.effects) back ∧
          Flow given' (got' ++ r.progress.bytes) pend' q p' back (out ++ segments r.effects)) :
    c.Turns k (w.tab.pcb (c.slot k)) pend (w.finish tid r) r.progress.bytes (segments r.effects)
      back back := by
  have hcore : ((w.finish tid r).tab.pcb (c.slot k)).core = p'.core := by
    rw [finish_core, hr, Table.set_pcb_self]
  refine ⟨h.finish ht hr hturn hwait, ?_, fun hk hk' => flows_core hcore (hflows hk hk')⟩
  obtain ⟨cond, hcond⟩ := core_eq hcore
  rw [hcond]
  exact ⟨hturn.state, hturn.localEp, hturn.foreignEp, hturn.plain⟩

/-- A task in `tcp_receive` has nothing to hand down. -/
theorem pending_receives (ht : w.tasks tid = none) {r : CallResult}
    (hr : ∀ i wait, r.progress = .blocked i wait → wait.receives) :
    c.pending (w.finish tid r) k = c.pending w k := by
  rw [pending, waits_finish ht]
  cases hprog : r.progress with
  | returned _ => rfl
  | blocked i wait =>
      have hwait := hr i wait hprog
      by_cases htid : tid = c.writer k
      · subst htid
        rw [pending_none ht]
        cases wait with
        | receive => simp
        | _ => cases hwait
      · simp only [if_neg htid]
        rfl

/-- **`tcp_receive`**, at once or after a wait. -/
theorem Stands.receives (h : c.Stands k w) (ht : w.tasks tid = none) (size : Nat) :
    let r := receiveRetry w.tab (c.slot k) size
    c.Turns k (w.tab.pcb (c.slot k)) (c.pending w k) (w.finish tid r) r.progress.bytes
      (segments r.effects) back back := by
  intro r
  set p := w.tab.pcb (c.slot k) with hp
  have hs : p.state = .established := h.state
  by_cases hzero : p.remain = 0
  · have hr : r = ⟨w.tab, [], .blocked (c.slot k) (.receive size)⟩ := by
      simp only [r, receiveRetry, ← hp, hs, hzero, if_true]
    have hblocked (i : PcbId) (wait : Wait) (hprog : r.progress = .blocked i wait) :
        i = c.slot k ∧ wait = .receive size := by
      rw [hr] at hprog
      cases hprog
      exact ⟨rfl, rfl⟩
    have hpend : c.pending (w.finish tid r) k = c.pending w k :=
      pending_receives ht fun i wait hprog => by rw [(hblocked i wait hprog).2]; rfl
    have hsame : r.tab = w.tab.set (c.slot k) p := by rw [hr, hp, Table.claim_set]
    refine h.turns ht hsame (hr ▸ Turn.refl hs)
      (fun i wait hprog => ?_) fun hk hk' => ?_
    · obtain ⟨hi, hwait⟩ := hblocked i wait hprog
      exact ⟨hi, .inl (by rw [hwait]; rfl)⟩
    · rw [hpend, hr]
      simp only [segments, List.filterMap_nil, List.append_nil, Progress.bytes]
      exact ⟨hk, hk'⟩
  · have hr : r = ⟨w.tab.set (c.slot k) (p.received (min size p.remain)), [],
        .returned ⟨(min size p.remain : Nat), slice p.buf (min size p.remain), none⟩⟩ := by
      simp only [r, receiveRetry, ← hp, hs, hzero, if_false]
      rfl
    have hblocked (i : PcbId) (wait : Wait) (hprog : r.progress = .blocked i wait) : False := by
      rw [hr] at hprog
      cases hprog
    have hpend : c.pending (w.finish tid r) k = c.pending w k :=
      pending_receives ht fun i wait hprog => (hblocked i wait hprog).elim
    refine h.turns ht (by rw [hr]) ?_
      (fun i wait hprog => (hblocked i wait hprog).elim) fun hk hk' => ?_
    · rw [hr]
      exact ⟨hs, rfl, rfl, fun _ hmem => (List.not_mem_nil hmem).elim⟩
    · rw [hpend, hr]
      simp only [segments, List.filterMap_nil, List.append_nil, Progress.bytes]
      exact ⟨hk.congr rfl rfl (Nat.le_refl _) rfl rfl, hk'.received (Nat.min_le_right _ _)⟩

/-- A burst whose segments are all taken does not fail. -/
theorem sendLoop_taken {dev : NetDevice} {data : List UInt8} (n : Nat) :
    ∀ (j : Nat) (p : Pcb) (sent : Nat),
      (∀ e ∈ (sendLoop env dev data n j p sent).trace, tcpOutputSegment env e.seg) →
      (sendLoop env dev data n j p sent).stop ≠ .failed := by
  induction n with
  | zero => exact fun _ _ _ _ h => by cases h
  | succ n ih =>
      intro j p sent htaken
      unfold sendLoop at htaken ⊢
      by_cases hsent : sent < data.length
      · rw [if_pos hsent] at htaken ⊢
        by_cases hcap : p.cap = 0
        · rw [if_pos hcap]
          exact fun h => by cases h
        · rw [if_neg hcap] at htaken ⊢
          dsimp only at htaken ⊢
          split
          · rename_i hok
            rw [if_pos hok] at htaken
            exact ih _ _ _ fun e he => htaken e (List.mem_cons_of_mem _ he)
          · rename_i hok
            rw [if_neg hok] at htaken
            exact absurd (htaken _ List.mem_cons_self) hok
      · rw [if_neg hsent]
        exact fun h => by cases h

/-- Where the loop stops because everything is sent, nothing is left. -/
theorem finished_all {dev : NetDevice} {data : List UInt8} {j sent : Nat} {p : Pcb} {b : Burst}
    (hb : Bursts env dev data j p sent b) (hstop : b.stop = .finished) : data.drop b.sent = [] := by
  induction hb with
  | finished _ _ _ h => exact List.drop_eq_nil_of_le h
  | window => cases hstop
  | failed => cases hstop
  | next _ _ _ _ _ _ _ ih => exact ih hstop

/-- The segments of a burst. -/
theorem segments_outputs (i : PcbId) (tr : List Emission) :
    segments (tr.map fun e => Effect.output i e.seg) = tr.map (·.seg) := by
  rw [segments, List.filterMap_map]
  exact congrFun List.filterMap_eq_map tr

/-- What a burst hands down is plain. -/
theorem bursts_turn {dev : NetDevice} {data : List UInt8} {j sent : Nat} {p : Pcb} {b : Burst}
    (hb : Bursts env dev data j p sent b) (hs : p.state = .established) :
    Turn p b.pcb (b.trace.map (·.seg)) := by
  have hkeep := burst_keeps hb
  refine ⟨by rw [hkeep]; exact hs, by rw [hkeep], by rw [hkeep], ?_⟩
  clear hkeep hs
  have hcut (p : Pcb) (sent : Nat) : (p.nextText dev data sent).length < 2 ^ 16 := by
    have hmss : p.cut dev data sent ≤ dev.mss :=
      Nat.le_trans (Nat.min_le_left _ _) (Nat.min_le_left _ _)
    have hmtu := dev.mtu.toNat_lt
    have hle : dev.mss ≤ dev.mtu.toNat := Nat.sub_le _ _
    rw [nextText_length]
    omega
  induction hb with
  | finished => exact fun _ hs => (List.not_mem_nil hs).elim
  | window => exact fun _ hs => (List.not_mem_nil hs).elim
  | failed k p sent =>
      intro s hs
      rw [List.map_singleton] at hs
      rw [List.mem_singleton.mp hs]
      exact ⟨plain_text rfl (hcut p sent), rfl, rfl⟩
  | next k p sent _ _ b hb ih =>
      intro s hs
      rcases List.mem_cons.mp hs with rfl | hs
      · exact ⟨plain_text rfl (hcut p sent), rfl, rfl⟩
      · exact ih s hs

/-- The receiving side does not change in a burst. -/
theorem bursts_told {dev : NetDevice} {data : List UInt8} {j sent : Nat} {p : Pcb} {b : Burst}
    (hb : Bursts env dev data j p sent b) :
    ∀ s ∈ b.trace.map (·.seg), s.ack = p.rcv.nxt ∧ s.wnd = p.rcv.wnd := by
  induction hb with
  | finished => exact fun _ hs => (List.not_mem_nil hs).elim
  | window => exact fun _ hs => (List.not_mem_nil hs).elim
  | failed =>
      intro s hs
      rw [List.map_singleton] at hs
      rw [List.mem_singleton.mp hs]
      exact ⟨rfl, rfl⟩
  | next k p sent _ _ b hb ih =>
      intro s hs
      rcases List.mem_cons.mp hs with rfl | hs
      · exact ⟨rfl, rfl⟩
      · exact ih s hs

/-- **`tcp_send`**, at once or after a wait, as long as the line is up. -/
theorem Stands.sends (h : c.Stands k w) (ht : w.tasks (c.writer k) = none) (data : List UInt8)
    (sent : Nat)
    (hroute : (ipRouteGetIface env.routes (w.tab.pcb (c.slot k)).localEp.addr).isSome)
    (htaken : ∀ s ∈ segments (sendRetry env w.tab (c.slot k) data sent).result.effects,
      tcpOutputSegment env s) :
    let r := (sendRetry env w.tab (c.slot k) data sent).result
    c.Turns k (w.tab.pcb (c.slot k)) (data.drop sent) (w.finish (c.writer k) r) r.progress.bytes
      (segments r.effects) back back := by
  intro r
  obtain ⟨iface, hiface⟩ := Option.isSome_iff_exists.mp hroute
  set p := w.tab.pcb (c.slot k) with hp
  have hs : p.state = .established := h.state
  set b := p.burst env iface.dev data sent with hbdef
  have hb : Bursts env iface.dev data 0 p sent b := burst_bursts env iface.dev p data sent
  have hdef : sendRetry env w.tab (c.slot k) data sent = sendEnd w.tab (c.slot k) data b := by
    simp only [sendRetry, ← hp, hs, hiface]
    rfl
  have heff : r.effects = b.trace.map fun e => Effect.output (c.slot k) e.seg := by
    show (sendRetry env w.tab (c.slot k) data sent).result.effects = _
    rw [hdef, sendEnd]
    cases b.stop <;> rfl
  have hseg : segments r.effects = b.trace.map (·.seg) := by
    rw [heff, segments_outputs]
  have hstop : b.stop ≠ .failed := by
    refine sendLoop_taken _ 0 p sent fun e he => ?_
    refine htaken e.seg ?_
    show e.seg ∈ segments r.effects
    rw [hseg]
    exact List.mem_map_of_mem he
  have hturn : Turn p b.pcb (segments r.effects) := hseg ▸ bursts_turn hb hs
  -- the call is over, or waits for room with the rest of the data
  have hr : b.stop = .finished ∧
        r = ⟨w.tab.set (c.slot k) b.pcb, r.effects, .returned (.of b.sent)⟩ ∨
      b.stop = .window ∧
        r = ⟨w.tab.set (c.slot k) b.pcb, r.effects, .blocked (c.slot k) (.send data b.sent)⟩ := by
    rw [heff]
    show _ ∧ (sendRetry env w.tab (c.slot k) data sent).result = _ ∨
      _ ∧ (sendRetry env w.tab (c.slot k) data sent).result = _
    rw [hdef, sendEnd]
    cases hcase : b.stop with
    | failed => exact absurd hcase hstop
    | fuel => exact absurd hcase hb.stop_ne_fuel
    | finished => exact .inl ⟨rfl, rfl⟩
    | window => exact .inr ⟨rfl, rfl⟩
  have hend : r.tab = w.tab.set (c.slot k) b.pcb ∧ r.progress.bytes = [] ∧
      (∀ i wait, r.progress = .blocked i wait → i = c.slot k ∧ wait = .send data b.sent) ∧
      c.pending (w.finish (c.writer k) r) k = data.drop b.sent := by
    have hwaits := waits_finish (c := c) ht r k
    rcases hr with ⟨hcase, hr⟩ | ⟨-, hr⟩
    · rw [hr] at hwaits ⊢
      refine ⟨rfl, rfl, fun i wait hprog => (by cases hprog), ?_⟩
      rw [pending, hwaits, finished_all hb hcase]
      simp only [waits_none ht]
    · rw [hr] at hwaits ⊢
      refine ⟨rfl, rfl, fun i wait hprog => ?_, ?_⟩
      · cases hprog
        exact ⟨rfl, rfl⟩
      · rw [pending, hwaits]
        simp only [if_true]
  obtain ⟨htab, hbytes, hblocked, hpend⟩ := hend
  refine h.turns ht htab hturn (fun i wait hprog => ?_) fun hk hk' => ?_
  · obtain ⟨hi, hwait⟩ := hblocked i wait hprog
    exact ⟨hi, .inr ⟨data, b.sent, hwait⟩⟩
  · rw [hpend, hbytes, List.append_nil, hseg]
    refine ⟨hk.bursts hb hstop, ?_⟩
    have hkeep := burst_keeps hb
    have htold := hk'.told (bursts_told hb)
    rw [hkeep]
    exact htold.congr rfl rfl (Nat.le_refl _) rfl rfl

/-! ### Segments and the timer -/

/-- What goes on outside the calls leaves every sleeper where it is. -/
theorem Stands.afterwards {t : Table} {eff : List Effect} (h : c.Stands k w)
    (hr : t = w.tab.set (c.slot k) p') (hturn : Turn (w.tab.pcb (c.slot k)) p' (segments eff)) :
    c.Stands k (w.after t eff) ∧
      Turn (w.tab.pcb (c.slot k)) ((w.after t eff).tab.pcb (c.slot k)) (segments eff) ∧
      (w.after t eff).tab.pcb (c.slot k) = p' := by
  have hown : (w.after t eff).tab.pcb (c.slot k) = p' := by
    rw [World.after, hr, Table.set_pcb_self]
  refine ⟨h.rewritten (by rw [hown]) (fun j hj => ?_) hturn fun x hx => ?_,
    hown ▸ hturn, hown⟩
  · rw [World.after, hr, Table.set_pcb_ne _ _ hj]
  · rw [waits_after] at hx
    exact h.writer x hx

/-- **The first segment on the line.** -/
theorem Stands.hears (h : c.Stands k w) {s : TcpSegment} {q : Pcb} {rest : List TcpSegment}
    {given got given' got' pend' : List UInt8} {out : List TcpSegment} (hplain : s.Plain)
    (hl : s.foreignEp = (w.tab.pcb (c.slot k)).localEp)
    (hf : s.localEp = (w.tab.pcb (c.slot k)).foreignEp)
    (hk : Flow given got pend (w.tab.pcb (c.slot k)) q out (s :: rest))
    (hk' : Flow given' got' pend' q (w.tab.pcb (c.slot k)) (s :: rest) out) :
    let r := arrive env w.tab s
    let w' := w.after r.1 r.2
    c.Stands k w' ∧ Turn (w.tab.pcb (c.slot k)) (w'.tab.pcb (c.slot k)) (segments r.2) ∧
      c.pending w' k = c.pending w k ∧
      Flow given got pend (w'.tab.pcb (c.slot k)) q (out ++ segments r.2) rest ∧
      Flow given' got' pend' q (w'.tab.pcb (c.slot k)) rest (out ++ segments r.2) ∧
      ∀ j off text, .copy j off text ∈ r.2 → off + text.length ≤ bufSize := by
  intro r w'
  have hsel : Tcp.selected w.tab s = some (c.slot k) := by
    rw [Tcp.selected, hl, hf]
    exact h.selected
  have hr : r = _ := arrive_otherwise env hsel (by rw [h.state]; rfl)
  obtain ⟨hrel, hq, hturn, hflow, hflow', hcopy⟩ :=
    hk.hears hk' h.state hplain (i := c.slot k)
  rw [settle_kept hrel hq] at hr
  have htab : r.1 = w.tab.set (c.slot k) ((w.tab.pcb (c.slot k)).otherwise env (c.slot k) s).pcb := by
    rw [hr]
  have heff : r.2 = ((w.tab.pcb (c.slot k)).otherwise env (c.slot k) s).effects := by
    rw [hr]
  rw [← heff] at hturn hflow hflow' hcopy
  obtain ⟨hstands, hturn', hown⟩ := h.afterwards htab hturn
  refine ⟨hstands, hturn', pending_after w r.1 r.2 k, ?_, ?_, hcopy⟩
  · rw [hown]
    exact hflow
  · rw [hown]
    exact hflow'

/-- **The timer**, before it gives up. -/
theorem Stands.ticks (h : c.Stands k w) {q : Pcb} {given got given' got' pend' : List UInt8}
    {out : List TcpSegment} {t : Table} {eff : List Effect} (hr : tcpTimer env w.tab = (t, eff))
    (hexp : ∀ e ∈ (w.tab.pcb (c.slot k)).queue, e.expired env = false)
    (hk : Flow given got pend (w.tab.pcb (c.slot k)) q out back)
    (hk' : Flow given' got' pend' q (w.tab.pcb (c.slot k)) back out) :
    let w' := w.after t eff
    c.Stands k w' ∧ Turn (w.tab.pcb (c.slot k)) (w'.tab.pcb (c.slot k)) (segments eff) ∧
      c.pending w' k = c.pending w k ∧
      Flow given got pend (w'.tab.pcb (c.slot k)) q (out ++ segments eff) back ∧
      Flow given' got' pend' q (w'.tab.pcb (c.slot k)) back (out ++ segments eff) := by
  intro w'
  rw [tcpTimer_alone h.quiet h.state] at hr
  obtain ⟨htab, rfl⟩ := Prod.mk.inj hr
  obtain ⟨hturn, hflow, hflow'⟩ := hk.ticks hk' h.state hexp (i := c.slot k)
  obtain ⟨hstands, hturn', hown⟩ := h.afterwards htab.symm hturn
  refine ⟨hstands, hturn', pending_after w _ _ k, ?_, ?_⟩
  · rw [hown]
    exact hflow
  · rw [hown]
    exact hflow'

/-! ## Both hosts -/

/-- A call, as far as it gets. -/
theorem world_call {e : Event} {w₁ : World} {r : CallResult}
    (h : callResult w env e = some (tid, w₁, r)) :
    w.step (env, e) = w₁.finish tid r ∧ w.effects (env, e) = r.effects ∧
      w.handed (env, e) = r.progress.bytes := by
  cases e with
  | segment => cases h
  | timer => cases h
  | user => simp only [World.step, World.effects, World.handed, h, and_self]
  | resume => simp only [World.step, World.effects, World.handed, h, and_self]

/-- A busy task does not call, and one that does not sleep does not run on. -/
theorem world_idle {e : Event} (he : e.isCall) (h : callResult w env e = none) :
    w.step (env, e) = w ∧ w.effects (env, e) = [] ∧ w.handed (env, e) = [] := by
  cases e with
  | segment => cases he
  | timer => cases he
  | user => simp only [World.step, World.effects, World.handed, h, and_self]
  | resume => simp only [World.step, World.effects, World.handed, h, and_self]

variable (c) in
/-- **The invariant**: each host stands, its segments are on the line, and both streams flow. -/
structure Inv (l : Link) : Prop where
  stands : ∀ k, c.Stands k (l.world k)
  ends : ∀ k, (c.pcb l !k).localEp = (c.pcb l k).foreignEp
  plain : ∀ k, ∀ s ∈ l.line k,
    s.Plain ∧ s.localEp = (c.pcb l k).localEp ∧ s.foreignEp = (c.pcb l k).foreignEp
  flow : ∀ k, Flow (l.given k) (l.got !k) (c.pending (l.world k) k) (c.pcb l k) (c.pcb l !k)
    (l.line k) (l.line !k)

variable {l : Link} {given' got' : List UInt8}

/-- One host takes a turn. -/
theorem Inv.turned (h : c.Inv l) (hw : c.Stands k w')
    (ht : Turn (c.pcb l k) (w'.tab.pcb (c.slot k)) new) (hback : back' ⊆ l.line !k)
    (hf : Flow given' (l.got !k) (c.pending w' k) (w'.tab.pcb (c.slot k)) (c.pcb l !k)
      (l.line k ++ new) back')
    (hf' : Flow (l.given !k) got' (c.pending (l.world !k) !k) (c.pcb l !k)
      (w'.tab.pcb (c.slot k)) back' (l.line k ++ new)) :
    c.Inv ⟨Function.update l.world k w',
      Function.update (Function.update l.line (!k) back') k (l.line k ++ new),
      Function.update l.given k given', Function.update l.got k got'⟩ := by
  have hne : (!k) ≠ k := by cases k <;> exact fun h => by cases h
  generalize hl' : Link.mk _ _ _ _ = l'
  have hworld : l'.world k = w' ∧ l'.world (!k) = l.world !k := by
    rw [← hl']
    exact ⟨Function.update_self .., Function.update_of_ne hne ..⟩
  have hline : l'.line k = l.line k ++ new ∧ l'.line (!k) = back' := by
    rw [← hl']
    exact ⟨Function.update_self .., (Function.update_of_ne hne ..).trans (Function.update_self ..)⟩
  have hgiven : l'.given k = given' ∧ l'.given (!k) = l.given !k := by
    rw [← hl']
    exact ⟨Function.update_self .., Function.update_of_ne hne ..⟩
  have hgot : l'.got k = got' ∧ l'.got (!k) = l.got !k := by
    rw [← hl']
    exact ⟨Function.update_self .., Function.update_of_ne hne ..⟩
  have hpcb : c.pcb l' k = w'.tab.pcb (c.slot k) := by rw [pcb, hworld.1]
  have hpcb' : c.pcb l' (!k) = c.pcb l !k := by rw [pcb, hworld.2, pcb]
  have sides {P : Bool → Prop} (h₁ : P k) (h₂ : P !k) : ∀ j, P j := by
    intro j
    by_cases hj : j = k
    · exact hj ▸ h₁
    · have hjk : j = !k := by cases j <;> cases k <;> simp_all
      exact hjk ▸ h₂
  have hends := h.ends k
  have hends' := h.ends !k
  rw [Bool.not_not] at hends'
  constructor
  · refine sides ?_ ?_
    · rw [hworld.1]
      exact hw
    · rw [hworld.2]
      exact h.stands !k
  · refine sides ?_ ?_
    · rw [hpcb', hpcb, ht.foreignEp]
      exact hends
    · rw [Bool.not_not, hpcb', hpcb, ht.localEp]
      exact hends'
  · refine sides ?_ ?_
    · rw [hline.1, hpcb, ht.localEp, ht.foreignEp]
      intro s hs
      rcases List.mem_append.mp hs with hs | hs
      · exact h.plain k s hs
      · exact ht.plain s hs
    · rw [hline.2, hpcb']
      exact fun s hs => h.plain (!k) s (hback hs)
  · refine sides ?_ ?_
    · rw [hgiven.1, hgot.2, hworld.1, hpcb, hpcb', hline.1, hline.2]
      exact hf
    · rw [Bool.not_not, hgiven.2, hgot.1, hworld.2, hpcb, hpcb', hline.1, hline.2]
      exact hf'

/-- More is given to `tcp_send`. -/
theorem flow_gives {given got data : List UInt8} {p q : Pcb} {out back : List TcpSegment}
    (h : Flow given got [] p q out back)
    (hroom : p.snd.nxt.toNat + data.length + bufSize < 2 ^ 32) :
    Flow (given ++ data) got data p q out back where
  bytes := by
    obtain ⟨rest, hcar, hnxt, hbytes⟩ := h.bytes
    refine ⟨rest, hcar, hnxt, ?_⟩
    rw [← hbytes, List.append_nil]
  room := hroom
  buffer := h.buffer
  edges := h.edges
  una := h.una
  within := h.within
  queue := h.queue
  newest := h.newest

/-- A task that runs on sleeps nowhere. -/
theorem waits_awake (w : World) (tid : TaskId) (i : PcbId) (k : Bool) :
    c.waits (w.awake tid i) k = if tid = c.writer k then none else c.waits w k := by
  have htasks : (w.awake tid i).tasks = Function.update w.tasks tid none := rfl
  rw [waits, htasks]
  by_cases htid : tid = c.writer k
  · subst htid
    rw [Function.update_self, if_pos rfl]
    rfl
  · rw [Function.update_of_ne fun h => htid h.symm, if_neg htid]
    rfl

theorem Stands.awake (h : c.Stands k w) (tid : TaskId) :
    c.Stands k (w.awake tid (c.slot k)) := by
  refine h.rewritten (awake_core w tid (c.slot k) (c.slot k)) (fun j _ => awake_core ..)
    (Turn.refl h.state) fun x hx => h.writer x ?_
  rw [waits_awake] at hx
  split at hx
  · cases hx
  · exact hx

/-- A sleeper on the pcb goes on with its call. -/
theorem Stands.resumes (h : c.Stands k w) {b : Blocked} (hb : w.tasks tid = some b)
    (hpcb : b.pcb = c.slot k) (hwho : tid = c.writer k ∨ b.wait.receives)
    (hroute : (ipRouteGetIface env.routes (w.tab.pcb (c.slot k)).localEp.addr).isSome)
    (htaken : ∀ s ∈ segments (w.effects (env, .resume tid)), tcpOutputSegment env s) :
    c.Turns k (w.tab.pcb (c.slot k)) (c.pending w k) (w.step (env, .resume tid))
      (w.handed (env, .resume tid)) (segments (w.effects (env, .resume tid))) back back := by
  have hcall : callResult w env (.resume tid) = some (tid, w.awake tid (c.slot k),
      b.wait.retry env (w.awake tid (c.slot k)).tab (c.slot k)) := by
    simp only [callResult, hb, hpcb]
  obtain ⟨hstep, heff, hhanded⟩ := world_call hcall
  rw [heff] at htaken
  rw [hstep, heff, hhanded]
  have hawake := h.awake tid
  have hcore : ((w.awake tid (c.slot k)).tab.pcb (c.slot k)).core =
      (w.tab.pcb (c.slot k)).core := awake_core ..
  have hnone : (w.awake tid (c.slot k)).tasks tid = none := Function.update_self ..
  -- the writer sleeps in one of the two calls, the others in `tcp_receive`
  have hwait : b.wait.receives ∨ tid = c.writer k ∧ ∃ data sent, b.wait = .send data sent := by
    rcases hwho with rfl | hwho
    · have hx : (b.pcb, b.wait) ∈ c.waits w k := by rw [waits, hb]; rfl
      exact (h.writer _ hx).2.imp_right fun h => ⟨rfl, h⟩
    · exact .inl hwho
  rcases hwait with hwait | ⟨rfl, data, sent, hwait⟩
  · obtain ⟨size, hsize⟩ : ∃ size, b.wait = .receive size := by
      cases hcase : b.wait with
      | receive size => exact ⟨size, rfl⟩
      | _ => rw [hcase] at hwait; cases hwait
    have hpend : c.pending (w.awake tid (c.slot k)) k = c.pending w k := by
      by_cases htid : tid = c.writer k
      · rw [pending, waits_awake, if_pos htid, pending, waits, ← htid, hb, Option.map_some, hsize]
      · rw [pending, waits_awake, if_neg htid, pending]
    rw [hsize, ← hpend]
    exact (hawake.receives hnone size).of_core hcore
  · have hpend : c.pending w k = data.drop sent := by
      rw [pending, waits, hb, Option.map_some, hwait]
    rw [hwait] at htaken ⊢
    rw [hpend]
    refine (hawake.sends hnone data sent ?_ htaken).of_core hcore
    obtain ⟨cond, hcond⟩ := core_eq hcore
    rwa [hcond]

/-! ## One event -/

/-- The first segment on the line arrives at host `k`. -/
theorem Inv.hears (h : c.Inv l) (env : Env) {s : TcpSegment} {rest : List TcpSegment}
    (hline : l.line (!k) = s :: rest) :
    let r := arrive env (l.world k).tab s
    let w' := (l.world k).after r.1 r.2
    c.Stands k w' ∧ Turn (c.pcb l k) (w'.tab.pcb (c.slot k)) (segments r.2) ∧
      c.pending w' k = c.pending (l.world k) k ∧
      Flow (l.given k) (l.got !k) (c.pending (l.world k) k) (w'.tab.pcb (c.slot k)) (c.pcb l !k)
        (l.line k ++ segments r.2) rest ∧
      Flow (l.given !k) (l.got k) (c.pending (l.world !k) !k) (c.pcb l !k)
        (w'.tab.pcb (c.slot k)) rest (l.line k ++ segments r.2) ∧
      ∀ j off text, .copy j off text ∈ r.2 → off + text.length ≤ bufSize := by
  have hplain := h.plain (!k) s (by rw [hline]; exact List.mem_cons_self)
  have hends := h.ends k
  have hends' := h.ends !k
  rw [Bool.not_not] at hends'
  have hflow := h.flow k
  have hflow' := h.flow !k
  rw [Bool.not_not, hline] at hflow'
  rw [hline] at hflow
  exact (h.stands k).hears hplain.1 (hplain.2.2.trans hends'.symm) (hplain.2.1.trans hends) hflow
    hflow'

/-- **One event keeps the invariant.** -/
theorem Inv.step (h : c.Inv l) {x : Bool × Env × LinkEvent} (hx : c.Admits l x) :
    c.Inv (c.step l x) := by
  obtain ⟨k, env, ev⟩ := x
  obtain ⟨⟨hroute, htaken⟩, hx⟩ := hx
  have hstands := h.stands k
  have hflow := h.flow k
  have hflow' := h.flow !k
  rw [Bool.not_not] at hflow'
  -- a call, as one turn of the host
  have calls {e : Event} {given' : List UInt8} (hcall : e.isCall) (hev : c.event l k ev = some e)
      (hrest : ∀ s, ev.rest s = s) (hgives : given' = l.given k ++ ev.gives)
      (hturns : ∃ pend, Flow given' (l.got !k) pend (c.pcb l k) (c.pcb l !k) (l.line k)
          (l.line !k) ∧
        c.Turns k (c.pcb l k) pend ((l.world k).step (env, e)) ((l.world k).handed (env, e))
          (segments ((l.world k).effects (env, e))) (l.line !k) (l.line !k)) :
      c.Inv (c.step l (k, env, ev)) := by
    obtain ⟨pend, hf, hturn⟩ := hturns
    obtain ⟨hf₁, hf₂⟩ := hturn.flows hf hflow'
    unfold Connection.step
    simp only [hev]
    rw [hrest, ← hgives]
    exact h.turned hturn.stands hturn.turn (fun _ hs => hs) hf₁ hf₂
  cases ev with
  | send data =>
      obtain ⟨hnone, hroom⟩ := hx
      refine calls (e := .user (c.writer k) (.send (tcpPcbId (c.slot k)) data)) rfl rfl
        (fun _ => rfl) rfl ⟨data, ?_, ?_⟩
      · rw [pending_none hnone] at hflow
        exact flow_gives hflow hroom
      · have hget : tcpPcbGet (l.world k).tab (tcpPcbId (c.slot k)) = some (c.slot k) :=
          tcpPcbGet_eq_some.mpr ⟨rfl, by rw [hstands.state]; exact fun h => by cases h⟩
        have hcall : callResult (l.world k) env
            (.user (c.writer k) (.send (tcpPcbId (c.slot k)) data)) =
            some (c.writer k, l.world k,
              (sendRetry env (l.world k).tab (c.slot k) data 0).result) := by
          simp only [callResult, hnone, Option.isSome_none, Bool.false_eq_true, if_false,
            Command.call, tcpSend, hget]
        obtain ⟨hstep, heff, hhanded⟩ := world_call hcall
        have htaken := htaken _ rfl
        rw [heff] at htaken
        rw [hstep, heff, hhanded]
        exact hstands.sends hnone data 0 hroute htaken
  | receive tid size =>
      refine calls (e := .user tid (.receive (tcpPcbId (c.slot k)) size)) rfl rfl (fun _ => rfl)
        (List.append_nil _).symm ⟨_, hflow, ?_⟩
      by_cases hbusy : ((l.world k).tasks tid).isSome
      · have hidle : callResult (l.world k) env
            (.user tid (.receive (tcpPcbId (c.slot k)) size)) = none := by
          simp only [callResult, hbusy, if_true]
        obtain ⟨hstep, heff, hhanded⟩ := world_idle rfl hidle
        rw [hstep, heff, hhanded]
        refine ⟨hstands, Turn.refl hstands.state, fun hk hk' => ?_⟩
        simp only [segments, List.filterMap_nil, List.append_nil]
        exact ⟨hk, hk'⟩
      · have hnone : (l.world k).tasks tid = none := by simpa using hbusy
        have hget : tcpPcbGet (l.world k).tab (tcpPcbId (c.slot k)) = some (c.slot k) :=
          tcpPcbGet_eq_some.mpr ⟨rfl, by rw [hstands.state]; exact fun h => by cases h⟩
        have hcall : callResult (l.world k) env
            (.user tid (.receive (tcpPcbId (c.slot k)) size)) =
            some (tid, l.world k, receiveRetry (l.world k).tab (c.slot k) size) := by
          simp only [callResult, hbusy, if_false, Command.call, tcpReceive, hget,
            Bool.false_eq_true]
        obtain ⟨hstep, heff, hhanded⟩ := world_call hcall
        rw [hstep, heff, hhanded]
        exact hstands.receives hnone size
  | resume tid =>
      refine calls (e := .resume tid) rfl rfl (fun _ => rfl) (List.append_nil _).symm
        ⟨_, hflow, ?_⟩
      cases hb : (l.world k).tasks tid with
      | none =>
          have hidle : callResult (l.world k) env (.resume tid) = none := by
            simp only [callResult, hb]
          obtain ⟨hstep, heff, hhanded⟩ := world_idle rfl hidle
          rw [hstep, heff, hhanded]
          refine ⟨hstands, Turn.refl hstands.state, fun hk hk' => ?_⟩
          simp only [segments, List.filterMap_nil, List.append_nil]
          exact ⟨hk, hk'⟩
      | some b =>
          obtain ⟨hpcb, hwho⟩ := hx b hb
          exact hstands.resumes hb hpcb hwho hroute (htaken _ rfl)
  | deliver =>
      cases hline : l.line !k with
      | nil => exact absurd hline hx
      | cons s rest =>
          have hev : c.event l k .deliver = some (.segment s) := by
            rw [event, hline]
            rfl
          obtain ⟨hs, ht, hpend, hf, hf', -⟩ := h.hears env hline
          have hmoved := h.turned hs ht (by rw [hline]; exact List.subset_cons_self s rest)
            (hpend ▸ hf) hf'
          unfold Connection.step
          simp only [hev, LinkEvent.rest, LinkEvent.gives, hline, List.tail_cons]
          rw [List.append_nil, show (l.world k).handed (env, .segment s) = [] from rfl,
            List.append_nil]
          exact hmoved
  | timer =>
      cases hr : tcpTimer env (l.world k).tab with
      | mk t eff =>
          obtain ⟨hs, ht, hpend, hf, hf'⟩ := hstands.ticks hr hx hflow hflow'
          have hstep : (l.world k).step (env, .timer) = (l.world k).after t eff := by
            simp only [World.step, hr]
          have heff : (l.world k).effects (env, .timer) = eff := by
            simp only [World.effects, hr]
          have hmoved := h.turned hs ht (fun _ hs => hs) (hpend ▸ hf) hf'
          unfold Connection.step
          simp only [event, LinkEvent.rest, LinkEvent.gives]
          rw [hstep, heff, List.append_nil,
            show (l.world k).handed (env, .timer) = [] from rfl, List.append_nil]
          exact hmoved

/-! ## Every run -/

variable (c) in
/-- The connection is open on both hosts and nothing has been sent yet. -/
structure Opened (l : Link) : Prop where
  state : ∀ k, (c.pcb l k).state = .established
  selected : ∀ k, tcpPcbSelect (l.world k).tab (c.pcb l k).localEp
    (some (c.pcb l k).foreignEp) = some (c.slot k)
  quiet : ∀ k, ∀ j ≠ c.slot k, ((l.world k).tab.pcb j).Quiet
  writer : ∀ k, (l.world k).tasks (c.writer k) = none
  ends : ∀ k, (c.pcb l !k).localEp = (c.pcb l k).foreignEp
  agreed : ∀ k, (c.pcb l k).snd.nxt = (c.pcb l !k).rcv.nxt
  acked : ∀ k, (c.pcb l k).snd.una = (c.pcb l k).snd.nxt
  queue : ∀ k, (c.pcb l k).queue = []
  buffer : ∀ k, (c.pcb l k).rcv.wnd = 8192
  window : ∀ k, (c.pcb l k).snd.wnd ≤ 8192
  newest : ∀ k, (c.pcb l k).snd.wl1 ≤ (c.pcb l k).rcv.nxt ∧
    (c.pcb l k).snd.wl2 ≤ (c.pcb l k).snd.una
  room : ∀ k, (c.pcb l k).snd.nxt.toNat + bufSize < 2 ^ 32
  idle : ∀ k, l.line k = [] ∧ l.given k = [] ∧ l.got k = []

theorem Opened.inv (h : c.Opened l) : c.Inv l where
  stands k := by
    refine ⟨h.state k, h.selected k, h.quiet k, fun x hx => ?_⟩
    rw [waits_none (h.writer k)] at hx
    cases hx
  ends := h.ends
  plain k s hs := by
    rw [(h.idle k).1] at hs
    cases hs
  flow k := by
    have hwnd : (c.pcb l !k).rcv.wnd.toNat = 8192 := congrArg UInt16.toNat (h.buffer !k)
    have hsnd : (c.pcb l k).snd.wnd.toNat ≤ 8192 := UInt16.le_iff_toNat_le.mp (h.window k)
    have hagreed := congrArg UInt32.toNat (h.agreed k)
    have hacked := congrArg UInt32.toNat (h.acked k)
    have hcontent : (c.pcb l !k).content = [] := by
      have hrem := remain_of_le (p := c.pcb l !k) (Nat.le_of_eq hwnd)
      rw [hwnd] at hrem
      rw [Pcb.content, hrem]
      rfl
    rw [(h.idle k).1, (h.idle !k).1, (h.idle k).2.1, (h.idle !k).2.2, pending_none (h.writer k)]
    refine ⟨⟨[], .nil _, hagreed, by rw [hcontent]; rfl⟩, h.room k, Nat.le_of_eq hwnd, ?_,
      Nat.le_of_eq hacked, ?_, fun e he => ?_, ?_⟩
    · refine ⟨Nat.le_of_eq (hacked.trans hagreed), ?_⟩
      show (c.pcb l k).snd.una.toNat + (c.pcb l k).snd.wnd.toNat ≤
        (c.pcb l !k).rcv.nxt.toNat + (c.pcb l !k).rcv.wnd.toNat
      omega
    · rw [hacked]
      exact Nat.le_add_right _ _
    · rw [h.queue k] at he
      cases he
    · obtain ⟨h₁, h₂⟩ := h.newest k
      exact ⟨UInt32.le_iff_toNat_le.mp h₁, UInt32.le_iff_toNat_le.mp h₂⟩

variable (c) in
/-- How the stream from host `k` stands. -/
structure Streams (l : Link) (k : Bool) : Prop where
  /-- The connection stays open. -/
  state : (c.pcb l k).state = .established
  /-- Every byte given to `tcp_send` is, once and in its place, handed out by `tcp_receive`, in the
  buffer, on the line, or still to be handed down. -/
  bytes : l.got (!k) ++ (c.pcb l !k).content ++
    upcoming (c.pcb l !k).rcv.nxt.toNat ((l.line k).map TcpSegment.piece) ++
      c.pending (l.world k) k = l.given k
  /-- What is sent and not acknowledged fits the window the sender knows, and that does not reach
  beyond the receiver's. -/
  flight : (c.pcb l k).Within ∧ (c.pcb l k).snd.una.toNat + (c.pcb l k).snd.wnd.toNat ≤
    (c.pcb l !k).rcv.nxt.toNat + (c.pcb l !k).rcv.wnd.toNat
  /-- What arrives next is copied inside `buf`. -/
  copies : ∀ env s, (l.line k).head? = some s → ∀ j off text,
    .copy j off text ∈ (arrive env (l.world !k).tab s).2 → off + text.length ≤ bufSize

theorem Inv.streams (h : c.Inv l) (k : Bool) : c.Streams l k where
  state := (h.stands k).state
  bytes := by
    obtain ⟨rest, hcar, -, hbytes⟩ := (h.flow k).bytes
    rw [hcar.upcoming_eq]
    exact hbytes
  flight := by
    have hflow := h.flow k
    have hflight : (c.pcb l k).flight = (c.pcb l k).snd.nxt.toNat - (c.pcb l k).snd.una.toNat :=
      UInt32.toNat_sub_of_le _ _ (UInt32.le_iff_toNat_le.mpr hflow.una)
    refine ⟨?_, hflow.edges.le.2⟩
    have hwithin := hflow.within
    rw [Pcb.Within, hflight]
    omega
  copies env s hs j off text hcopy := by
    obtain ⟨rest, hline⟩ : ∃ rest, l.line k = s :: rest := by
      cases hline : l.line k with
      | nil => rw [hline] at hs; cases hs
      | cons s' rest =>
          rw [hline] at hs
          cases hs
          exact ⟨rest, rfl⟩
    have hline' : l.line (!!k) = s :: rest := by rwa [Bool.not_not]
    exact (h.hears env hline').2.2.2.2.2 j off text hcopy

end Connection

/-- **A connection transfers two streams.**  Over every run of two hosts that stays within the
program's calls, with any scheduling, any sizes and any retransmissions, each host's stream arrives
in order and once, the sender keeps to the window of the receiver, and no text is copied past the
end of the receive buffer. -/
theorem transfer (c : Connection) (l : Link) (es : List (Bool × Env × LinkEvent))
    (h : c.Opened l) (hes : Guarded c.step c.Admits l es) (k : Bool) :
    c.Streams (run c.step l es) k :=
  (inv_run c.Inv (fun _ _ h hx => h.step hx) h.inv hes).streams k

/-! ## A short run -/

/-- The two ends of the sample handshake; task 2 sends on each. -/
def sampleConnection : Connection := ⟨fun _ => 0, fun _ => 2⟩

/-- The line after the sample handshake. -/
def sampleLink : Link where
  world k := ((run host.duplexStep (opened sampleOpens) sampleHandshake).party k).world
  line _ := []
  given _ := []
  got _ := []

/-- Three bytes go one way, the timer sends them again, and one comes back. -/
def sampleTransfer : List (Bool × Env × LinkEvent) :=
  [(true, sideEnv true 0, .send [1, 2, 3]),
   (true, { sideEnv true 0 with now := ⟨1, 0⟩ }, .timer),
   (false, sideEnv false 0, .deliver),
   (false, sideEnv false 0, .send [4]),
   (false, sideEnv false 0, .receive 3 2),
   (false, sideEnv false 0, .deliver),
   (true, sideEnv true 0, .deliver),
   (true, sideEnv true 0, .deliver)]

theorem sampleLink_opened : sampleConnection.Opened sampleLink where
  state := by decide +kernel
  selected := by decide +kernel
  quiet := by decide +kernel
  writer := by decide +kernel
  ends := by decide +kernel
  agreed := by decide +kernel
  acked := by decide +kernel
  queue := by decide +kernel
  buffer := by decide +kernel
  window := by decide +kernel
  newest := by decide +kernel
  room := by decide +kernel
  idle := by decide +kernel

theorem transfer_sample :
    sampleConnection.Streams (run sampleConnection.step sampleLink sampleTransfer) true :=
  transfer sampleConnection sampleLink sampleTransfer sampleLink_opened (by decide +kernel) true

end Laplus.Tcp
