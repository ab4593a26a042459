/-
# `Laplus.Tcp.Handled` — what an arriving segment can do

Inversion of the segment handler.  `Passed` describes the outcome with which
the handler reaches the text stage, `Handled` every way `arrivesOtherwise`
can end, `Arrival` every way `tcp_segment_arrives` can change the table.
Invariants are proved by cases on these, never by unfolding the handler.
-/
import Laplus.Tcp.Arrives

namespace Laplus.Tcp

open Net Lib

/-! ## Outcomes -/

namespace Outcome

@[simp] theorem start_pcb (pcb : Pcb) : (start pcb).pcb = pcb := rfl
@[simp] theorem start_released (pcb : Pcb) : (start pcb).released = false := rfl
@[simp] theorem start_queued (pcb : Pcb) : (start pcb).queued = false := rfl
@[simp] theorem start_effects (pcb : Pcb) : (start pcb).effects = [] := rfl

@[simp] theorem setPcb_pcb (o : Outcome) (p : Pcb) : (o.setPcb p).pcb = p := rfl
@[simp] theorem setPcb_released (o : Outcome) (p : Pcb) : (o.setPcb p).released = o.released := rfl
@[simp] theorem setPcb_queued (o : Outcome) (p : Pcb) : (o.setPcb p).queued = o.queued := rfl
@[simp] theorem setPcb_effects (o : Outcome) (p : Pcb) : (o.setPcb p).effects = o.effects := rfl

@[simp] theorem setState_pcb (o : Outcome) (s : PcbState) :
    (o.setState s).pcb = { o.pcb with state := s } := rfl
@[simp] theorem setState_released (o : Outcome) (s : PcbState) :
    (o.setState s).released = o.released := rfl
@[simp] theorem setState_queued (o : Outcome) (s : PcbState) :
    (o.setState s).queued = o.queued := rfl
@[simp] theorem setState_effects (o : Outcome) (s : PcbState) :
    (o.setState s).effects = o.effects := rfl

@[simp] theorem emit_pcb (o : Outcome) (e : Effect) : (o.emit e).pcb = o.pcb := rfl
@[simp] theorem emit_released (o : Outcome) (e : Effect) : (o.emit e).released = o.released := rfl
@[simp] theorem emit_queued (o : Outcome) (e : Effect) : (o.emit e).queued = o.queued := rfl
@[simp] theorem emit_effects (o : Outcome) (e : Effect) :
    (o.emit e).effects = o.effects ++ [e] := rfl

@[simp] theorem output_pcb (env : Env) (i : PcbId) (o : Outcome) (flg : UInt8) :
    (o.output env i flg).pcb = (tcpOutput env (env.calloc 0) o.pcb flg []).pcb := rfl
@[simp] theorem output_released (env : Env) (i : PcbId) (o : Outcome) (flg : UInt8) :
    (o.output env i flg).released = o.released := rfl
@[simp] theorem output_queued (env : Env) (i : PcbId) (o : Outcome) (flg : UInt8) :
    (o.output env i flg).queued = o.queued := rfl
@[simp] theorem output_effects (env : Env) (i : PcbId) (o : Outcome) (flg : UInt8) :
    (o.output env i flg).effects = o.effects ++ [.output i (o.pcb.segment flg [])] := rfl

@[simp] theorem release_pcb (o : Outcome) : o.release.pcb = { o.pcb with state := .closed } := rfl
@[simp] theorem release_released (o : Outcome) : o.release.released = true := rfl
@[simp] theorem release_queued (o : Outcome) : o.release.queued = o.queued := rfl
@[simp] theorem release_effects (o : Outcome) : o.release.effects = o.effects := rfl

@[simp] theorem setTimewaitTimer_pcb (env : Env) (o : Outcome) :
    (o.setTimewaitTimer env).pcb = { o.pcb with
      twTimer := { env.now with tvSec := env.now.tvSec + 30 } } := rfl
@[simp] theorem setTimewaitTimer_released (env : Env) (o : Outcome) :
    (o.setTimewaitTimer env).released = o.released := rfl
@[simp] theorem setTimewaitTimer_queued (env : Env) (o : Outcome) :
    (o.setTimewaitTimer env).queued = o.queued := rfl
@[simp] theorem setTimewaitTimer_effects (env : Env) (o : Outcome) :
    (o.setTimewaitTimer env).effects = o.effects := rfl

end Outcome

/-! ## The ACK stage -/

variable {env : Env} {i : PcbId} {seg : SegmentInfo} {flags : UInt8} {data : List UInt8}
  {l f : Endpoint} {pcb : Pcb}

/-- `snd.una < seg.ack <= snd.nxt`. -/
def Pcb.freshAck (pcb : Pcb) (seg : SegmentInfo) : Bool :=
  decide (pcb.snd.una < seg.ack) && decide (seg.ack ≤ pcb.snd.nxt)

/-- `seg.ack` acknowledges something not yet sent. -/
def Pcb.ackBeyond (pcb : Pcb) (seg : SegmentInfo) : Bool :=
  decide (pcb.snd.una ≤ seg.ack) && decide (pcb.snd.nxt < seg.ack)

/-- The states that share the ACK processing of ESTABLISHED. -/
def PcbState.acking : PcbState → Bool
  | .established | .finWait1 | .finWait2 | .closeWait | .closing => true
  | _ => false

/-- The pcb after the acknowledgement, new or not. -/
def Pcb.acked (pcb : Pcb) (seg : SegmentInfo) : Pcb :=
  { pcb with
    snd := if pcb.freshAck seg then { pcb.snd with una := seg.ack }.updateWindow seg else pcb.snd
    queue := if pcb.freshAck seg then tcpRetransmitQueueCleanup seg.ack pcb.queue
      else pcb.queue }

theorem Pcb.acked_fresh {pcb : Pcb} {seg : SegmentInfo} (h : pcb.freshAck seg) :
    pcb.acked seg = pcb.newAck seg := by
  simp [Pcb.acked, Pcb.newAck, h]

theorem Pcb.acked_stale {pcb : Pcb} {seg : SegmentInfo} (h : pcb.freshAck seg = false) :
    pcb.acked seg = pcb := by
  simp [Pcb.acked, h]

theorem arrivesAckUpdate_eq (o : Outcome) :
    arrivesAckUpdate env i seg flags data o =
      if o.pcb.ackBeyond seg then o.output env i flgAck
      else arrivesText env i seg flags data (ackedFin env i seg (o.setPcb (o.pcb.acked seg))) := by
  have hself : o.setPcb o.pcb = o := rfl
  unfold arrivesAckUpdate
  by_cases h₁ : o.pcb.snd.una < seg.ack ∧ seg.ack ≤ o.pcb.snd.nxt
  · have hf : o.pcb.freshAck seg := by simp [Pcb.freshAck, h₁]
    have hb : o.pcb.ackBeyond seg = false := by
      simp [Pcb.ackBeyond, UInt32.not_lt.mpr h₁.2]
    rw [if_pos h₁, Pcb.acked_fresh hf, hb]
    rfl
  · have hf : o.pcb.freshAck seg = false := by
      simpa [Pcb.freshAck] using h₁
    rw [if_neg h₁, Pcb.acked_stale hf, hself]
    by_cases h₂ : seg.ack < o.pcb.snd.una
    · have hb : o.pcb.ackBeyond seg = false := by
        simp [Pcb.ackBeyond, UInt32.not_le.mpr h₂]
      rw [if_pos h₂, hb]
      rfl
    · rw [if_neg h₂]
      have h₃ : o.pcb.snd.una ≤ seg.ack := UInt32.not_lt.mp h₂
      by_cases h₄ : o.pcb.snd.nxt < seg.ack <;> simp [Pcb.ackBeyond, h₃, h₄]

/-- The outcome with which the handler reaches the text stage. -/
inductive Passed (env : Env) (i : PcbId) (seg : SegmentInfo) (flags : UInt8) (pcb : Pcb) :
    Outcome → Prop
  /-- The handshake is completed. -/
  | opened (hs : pcb.state = .synReceived) (hlo : pcb.snd.una ≤ seg.ack)
      (hhi : seg.ack ≤ pcb.snd.nxt) :
      Passed env i seg flags pcb
        ((establish env i (.start pcb)).setPcb ({ pcb with state := .established }.acked seg))
  /-- A state that shares the processing of ESTABLISHED. -/
  | shared (hs : pcb.state.acking) (hack : pcb.ackBeyond seg = false) :
      Passed env i seg flags pcb (ackedFin env i seg ((Outcome.start pcb).setPcb (pcb.acked seg)))
  | timeWait (hs : pcb.state = .timeWait) :
      Passed env i seg flags pcb
        (if flgIsSet flags flgFin then (Outcome.start pcb).setTimewaitTimer env else .start pcb)
  /-- The slot is not in use: the handler has no case for it. -/
  | unused (hs : pcb.state.synchronized = false) : Passed env i seg flags pcb (.start pcb)

/-- The checks before the ACK field let the segment through. -/
def Pcb.admits (pcb : Pcb) (seg : SegmentInfo) (flags : UInt8) : Bool :=
  (!pcb.state.synchronized ||
    (acceptable pcb.rcv seg && !flgIsSet flags flgRst && !flgIsSet flags flgSyn)) &&
  flgIsSet flags flgAck

/-- The segment resets the connection: an acceptable RST or SYN, or the
acknowledgement of our last FIN. -/
def Pcb.resetBy (pcb : Pcb) (seg : SegmentInfo) (flags : UInt8) : Bool :=
  pcb.state.synchronized && acceptable pcb.rcv seg &&
    (flgIsSet flags flgRst || flgIsSet flags flgSyn ||
      (decide (pcb.state = .lastAck) && flgIsSet flags flgAck &&
        decide (seg.ack = pcb.snd.nxt)))

/-- **Inversion of the handler after `Otherwise`.** -/
inductive Handled (env : Env) (i : PcbId) (seg : SegmentInfo) (flags : UInt8)
    (data : List UInt8) (l f : Endpoint) (pcb : Pcb) : Outcome → Prop
  /-- Nothing happens. -/
  | dropped : Handled env i seg flags data l f pcb (.start pcb)
  /-- Only an ACK goes out. -/
  | answered : Handled env i seg flags data l f pcb ((Outcome.start pcb).output env i flgAck)
  /-- Only a reset goes out: a bad acknowledgement in SYN-RECEIVED. -/
  | refused : Handled env i seg flags data l f pcb
      ((Outcome.start pcb).emit (resetReply seg l f))
  /-- The pcb is released, after a reset of ours if the segment was a SYN. -/
  | reset (h : pcb.resetBy seg flags) (o : Outcome)
      (ho : o = .start pcb ∨ o = (Outcome.start pcb).output env i flgRst) :
      Handled env i seg flags data l f pcb o.release
  /-- The segment is processed. -/
  | processed (h : pcb.admits seg flags) (o : Outcome) (ho : Passed env i seg flags pcb o) :
      Handled env i seg flags data l f pcb (arrivesText env i seg flags data o)

theorem establish_pcb (o : Outcome) :
    (establish env i o).pcb = { o.pcb with state := .established } := by
  simp only [establish]
  split <;> rfl

theorem arrivesAck_handled (had : pcb.admits seg flags)
    (hacc : pcb.state.synchronized → acceptable pcb.rcv seg = true) :
    Handled env i seg flags data l f pcb
      (arrivesAck env i seg flags data l f (.start pcb)) := by
  have shared (hs : pcb.state.acking) : Handled env i seg flags data l f pcb
      (arrivesAckUpdate env i seg flags data (.start pcb)) := by
    rw [arrivesAckUpdate_eq]
    split
    · exact .answered
    · rename_i h
      exact .processed had _ (.shared hs (by simpa using h))
  have unused (hs : pcb.state.synchronized = false) : Handled env i seg flags data l f pcb
      (arrivesText env i seg flags data (.start pcb)) :=
    .processed had _ (.unused hs)
  have hst : (Outcome.start pcb).pcb.state = pcb.state := rfl
  cases hs : pcb.state with
  | synReceived =>
      simp only [arrivesAck, hst, hs]
      split
      · rename_i h
        have hb : (establish env i (.start pcb)).pcb.ackBeyond seg = false := by
          have : ¬ pcb.snd.nxt < seg.ack := UInt32.not_lt.mpr h.2
          simp [establish_pcb, Pcb.ackBeyond, this]
        rw [arrivesAckUpdate_eq, hb]
        refine .processed had _ ?_
        have he : ackedFin env i seg ((establish env i (.start pcb)).setPcb
            ((establish env i (.start pcb)).pcb.acked seg)) =
            (establish env i (.start pcb)).setPcb ({ pcb with state := .established }.acked seg) := by
          rw [establish_pcb]
          rfl
        rw [he]
        exact .opened hs h.1 h.2
      · exact .refused
  | lastAck =>
      simp only [arrivesAck, hst, hs]
      split
      · rename_i h
        refine .reset ?_ _ (.inl rfl)
        have := hacc (by rw [hs]; rfl)
        simp only [Pcb.admits, hs, Bool.and_eq_true] at had
        have h : seg.ack = pcb.snd.nxt := h
        simp [Pcb.resetBy, hs, PcbState.synchronized, this, h, had.2]
      · exact .dropped
  | timeWait =>
      simp only [arrivesAck, hst, hs]
      exact .processed had _ (.timeWait hs)
  | established => simpa only [arrivesAck, hst, hs] using shared (by rw [hs]; rfl)
  | finWait1 => simpa only [arrivesAck, hst, hs] using shared (by rw [hs]; rfl)
  | finWait2 => simpa only [arrivesAck, hst, hs] using shared (by rw [hs]; rfl)
  | closeWait => simpa only [arrivesAck, hst, hs] using shared (by rw [hs]; rfl)
  | closing => simpa only [arrivesAck, hst, hs] using shared (by rw [hs]; rfl)
  | free => simpa only [arrivesAck, hst, hs] using unused (by rw [hs]; rfl)
  | closed => simpa only [arrivesAck, hst, hs] using unused (by rw [hs]; rfl)
  | listen => simpa only [arrivesAck, hst, hs] using unused (by rw [hs]; rfl)
  | synSent => simpa only [arrivesAck, hst, hs] using unused (by rw [hs]; rfl)

theorem arrivesOtherwise_handled (env : Env) (i : PcbId) (seg : SegmentInfo) (flags : UInt8)
    (data : List UInt8) (l f : Endpoint) (pcb : Pcb) :
    Handled env i seg flags data l f pcb (arrivesOtherwise env i seg flags data l f pcb) := by
  unfold arrivesOtherwise
  split
  · split
    · exact .dropped
    · exact .answered
  rename_i hacc
  simp only [Bool.and_eq_true, Bool.not_eq_true', not_and, Bool.not_eq_false] at hacc
  split
  · rename_i h
    simp only [Bool.and_eq_true] at h
    exact .reset (by simp [Pcb.resetBy, h.1, h.2, hacc h.1]) _ (.inl rfl)
  rename_i hrst
  split
  · rename_i h
    simp only [Bool.and_eq_true] at h
    exact .reset (by simp [Pcb.resetBy, h.1, h.2, hacc h.1]) _ (.inr rfl)
  rename_i hsyn
  split
  · exact .dropped
  rename_i hack
  simp only [Bool.and_eq_true, not_and, Bool.not_eq_true] at hrst hsyn
  refine arrivesAck_handled ?_ hacc
  cases hs : pcb.state.synchronized with
  | false => simpa [Pcb.admits, hs] using hack
  | true => simpa [Pcb.admits, hs, hacc hs, hrst hs, hsyn hs] using hack

/-! ## The stages, field by field -/

/-- What the handler never changes while it keeps the pcb. -/
structure Keeps (p p' : Pcb) : Prop where
  mode : p'.mode = p.mode
  localEp : p'.localEp = p.localEp
  foreignEp : p'.foreignEp = p.foreignEp
  nxt : p'.snd.nxt = p.snd.nxt
  iss : p'.iss = p.iss
  irs : p'.irs = p.irs
  parent : p'.parent = p.parent
  backlog : p'.backlog = p.backlog
  cond : p'.cond = p.cond
  taken : p'.hist.taken = p.hist.taken

theorem Keeps.refl (p : Pcb) : Keeps p p :=
  ⟨rfl, rfl, rfl, rfl, rfl, rfl, rfl, rfl, rfl, rfl⟩

theorem Keeps.trans {p q r : Pcb} (h : Keeps p q) (h' : Keeps q r) : Keeps p r where
  mode := h'.mode.trans h.mode
  localEp := h'.localEp.trans h.localEp
  foreignEp := h'.foreignEp.trans h.foreignEp
  nxt := h'.nxt.trans h.nxt
  iss := h'.iss.trans h.iss
  irs := h'.irs.trans h.irs
  parent := h'.parent.trans h.parent
  backlog := h'.backlog.trans h.backlog
  cond := h'.cond.trans h.cond
  taken := h'.taken.trans h.taken

/-- The state after a FIN. -/
def Pcb.finState (pcb : Pcb) (seg : SegmentInfo) : PcbState :=
  match pcb.state with
  | .synReceived | .established => .closeWait
  | .finWait1 => if seg.ack = pcb.snd.nxt then .timeWait else .closing
  | .finWait2 => .timeWait
  | s => s

/-- A FIN is processed in this state. -/
def PcbState.takesFin : PcbState → Bool
  | .closed | .listen | .synSent => false
  | _ => true

/-- The handler processes the FIN bit in this state. -/
def Pcb.finTaken (pcb : Pcb) (flags : UInt8) : Bool :=
  flgIsSet flags flgFin && pcb.state.takesFin

/-- The pcb after the FIN has been processed. -/
def Pcb.fin (env : Env) (pcb : Pcb) (seg : SegmentInfo) : Pcb :=
  { pcb with
    state := pcb.finState seg
    rcv := { pcb.rcv with nxt := seg.seq + 1 }
    twTimer := if pcb.finState seg = .timeWait then
      { env.now with tvSec := env.now.tvSec + 30 } else pcb.twTimer
    hist := { pcb.hist with sent := pcb.hist.sent ++
      [{ pcb with rcv := { pcb.rcv with nxt := seg.seq + 1 } }.segment flgAck []] } }

/-- The pcb the FIN stage leaves. -/
theorem arrivesFin_pcb (o : Outcome) :
    (arrivesFin env i seg flags o).pcb =
      if o.pcb.finTaken flags then o.pcb.fin env seg else o.pcb := by
  unfold arrivesFin Pcb.finTaken
  by_cases hf : flgIsSet flags flgFin
  · rw [if_pos hf]
    cases h : o.pcb.state
    case finWait1 =>
      by_cases hn : seg.ack = o.pcb.snd.nxt <;>
        simp [tcpOutput_pcb, hn, hf, Pcb.fin, Pcb.finState, PcbState.takesFin, h]
    all_goals simp [tcpOutput_pcb, hf, Pcb.fin, Pcb.finState, PcbState.takesFin, h]
  · rw [if_neg hf, if_neg (by simp [hf])]

/-- The pcb the text stage leaves. -/
theorem textStage_pcb (o : Outcome) :
    (textStage env i seg data o).pcb =
      if o.pcb.takesText data then
        (o.pcb.takeText seg data).sending ((o.pcb.takeText seg data).segment flgAck [])
      else o.pcb := by
  unfold textStage
  split
  · simp [tcpOutput_pcb, Pcb.sending]
  · rfl

section Text
variable (env i seg flags data) (o : Outcome)

theorem textStage_state : (textStage env i seg data o).pcb.state = o.pcb.state := by
  rw [textStage_pcb]
  split <;> rfl

theorem textStage_snd : (textStage env i seg data o).pcb.snd = o.pcb.snd := by
  rw [textStage_pcb]
  split <;> rfl

theorem arrivesFin_keeps : Keeps o.pcb (arrivesFin env i seg flags o).pcb := by
  rw [arrivesFin_pcb]
  split
  · exact ⟨rfl, rfl, rfl, rfl, rfl, rfl, rfl, rfl, rfl, rfl⟩
  · exact .refl _

theorem textStage_keeps : Keeps o.pcb (textStage env i seg data o).pcb := by
  rw [textStage_pcb]
  split
  · exact ⟨rfl, rfl, rfl, rfl, rfl, rfl, rfl, rfl, rfl, rfl⟩
  · exact .refl _

theorem arrivesText_keeps : Keeps o.pcb (arrivesText env i seg flags data o).pcb :=
  (textStage_keeps env i seg data o).trans (arrivesFin_keeps env i seg flags _)

/-- The two stages as one update of the pcb. -/
theorem arrivesText_pcb : (arrivesText env i seg flags data o).pcb =
    if o.pcb.finTaken flags then (textStage env i seg data o).pcb.fin env seg
    else (textStage env i seg data o).pcb := by
  have hfin : (textStage env i seg data o).pcb.finTaken flags = o.pcb.finTaken flags := by
    simp only [Pcb.finTaken, textStage_state]
  rw [arrivesText, arrivesFin_pcb, hfin]

theorem arrivesText_snd : (arrivesText env i seg flags data o).pcb.snd = o.pcb.snd := by
  rw [arrivesText_pcb, ← textStage_snd env i seg data o]
  split <;> rfl

theorem arrivesText_queue : (arrivesText env i seg flags data o).pcb.queue = o.pcb.queue := by
  rw [arrivesText_pcb, textStage_pcb]
  split <;> split <;> rfl

theorem arrivesText_buf : (arrivesText env i seg flags data o).pcb.buf =
    if o.pcb.takesText data then copyAt o.pcb.buf o.pcb.remain data else o.pcb.buf := by
  rw [arrivesText_pcb, textStage_pcb]
  split <;> split <;> rfl

theorem arrivesText_wnd : (arrivesText env i seg flags data o).pcb.rcv.wnd =
    if o.pcb.takesText data then o.pcb.rcv.wnd - UInt16.ofNat data.length
    else o.pcb.rcv.wnd := by
  rw [arrivesText_pcb, textStage_pcb]
  split <;> split <;> rfl

theorem arrivesText_stored : (arrivesText env i seg flags data o).pcb.hist.stored =
    if o.pcb.takesText data then o.pcb.hist.stored ++ data else o.pcb.hist.stored := by
  rw [arrivesText_pcb, textStage_pcb]
  split <;> split <;> rfl

theorem arrivesText_rcvNxt : (arrivesText env i seg flags data o).pcb.rcv.nxt =
    if o.pcb.finTaken flags then seg.seq + 1
    else if o.pcb.takesText data then seg.seq + seg.len.toUInt32 else o.pcb.rcv.nxt := by
  rw [arrivesText_pcb, textStage_pcb]
  split
  · rfl
  · split <;> rfl

theorem arrivesText_state : (arrivesText env i seg flags data o).pcb.state =
    if o.pcb.finTaken flags then o.pcb.finState seg else o.pcb.state := by
  have hst : (textStage env i seg data o).pcb.finState seg = o.pcb.finState seg := by
    simp only [Pcb.finState, textStage_state, textStage_snd]
  rw [arrivesText_pcb]
  split
  · exact hst
  · exact textStage_state env i seg data o

end Text

/-! ## Release and queueing -/

/-- Segments go out, and nothing else shows. -/
def OnlyOutputs (eff : List Effect) : Prop :=
  ∀ x ∈ eff, (∃ i s, x = .output i s) ∨ ∃ s, x = .reply s

/-- Resets go out, and nothing else shows. -/
def OnlyResets (eff : List Effect) : Prop :=
  ∀ x ∈ eff, ∃ s : TcpSegment, ((∃ i, x = .output i s) ∨ x = .reply s) ∧
    s.data = [] ∧ flgIsSet s.flg flgRst ∧ flgIsSet s.flg flgFin = false

theorem flgRst_bits : flgIsSet flgRst flgRst = true ∧ flgIsSet flgRst flgFin = false := by decide

theorem onlyResets_nil : OnlyResets [] := by simp [OnlyResets]

theorem OnlyResets.onlyOutputs {eff : List Effect} (h : OnlyResets eff) : OnlyOutputs eff := by
  intro x hx
  obtain ⟨s, hs | hs, -⟩ := h x hx
  · exact .inl (hs.imp fun i hi => ⟨s, hi⟩)
  · exact .inr ⟨s, hs⟩

section Flow
variable (o : Outcome)

@[simp] theorem arrivesFin_released :
    (arrivesFin env i seg flags o).released = o.released := by
  simp only [arrivesFin]
  split
  · split <;> try rfl
    split <;> try rfl
    split <;> rfl
  · rfl

@[simp] theorem arrivesFin_queued :
    (arrivesFin env i seg flags o).queued = o.queued := by
  simp only [arrivesFin]
  split
  · split <;> try rfl
    split <;> try rfl
    split <;> rfl
  · rfl

@[simp] theorem textStage_released : (textStage env i seg data o).released = o.released := by
  unfold textStage
  split <;> rfl

@[simp] theorem textStage_queued : (textStage env i seg data o).queued = o.queued := by
  unfold textStage
  split <;> rfl

@[simp] theorem arrivesText_released :
    (arrivesText env i seg flags data o).released = o.released := by
  simp [arrivesText]

@[simp] theorem arrivesText_queued :
    (arrivesText env i seg flags data o).queued = o.queued := by
  simp [arrivesText]

@[simp] theorem ackedFin_released : (ackedFin env i seg o).released = o.released := by
  unfold ackedFin
  split <;> first | rfl | (split <;> rfl)

@[simp] theorem ackedFin_queued : (ackedFin env i seg o).queued = o.queued := by
  unfold ackedFin
  split <;> first | rfl | (split <;> rfl)

theorem ackedFin_keeps (env : Env) (i : PcbId) (seg : SegmentInfo) (o : Outcome) :
    Keeps o.pcb (ackedFin env i seg o).pcb := by
  unfold ackedFin
  split
  · split
    · exact ⟨rfl, rfl, rfl, rfl, rfl, rfl, rfl, rfl, rfl, rfl⟩
    · exact .refl _
  · split
    · exact ⟨rfl, rfl, rfl, rfl, rfl, rfl, rfl, rfl, rfl, rfl⟩
    · exact .refl _
  · exact .refl _

@[simp] theorem establish_released : (establish env i o).released = o.released := by
  cases h : o.pcb.parent <;> simp [establish, h]

theorem establish_queued : (establish env i o).queued =
    match o.pcb.parent with
    | some _ => env.calloc 0
    | none => o.queued := by
  cases h : o.pcb.parent <;> simp [establish, h]

end Flow

theorem updateWindow_nxt (snd : SndSide) (seg : SegmentInfo) :
    (snd.updateWindow seg).nxt = snd.nxt := by
  unfold SndSide.updateWindow
  split <;> rfl

theorem updateWindow_una (snd : SndSide) (seg : SegmentInfo) :
    (snd.updateWindow seg).una = snd.una := by
  unfold SndSide.updateWindow
  split <;> rfl

theorem acked_keeps (pcb : Pcb) (seg : SegmentInfo) : Keeps pcb (pcb.acked seg) := by
  refine ⟨rfl, rfl, rfl, ?_, rfl, rfl, rfl, rfl, rfl, rfl⟩
  simp only [Pcb.acked]
  split
  · exact updateWindow_nxt _ _
  · rfl

theorem passed_keeps {o : Outcome} (h : Passed env i seg flags pcb o) : Keeps pcb o.pcb := by
  cases h with
  | opened =>
      have h : Keeps pcb { pcb with state := .established } :=
        ⟨rfl, rfl, rfl, rfl, rfl, rfl, rfl, rfl, rfl, rfl⟩
      exact h.trans (acked_keeps { pcb with state := .established } seg)
  | shared =>
      exact (acked_keeps pcb seg).trans
        (ackedFin_keeps env i seg ((Outcome.start pcb).setPcb (pcb.acked seg)))
  | timeWait =>
      split
      · exact ⟨rfl, rfl, rfl, rfl, rfl, rfl, rfl, rfl, rfl, rfl⟩
      · exact .refl _
  | unused => exact .refl _

theorem passed_released {o : Outcome} (h : Passed env i seg flags pcb o) :
    o.released = false := by
  cases h with
  | opened => simp
  | shared => simp
  | timeWait => split <;> rfl
  | unused => rfl

/-- Only the completion of a child's handshake queues a pcb. -/
theorem passed_queued {o : Outcome} (h : Passed env i seg flags pcb o) (hq : o.queued) :
    pcb.state = .synReceived ∧ ∃ q, pcb.parent = some q := by
  cases h with
  | opened hs =>
      refine ⟨hs, ?_⟩
      simp only [Outcome.setPcb_queued, establish_queued, Outcome.start_pcb,
        Outcome.start_queued] at hq
      cases hp : pcb.parent with
      | none => simp [hp] at hq
      | some q => exact ⟨q, rfl⟩
  | shared => simp at hq
  | timeWait => split at hq <;> simp at hq
  | unused => simp at hq

theorem handled_keeps {o : Outcome} (h : Handled env i seg flags data l f pcb o) :
    Keeps pcb o.pcb := by
  cases h with
  | dropped => exact .refl _
  | answered =>
      rw [Outcome.output_pcb, tcpOutput_pcb]
      exact ⟨rfl, rfl, rfl, rfl, rfl, rfl, rfl, rfl, rfl, rfl⟩
  | refused => exact .refl _
  | reset hr o ho =>
      rcases ho with rfl | rfl
      · exact ⟨rfl, rfl, rfl, rfl, rfl, rfl, rfl, rfl, rfl, rfl⟩
      · rw [Outcome.release_pcb, Outcome.output_pcb, tcpOutput_pcb]
        exact ⟨rfl, rfl, rfl, rfl, rfl, rfl, rfl, rfl, rfl, rfl⟩
  | processed ha o ho => exact (passed_keeps ho).trans (arrivesText_keeps env i seg flags data o)

theorem handled_released {o : Outcome} (h : Handled env i seg flags data l f pcb o)
    (hr : o.released) : pcb.resetBy seg flags ∧ o.queued = false ∧ OnlyResets o.effects := by
  cases h with
  | dropped => simp at hr
  | answered => simp at hr
  | refused => simp at hr
  | reset h o ho =>
      refine ⟨h, ?_⟩
      rcases ho with rfl | rfl
      · exact ⟨rfl, onlyResets_nil⟩
      · refine ⟨rfl, fun x hx => ?_⟩
        exact ⟨_, .inl ⟨i, List.mem_singleton.mp hx⟩, rfl, flgRst_bits.1, flgRst_bits.2⟩
  | processed ha o ho => simp [passed_released ho] at hr

theorem handled_queued {o : Outcome} (h : Handled env i seg flags data l f pcb o)
    (hq : o.queued) : pcb.state = .synReceived ∧ ∃ q, pcb.parent = some q := by
  cases h with
  | dropped => simp at hq
  | answered => simp at hq
  | refused => simp at hq
  | reset h o ho => rcases ho with rfl | rfl <;> simp at hq
  | processed ha o ho => exact passed_queued ho (by simpa using hq)

/-! ## The text -/

/-- The handler copies the text of the segment into the buffer. -/
def Pcb.textTaken (pcb : Pcb) (seg : SegmentInfo) (flags : UInt8) (data : List UInt8) : Bool :=
  !data.isEmpty && pcb.admits seg flags &&
    match pcb.state with
    | .synReceived => decide (pcb.snd.una ≤ seg.ack) && decide (seg.ack ≤ pcb.snd.nxt)
    | .established | .finWait1 | .finWait2 => !pcb.ackBeyond seg
    | _ => false

/-- The ACK stage leaves the receive side alone. -/
theorem passed_receive {o : Outcome} (h : Passed env i seg flags pcb o) :
    o.pcb.rcv = pcb.rcv ∧ o.pcb.buf = pcb.buf ∧ o.pcb.hist = pcb.hist := by
  cases h with
  | opened => exact ⟨rfl, rfl, rfl⟩
  | shared =>
      simp only [ackedFin]
      split
      · split <;> exact ⟨rfl, rfl, rfl⟩
      · split <;> exact ⟨rfl, rfl, rfl⟩
      · exact ⟨rfl, rfl, rfl⟩
  | timeWait => split <;> exact ⟨rfl, rfl, rfl⟩
  | unused => exact ⟨rfl, rfl, rfl⟩

theorem ackedFin_state (o : Outcome) : (ackedFin env i seg o).pcb.state =
    if seg.ack = o.pcb.snd.nxt then
      match o.pcb.state with
      | .finWait1 => .finWait2
      | .closing => .timeWait
      | s => s
    else o.pcb.state := by
  unfold ackedFin
  cases h : o.pcb.state <;> by_cases ha : seg.ack = o.pcb.snd.nxt <;> simp [ha, h]

theorem passed_takesText {o : Outcome} (ha : pcb.admits seg flags)
    (h : Passed env i seg flags pcb o) :
    o.pcb.takesText data = pcb.textTaken seg flags data := by
  cases h with
  | opened hs hlo hhi =>
      simp [Pcb.takesText, Pcb.textTaken, Pcb.acked, ha, hs, hlo, hhi]
  | shared hs hack =>
      have hst : ((Outcome.start pcb).setPcb (pcb.acked seg)).pcb.state = pcb.state := rfl
      simp only [Pcb.takesText, Pcb.textTaken, ackedFin_state, ha, hack, hst]
      by_cases hn : seg.ack = ((Outcome.start pcb).setPcb (pcb.acked seg)).pcb.snd.nxt
      · rw [if_pos hn]
        cases h : pcb.state <;> simp_all [PcbState.acking]
      · rw [if_neg hn]
        cases h : pcb.state <;> simp_all [PcbState.acking]
  | timeWait hs =>
      split <;> simp [Pcb.takesText, Pcb.textTaken, hs]
  | unused hs =>
      cases hst : pcb.state <;> simp_all [PcbState.synchronized, Pcb.takesText, Pcb.textTaken]

/-- A segment that passes the checks before the ACK field reaches it. -/
theorem arrivesOtherwise_admitted (hs : pcb.state.synchronized) (ha : pcb.admits seg flags) :
    arrivesOtherwise env i seg flags data l f pcb =
      arrivesAck env i seg flags data l f (.start pcb) := by
  simp only [Pcb.admits, hs, Bool.not_true, Bool.false_or, Bool.and_eq_true,
    Bool.not_eq_true'] at ha
  obtain ⟨⟨⟨hacc, hrst⟩, hsyn⟩, hack⟩ := ha
  simp [arrivesOtherwise, hs, hacc, hrst, hsyn, hack]

/-- In SYN-RECEIVED an acknowledgement from `snd.una` to `snd.nxt` completes
the handshake. -/
theorem arrivesOtherwise_opened (hs : pcb.state = .synReceived) (ha : pcb.admits seg flags)
    (hlo : pcb.snd.una ≤ seg.ack) (hhi : seg.ack ≤ pcb.snd.nxt) :
    arrivesOtherwise env i seg flags data l f pcb =
      arrivesText env i seg flags data
        ((establish env i (.start pcb)).setPcb ({ pcb with state := .established }.acked seg)) := by
  have hb : (establish env i (.start pcb)).pcb.ackBeyond seg = false := by
    have : ¬ pcb.snd.nxt < seg.ack := UInt32.not_lt.mpr hhi
    simp [establish_pcb, Pcb.ackBeyond, this]
  rw [arrivesOtherwise_admitted (by rw [hs]; rfl) ha]
  simp only [arrivesAck, hs, Outcome.start_pcb, hlo, hhi, and_self, if_true]
  rw [arrivesAckUpdate_eq, hb, establish_pcb]
  rfl

/-- The handler gets as far as the text of the segment. -/
def Pcb.reachesText (pcb : Pcb) (seg : SegmentInfo) (flags : UInt8) : Bool :=
  pcb.admits seg flags &&
    match pcb.state with
    | .synReceived => decide (pcb.snd.una ≤ seg.ack) && decide (seg.ack ≤ pcb.snd.nxt)
    | .established | .finWait1 | .finWait2 | .closeWait | .closing => !pcb.ackBeyond seg
    | .timeWait => true
    | _ => false

/-- **The text is reached.** -/
theorem reachesText_passed (env : Env) (i : PcbId) (data : List UInt8) (l f : Endpoint)
    (h : pcb.reachesText seg flags) :
    ∃ o, Passed env i seg flags pcb o ∧
      arrivesOtherwise env i seg flags data l f pcb = arrivesText env i seg flags data o := by
  simp only [Pcb.reachesText, Bool.and_eq_true] at h
  obtain ⟨ha, hst⟩ := h
  have hstart : (Outcome.start pcb).pcb.state = pcb.state := rfl
  have shared (hs : pcb.state.acking) (hb : pcb.ackBeyond seg = false) :
      ∃ o, Passed env i seg flags pcb o ∧
        arrivesAckUpdate env i seg flags data (.start pcb) = arrivesText env i seg flags data o := by
    refine ⟨_, .shared hs hb, ?_⟩
    rw [arrivesAckUpdate_eq, if_neg (by simpa using hb)]
    rfl
  cases hs : pcb.state with
  | synReceived =>
      simp only [hs, Bool.and_eq_true, decide_eq_true_eq] at hst
      exact ⟨_, .opened hs hst.1 hst.2, arrivesOtherwise_opened hs ha hst.1 hst.2⟩
  | timeWait =>
      rw [arrivesOtherwise_admitted (by rw [hs]; rfl) ha]
      simp only [arrivesAck, hstart, hs]
      exact ⟨_, .timeWait hs, rfl⟩
  | established | finWait1 | finWait2 | closeWait | closing =>
      rw [arrivesOtherwise_admitted (by rw [hs]; rfl) ha]
      simp only [hs, Bool.not_eq_true'] at hst
      simp only [arrivesAck, hstart, hs]
      exact shared (by rw [hs]; rfl) hst
  | _ => simp [hs] at hst

/-- Text that is taken reaches the text stage. -/
theorem textTaken_passed (env : Env) (i : PcbId) (l f : Endpoint)
    (h : pcb.textTaken seg flags data) :
    ∃ o, Passed env i seg flags pcb o ∧
      arrivesOtherwise env i seg flags data l f pcb = arrivesText env i seg flags data o := by
  refine reachesText_passed env i data l f ?_
  simp only [Pcb.textTaken, Bool.and_eq_true] at h
  obtain ⟨⟨-, ha⟩, hst⟩ := h
  rw [Pcb.reachesText, ha, Bool.true_and]
  cases hs : pcb.state with
  | synReceived | established | finWait1 | finWait2 => rwa [hs] at hst
  | _ => simp [hs] at hst

/-! ## The state -/

/-- The handler does not bring a slot into use. -/
theorem handled_free {o : Outcome} (h : Handled env i seg flags data l f pcb o)
    (hs : pcb.state = .free) : o.pcb.state = .free := by
  cases h with
  | dropped => exact hs
  | answered =>
      rw [Outcome.output_pcb, tcpOutput_pcb]
      exact hs
  | refused => exact hs
  | reset h => simp [Pcb.resetBy, hs, PcbState.synchronized] at h
  | processed _ o ho =>
      have hst : o.pcb.state = .free := by
        cases ho with
        | opened h => rw [hs] at h; cases h
        | shared h => rw [hs] at h; cases h
        | timeWait h => rw [hs] at h; cases h
        | unused => exact hs
      rw [arrivesText_state]
      split
      · simp only [Pcb.finState, hst]
      · exact hst

/-- A connection that is not reset stays synchronized. -/
theorem handled_synchronized {o : Outcome} (h : Handled env i seg flags data l f pcb o)
    (hr : o.released = false) (hs : pcb.state.synchronized) : o.pcb.state.synchronized := by
  have fin (p : Pcb) (hp : p.state.synchronized) : (p.finState seg).synchronized := by
    unfold Pcb.finState
    cases hst : p.state <;> simp only [hst] at hp ⊢ <;> try rfl
    all_goals first | exact hp | (split <;> rfl)
  cases h with
  | dropped => exact hs
  | answered => rw [Outcome.output_pcb, tcpOutput_pcb]; exact hs
  | refused => exact hs
  | reset => simp at hr
  | processed ha o ho =>
      have hst : o.pcb.state.synchronized := by
        cases ho with
        | opened => rfl
        | shared h =>
            have hstart : ((Outcome.start pcb).setPcb (pcb.acked seg)).pcb.state = pcb.state := rfl
            rw [ackedFin_state, hstart]
            split
            · cases hp : pcb.state <;> simp_all [PcbState.acking, PcbState.synchronized]
            · exact hs
        | timeWait h => split <;> exact hs
        | unused h => rw [hs] at h; cases h
      rw [arrivesText_state]
      split
      · exact fin _ hst
      · exact hst

/-! ## Copies -/

/-- No text is copied. -/
def NoCopy (eff : List Effect) : Prop :=
  ∀ i off text, Effect.copy i off text ∉ eff

theorem OnlyOutputs.noCopy {eff : List Effect} (h : OnlyOutputs eff) : NoCopy eff := by
  intro i off text hm
  rcases h _ hm with ⟨j, s, hc⟩ | ⟨s, hc⟩
  · cases hc
  · cases hc

section Copies
variable {j : PcbId} {off : Nat} {text : List UInt8} (o : Outcome)

theorem arrivesFin_effects : (arrivesFin env i seg flags o).effects =
    if o.pcb.finTaken flags then
      o.effects ++ .output i ({ o.pcb with
          rcv := { o.pcb.rcv with nxt := seg.seq + 1 } }.segment flgAck []) ::
        (if o.pcb.state = .synReceived ∨ o.pcb.state = .established then [.broadcast i] else [])
    else o.effects := by
  unfold arrivesFin Pcb.finTaken
  by_cases hf : flgIsSet flags flgFin
  · rw [if_pos hf]
    cases h : o.pcb.state
    case finWait1 =>
      by_cases hn : seg.ack = o.pcb.snd.nxt <;>
        simp [tcpOutput_pcb, hn, hf, PcbState.takesFin, h]
    all_goals simp [hf, PcbState.takesFin, h]
  · rw [if_neg hf, if_neg (by simp [hf])]

theorem arrivesFin_copy :
    Effect.copy j off text ∈ (arrivesFin env i seg flags o).effects ↔
      Effect.copy j off text ∈ o.effects := by
  rw [arrivesFin_effects]
  split
  · split <;> simp
  · exact Iff.rfl

theorem textStage_copy :
    Effect.copy j off text ∈ (textStage env i seg data o).effects ↔
      Effect.copy j off text ∈ o.effects ∨
        o.pcb.takesText data ∧ j = i ∧ off = o.pcb.remain ∧ text = data := by
  unfold textStage
  split
  · rename_i h
    simp [h]
  · rename_i h
    simp [h]

theorem arrivesText_copy :
    Effect.copy j off text ∈ (arrivesText env i seg flags data o).effects ↔
      Effect.copy j off text ∈ o.effects ∨
        o.pcb.takesText data ∧ j = i ∧ off = o.pcb.remain ∧ text = data := by
  rw [arrivesText, arrivesFin_copy, textStage_copy]

end Copies

theorem passed_noCopy {o : Outcome} (h : Passed env i seg flags pcb o) : NoCopy o.effects := by
  intro j off text
  cases h with
  | opened =>
      cases hp : pcb.parent <;> simp [establish, hp]
  | shared =>
      simp only [ackedFin]
      split
      · split <;> simp
      · split <;> simp
      · simp
  | timeWait => split <;> simp
  | unused => simp

/-- **Every copy of the handler.**  It is the whole text of a segment that is
processed, and it goes where the buffered bytes end. -/
theorem handled_copy {o : Outcome} (h : Handled env i seg flags data l f pcb o)
    {j : PcbId} {off : Nat} {text : List UInt8} (hc : Effect.copy j off text ∈ o.effects) :
    pcb.textTaken seg flags data ∧ j = i ∧ off = pcb.remain ∧ text = data := by
  cases h with
  | dropped => simp at hc
  | answered => simp at hc
  | refused => simp [resetReply] at hc
  | reset h o ho => rcases ho with rfl | rfl <;> simp at hc
  | processed ha o ho =>
      rcases (arrivesText_copy o).mp hc with hc | ⟨ht, hj, hoff, htext⟩
      · exact absurd hc (passed_noCopy ho _ _ _)
      · have hrem : o.pcb.remain = pcb.remain := by
          simp [Pcb.remain, (passed_receive ho).1]
        exact ⟨passed_takesText ha ho ▸ ht, hj, hoff.trans hrem, htext⟩

/-- Text that is taken is copied. -/
theorem textTaken_copied (h : pcb.textTaken seg flags data) :
    Effect.copy i pcb.remain data ∈
      (arrivesOtherwise env i seg flags data l f pcb).effects := by
  obtain ⟨o, ho, heq⟩ := textTaken_passed env i l f h
  have hadm : pcb.admits seg flags := by
    simp only [Pcb.textTaken, Bool.and_eq_true] at h
    exact h.1.2
  have hrem : o.pcb.remain = pcb.remain := by
    simp [Pcb.remain, (passed_receive ho).1]
  rw [heq, arrivesText_copy, passed_takesText hadm ho, hrem]
  exact .inr ⟨h, rfl, rfl, rfl⟩

/-! ## SYN-SENT -/

/-- The pcb that becomes ESTABLISHED on the peer's SYN. -/
def Pcb.synEstablished (pcb : Pcb) (seg : SegmentInfo) : Pcb :=
  { pcb with
    state := .established
    snd := { pcb.snd with wnd := seg.wnd, wl1 := seg.seq, wl2 := seg.ack }
    hist := { pcb.hist with sent := pcb.hist.sent ++ [pcb.segment flgAck []] } }

/-- The pcb that becomes SYN-RECEIVED because both sides opened at once. -/
def Pcb.synCrossed (env : Env) (pcb : Pcb) : Pcb :=
  { pcb with
    state := .synReceived
    queue := pcb.queueAfter env (env.calloc 0) (flgSyn ||| flgAck) []
    hist := { pcb.hist with
      sent := pcb.hist.sent ++ [pcb.segment (flgSyn ||| flgAck) []] } }

/-- A SYN has been taken in SYN-SENT: the connection is up, or both sides
opened at once. -/
inductive SynTaken (env : Env) (i : PcbId) (seg : SegmentInfo) (pcb : Pcb) (o : Outcome) :
    Prop
  | established (h : pcb.iss < pcb.snd.una) (hp : o.pcb = pcb.synEstablished seg)
      (he : o.effects = [.output i (pcb.segment flgAck []), .broadcast i])
  | crossed (h : ¬ pcb.iss < pcb.snd.una) (hp : o.pcb = pcb.synCrossed env)
      (he : o.effects = [.output i (pcb.segment (flgSyn ||| flgAck) [])])

/-- **Inversion of the handler in SYN-SENT.** -/
inductive SynSentHandled (env : Env) (i : PcbId) (seg : SegmentInfo) (flags : UInt8)
    (l f : Endpoint) (pcb : Pcb) : Outcome → Prop
  | dropped : SynSentHandled env i seg flags l f pcb (.start pcb)
  | refused (hb : synSentBadAck pcb seg flags) :
      SynSentHandled env i seg flags l f pcb ((Outcome.start pcb).emit (resetReply seg l f))
  | reset (hb : synSentBadAck pcb seg flags = false) (hr : flgIsSet flags flgRst)
      (ha : synSentAcceptable pcb seg flags) :
      SynSentHandled env i seg flags l f pcb (Outcome.start pcb).release
  | taken (hb : synSentBadAck pcb seg flags = false) (hr : flgIsSet flags flgRst = false)
      (hs : flgIsSet flags flgSyn) (o : Outcome) (hrel : o.released = false)
      (hq : o.queued = false)
      (ho : SynTaken env i seg (synSentSyn pcb seg (synSentAcceptable pcb seg flags)) o) :
      SynSentHandled env i seg flags l f pcb o

theorem arrivesSynSent_handled (env : Env) (i : PcbId) (seg : SegmentInfo) (flags : UInt8)
    (l f : Endpoint) (pcb : Pcb) :
    SynSentHandled env i seg flags l f pcb (arrivesSynSent env i seg flags l f pcb) := by
  simp only [arrivesSynSent]
  split
  · rename_i hb
    exact .refused hb
  rename_i hb
  simp only [Bool.not_eq_true] at hb
  split
  · rename_i hr
    split
    · rename_i ha
      exact .reset hb hr ha
    · exact .dropped
  rename_i hr
  simp only [Bool.not_eq_true] at hr
  split
  · rename_i hs
    split
    · rename_i h
      refine .taken hb hr hs _ rfl rfl (.established h ?_ rfl)
      simp [tcpOutput_pcb, Pcb.synEstablished, Pcb.segment]
    · rename_i h
      refine .taken hb hr hs _ rfl rfl (.crossed h ?_ rfl)
      simp [tcpOutput_pcb, Pcb.synCrossed, Pcb.segment, Pcb.queueAfter]
  · exact .dropped

/-- What the SYN of the peer changes in SYN-SENT. -/
theorem synSentSyn_eq (pcb : Pcb) (seg : SegmentInfo) (a : Bool) :
    synSentSyn pcb seg a =
      { pcb with
        rcv := { pcb.rcv with nxt := seg.seq + 1 }
        irs := seg.seq
        snd := { pcb.snd with una := if a then seg.ack else pcb.snd.una }
        queue := if a then tcpRetransmitQueueCleanup seg.ack pcb.queue else pcb.queue } := by
  cases a <;> rfl

end Laplus.Tcp
