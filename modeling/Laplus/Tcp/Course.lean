/-
# `Laplus.Tcp.Course` — the comparisons of the segment handler, made first

From SYN-SENT on the handler compares sequence numbers in a handful of
places: the window test, the two tests of the acknowledgement, the test for
a newer window and the test at the head of the retransmit queue.  `course`
makes them all and says which way the handler goes, `perform` goes that way
without comparing anything but equality.  The handler is the one after the
other.
-/
import Laplus.Tcp.Handled

namespace Laplus.Tcp

open Net

/-- The ways through the handler.  `process` carries what the acknowledgement
does, if it is new: whether the send window follows and how many entries
leave the queue.  `synTaken` carries whether the connection is up, by how much
`snd.una` moves and how many entries leave the queue. -/
inductive Course where
  | drop
  | answer
  | refuse
  | reset
  | process (ack : Option (Bool × Nat))
  | synTaken (up : Bool) (advance : UInt32) (popped : Nat)
deriving DecidableEq

/-! ## The comparisons -/

/-- How many entries `tcp_retransmit_queue_cleanup` pops. -/
def popped (una : UInt32) (q : List QueueEntry) : Nat :=
  (q.takeWhile fun e => e.seq < una).length

/-- The segment is newer than the last one that set the send window. -/
def SndSide.newer (snd : SndSide) (seg : SegmentInfo) : Bool :=
  decide (snd.wl1 < seg.seq ∨ (snd.wl1 = seg.seq ∧ snd.wl2 ≤ seg.ack))

/-- What the acknowledgement does. -/
def Pcb.ackCourse (p : Pcb) (seg : SegmentInfo) : Option (Bool × Nat) :=
  if p.freshAck seg then some (p.snd.newer seg, popped seg.ack p.queue) else none

/-- A FIN that is only acknowledged once more: it is the one at the left edge
already taken, and the pcb is where it leads. -/
def Pcb.idle (env : Env) (p : Pcb) (seg : SegmentInfo) (flags : UInt8) : Bool :=
  flgIsSet flags flgFin && decide (seg.seq + 1 = p.rcv.nxt) &&
    match p.state with
    | .closeWait => true
    | .closing => decide (seg.ack ≠ p.snd.nxt)
    | .timeWait => decide (p.twTimer = { env.now with tvSec := env.now.tvSec + 30 })
    | _ => false

/-- Past the ACK stage.  Nothing acknowledged and an idle FIN is no more than an answer. -/
def Pcb.processCourse (env : Env) (p : Pcb) (seg : SegmentInfo) (flags : UInt8)
    (ack : Option (Bool × Nat)) : Course :=
  if ack = none ∧ p.idle env seg flags then .answer else .process ack

/-- The ACK stage. -/
def Pcb.ackStageCourse (env : Env) (p : Pcb) (seg : SegmentInfo) (flags : UInt8) : Course :=
  match p.state with
  | .synReceived =>
      if p.snd.una ≤ seg.ack ∧ seg.ack ≤ p.snd.nxt then .process (p.ackCourse seg) else .refuse
  | .lastAck => if seg.ack = p.snd.nxt then .reset else .drop
  | .timeWait => p.processCourse env seg flags none
  | _ => if p.ackBeyond seg then .answer else p.processCourse env seg flags (p.ackCourse seg)

/-- `snd.una` after the peer's SYN. -/
def Pcb.synUna (p : Pcb) (seg : SegmentInfo) (flags : UInt8) : UInt32 :=
  if synSentAcceptable p seg flags then seg.ack else p.snd.una

/-- SYN-SENT. -/
def Pcb.synSentCourse (p : Pcb) (seg : SegmentInfo) (flags : UInt8) : Course :=
  if synSentBadAck p seg flags then .refuse
  else if flgIsSet flags flgRst then (if synSentAcceptable p seg flags then .reset else .drop)
  else if flgIsSet flags flgSyn then
    .synTaken (decide (p.iss < p.synUna seg flags)) (p.synUna seg flags - p.snd.una)
      (if synSentAcceptable p seg flags then popped seg.ack p.queue else 0)
  else .drop

/-- **The course of a segment** in a state from SYN-SENT on. -/
def Pcb.course (env : Env) (p : Pcb) (seg : SegmentInfo) (flags : UInt8) : Course :=
  match p.state with
  | .synSent => p.synSentCourse seg flags
  | _ =>
      if !acceptable p.rcv seg then (if flgIsSet flags flgRst then .drop else .answer)
      else if flgIsSet flags flgRst || flgIsSet flags flgSyn then .reset
      else if !flgIsSet flags flgAck then .drop
      else p.ackStageCourse env seg flags

/-! ## Going that way -/

/-- The pcb after the acknowledgement. -/
def Pcb.ackedAs (p : Pcb) (seg : SegmentInfo) : Option (Bool × Nat) → Pcb
  | none => p
  | some (newer, k) =>
      { p with
        snd := if newer then
            { p.snd with una := seg.ack, wnd := seg.wnd, wl1 := seg.seq, wl2 := seg.ack }
          else { p.snd with una := seg.ack }
        queue := p.queue.drop k }

/-- The outcome with which the text stage is reached. -/
def Pcb.passedAs (env : Env) (i : PcbId) (p : Pcb) (seg : SegmentInfo) (flags : UInt8)
    (ack : Option (Bool × Nat)) : Outcome :=
  match p.state with
  | .synReceived =>
      (establish env i (.start p)).setPcb ({ p with state := .established }.ackedAs seg ack)
  | .timeWait =>
      if flgIsSet flags flgFin then (Outcome.start p).setTimewaitTimer env else .start p
  | _ => ackedFin env i seg ((Outcome.start p).setPcb (p.ackedAs seg ack))

/-- The pcb after the peer's SYN has been taken in SYN-SENT. -/
def Pcb.synTakenAs (p : Pcb) (seg : SegmentInfo) (advance : UInt32) (k : Nat) : Pcb :=
  { p with
    rcv := { p.rcv with nxt := seg.seq + 1 }
    irs := seg.seq
    snd := { p.snd with una := p.snd.una + advance }
    queue := p.queue.drop k }

/-- The connection is up: the peer's SYN is acknowledged. -/
def Outcome.synUp (env : Env) (i : PcbId) (seg : SegmentInfo) (o : Outcome) : Outcome :=
  let o := (o.setState .established).output env i flgAck
  (o.setPcb { o.pcb with
    snd := { o.pcb.snd with wnd := seg.wnd, wl1 := seg.seq, wl2 := seg.ack } }).emit (.broadcast i)

/-- **The handler on its course.** -/
def Pcb.perform (env : Env) (i : PcbId) (p : Pcb) (seg : SegmentInfo) (flags : UInt8)
    (data : List UInt8) (l f : Endpoint) : Course → Outcome
  | .drop => .start p
  | .answer => (Outcome.start p).output env i flgAck
  | .refuse => (Outcome.start p).emit (resetReply seg l f)
  | .reset =>
      if !flgIsSet flags flgRst && flgIsSet flags flgSyn then
        ((Outcome.start p).output env i flgRst).release
      else (Outcome.start p).release
  | .process ack => arrivesText env i seg flags data (p.passedAs env i seg flags ack)
  | .synTaken up advance k =>
      if up then (Outcome.start (p.synTakenAs seg advance k)).synUp env i seg
      else ((Outcome.start (p.synTakenAs seg advance k)).setState .synReceived).output env i
        (flgSyn ||| flgAck)

/-- What `tcp_segment_arrives` does with the pcb it has selected, from SYN-SENT on. -/
def Pcb.arrives (env : Env) (i : PcbId) (p : Pcb) (seg : SegmentInfo) (flags : UInt8)
    (data : List UInt8) (l f : Endpoint) : Outcome :=
  match p.state with
  | .synSent => arrivesSynSent env i seg flags l f p
  | _ => arrivesOtherwise env i seg flags data l f p

/-- From SYN-SENT on, `tcp_segment_arrives` is `Pcb.arrives` on the selected pcb. -/
theorem tcpSegmentArrives_eq (env : Env) {t : Table} {i : PcbId} (seg : SegmentInfo)
    (flags : UInt8) (data : List UInt8) {l f : Endpoint}
    (hsel : tcpPcbSelect t l (some f) = some i) (hs : (t.pcb i).state.live) :
    tcpSegmentArrives env t seg flags data l f =
      (settle t i ((t.pcb i).arrives env i seg flags data l f),
        ((t.pcb i).arrives env i seg flags data l f).effects) := by
  simp only [tcpSegmentArrives, hsel, Pcb.arrives]
  cases h : (t.pcb i).state
  all_goals first | rfl | (rw [h] at hs; cases hs)

/-! ## The handler is the one after the other -/

theorem cleanup_drop (una : UInt32) (q : List QueueEntry) :
    tcpRetransmitQueueCleanup una q = q.drop (popped una q) := by
  induction q with
  | nil => rfl
  | cons e q ih =>
      unfold tcpRetransmitQueueCleanup popped
      rw [List.takeWhile_cons]
      by_cases h : e.seq ≥ una
      · have hn : ¬ e.seq < una := UInt32.not_lt.mpr h
        simp [h, hn]
      · have hn : e.seq < una := UInt32.not_le.mp h
        simpa [h, hn, popped] using ih

theorem acked_eq (p : Pcb) (seg : SegmentInfo) : p.acked seg = p.ackedAs seg (p.ackCourse seg) := by
  unfold Pcb.acked Pcb.ackCourse
  cases hf : p.freshAck seg with
  | false => rfl
  | true =>
      simp only [if_true, Pcb.ackedAs, cleanup_drop, SndSide.updateWindow, SndSide.newer,
        decide_eq_true_eq]

theorem ackedAs_state (p : Pcb) (seg : SegmentInfo) (ack : Option (Bool × Nat)) :
    (p.ackedAs seg ack).state = p.state := by
  cases ack <;> rfl

theorem ackedFin_established {env : Env} {i : PcbId} {seg : SegmentInfo} {o : Outcome}
    (h : o.pcb.state = .established) : ackedFin env i seg o = o := by
  simp only [ackedFin, h]

section Perform
variable (env : Env) (i : PcbId) {p : Pcb} (seg : SegmentInfo) (flags : UInt8)
  (data : List UInt8) (l f : Endpoint)

/-- An idle FIN gets an ACK and changes nothing. -/
theorem idle_perform (h : p.idle env seg flags) :
    arrivesText env i seg flags data (p.passedAs env i seg flags none) =
      (Outcome.start p).output env i flgAck := by
  obtain ⟨state, mode, localEp, foreignEp, snd, iss, ⟨nxt, wnd⟩, irs, buf, cond, queue, twTimer,
    parent, backlog, hist⟩ := p
  simp only [Pcb.idle, Bool.and_eq_true, decide_eq_true_eq] at h
  obtain ⟨⟨hfin, hseq⟩, hst⟩ := h
  cases state <;> simp at hst
  case closeWait =>
    simp [Pcb.passedAs, Pcb.ackedAs, ackedFin, arrivesText, textStage, Pcb.takesText, arrivesFin,
      hfin, hseq, Outcome.setPcb, Outcome.start]
  case closing =>
    simp [Pcb.passedAs, Pcb.ackedAs, ackedFin, arrivesText, textStage, Pcb.takesText, arrivesFin,
      hfin, hseq, hst, Outcome.setPcb, Outcome.start]
  case timeWait =>
    subst hst
    simp [Pcb.passedAs, arrivesText, textStage, Pcb.takesText, arrivesFin,
      hfin, hseq, Outcome.setPcb, Outcome.start, Outcome.setTimewaitTimer, Outcome.output,
      Outcome.emit, tcpOutput_pcb]

/-- The ACK stage goes its course. -/
theorem processCourse_perform (ack : Option (Bool × Nat)) :
    p.perform env i seg flags data l f (p.processCourse env seg flags ack) =
      arrivesText env i seg flags data (p.passedAs env i seg flags ack) := by
  unfold Pcb.processCourse
  split
  · rename_i h
    obtain ⟨rfl, hidle⟩ := h
    exact (idle_perform env i seg flags data hidle).symm
  · rfl

theorem ackStage_perform (hs : p.state.synchronized) (hsyn : flgIsSet flags flgSyn = false) :
    arrivesAck env i seg flags data l f (.start p) =
      p.perform env i seg flags data l f (p.ackStageCourse env seg flags) := by
  have hst : (Outcome.start p).pcb.state = p.state := rfl
  have shared (ha : p.state.acking) : arrivesAckUpdate env i seg flags data (.start p) =
      p.perform env i seg flags data l f (if p.ackBeyond seg then .answer
        else p.processCourse env seg flags (p.ackCourse seg)) := by
    have hpass : p.passedAs env i seg flags (p.ackCourse seg) =
        ackedFin env i seg ((Outcome.start p).setPcb (p.acked seg)) := by
      rw [acked_eq, Pcb.passedAs]
      cases h : p.state <;> simp_all [PcbState.acking]
    rw [arrivesAckUpdate_eq]
    cases hb : p.ackBeyond seg with
    | true => simp [hb, Pcb.perform]
    | false =>
        simp only [Outcome.start_pcb, hb, Bool.false_eq_true, if_false]
        rw [processCourse_perform, hpass]
  cases h : p.state with
  | synReceived =>
      simp only [arrivesAck, hst, h, Pcb.ackStageCourse]
      by_cases hack : p.snd.una ≤ seg.ack ∧ seg.ack ≤ p.snd.nxt
      · rw [if_pos hack]
        have hb : (establish env i (.start p)).pcb.ackBeyond seg = false := by
          have : ¬ p.snd.nxt < seg.ack := UInt32.not_lt.mpr hack.2
          simp [establish_pcb, Pcb.ackBeyond, this]
        have hc : ({ p with state := .established } : Pcb).ackCourse seg = p.ackCourse seg := rfl
        have hself : (Outcome.start p).pcb = p := rfl
        rw [hself, if_pos hack, arrivesAckUpdate_eq, hb, establish_pcb, hself]
        simp only [Bool.false_eq_true, if_false, Pcb.perform, Pcb.passedAs, h]
        rw [acked_eq, hc, ackedFin_established]
        exact ackedAs_state _ seg _
      · rw [if_neg hack]
        exact if_neg hack
  | lastAck =>
      simp only [arrivesAck, hst, h, Pcb.ackStageCourse]
      by_cases hack : seg.ack = p.snd.nxt
      · rw [if_pos hack]
        refine (if_pos hack).trans ?_
        simp [Pcb.perform, hsyn]
      · rw [if_neg hack]
        exact if_neg hack
  | timeWait =>
      simp only [arrivesAck, hst, h, Pcb.ackStageCourse]
      rw [processCourse_perform, Pcb.passedAs, h]
  | established => simpa only [arrivesAck, hst, h, Pcb.ackStageCourse] using shared (by rw [h]; rfl)
  | finWait1 => simpa only [arrivesAck, hst, h, Pcb.ackStageCourse] using shared (by rw [h]; rfl)
  | finWait2 => simpa only [arrivesAck, hst, h, Pcb.ackStageCourse] using shared (by rw [h]; rfl)
  | closeWait => simpa only [arrivesAck, hst, h, Pcb.ackStageCourse] using shared (by rw [h]; rfl)
  | closing => simpa only [arrivesAck, hst, h, Pcb.ackStageCourse] using shared (by rw [h]; rfl)
  | _ => rw [h] at hs; cases hs

theorem synSent_perform :
    arrivesSynSent env i seg flags l f p =
      p.perform env i seg flags data l f (p.synSentCourse seg flags) := by
  have hsyn : synSentSyn p seg (synSentAcceptable p seg flags) =
      p.synTakenAs seg (p.synUna seg flags - p.snd.una)
        (if synSentAcceptable p seg flags then popped seg.ack p.queue else 0) := by
    have hadd (x y : UInt32) : y + (x - y) = x := by
      rw [UInt32.add_comm, UInt32.sub_add_cancel]
    unfold synSentSyn Pcb.synUna Pcb.synTakenAs
    cases synSentAcceptable p seg flags with
    | true => simp [cleanup_drop, hadd]
    | false => simp
  have hup : ((Outcome.start p).setPcb (synSentSyn p seg (synSentAcceptable p seg flags))).pcb.snd.una
      = p.synUna seg flags := by
    rw [synSentSyn_eq]
    rfl
  have hiss : ((Outcome.start p).setPcb (synSentSyn p seg (synSentAcceptable p seg flags))).pcb.iss
      = p.iss := by
    rw [synSentSyn_eq]
    rfl
  simp only [arrivesSynSent, Pcb.synSentCourse]
  split
  · rfl
  split
  · rename_i hr
    split
    · simp [Pcb.perform, hr]
    · rfl
  split
  · rw [hup, hiss]
    simp only [Pcb.perform, gt_iff_lt, decide_eq_true_eq, ← hsyn]
    rfl
  · rfl

/-- **The handler goes the course its comparisons set.** -/
theorem arrives_perform (hs : p.state.live) :
    p.arrives env i seg flags data l f =
      p.perform env i seg flags data l f (p.course env seg flags) := by
  have other (h : p.state.synchronized) (hc : p.course env seg flags =
      if !acceptable p.rcv seg then (if flgIsSet flags flgRst then .drop else .answer)
      else if flgIsSet flags flgRst || flgIsSet flags flgSyn then .reset
      else if !flgIsSet flags flgAck then .drop
      else p.ackStageCourse env seg flags) :
      arrivesOtherwise env i seg flags data l f p =
        p.perform env i seg flags data l f (p.course env seg flags) := by
    rw [hc]
    simp only [arrivesOtherwise, h, Bool.true_and]
    split
    · split <;> rfl
    cases hr : flgIsSet flags flgRst with
    | true => simp [Pcb.perform, hr]
    | false =>
        cases hy : flgIsSet flags flgSyn with
        | true => simp [Pcb.perform, hr, hy]
        | false =>
            simp only [Bool.false_eq_true, if_false, Bool.or_self]
            split
            · rfl
            · exact ackStage_perform env i seg flags data l f h hy
  cases h : p.state
  case synSent =>
    simp only [Pcb.arrives, Pcb.course, h]
    exact synSent_perform env i seg flags data l f
  case free => rw [h] at hs; cases hs
  case closed => rw [h] at hs; cases hs
  case listen => rw [h] at hs; cases hs
  all_goals
    simp only [Pcb.arrives, h]
    exact other (by rw [h]; rfl) (by simp only [Pcb.course, h])

end Perform

end Laplus.Tcp
