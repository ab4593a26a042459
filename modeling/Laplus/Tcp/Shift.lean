/-
# `Laplus.Tcp.Shift` — where in sequence space a connection lies

RFC 793 compares sequence numbers modulo 2^32, so that a connection behaves
the same wherever its numbers lie.  The source compares them as unsigned
numbers.  Moving all numbers of one side by a constant commutes with the
handler exactly when the comparisons come out the same: the handler on a given
course commutes with every move, and two courses a segment can take look
different from outside.
-/
import Laplus.Tcp.Course
import Laplus.Tcp.InOrder

namespace Laplus.Tcp

open Net Lib

/-! ## Moving sequence numbers -/

def QueueEntry.moved (a : UInt32) (e : QueueEntry) : QueueEntry := { e with seq := e.seq + a }

/-- A segment of the peer: its `seq` is a number of the receive side. -/
def SegmentInfo.moved (a b : UInt32) (seg : SegmentInfo) : SegmentInfo :=
  { seg with seq := seg.seq + b, ack := seg.ack + a }

/-- A segment of ours: its `seq` is a number of the send side. -/
def TcpSegment.moved (a b : UInt32) (s : TcpSegment) : TcpSegment :=
  { s with seq := s.seq + a, ack := s.ack + b }

/-- The send side moves by `a`, the receive side by `b`. -/
def Pcb.moved (a b : UInt32) (p : Pcb) : Pcb :=
  { p with
    snd := { p.snd with
      nxt := p.snd.nxt + a, una := p.snd.una + a, wl1 := p.snd.wl1 + b, wl2 := p.snd.wl2 + a }
    iss := p.iss + a
    rcv := { p.rcv with nxt := p.rcv.nxt + b }
    irs := p.irs + b
    queue := p.queue.map (QueueEntry.moved a) }

def Effect.moved (a b : UInt32) : Effect → Effect
  | output i s => .output i (s.moved a b)
  | reply s => .reply (s.moved a b)
  | e => e

/-- Without the ACK flag the `ack` field says nothing. -/
def TcpSegment.plain (s : TcpSegment) : TcpSegment :=
  if flgIsSet s.flg flgAck then s else { s with ack := 0 }

def Effect.plain : Effect → Effect
  | output i s => .output i s.plain
  | reply s => .reply s.plain
  | e => e

/-- What the source has of an outcome: the history is ours. -/
def Outcome.seen (o : Outcome) : Outcome :=
  ⟨{ o.pcb with hist := .zero }, o.released, o.queued, o.effects.map Effect.plain⟩

/-- `o'` is `o` moved: the pcb, the segments and the queue are the moved ones. -/
structure Outcome.Moves (a b : UInt32) (o o' : Outcome) : Prop where
  pcb : { o'.pcb with hist := .zero } = { o.pcb.moved a b with hist := .zero }
  released : o'.released = o.released
  queued : o'.queued = o.queued
  effects : o'.effects.map Effect.plain = o.effects.map fun e => (e.moved a b).plain

/-! ## Every stage moves -/

section Stages
variable {a b : UInt32} {env : Env} {i : PcbId} {seg : SegmentInfo} {flags : UInt8}
  {data : List UInt8} {l f : Endpoint} {o o' : Outcome} {p p' : Pcb}

/-- A moved pcb is the pcb moved, with a history of its own. -/
theorem moved_eq (h : { p' with hist := .zero } = { p.moved a b with hist := .zero }) :
    ∃ hist, p' = { p.moved a b with hist := hist } := by
  refine ⟨p'.hist, ?_⟩
  have h' : ({ ({ p' with hist := .zero } : Pcb) with hist := p'.hist } : Pcb) =
      { ({ p.moved a b with hist := .zero } : Pcb) with hist := p'.hist } := by rw [h]
  exact h'

namespace Outcome.Moves

/-- What is moved from is all there is to see. -/
theorem seen_eq {o₁ o₂ : Outcome} (h₁ : Moves a b o o₁) (h₂ : Moves a b o o₂) :
    o₁.seen = o₂.seen := by
  rw [seen, seen, h₁.pcb, h₂.pcb, h₁.released, h₂.released, h₁.queued, h₂.queued, h₁.effects,
    h₂.effects]

theorem start (p : Pcb) : Moves a b (.start p) (.start (p.moved a b)) := ⟨rfl, rfl, rfl, rfl⟩

theorem setPcb (h : Moves a b o o')
    (hp : { p' with hist := .zero } = { p.moved a b with hist := .zero }) :
    Moves a b (o.setPcb p) (o'.setPcb p') :=
  ⟨hp, h.released, h.queued, h.effects⟩

theorem setState (h : Moves a b o o') (s : PcbState) :
    Moves a b (o.setState s) (o'.setState s) := by
  obtain ⟨hist, hp⟩ := moved_eq h.pcb
  refine ⟨?_, h.released, h.queued, h.effects⟩
  rw [setState_pcb, hp]
  rfl

theorem setTimewaitTimer (h : Moves a b o o') :
    Moves a b (o.setTimewaitTimer env) (o'.setTimewaitTimer env) := by
  obtain ⟨hist, hp⟩ := moved_eq h.pcb
  refine ⟨?_, h.released, h.queued, h.effects⟩
  rw [setTimewaitTimer_pcb, hp]
  rfl

theorem release (h : Moves a b o o') : Moves a b o.release o'.release :=
  ⟨(h.setState .closed).pcb, rfl, h.queued, h.effects⟩

theorem emit (h : Moves a b o o') {e e' : Effect} (he : e'.plain = (e.moved a b).plain) :
    Moves a b (o.emit e) (o'.emit e') :=
  ⟨h.pcb, h.released, h.queued, by simp [h.effects, he]⟩

theorem broadcast (h : Moves a b o o') (j : PcbId) :
    Moves a b (o.emit (.broadcast j)) (o'.emit (.broadcast j)) :=
  h.emit rfl

theorem resetReply (h : Moves a b o o') :
    Moves a b (o.emit (resetReply seg l f)) (o'.emit (resetReply (seg.moved a b) l f)) := by
  refine h.emit ?_
  have hf : flgIsSet flgRst flgAck = false := by decide
  simp [Tcp.resetReply, Effect.plain, Effect.moved, TcpSegment.plain, TcpSegment.moved,
    SegmentInfo.moved, hf]

theorem segment_moved (p : Pcb) (hist : History) (flg : UInt8) (data : List UInt8) :
    ({ p.moved a b with hist := hist } : Pcb).segment flg data =
      (p.segment flg data).moved a b := by
  simp only [Pcb.segment, Pcb.moved, TcpSegment.moved]
  split <;> rfl

theorem queueAfter_moved (p : Pcb) (hist : History) (mem : Bool) (flg : UInt8)
    (data : List UInt8) :
    ({ p.moved a b with hist := hist } : Pcb).queueAfter env mem flg data =
      (p.queueAfter env mem flg data).map (QueueEntry.moved a) := by
  unfold Pcb.queueAfter
  split
  · rw [segment_moved, List.map_append]
    rfl
  · rfl

theorem output (env : Env) (i : PcbId) (h : Moves a b o o') (flg : UInt8) :
    Moves a b (o.output env i flg) (o'.output env i flg) := by
  obtain ⟨hist, hp⟩ := moved_eq h.pcb
  refine ⟨?_, h.released, h.queued, ?_⟩
  · rw [output_pcb, output_pcb, tcpOutput_pcb, tcpOutput_pcb, hp, queueAfter_moved]
    rfl
  · rw [output_effects, output_effects, List.map_append, List.map_append, h.effects, hp,
      segment_moved]
    rfl

end Outcome.Moves

open Outcome (Moves)

theorem moves_state (h : Moves a b o o') : o'.pcb.state = o.pcb.state := by
  obtain ⟨hist, hp⟩ := moved_eq h.pcb
  rw [hp]
  rfl

/-- Equality with `snd.nxt` does not depend on the move. -/
theorem moves_ackNxt (seg : SegmentInfo) (h : Moves a b o o') :
    (seg.moved a b).ack = o'.pcb.snd.nxt ↔ seg.ack = o.pcb.snd.nxt := by
  obtain ⟨hist, hp⟩ := moved_eq h.pcb
  rw [hp]
  exact UInt32.add_left_inj a

theorem textStage_moves (h : Moves a b o o') :
    Moves a b (textStage env i seg data o) (textStage env i (seg.moved a b) data o') := by
  obtain ⟨hist, hp⟩ := moved_eq h.pcb
  have htakes : o'.pcb.takesText data = o.pcb.takesText data := by
    simp only [Pcb.takesText, moves_state h]
  have hremain : o'.pcb.remain = o.pcb.remain := by
    rw [hp]
    rfl
  unfold textStage
  rw [htakes]
  split
  · have htake : { o'.pcb.takeText (seg.moved a b) data with hist := .zero } =
        { (o.pcb.takeText seg data).moved a b with hist := .zero } := by
      have hseq : seg.seq + b + seg.len.toUInt32 = seg.seq + seg.len.toUInt32 + b := by
        rw [UInt32.add_assoc, UInt32.add_comm b, ← UInt32.add_assoc]
      rw [hp]
      simp only [Pcb.takeText, Pcb.moved, SegmentInfo.moved, hseq]
      rfl
    refine (Moves.output env i ((h.setPcb htake).emit ?_) _).broadcast i
    rw [hremain]
    rfl
  · exact h

theorem arrivesFin_moves (h : Moves a b o o') :
    Moves a b (arrivesFin env i seg flags o) (arrivesFin env i (seg.moved a b) flags o') := by
  obtain ⟨hist, hp⟩ := moved_eq h.pcb
  have hrcv : { { o'.pcb with rcv := { o'.pcb.rcv with nxt := (seg.moved a b).seq + 1 } } with
      hist := .zero } = { ({ o.pcb with rcv := { o.pcb.rcv with nxt := seg.seq + 1 } } :
        Pcb).moved a b with hist := .zero } := by
    have hseq : seg.seq + b + 1 = seg.seq + 1 + b := by
      rw [UInt32.add_assoc, UInt32.add_comm b, ← UInt32.add_assoc]
    rw [hp]
    simp only [Pcb.moved, SegmentInfo.moved, hseq]
  have hout : Moves a b _ _ := (h.setPcb hrcv).output env i flgAck
  unfold arrivesFin
  split
  · rw [moves_state h]
    cases hs : o.pcb.state with
    | finWait1 =>
        have hack := moves_ackNxt seg hout
        by_cases hn : seg.ack = ((o.setPcb { o.pcb with
            rcv := { o.pcb.rcv with nxt := seg.seq + 1 } }).output env i flgAck).pcb.snd.nxt
        · have hn' := hack.mpr hn
          dsimp only
          rw [if_pos hn, if_pos hn']
          exact (hout.setState _).setTimewaitTimer
        · have hn' := mt hack.mp hn
          dsimp only
          rw [if_neg hn, if_neg hn']
          exact hout.setState _
    | synReceived | established => exact (hout.setState _).broadcast i
    | finWait2 => exact (hout.setState _).setTimewaitTimer
    | timeWait => exact hout.setTimewaitTimer
    | closed | listen | synSent => exact h
    | free | closing | closeWait | lastAck => exact hout
  · exact h

theorem arrivesText_moves (h : Moves a b o o') :
    Moves a b (arrivesText env i seg flags data o)
      (arrivesText env i (seg.moved a b) flags data o') :=
  arrivesFin_moves (textStage_moves h)

theorem ackedFin_moves (h : Moves a b o o') :
    Moves a b (ackedFin env i seg o) (ackedFin env i (seg.moved a b) o') := by
  have hack := moves_ackNxt seg h
  unfold ackedFin
  rw [moves_state h]
  cases hs : o.pcb.state with
  | finWait1 =>
      dsimp only
      by_cases hn : seg.ack = o.pcb.snd.nxt
      · rw [if_pos hn, if_pos (hack.mpr hn)]
        exact h.setState _
      · rw [if_neg hn, if_neg (mt hack.mp hn)]
        exact h
  | closing =>
      dsimp only
      by_cases hn : seg.ack = o.pcb.snd.nxt
      · rw [if_pos hn, if_pos (hack.mpr hn)]
        exact (h.setState _).setTimewaitTimer.broadcast i
      · rw [if_neg hn, if_neg (mt hack.mp hn)]
        exact h
  | _ => exact h

theorem establish_alone (hq : o.pcb.parent = none) :
    establish env i o = (o.setState .established).emit (.broadcast i) := by
  simp only [establish, Outcome.emit_pcb, Outcome.setState_pcb, hq]

theorem establish_child {q : PcbId} (hq : o.pcb.parent = some q) :
    establish env i o = { (o.setState .established).emit (.broadcast i) with
      queued := env.calloc 0 }.emit (.broadcast q) := by
  simp only [establish, Outcome.emit_pcb, Outcome.setState_pcb, hq]

theorem establish_moves (h : Moves a b o o') :
    Moves a b (establish env i o) (establish env i o') := by
  obtain ⟨hist, hp⟩ := moved_eq h.pcb
  have hup : Moves a b _ _ := (h.setState .established).broadcast i
  have hparent : o'.pcb.parent = o.pcb.parent := by
    rw [hp]
    rfl
  cases hq : o.pcb.parent with
  | none =>
      rw [establish_alone hq, establish_alone (hparent.trans hq)]
      exact hup
  | some q =>
      rw [establish_child hq, establish_child (hparent.trans hq)]
      have hqueued : Moves a b
          { (o.setState .established).emit (.broadcast i) with queued := env.calloc 0 }
          { (o'.setState .established).emit (.broadcast i) with queued := env.calloc 0 } :=
        ⟨hup.pcb, hup.released, rfl, hup.effects⟩
      exact hqueued.broadcast q

theorem ackedAs_moved (p : Pcb) (seg : SegmentInfo) (ack : Option (Bool × Nat)) :
    (p.moved a b).ackedAs (seg.moved a b) ack = (p.ackedAs seg ack).moved a b := by
  cases ack with
  | none => rfl
  | some u =>
      simp only [Pcb.ackedAs, Pcb.moved, SegmentInfo.moved, ← List.map_drop]
      cases u.1 <;> rfl

theorem passedAs_moves (p : Pcb) (ack : Option (Bool × Nat)) :
    Moves a b (p.passedAs env i seg flags ack)
      ((p.moved a b).passedAs env i (seg.moved a b) flags ack) := by
  have hst : (p.moved a b).state = p.state := rfl
  have hstart : Moves a b (.start p) (.start (p.moved a b)) := .start p
  have shared : Moves a b (ackedFin env i seg ((Outcome.start p).setPcb (p.ackedAs seg ack)))
      (ackedFin env i (seg.moved a b)
        ((Outcome.start (p.moved a b)).setPcb ((p.moved a b).ackedAs (seg.moved a b) ack))) := by
    rw [ackedAs_moved]
    exact ackedFin_moves (hstart.setPcb rfl)
  cases hs : p.state with
  | synReceived =>
      simp only [Pcb.passedAs, hst, hs]
      have hopen : ({ p.moved a b with state := .established } : Pcb) =
          ({ p with state := .established } : Pcb).moved a b := rfl
      rw [hopen, ackedAs_moved]
      exact (establish_moves hstart).setPcb rfl
  | timeWait =>
      simp only [Pcb.passedAs, hst, hs]
      split
      · exact hstart.setTimewaitTimer
      · exact hstart
  | _ =>
      simp only [Pcb.passedAs, hst, hs]
      exact shared

theorem synTakenAs_moved (p : Pcb) (seg : SegmentInfo) (advance : UInt32) (k : Nat) :
    (p.moved a b).synTakenAs (seg.moved a b) advance k = (p.synTakenAs seg advance k).moved a b := by
  have hadd (x y z : UInt32) : x + y + z = x + z + y := by
    rw [UInt32.add_assoc, UInt32.add_comm y, ← UInt32.add_assoc]
  simp only [Pcb.synTakenAs, Pcb.moved, SegmentInfo.moved, ← List.map_drop, hadd _ b 1,
    hadd _ a advance]

theorem synUp_moves (h : Moves a b o o') :
    Moves a b (o.synUp env i seg) (o'.synUp env i (seg.moved a b)) := by
  have hout : Moves a b _ _ := (h.setState .established).output env i flgAck
  obtain ⟨hist, hp⟩ := moved_eq hout.pcb
  refine (hout.setPcb ?_).broadcast i
  rw [hp]
  rfl

/-- **On a given course the handler moves.** -/
theorem perform_moves (p : Pcb) (c : Course) :
    Moves a b (p.perform env i seg flags data l f c)
      ((p.moved a b).perform env i (seg.moved a b) flags data l f c) := by
  have hstart : Moves a b (.start p) (.start (p.moved a b)) := .start p
  cases c with
  | drop => exact hstart
  | answer => exact hstart.output env i flgAck
  | refuse => exact hstart.resetReply
  | reset =>
      simp only [Pcb.perform]
      split
      · exact (hstart.output env i flgRst).release
      · exact hstart.release
  | process ack => exact arrivesText_moves (passedAs_moves p ack)
  | synTaken up advance k =>
      simp only [Pcb.perform, synTakenAs_moved]
      have hsyn : Moves a b (.start (p.synTakenAs seg advance k))
          (.start ((p.synTakenAs seg advance k).moved a b)) := .start _
      split
      · exact synUp_moves hsyn
      · exact (hsyn.setState .synReceived).output env i (flgSyn ||| flgAck)

end Stages

/-! ## Different courses look different -/

/-- What the flags, the state and the acknowledgement allow; nothing here
compares by size. -/
def Course.Fits (env : Env) (p : Pcb) (seg : SegmentInfo) (flags : UInt8) : Course → Prop
  | .drop =>
      if p.state = .synSent then flgIsSet flags flgRst ∨ flgIsSet flags flgSyn = false
      else flgIsSet flags flgRst ∨ flgIsSet flags flgAck = false ∨ p.state = .lastAck
  | .answer => p.state ≠ .synSent
  | .refuse => p.state = .synReceived ∨ p.state = .synSent
  | .reset => True
  | .process ack =>
      (flgIsSet flags flgRst = false ∧ flgIsSet flags flgAck) ∧
      (p.state = .synReceived ∨ p.state.acking ∨ p.state = .timeWait ∧ ack = none) ∧
      ¬ (ack = none ∧ p.idle env seg flags) ∧
      ∀ u ∈ ack, seg.ack ≠ p.snd.una ∧ u.2 ≤ p.queue.length ∧
        (u.1 = false → ¬ (p.snd.wl1 = seg.seq ∧ p.snd.wl2 = seg.ack))
  | .synTaken _ _ k =>
      p.state = .synSent ∧ flgIsSet flags flgRst = false ∧ flgIsSet flags flgSyn ∧
        k ≤ p.queue.length

section Fits
variable {env : Env} {p : Pcb} {seg : SegmentInfo} {flags : UInt8}

theorem popped_le (una : UInt32) (q : List QueueEntry) : popped una q ≤ q.length :=
  (List.takeWhile_prefix _).length_le

theorem ackCourse_fits : ∀ u ∈ p.ackCourse seg, seg.ack ≠ p.snd.una ∧ u.2 ≤ p.queue.length ∧
    (u.1 = false → ¬ (p.snd.wl1 = seg.seq ∧ p.snd.wl2 = seg.ack)) := by
  intro u hu
  unfold Pcb.ackCourse at hu
  split at hu
  · rename_i hf
    obtain rfl : (p.snd.newer seg, popped seg.ack p.queue) = u := by simpa using hu
    simp only [Pcb.freshAck, Bool.and_eq_true, decide_eq_true_eq] at hf
    refine ⟨fun he => ?_, popped_le _ _, ?_⟩
    · rw [he] at hf
      exact UInt32.lt_irrefl _ hf.1
    · rintro hw ⟨h₁, h₂⟩
      simp [SndSide.newer, h₁, h₂] at hw
  · cases hu

theorem processCourse_fits {ack : Option (Bool × Nat)} (hne : p.state ≠ .synSent)
    (hflags : flgIsSet flags flgRst = false ∧ flgIsSet flags flgAck)
    (hs : p.state = .synReceived ∨ p.state.acking ∨ p.state = .timeWait ∧ ack = none)
    (ha : ∀ u ∈ ack, seg.ack ≠ p.snd.una ∧ u.2 ≤ p.queue.length ∧
      (u.1 = false → ¬ (p.snd.wl1 = seg.seq ∧ p.snd.wl2 = seg.ack))) :
    (p.processCourse env seg flags ack).Fits env p seg flags := by
  unfold Pcb.processCourse
  split
  · exact hne
  · rename_i hidle
    exact ⟨hflags, hs, hidle, ha⟩

/-- The course of a segment fits. -/
theorem course_fits (hs : p.state.live) : (p.course env seg flags).Fits env p seg flags := by
  have other (hne : p.state ≠ .synSent)
      (hack : flgIsSet flags flgRst = false → flgIsSet flags flgAck →
        (p.ackStageCourse env seg flags).Fits env p seg flags) :
      (if !acceptable p.rcv seg then (if flgIsSet flags flgRst then Course.drop else .answer)
        else if flgIsSet flags flgRst || flgIsSet flags flgSyn then .reset
        else if !flgIsSet flags flgAck then .drop
        else p.ackStageCourse env seg flags).Fits env p seg flags := by
    split
    · split
      · rename_i h
        simp [Course.Fits, hne, h]
      · exact hne
    split
    · trivial
    rename_i hrst
    split
    · rename_i h
      simp only [Bool.not_eq_true'] at h
      simp [Course.Fits, hne, h]
    · rename_i h
      simp only [Bool.or_eq_true, not_or, Bool.not_eq_true] at hrst
      exact hack hrst.1 (by simpa using h)
  have shared (ha : p.state.acking) (hr : flgIsSet flags flgRst = false)
      (hk : flgIsSet flags flgAck) :
      (if p.ackBeyond seg then Course.answer
        else p.processCourse env seg flags (p.ackCourse seg)).Fits env p seg flags := by
    have hne : p.state ≠ .synSent := by
      intro h
      rw [h] at ha
      cases ha
    split
    · exact hne
    · exact processCourse_fits hne ⟨hr, hk⟩ (.inr (.inl ha)) ackCourse_fits
  cases h : p.state
  case free => rw [h] at hs; cases hs
  case closed => rw [h] at hs; cases hs
  case listen => rw [h] at hs; cases hs
  case synSent =>
    simp only [Pcb.course, h, Pcb.synSentCourse]
    split
    · exact .inr h
    split
    · rename_i hr
      split
      · trivial
      · simp [Course.Fits, h, hr]
    rename_i hr
    split
    · rename_i hy
      refine ⟨h, by simpa using hr, hy, ?_⟩
      split
      · exact popped_le _ _
      · exact Nat.zero_le _
    · rename_i hy
      simp [Course.Fits, h, by simpa using hy]
  case synReceived =>
    simp only [Pcb.course, h]
    refine other (by simp [h]) fun hr hk => ?_
    simp only [Pcb.ackStageCourse, h]
    split
    · exact ⟨⟨hr, hk⟩, .inl h, by simp [Pcb.idle, h], ackCourse_fits⟩
    · exact .inl h
  case lastAck =>
    simp only [Pcb.course, h]
    refine other (by simp [h]) fun hr hk => ?_
    simp only [Pcb.ackStageCourse, h]
    split
    · trivial
    · simp [Course.Fits, h]
  case timeWait =>
    simp only [Pcb.course, h]
    refine other (by simp [h]) fun hr hk => ?_
    simp only [Pcb.ackStageCourse, h]
    exact processCourse_fits (by simp [h]) ⟨hr, hk⟩ (.inr (.inr ⟨h, rfl⟩)) (by simp)
  all_goals
    simp only [Pcb.course, h]
    refine other (by simp [h]) fun hr hk => ?_
    simp only [Pcb.ackStageCourse, h]
    exact shared (by rw [h]; rfl) hr hk

/-- Moving the numbers changes nothing a course has to fit. -/
theorem fits_moved (a b : UInt32) {c : Course} (h : c.Fits env p seg flags) :
    c.Fits env (p.moved a b) (seg.moved a b) flags := by
  cases c with
  | drop => exact h
  | answer => exact h
  | refuse => exact h
  | reset => exact h
  | process ack =>
      obtain ⟨hflags, hs, hidle, ha⟩ := h
      have hidle' : (p.moved a b).idle env (seg.moved a b) flags = p.idle env seg flags := by
        have hst : (p.moved a b).state = p.state := rfl
        have hseq : seg.seq + b + 1 = p.rcv.nxt + b ↔ seg.seq + 1 = p.rcv.nxt := by
          rw [UInt32.add_assoc, UInt32.add_comm b, ← UInt32.add_assoc, UInt32.add_left_inj]
        unfold Pcb.idle
        rw [hst]
        cases p.state
        case timeWait =>
          simp only [Pcb.moved, SegmentInfo.moved, hseq]
          rfl
        all_goals simp [Pcb.moved, SegmentInfo.moved, hseq]
      refine ⟨hflags, hs, by rw [hidle']; exact hidle, fun u hu => ?_⟩
      obtain ⟨h₁, h₂, h₃⟩ := ha u hu
      refine ⟨fun he => h₁ ((UInt32.add_left_inj a).mp he), ?_, ?_⟩
      · simpa [Pcb.moved] using h₂
      · rintro hw ⟨he₁, he₂⟩
        exact h₃ hw ⟨(UInt32.add_left_inj b).mp he₁, (UInt32.add_left_inj a).mp he₂⟩
  | synTaken up advance k =>
      obtain ⟨h₁, h₂, h₃, h₄⟩ := h
      exact ⟨h₁, h₂, h₃, by simpa [Pcb.moved] using h₄⟩

end Fits

section Seen
variable {o o' : Outcome} (h : o.seen = o'.seen)
include h

theorem seen_state : o.pcb.state = o'.pcb.state :=
  show o.seen.pcb.state = o'.seen.pcb.state by rw [h]

theorem seen_snd : o.pcb.snd = o'.pcb.snd :=
  show o.seen.pcb.snd = o'.seen.pcb.snd by rw [h]

theorem seen_queue : o.pcb.queue = o'.pcb.queue :=
  show o.seen.pcb.queue = o'.seen.pcb.queue by rw [h]

theorem seen_rcv : o.pcb.rcv = o'.pcb.rcv :=
  show o.seen.pcb.rcv = o'.seen.pcb.rcv by rw [h]

theorem seen_twTimer : o.pcb.twTimer = o'.pcb.twTimer :=
  show o.seen.pcb.twTimer = o'.seen.pcb.twTimer by rw [h]

theorem seen_released : o.released = o'.released :=
  show o.seen.released = o'.seen.released by rw [h]

theorem seen_effects : o.effects.map Effect.plain = o'.effects.map Effect.plain :=
  congrArg Outcome.effects h

theorem seen_length : o.effects.length = o'.effects.length := by
  simpa using congrArg List.length (seen_effects h)

end Seen

section Courses
variable {env : Env} {i : PcbId} {p : Pcb} {seg : SegmentInfo} {flags : UInt8}
  {data : List UInt8} {l f : Endpoint}

theorem arrivesText_length (o : Outcome) :
    (arrivesText env i seg flags data o).effects.length =
      o.effects.length + (if o.pcb.takesText data then 3 else 0) +
        (if o.pcb.finTaken flags then
          1 + (if o.pcb.state = .synReceived ∨ o.pcb.state = .established then 1 else 0)
        else 0) := by
  have htext : (textStage env i seg data o).effects.length =
      o.effects.length + (if o.pcb.takesText data then 3 else 0) := by
    unfold textStage
    split <;> simp
  have hfin : (textStage env i seg data o).pcb.finTaken flags = o.pcb.finTaken flags := by
    simp only [Pcb.finTaken, textStage_state]
  rw [arrivesText, arrivesFin_effects, hfin, textStage_state, ← htext]
  split
  · split <;> simp
  · simp

/-- The send side after the ACK stage. -/
theorem passedAs_sendSide {ack : Option (Bool × Nat)} (hs : p.state ≠ .timeWait) :
    (p.passedAs env i seg flags ack).pcb.snd = (p.ackedAs seg ack).snd ∧
      (p.passedAs env i seg flags ack).pcb.queue = (p.ackedAs seg ack).queue := by
  have shared (o : Outcome) : (ackedFin env i seg o).pcb.snd = o.pcb.snd ∧
      (ackedFin env i seg o).pcb.queue = o.pcb.queue := by
    unfold ackedFin
    split
    · split <;> exact ⟨rfl, rfl⟩
    · split <;> exact ⟨rfl, rfl⟩
    · exact ⟨rfl, rfl⟩
  cases h : p.state
  case timeWait => exact absurd h hs
  case synReceived =>
    simp only [Pcb.passedAs, h]
    cases ack <;> exact ⟨rfl, rfl⟩
  all_goals
    simp only [Pcb.passedAs, h]
    exact shared _

theorem ackedAs_una (p : Pcb) (seg : SegmentInfo) (u : Bool × Nat) :
    (p.ackedAs seg (some u)).snd.una = seg.ack := by
  obtain ⟨w, k⟩ := u
  cases w <;> rfl

theorem ackedAs_inj {ack ack' : Option (Bool × Nat)}
    (ha : ∀ u ∈ ack, seg.ack ≠ p.snd.una ∧ u.2 ≤ p.queue.length ∧
      (u.1 = false → ¬ (p.snd.wl1 = seg.seq ∧ p.snd.wl2 = seg.ack)))
    (ha' : ∀ u ∈ ack', seg.ack ≠ p.snd.una ∧ u.2 ≤ p.queue.length ∧
      (u.1 = false → ¬ (p.snd.wl1 = seg.seq ∧ p.snd.wl2 = seg.ack)))
    (hsnd : (p.ackedAs seg ack).snd = (p.ackedAs seg ack').snd)
    (hq : (p.ackedAs seg ack).queue = (p.ackedAs seg ack').queue) : ack = ack' := by
  cases ack with
  | none =>
      cases ack' with
      | none => rfl
      | some u =>
          refine absurd ?_ (ha' u rfl).1
          rw [← ackedAs_una p seg u, ← hsnd]
          rfl
  | some u =>
      cases ack' with
      | none =>
          refine absurd ?_ (ha u rfl).1
          rw [← ackedAs_una p seg u, hsnd]
          rfl
      | some u' =>
          obtain ⟨w, k⟩ := u
          obtain ⟨w', k'⟩ := u'
          obtain ⟨-, hk, hw⟩ := ha (w, k) rfl
          obtain ⟨-, hk', hw'⟩ := ha' (w', k') rfl
          have hlen := congrArg List.length hq
          simp only [Pcb.ackedAs, List.length_drop] at hlen
          have hkk : k = k' := by
            simp only at hk hk'
            omega
          have hww : w = w' := by
            cases w <;> cases w' <;> simp_all [Pcb.ackedAs]
          rw [hkk, hww]

theorem process_inj {ack ack' : Option (Bool × Nat)}
    (hf : (Course.process ack).Fits env p seg flags)
    (hf' : (Course.process ack').Fits env p seg flags)
    (h : (p.perform env i seg flags data l f (.process ack)).seen =
      (p.perform env i seg flags data l f (.process ack')).seen) : ack = ack' := by
  obtain ⟨-, hs, -, ha⟩ := hf
  obtain ⟨-, hs', -, ha'⟩ := hf'
  by_cases ht : p.state = .timeWait
  · have hnone (u : Option (Bool × Nat)) (hu : p.state = .synReceived ∨ p.state.acking ∨
        p.state = .timeWait ∧ u = none) : u = none := by
      simpa [ht, PcbState.acking] using hu
    rw [hnone ack hs, hnone ack' hs']
  · have hsnd := seen_snd h
    have hq := seen_queue h
    simp only [Pcb.perform, arrivesText_snd, arrivesText_queue] at hsnd hq
    rw [(passedAs_sendSide ht).1, (passedAs_sendSide ht).1] at hsnd
    rw [(passedAs_sendSide ht).2, (passedAs_sendSide ht).2] at hq
    exact ackedAs_inj ha ha' hsnd hq

theorem arrivesText_twTimer (o : Outcome) :
    (arrivesText env i seg flags data o).pcb.twTimer =
      if o.pcb.finTaken flags ∧ o.pcb.finState seg = .timeWait then
        { env.now with tvSec := env.now.tvSec + 30 }
      else o.pcb.twTimer := by
  have htw : (textStage env i seg data o).pcb.twTimer = o.pcb.twTimer := by
    rw [textStage_pcb]
    split <;> rfl
  have hst : (textStage env i seg data o).pcb.finState seg = o.pcb.finState seg := by
    simp only [Pcb.finState, textStage_state, textStage_snd]
  rw [arrivesText_pcb, ← htw, ← hst]
  by_cases hf : o.pcb.finTaken flags
  · simp [hf, Pcb.fin]
  · simp [hf]

/-- What is processed does not look like a bare answer. -/
theorem answer_ne_process {ack : Option (Bool × Nat)}
    (hf : (Course.process ack).Fits env p seg flags) :
    (p.perform env i seg flags data l f .answer).seen ≠
      (p.perform env i seg flags data l f (.process ack)).seen := by
  intro h
  obtain ⟨-, hs, hidle, ha⟩ := hf
  have hanswer : (p.perform env i seg flags data l f .answer).pcb =
      { p with hist := { p.hist with sent := p.hist.sent ++ [p.segment flgAck []] } } := by
    simp [Pcb.perform, tcpOutput_pcb]
  have hst : p.state = _ := (congrArg Pcb.state hanswer).symm.trans (seen_state h)
  have hsnd : p.snd = _ := (congrArg Pcb.snd hanswer).symm.trans (seen_snd h)
  have hnxt : p.rcv.nxt = _ :=
    congrArg RcvSide.nxt ((congrArg Pcb.rcv hanswer).symm.trans (seen_rcv h))
  have htw : p.twTimer = _ := (congrArg Pcb.twTimer hanswer).symm.trans (seen_twTimer h)
  have hlen := seen_length h
  simp only [Pcb.perform, arrivesText_state, arrivesText_length, arrivesText_snd,
    arrivesText_rcvNxt, arrivesText_twTimer, Outcome.output_effects, Outcome.start_effects,
    List.nil_append, List.length_singleton] at hst hlen hsnd hnxt htw
  -- `snd.una` has not moved, so nothing is acknowledged
  obtain rfl : ack = none := by
    cases ack with
    | none => rfl
    | some u =>
        have ht : p.state ≠ .timeWait := fun ht => by simp [ht, PcbState.acking] at hs
        rw [(passedAs_sendSide ht).1] at hsnd
        exact absurd ((congrArg SndSide.una hsnd).trans (ackedAs_una p seg u)).symm (ha u rfl).1
  simp only [true_and] at hidle
  by_cases hfin : flgIsSet flags flgFin
  · cases hp : p.state with
    | synReceived =>
        simp [Pcb.passedAs, hp, Pcb.ackedAs, Pcb.finState] at hst
        split at hst <;> cases hst
    | established =>
        simp [Pcb.passedAs, hp, Pcb.ackedAs, ackedFin, Pcb.finTaken, Pcb.finState,
          PcbState.takesFin, hfin] at hst
    | finWait1 =>
        by_cases hn : seg.ack = p.snd.nxt <;>
          simp [Pcb.passedAs, hp, Pcb.ackedAs, ackedFin, Pcb.finTaken, Pcb.finState,
            PcbState.takesFin, hfin, hn] at hst
    | finWait2 =>
        simp [Pcb.passedAs, hp, Pcb.ackedAs, ackedFin, Pcb.finTaken, Pcb.finState,
          PcbState.takesFin, hfin] at hst
    | closeWait =>
        simp [Pcb.passedAs, hp, Pcb.ackedAs, ackedFin, Pcb.finTaken, PcbState.takesFin,
          hfin] at hnxt
        simp [Pcb.idle, hp, hfin, hnxt] at hidle
    | closing =>
        by_cases hn : seg.ack = p.snd.nxt
        · simp [Pcb.passedAs, hp, Pcb.ackedAs, ackedFin, Pcb.finTaken, Pcb.finState,
            PcbState.takesFin, hfin, hn] at hst
        · simp [Pcb.passedAs, hp, Pcb.ackedAs, ackedFin, Pcb.finTaken, PcbState.takesFin,
            hfin, hn] at hnxt
          simp [Pcb.idle, hp, hfin, hnxt, hn] at hidle
    | timeWait =>
        simp [Pcb.passedAs, hp, Pcb.finTaken, Pcb.finState, PcbState.takesFin, hfin] at hnxt htw
        simp [Pcb.idle, hp, hfin, hnxt, htw] at hidle
    | _ => simp [hp, PcbState.acking] at hs
  · cases hp : p.state with
    | synReceived =>
        simp [Pcb.passedAs, hp, Pcb.ackedAs, Pcb.finState] at hst
        split at hst <;> cases hst
    | finWait1 =>
        by_cases hn : seg.ack = p.snd.nxt
        · simp [Pcb.passedAs, hp, Pcb.ackedAs, ackedFin, Pcb.finTaken, hfin, hn] at hst
        · simp [Pcb.passedAs, hp, Pcb.ackedAs, ackedFin, Pcb.finTaken, hfin, hn] at hlen
          split at hlen <;> omega
    | closing =>
        by_cases hn : seg.ack = p.snd.nxt
        · simp [Pcb.passedAs, hp, Pcb.ackedAs, ackedFin, Pcb.finTaken, hfin, hn] at hst
        · simp [Pcb.passedAs, hp, Pcb.ackedAs, ackedFin, Pcb.finTaken, Pcb.takesText, hfin,
            hn] at hlen
    | established =>
        simp [Pcb.passedAs, hp, Pcb.ackedAs, ackedFin, Pcb.finTaken, hfin] at hlen
        split at hlen <;> omega
    | finWait2 =>
        simp [Pcb.passedAs, hp, Pcb.ackedAs, ackedFin, Pcb.finTaken, hfin] at hlen
        split at hlen <;> omega
    | closeWait =>
        simp [Pcb.passedAs, hp, Pcb.ackedAs, ackedFin, Pcb.finTaken, Pcb.takesText, hfin] at hlen
    | timeWait =>
        simp [Pcb.passedAs, hp, Pcb.finTaken, Pcb.takesText, hfin] at hlen
    | _ => simp [hp, PcbState.acking] at hs

/-- What a course leaves in the state, the flag and the effects. -/
theorem perform_released {c : Course} :
    (p.perform env i seg flags data l f c).released = decide (c = .reset) := by
  have hpass (ack : Option (Bool × Nat)) :
      (p.passedAs env i seg flags ack).released = false := by
    cases h : p.state
    case synReceived => simp [Pcb.passedAs, h]
    case timeWait =>
      simp only [Pcb.passedAs, h]
      split <;> rfl
    all_goals simp [Pcb.passedAs, h]
  cases c with
  | drop => rfl
  | answer => rfl
  | refuse => rfl
  | reset =>
      simp only [Pcb.perform]
      split <;> rfl
  | process ack => simp [Pcb.perform, hpass]
  | synTaken up advance k =>
      simp only [Pcb.perform]
      split <;> rfl

/-- A handshake that is completed leaves SYN-RECEIVED. -/
theorem process_state {ack : Option (Bool × Nat)} (hs : p.state = .synReceived) :
    (p.perform env i seg flags data l f (.process ack)).pcb.state ≠ .synReceived := by
  have hpass : (p.passedAs env i seg flags ack).pcb.state = .established := by
    simp [Pcb.passedAs, hs, ackedAs_state]
  rw [Pcb.perform, arrivesText_state, hpass]
  split <;> simp [Pcb.finState, hpass]

theorem synTaken_state {up : Bool} {advance : UInt32} {k : Nat} :
    (p.perform env i seg flags data l f (.synTaken up advance k)).pcb.state =
      if up then .established else .synReceived := by
  cases up <;> simp [Pcb.perform, Outcome.synUp, tcpOutput_pcb]

theorem synTaken_inj {up up' : Bool} {advance advance' : UInt32} {k k' : Nat}
    (hk : k ≤ p.queue.length) (hk' : k' ≤ p.queue.length)
    (h : (p.perform env i seg flags data l f (.synTaken up advance k)).seen =
      (p.perform env i seg flags data l f (.synTaken up' advance' k')).seen) :
    Course.synTaken up advance k = .synTaken up' advance' k' := by
  have hst := seen_state h
  rw [synTaken_state, synTaken_state] at hst
  have hup : up = up' := by
    cases up <;> cases up' <;> simp_all
  subst hup
  have una (advance : UInt32) (k : Nat) :
      (p.perform env i seg flags data l f (.synTaken up advance k)).pcb.snd.una =
        p.snd.una + advance := by
    cases up <;> simp [Pcb.perform, Outcome.synUp, tcpOutput_pcb, Pcb.synTakenAs]
  have queue (advance : UInt32) (k : Nat) :
      (p.perform env i seg flags data l f (.synTaken up advance k)).pcb.queue.length =
        p.queue.length - k + (if up ∨ env.calloc 0 = false then 0 else 1) := by
    cases up <;> cases hc : env.calloc 0 <;>
      simp [Pcb.perform, Outcome.synUp, tcpOutput_pcb, Pcb.synTakenAs, Pcb.queueAfter, hc,
        show flgIsSet (flgSyn ||| flgAck) (flgSyn ||| flgFin) = true by decide,
        show flgIsSet flgAck (flgSyn ||| flgFin) = false by decide]
  have hadv := congrArg SndSide.una (seen_snd h)
  rw [una, una, UInt32.add_right_inj] at hadv
  have hlen := congrArg List.length (seen_queue h)
  rw [queue, queue] at hlen
  have hkk : k = k' := by omega
  rw [hadv, hkk]

/-- An order of the courses, to name each pair once. -/
def Course.rank : Course → Nat
  | .drop => 0
  | .answer => 1
  | .refuse => 2
  | .reset => 3
  | .process _ => 4
  | .synTaken _ _ _ => 5

theorem perform_ne {c c' : Course} (hc : c.Fits env p seg flags) (hc' : c'.Fits env p seg flags)
    (hlt : c.rank < c'.rank) :
    (p.perform env i seg flags data l f c).seen ≠ (p.perform env i seg flags data l f c').seen := by
  intro h
  have hrel := seen_released h
  rw [perform_released, perform_released] at hrel
  have hst := seen_state h
  have hlen := seen_length h
  have synTaken {up : Bool} {advance : UInt32} {k : Nat} {s : PcbState}
      (hs : s = (p.perform env i seg flags data l f (.synTaken up advance k)).pcb.state)
      (hsent : s = .synSent) : False := by
    rw [synTaken_state, hsent] at hs
    cases up <;> cases hs
  cases c with
  | drop =>
      cases c' with
      | drop => simp [Course.rank] at hlt
      | answer => simp [Pcb.perform] at hlen
      | refuse => simp [Pcb.perform] at hlen
      | reset => simp at hrel
      | process ack =>
          obtain ⟨⟨hr, hk⟩, hs, -⟩ := hc'
          have hne : p.state ≠ .synSent ∧ p.state ≠ .lastAck := by
            rcases hs with hs | hs | hs
            · simp [hs]
            · cases hp : p.state <;> simp_all [PcbState.acking]
            · simp [hs.1]
          simp [Course.Fits, hne, hr, hk] at hc
      | synTaken up advance k => exact synTaken hst hc'.1
  | answer =>
      cases c' with
      | refuse => simpa [Pcb.perform, Effect.plain, resetReply] using seen_effects h
      | reset => simp at hrel
      | process ack => exact answer_ne_process hc' h
      | synTaken up advance k => exact hc hc'.1
      | _ => simp [Course.rank] at hlt
  | refuse =>
      cases c' with
      | reset => simp at hrel
      | process ack =>
          rcases hc with hs | hs
          · exact process_state hs (hst.symm.trans hs)
          · simp [Course.Fits, hs, PcbState.acking] at hc'
      | synTaken up advance k => exact synTaken hst hc'.1
      | _ => simp [Course.rank] at hlt
  | reset =>
      cases c' with
      | process ack => simp at hrel
      | synTaken up advance k => simp at hrel
      | _ => simp [Course.rank] at hlt
  | process ack =>
      cases c' with
      | synTaken up advance k => simp [Course.Fits, hc'.1, PcbState.acking] at hc
      | _ => simp [Course.rank] at hlt
  | synTaken up advance k => cases c' <;> simp [Course.rank] at hlt

/-- **Two courses that fit and look alike are the same.** -/
theorem perform_inj {c c' : Course} (hc : c.Fits env p seg flags) (hc' : c'.Fits env p seg flags)
    (h : (p.perform env i seg flags data l f c).seen =
      (p.perform env i seg flags data l f c').seen) : c = c' := by
  rcases Nat.lt_trichotomy c.rank c'.rank with hlt | heq | hgt
  · exact absurd h (perform_ne hc hc' hlt)
  · cases c with
    | process ack => cases c' <;> simp [Course.rank] at heq; rw [process_inj hc hc' h]
    | synTaken up advance k =>
        cases c' <;> simp [Course.rank] at heq
        exact synTaken_inj hc.2.2.2 hc'.2.2.2 h
    | _ => cases c' <;> simp_all [Course.rank]
  · exact absurd h.symm (perform_ne hc' hc hgt)

end Courses

/-! ## The handler and the move -/

/-- **Equivariance, exactly.**  In every state from SYN-SENT on, moving the send side by `a` and
the receive side by `b` commutes with the handler if and only if the
comparisons set the moved segment on the same course. -/
theorem handler_equivariant_iff (env : Env) (i : PcbId) (p : Pcb) (seg : SegmentInfo)
    (flags : UInt8) (data : List UInt8) (l f : Endpoint) (a b : UInt32) (hs : p.state.live) :
    Outcome.Moves a b (p.arrives env i seg flags data l f)
        ((p.moved a b).arrives env i (seg.moved a b) flags data l f) ↔
      (p.moved a b).course env (seg.moved a b) flags = p.course env seg flags := by
  have hs' : (p.moved a b).state.live := hs
  rw [arrives_perform env i seg flags data l f hs,
    arrives_perform env i (seg.moved a b) flags data l f hs']
  have hmoves : Outcome.Moves a b (p.perform env i seg flags data l f (p.course env seg flags))
      ((p.moved a b).perform env i (seg.moved a b) flags data l f (p.course env seg flags)) :=
    perform_moves p _
  constructor
  · intro h
    -- both handlers are the moved one, so they look alike
    exact perform_inj (course_fits hs') (fits_moved a b (course_fits hs)) (h.seen_eq hmoves)
  · intro h
    rw [h]
    exact hmoves

/-! ## A connection that lies across the end of sequence space -/

/-- A connection with ten bytes in flight. -/
def inFlight : Pcb :=
  { Pcb.zero with
    state := .established
    snd := ⟨20, 10, 1000, 100, 10⟩
    iss := 9
    rcv := ⟨100, 8192⟩
    irs := 99
    queue := [⟨.zero, .zero, tcpDefaultRto, 10, flgAck ||| flgPsh, List.replicate 10 0⟩] }

/-- All ten bytes are acknowledged. -/
def ackAll : SegmentInfo := ⟨100, 20, 0, 1000⟩

/-- The handler with nothing but the pcb and the segment left open. -/
def handle (p : Pcb) (seg : SegmentInfo) : Outcome :=
  p.arrives (.ideal .zero 0 []) 0 seg flgAck [] sampleLocal samplePeer

/-- Moving both sides a little changes nothing. -/
theorem handler_equivariant_sample :
    Outcome.Moves 7 1000 (handle inFlight ackAll)
      (handle (inFlight.moved 7 1000) (ackAll.moved 7 1000)) :=
  (handler_equivariant_iff (.ideal .zero 0 []) 0 inFlight ackAll flgAck [] sampleLocal samplePeer
    7 1000 rfl).mpr (by decide +kernel)

/-- Moved so that the flight lies across the end of sequence space, the same
acknowledgement is taken for an old one. -/
theorem handler_not_equivariant :
    (handle inFlight ackAll).pcb.snd.una = 20 ∧
      (handle (inFlight.moved 4294967281 0) (ackAll.moved 4294967281 0)).pcb.snd.una =
        inFlight.snd.una + 4294967281 ∧
      ¬ Outcome.Moves 4294967281 0 (handle inFlight ackAll)
        (handle (inFlight.moved 4294967281 0) (ackAll.moved 4294967281 0)) := by
  refine ⟨by decide +kernel, by decide +kernel, fun h => ?_⟩
  have hsnd := congrArg Pcb.snd h.pcb
  revert hsnd
  decide +kernel

end Laplus.Tcp
