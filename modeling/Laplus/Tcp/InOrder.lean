/-
# `Laplus.Tcp.InOrder` — what `tcp_receive` hands out

A peer sends the bytes of a stream `D`; segments carry any piece of it, any
number of times and in any order.  As long as every piece that is taken
begins at `rcv.nxt` and fits the window, the bytes handed out followed by the
bytes in the buffer are the first `rcv.nxt - irs - 1` bytes of `D`.  The
handler itself asks for less: one end of the piece inside the window.
-/
import Laplus.Tcp.ReceiveBuffer

namespace Laplus.Tcp

open Net Lib

/-! ## Traffic -/

/-- The bytes that wait in the buffer. -/
def Pcb.content (p : Pcb) : List UInt8 := slice p.buf p.remain

/-- The bytes a call that has returned hands to its caller. -/
def Progress.bytes : Progress → List UInt8
  | .returned r => r.bytes
  | .blocked _ _ => []

/-- The bytes the call of this event hands to its caller. -/
def World.handed (w : World) (x : Env × Event) : List UInt8 :=
  match callResult w x.1 x.2 with
  | some (_, _, r) => r.progress.bytes
  | none => []

/-- The bytes handed out along a run, in order. -/
def World.received (w : World) : List (Env × Event) → List UInt8
  | [] => []
  | x :: es => w.handed x ++ (w.step x).received es

/-- The segment carries a piece of `D`, with an acknowledgement. -/
def Carries (D : List UInt8) (irs : UInt32) (s : TcpSegment) : Prop :=
  (∃ k, k + s.data.length ≤ D.length ∧ s.seq = irs + 1 + UInt32.ofNat k ∧
    s.data = (D.drop k).take s.data.length) ∧
  flgIsSet s.flg flgAck ∧ flgIsSet s.flg flgRst = false ∧ flgIsSet s.flg flgSyn = false ∧
    flgIsSet s.flg flgFin = false

/-- What happens to pcb `i`: calls of `tcp_receive`, at once or after a wait,
and segments that carry pieces of `D`. -/
def Traffic (D : List UInt8) (irs : UInt32) (i : PcbId) (w : World) (x : Env × Event) : Prop :=
  match x.2 with
  | .user _ (.receive id _) => id = tcpPcbId i
  | .resume tid => ∀ b, w.tasks tid = some b → b.pcb = i ∧ ∃ size, b.wait = .receive size
  | .segment s => selected w.tab s = some i ∧ Carries D irs s
  | _ => False

/-- Text that is taken begins at `rcv.nxt` and fits the window. -/
def AtEdge (i : PcbId) (w : World) (x : Env × Event) : Prop :=
  ∀ s ∈ x.2.arriving, (w.tab.pcb i).textTaken s.info s.flg s.data →
    s.seq = (w.tab.pcb i).rcv.nxt ∧ s.data.length ≤ (w.tab.pcb i).rcv.wnd.toNat

instance (i : PcbId) (w : World) (x : Env × Event) : Decidable (AtEdge i w x) :=
  inferInstanceAs (Decidable (∀ s ∈ x.2.arriving,
    (w.tab.pcb i).textTaken s.info s.flg s.data →
      s.seq = (w.tab.pcb i).rcv.nxt ∧ s.data.length ≤ (w.tab.pcb i).rcv.wnd.toNat))

/-! ## The invariant -/

/-- `got` and the buffer are the bytes of `D` up to `rcv.nxt`. -/
structure Pcb.Delivered (D : List UInt8) (irs : UInt32) (got : List UInt8) (p : Pcb) :
    Prop where
  state : p.state = .established
  wnd : p.rcv.wnd.toNat ≤ bufSize
  upto : ∃ k ≤ D.length, p.rcv.nxt.toNat = irs.toNat + 1 + k ∧ got ++ p.content = D.take k

/-- A pcb as it enters ESTABLISHED: the peer's SYN taken, nothing stored. -/
structure Pcb.Entered (p : Pcb) : Prop where
  state : p.state = .established
  nxt : p.rcv.nxt = p.irs + 1
  wnd : p.rcv.wnd = 8192

section Invariant
variable {D got : List UInt8} {irs : UInt32} {p p' : Pcb}

theorem Pcb.Delivered.of_core (h : p.Delivered D irs got) (hc : p'.core = p.core) :
    p'.Delivered D irs got := by
  obtain ⟨c, rfl⟩ := core_eq hc
  exact ⟨h.state, h.wnd, h.upto⟩

theorem Pcb.Entered.delivered (h : p.Entered) (hD : p.irs.toNat + 1 + D.length < 2 ^ 32) :
    p.Delivered D p.irs [] := by
  refine ⟨h.state, by rw [h.wnd]; decide, 0, Nat.zero_le _, ?_, ?_⟩
  · have h1 : (1 : UInt32).toNat = 1 := rfl
    rw [h.nxt, UInt32.toNat_add, h1]
    omega
  · have hr : p.remain = 0 := by
      rw [Pcb.remain, h.wnd]
      decide
    simp [Pcb.content, hr]

/-- `tcp_receive` moves bytes from the buffer to the caller. -/
theorem Pcb.Delivered.received {n : Nat} (h : p.Delivered D irs got) (hn : n ≤ p.remain) :
    (p.received n).Delivered D irs (got ++ slice p.buf n) := by
  have hw := received_wnd h.wnd hn
  have hrem := remain_of_le h.wnd
  have hwle : (p.received n).rcv.wnd.toNat ≤ bufSize := by
    have := h.wnd
    omega
  have hrem' : (p.received n).remain = p.remain - n := by
    rw [remain_of_le hwle, hw, hrem]
    omega
  obtain ⟨k, hk, hnxt, hgot⟩ := h.upto
  refine ⟨h.state, hwle, k, hk, hnxt, ?_⟩
  calc got ++ slice p.buf n ++ (p.received n).content
      = got ++ (slice p.buf n ++ slice (moveDown p.buf n (p.remain - n)) (p.remain - n)) := by
        rw [Pcb.content, hrem', List.append_assoc]
        rfl
    _ = got ++ p.content := by
        rw [slice_moveDown, slice_take _ hn, List.take_append_drop]
        rfl
    _ = D.take k := hgot

/-- A piece at `rcv.nxt` that fits the window is appended. -/
theorem Pcb.Delivered.takeText {seg : SegmentInfo} {data : List UInt8} {k : Nat}
    (hD : irs.toNat + 1 + D.length < 2 ^ 32) (h : p.Delivered D irs got)
    (hedge : seg.seq = p.rcv.nxt) (hfit : data.length ≤ p.rcv.wnd.toNat)
    (hk : k + data.length ≤ D.length) (hseq : seg.seq = irs + 1 + UInt32.ofNat k)
    (hdata : data = (D.drop k).take data.length) (hlen : seg.len = UInt16.ofNat data.length)
    (hst : p'.state = p.state) (hbuf : p'.buf = copyAt p.buf p.remain data)
    (hwnd : p'.rcv.wnd = p.rcv.wnd - UInt16.ofNat data.length)
    (hnxt : p'.rcv.nxt = seg.seq + seg.len.toUInt32) :
    p'.Delivered D irs got := by
  have hw := wnd_sub hfit
  rw [← hwnd] at hw
  have hle := h.wnd
  have hwle : p'.rcv.wnd.toNat ≤ bufSize := by omega
  have hrem : p'.remain = p.remain + data.length := by
    rw [remain_of_le hwle, remain_of_le h.wnd, hw]
    omega
  obtain ⟨k', hk', hnxt', hgot⟩ := h.upto
  have hseqNat : seg.seq.toNat = irs.toNat + 1 + k := by
    have h1 : (1 : UInt32).toNat = 1 := rfl
    rw [hseq, UInt32.toNat_add, UInt32.toNat_add, h1, UInt32.toNat_ofNat']
    omega
  have hkk : k' = k := by
    rw [hedge] at hseqNat
    omega
  subst hkk
  refine ⟨hst.trans h.state, hwle, k' + data.length, hk, ?_, ?_⟩
  · have hl : seg.len.toUInt32.toNat = data.length := by
      rw [hlen, UInt16.toNat_toUInt32]
      exact UInt16.toNat_ofNat_of_lt' (Nat.lt_of_le_of_lt hfit p.rcv.wnd.toNat_lt)
    rw [hnxt, UInt32.toNat_add, hl, hseqNat]
    omega
  · calc got ++ p'.content = got ++ p.content ++ data := by
          rw [Pcb.content, hrem, hbuf, slice_copyAt, List.append_assoc]
          rfl
      _ = D.take k' ++ (D.drop k').take data.length := by rw [hgot, ← hdata]
      _ = D.take (k' + data.length) := List.take_add.symm

end Invariant

/-! ## One event -/

section Step
variable {D got : List UInt8} {irs : UInt32} {i : PcbId} {w : World} {env : Env} {t : Table}

/-- A call of `tcp_receive` from `RETRY` on. -/
theorem receiveRetry_delivered (size : Nat) (h : (t.pcb i).Delivered D irs got) :
    ((receiveRetry t i size).tab.pcb i).Delivered D irs
      (got ++ (receiveRetry t i size).progress.bytes) := by
  simp only [receiveRetry, h.state]
  split
  · simpa [Progress.bytes] using h
  · simp only [takeBytes, Progress.bytes, Table.set_pcb_self]
    exact h.received (Nat.min_le_right size _)

theorem segment_delivered {s : TcpSegment} (hD : irs.toNat + 1 + D.length < 2 ^ 32)
    (h : (w.tab.pcb i).Delivered D irs got) (hsel : selected w.tab s = some i)
    (hc : Carries D irs s) (hedge : AtEdge i w (env, .segment s)) :
    ((arrive env w.tab s).1.pcb i).Delivered D irs got := by
  set p := w.tab.pcb i with hp
  obtain ⟨⟨k, hk, hseq, hdata⟩, hack, hrst, hsyn, hfin⟩ := hc
  have hlen : s.info.len = UInt16.ofNat s.data.length := by
    simp [TcpSegment.info, TcpSegment.len, hsyn, hfin]
  have hh : Handled env i s.info s.flg s.data s.foreignEp s.localEp p (p.otherwise env i s) :=
    arrivesOtherwise_handled ..
  have hrel : (p.otherwise env i s).released = false := by
    rw [← Bool.not_eq_true]
    intro hr
    have := (handled_released hh hr).1
    simp [Pcb.resetBy, hrst, hsyn, h.state] at this
  have hq : (p.otherwise env i s).queued = false := by
    rw [← Bool.not_eq_true]
    intro hq
    have := (handled_queued hh hq).1
    rw [h.state] at this
    cases this
  have harr := arrive_otherwise env hsel (by rw [← hp, h.state]; rfl)
  rw [← hp] at harr
  rw [harr, settle_kept hrel hq, Table.set_pcb_self]
  generalize p.otherwise env i s = o at hh
  cases hh with
  | dropped => exact h
  | answered =>
      rw [Outcome.output_pcb, tcpOutput_pcb]
      exact ⟨h.state, h.wnd, h.upto⟩
  | refused => exact h
  | reset hr => simp [Pcb.resetBy, hrst, hsyn, h.state] at hr
  | processed ha o ho =>
      obtain ⟨hrcv, hbuf, -⟩ := passed_receive ho
      have hrem : o.pcb.remain = p.remain := by simp [Pcb.remain, hrcv]
      have hfin' : o.pcb.finTaken s.flg = false := by simp [Pcb.finTaken, hfin]
      have hst : o.pcb.state = .established := by
        cases ho with
        | opened hs => rw [h.state] at hs; cases hs
        | shared hs =>
            have hstart : ((Outcome.start p).setPcb (p.acked s.info)).pcb.state =
                .established := h.state
            rw [ackedFin_state, hstart]
            split <;> rfl
        | timeWait hs => rw [h.state] at hs; cases hs
        | unused hs => rw [h.state] at hs; cases hs
      have hstate : (arrivesText env i s.info s.flg s.data o).pcb.state = p.state := by
        rw [arrivesText_state, hfin', h.state]
        exact hst
      have hnxt' := arrivesText_rcvNxt env i s.info s.flg s.data o
      have hwnd' := arrivesText_wnd env i s.info s.flg s.data o
      have hbuf' := arrivesText_buf env i s.info s.flg s.data o
      rw [hfin', passed_takesText ha ho] at hnxt'
      rw [passed_takesText ha ho, hrcv] at hwnd'
      rw [passed_takesText ha ho, hbuf, hrem] at hbuf'
      cases ht : p.textTaken s.info s.flg s.data with
      | false =>
          simp only [ht, Bool.false_eq_true, if_false, hrcv] at hnxt' hwnd' hbuf'
          refine ⟨hstate.trans h.state, hwnd' ▸ h.wnd, ?_⟩
          have hcont : (arrivesText env i s.info s.flg s.data o).pcb.content = p.content := by
            simp only [Pcb.content, Pcb.remain, hwnd', hbuf']
          rw [hnxt', hcont]
          exact h.upto
      | true =>
          simp only [ht, Bool.false_eq_true, if_false, if_true] at hnxt' hwnd' hbuf'
          obtain ⟨hat, hfit⟩ := hedge s (Event.mem_arriving.mpr rfl) ht
          exact h.takeText hD hat hfit hk hseq hdata hlen hstate hbuf' hwnd' hnxt'

/-- One event keeps the invariant and adds what it hands out. -/
theorem step_delivered {x : Env × Event} (hD : irs.toNat + 1 + D.length < 2 ^ 32)
    (h : (w.tab.pcb i).Delivered D irs got) (hx : Traffic D irs i w x) (he : AtEdge i w x) :
    ((w.step x).tab.pcb i).Delivered D irs (got ++ w.handed x) := by
  obtain ⟨env, e⟩ := x
  cases e with
  | user tid c =>
      cases c with
      | receive id size =>
          have hid : id = tcpPcbId i := hx
          subst hid
          have hget : tcpPcbGet w.tab (tcpPcbId i) = some i :=
            tcpPcbGet_eq_some.mpr ⟨rfl, by simp [h.state]⟩
          have hcall : (Command.receive (tcpPcbId i) size).call env w.tab =
              receiveRetry w.tab i size := by
            simp only [Command.call, tcpReceive, hget]
          by_cases hb : (w.tasks tid).isSome
          · simpa only [World.step, World.handed, callResult, if_pos hb, List.append_nil] using h
          · simp only [World.step, World.handed, callResult, if_neg hb, hcall]
            exact (receiveRetry_delivered size h).of_core (finish_core ..)
      | _ => exact absurd hx id
  | resume tid =>
      cases hb : w.tasks tid with
      | none =>
          simpa only [World.step, World.handed, callResult, hb, List.append_nil] using h
      | some b =>
          obtain ⟨hi, size, hw⟩ := hx b hb
          have hawake : ((w.awake tid i).tab.pcb i).Delivered D irs got :=
            h.of_core (awake_core ..)
          simp only [World.step, World.handed, callResult, hb, hi, hw, Wait.retry]
          exact (receiveRetry_delivered size hawake).of_core (finish_core ..)
  | segment s =>
      have := segment_delivered hD h hx.1 hx.2 he
      simpa [World.handed, callResult, World.step, World.after] using this
  | timer => exact absurd hx id

end Step

/-! ## Runs -/

theorem run_delivered {D : List UInt8} {irs : UInt32} {i : PcbId}
    (hD : irs.toNat + 1 + D.length < 2 ^ 32) (es : List (Env × Event)) :
    ∀ {w : World} {got : List UInt8}, (w.tab.pcb i).Delivered D irs got →
      Guarded World.step (fun w x => Traffic D irs i w x ∧ AtEdge i w x) w es →
      ((run World.step w es).tab.pcb i).Delivered D irs (got ++ w.received es) := by
  induction es with
  | nil => intro w got h _; simpa [World.received] using h
  | cons x es ih =>
      intro w got h hg
      have := ih (step_delivered hD h hg.1.1 hg.1.2) hg.2
      simpa [World.received, List.append_assoc] using this

/-- **In-order delivery.**  While every piece of the peer's stream that is
taken begins at `rcv.nxt` and fits the window, the bytes handed out are a
prefix of the stream, and together with the bytes in the buffer they are the
stream up to `rcv.nxt`, each byte once. -/
theorem delivered_in_order (D : List UInt8) (i : PcbId) (w : World) (es : List (Env × Event))
    (hentered : (w.tab.pcb i).Entered)
    (hD : (w.tab.pcb i).irs.toNat + 1 + D.length < 2 ^ 32)
    (htraffic : Guarded World.step (fun w' x => Traffic D (w.tab.pcb i).irs i w' x) w es)
    (hedge : Guarded World.step (AtEdge i) w es) :
    w.received es <+: D ∧
      ∃ k ≤ D.length,
        ((run World.step w es).tab.pcb i).rcv.nxt.toNat = (w.tab.pcb i).irs.toNat + 1 + k ∧
        w.received es ++ ((run World.step w es).tab.pcb i).content = D.take k := by
  have h := run_delivered hD es (hentered.delivered hD) (guarded_and.mpr ⟨htraffic, hedge⟩)
  obtain ⟨k, hk, hnxt, hgot⟩ := h.upto
  rw [List.nil_append] at hgot
  refine ⟨?_, k, hk, hnxt, hgot⟩
  exact (List.prefix_append _ _).trans (hgot ▸ List.take_prefix k D)

/-! ## In order and out of order -/

/-- The world after the sample handshake. -/
def afterHandshake : World := run World.step World.boot passiveHandshake

theorem afterHandshake_entered : (afterHandshake.tab.pcb 0).Entered :=
  ⟨by decide +kernel, by decide +kernel, by decide +kernel⟩

/-- A piece of the stream from the sample peer, whose SYN had number 100. -/
def piece (k : UInt32) (data : List UInt8) : Env × Event :=
  (.ideal .zero 0 [], .segment (peerSegment (101 + k) 1 flgAck data))

/-- Task 2 asks for at most ten bytes. -/
def take10 : Env × Event := (.ideal .zero 0 [], .user 2 (.receive 0 10))

theorem delivered_in_order_sample :
    afterHandshake.received [piece 0 [1, 2], take10, piece 2 [3], take10] <+: [1, 2, 3] :=
  (delivered_in_order [1, 2, 3] 0 afterHandshake
    [piece 0 [1, 2], take10, piece 2 [3], take10] afterHandshake_entered (by decide +kernel)
    ⟨⟨by decide +kernel, ⟨0, by decide, by decide +kernel, by decide⟩, by decide, by decide,
        by decide, by decide⟩, rfl,
      ⟨by decide +kernel, ⟨2, by decide, by decide +kernel, by decide⟩, by decide, by decide,
        by decide, by decide⟩, rfl, trivial⟩
    (by decide +kernel)).1

/-- The second and third byte arrive first: they are handed out as the first
two, and `rcv.nxt` is past a byte that was never stored. -/
theorem delivered_out_of_order :
    (afterHandshake.tab.pcb 0).Entered ∧
      Guarded World.step
        (fun w x => Traffic [1, 2, 3] (afterHandshake.tab.pcb 0).irs 0 w x)
        afterHandshake [piece 1 [2, 3], take10] ∧
      afterHandshake.received [piece 1 [2, 3], take10] = [2, 3] ∧
      ¬ afterHandshake.received [piece 1 [2, 3], take10] <+: [1, 2, 3] ∧
      ((run World.step afterHandshake [piece 1 [2, 3], take10]).tab.pcb 0).rcv.nxt =
        (afterHandshake.tab.pcb 0).irs + 1 + 3 := by
  have hr : afterHandshake.received [piece 1 [2, 3], take10] = [2, 3] := by decide +kernel
  refine ⟨afterHandshake_entered, ⟨⟨by decide +kernel, ⟨1, by decide, by decide +kernel,
    by decide⟩, by decide, by decide, by decide, by decide⟩, rfl, trivial⟩, hr, ?_,
    by decide +kernel⟩
  rw [hr]
  decide

end Laplus.Tcp
