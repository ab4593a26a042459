/-
# `Laplus.Tcp.WindowUpdate` — when the send window follows the peer

A segment that is not older than the last one to set the send window sets it
anew.  The handler does so inside the branch of a new acknowledgement, so a
segment that acknowledges nothing new never does: a window the peer has shut
stays shut until something else of ours is acknowledged.
-/
import Laplus.Tcp.Course
import Laplus.Tcp.Retransmit

namespace Laplus.Tcp

open Net Lib

/-- The three fields of the send window as the segment has them. -/
def SndSide.Holds (snd : SndSide) (seg : SegmentInfo) : Prop :=
  snd.wnd = seg.wnd ∧ snd.wl1 = seg.seq ∧ snd.wl2 = seg.ack

instance (snd : SndSide) (seg : SegmentInfo) : Decidable (snd.Holds seg) :=
  inferInstanceAs (Decidable (_ ∧ _))

/-- From `snd` to `snd'` the window follows the segment, unless that is old. -/
def SndSide.Tracks (snd snd' : SndSide) (seg : SegmentInfo) : Prop :=
  if snd.newer seg then snd'.Holds seg
  else snd'.wnd = snd.wnd ∧ snd'.wl1 = snd.wl1 ∧ snd'.wl2 = snd.wl2

instance (snd snd' : SndSide) (seg : SegmentInfo) : Decidable (snd.Tracks snd' seg) :=
  inferInstanceAs (Decidable (if snd.newer seg then snd'.Holds seg
    else snd'.wnd = snd.wnd ∧ snd'.wl1 = snd.wl1 ∧ snd'.wl2 = snd.wl2))

section Window
variable {snd : SndSide} {seg : SegmentInfo}

/-- `una` does not matter. -/
theorem updateWindow_tracks (snd : SndSide) (seg : SegmentInfo) (una : UInt32) :
    snd.Tracks ({ snd with una := una }.updateWindow seg) seg := by
  unfold SndSide.Tracks
  by_cases h : snd.wl1 < seg.seq ∨ (snd.wl1 = seg.seq ∧ snd.wl2 ≤ seg.ack)
  · have hnew : snd.newer seg = true := decide_eq_true h
    rw [if_pos hnew, SndSide.updateWindow, if_pos h]
    exact ⟨rfl, rfl, rfl⟩
  · have hold : ¬ snd.newer seg = true := fun hnew => h (of_decide_eq_true hnew)
    rw [if_neg hold, SndSide.updateWindow, if_neg h]
    exact ⟨rfl, rfl, rfl⟩

/-- Where nothing changes the window has followed only if there was nothing to follow. -/
theorem tracks_self_iff : snd.Tracks snd seg ↔ snd.newer seg = false ∨ snd.Holds seg := by
  unfold SndSide.Tracks
  cases snd.newer seg with
  | false => simp
  | true => simp

end Window

section Handler
variable {env : Env} {i : PcbId} {seg : SegmentInfo} {flags : UInt8} {data : List UInt8}
  {l f : Endpoint} {p : Pcb}

theorem synchronized_of_acking {s : PcbState} (h : s.acking) : s.synchronized := by
  cases s <;> first | rfl | cases h

/-- In the states of ESTABLISHED the handler gets to the ACK field, unless the segment resets
the connection. -/
theorem arrivesOtherwise_acking (hs : p.state.acking) (hacc : acceptable p.rcv seg)
    (hreset : p.resetBy seg flags = false) :
    arrivesOtherwise env i seg flags data l f p =
      if flgIsSet flags flgAck then arrivesAckUpdate env i seg flags data (.start p)
      else .start p := by
  have hsync : p.state.synchronized := synchronized_of_acking hs
  have hlast : p.state ≠ .lastAck := by
    intro h
    rw [h] at hs
    cases hs
  have hbits : flgIsSet flags flgRst = false ∧ flgIsSet flags flgSyn = false := by
    simpa [Pcb.resetBy, hsync, hacc, hlast] using hreset
  have hst : (Outcome.start p).pcb.state = p.state := rfl
  have hack : arrivesAck env i seg flags data l f (.start p) =
      arrivesAckUpdate env i seg flags data (.start p) := by
    unfold arrivesAck
    rw [hst]
    cases h : p.state <;> rw [h] at hs <;> first | rfl | cases hs
  unfold arrivesOtherwise
  cases flgIsSet flags flgAck <;> simp [hsync, hacc, hbits, hack]

/-- **The send side** after such a segment whose acknowledgement lies in the flight. -/
theorem otherwise_snd (env : Env) (i : PcbId) (data : List UInt8) (l f : Endpoint)
    (hs : p.state.acking) (hacc : acceptable p.rcv seg)
    (hreset : p.resetBy seg flags = false) (hhi : seg.ack ≤ p.snd.nxt) :
    let o := arrivesOtherwise env i seg flags data l f p
    o.released = false ∧ o.queued = false ∧
      o.pcb.snd = if flgIsSet flags flgAck then (p.acked seg).snd else p.snd := by
  intro o
  have ho : o = _ := arrivesOtherwise_acking (l := l) (f := f) hs hacc hreset
  cases ha : flgIsSet flags flgAck with
  | false =>
      rw [ha, if_neg Bool.false_ne_true] at ho
      rw [ho]
      exact ⟨rfl, rfl, rfl⟩
  | true =>
      have hbeyond : (Outcome.start p).pcb.ackBeyond seg = false := by
        simp [Pcb.ackBeyond, UInt32.not_lt.mpr hhi]
      rw [ha, if_pos rfl, arrivesAckUpdate_eq, hbeyond, if_neg Bool.false_ne_true] at ho
      rw [ho, arrivesText_released, arrivesText_queued, arrivesText_snd]
      refine ⟨?_, ?_, ?_⟩
      · simp
      · simp
      · rw [(ackedFin_sendSide env i seg _).1]
        rfl

end Handler

/-- **The window follows the peer** exactly when the segment acknowledges something new, is older
than the last one that set the window, or says again what that one said. -/
theorem window_tracked_iff (env : Env) (t : Table) (s : TcpSegment) (i : PcbId)
    (hsel : selected t s = some i) (hs : (t.pcb i).state.acking)
    (hacc : acceptable (t.pcb i).rcv s.info) (hreset : (t.pcb i).resetBy s.info s.flg = false)
    (hhi : s.ack ≤ (t.pcb i).snd.nxt) :
    (t.pcb i).snd.Tracks ((arrive env t s).1.pcb i).snd s.info ↔
      (flgIsSet s.flg flgAck ∧ (t.pcb i).snd.una < s.ack) ∨
        (t.pcb i).snd.newer s.info = false ∨ (t.pcb i).snd.Holds s.info := by
  have hlive : (t.pcb i).state.live := live_of_synchronized (synchronized_of_acking hs)
  have harrives : (t.pcb i).arrives env i s.info s.flg s.data s.foreignEp s.localEp =
      arrivesOtherwise env i s.info s.flg s.data s.foreignEp s.localEp (t.pcb i) := by
    have hsent : (t.pcb i).state ≠ .synSent := by
      intro h
      rw [h] at hs
      cases hs
    unfold Pcb.arrives
    split
    · rename_i h
      exact absurd h hsent
    · rfl
  obtain ⟨hr, hq, hsnd⟩ := otherwise_snd env i s.data s.foreignEp s.localEp hs hacc hreset hhi
  have hafter : ((arrive env t s).1.pcb i).snd =
      if flgIsSet s.flg flgAck then ((t.pcb i).acked s.info).snd else (t.pcb i).snd := by
    rw [arrive, tcpSegmentArrives_eq env s.info s.flg s.data hsel hlive, harrives,
      settle_kept hr hq, Table.set_pcb_self]
    exact hsnd
  rw [hafter]
  cases ha : flgIsSet s.flg flgAck with
  | false => simpa [ha] using tracks_self_iff
  | true =>
      by_cases hnew : (t.pcb i).snd.una < s.ack
      · have hfresh : (t.pcb i).freshAck s.info = true := by
          simp only [Pcb.freshAck, Bool.and_eq_true, decide_eq_true_eq]
          exact ⟨hnew, hhi⟩
        rw [if_pos rfl, Pcb.acked, hfresh, if_pos rfl]
        exact iff_of_true (updateWindow_tracks _ _ _) (.inl ⟨rfl, hnew⟩)
      · have hstale : (t.pcb i).freshAck s.info = false := by
          have h : ¬ (t.pcb i).snd.una < s.info.ack := hnew
          simp [Pcb.freshAck, h]
        rw [if_pos rfl, Pcb.acked_stale hstale, tracks_self_iff]
        simp [hnew]

/-! ## A window that stays shut -/

/-- Three bytes go out, and the peer acknowledges them and shuts its window. -/
def shut : World :=
  run World.step afterHandshake
    [send2 [1, 2, 3], (.ideal .zero 0 [], .segment { peerSegment 101 4 flgAck [] with wnd := 0 })]

/-- The peer opens its window again. -/
def reopening : TcpSegment := peerSegment 101 4 flgAck []

theorem window_tracked_shut :
    (shut.tab.pcb 0).snd.wnd = 0 ∧
      ¬ (shut.tab.pcb 0).snd.Tracks ((arrive (.ideal .zero 0 []) shut.tab reopening).1.pcb 0).snd
        reopening.info := by
  refine ⟨by decide +kernel, fun h => ?_⟩
  rcases (window_tracked_iff (.ideal .zero 0 []) shut.tab reopening 0 (by decide +kernel)
    (by decide +kernel) (by decide +kernel) (by decide +kernel) (by decide +kernel)).mp h with ⟨-, h⟩ | h | h
  · exact absurd h (by decide +kernel)
  · exact absurd h (by decide +kernel)
  · exact absurd h (by decide +kernel)

/-- **The window does not reopen**, though the segment is the newest and acknowledges everything. -/
theorem shut_window_stays :
    ¬ ∀ (env : Env) (t : Table) (s : TcpSegment) (i : PcbId), selected t s = some i →
      (t.pcb i).state = .established → acceptable (t.pcb i).rcv s.info →
      flgIsSet s.flg flgAck → (t.pcb i).snd.una ≤ s.ack → s.ack ≤ (t.pcb i).snd.nxt →
      (t.pcb i).snd.newer s.info → ((arrive env t s).1.pcb i).snd.wnd = s.wnd := by
  intro h
  have hopen := h (.ideal .zero 0 []) shut.tab reopening 0 (by decide +kernel) (by decide +kernel)
    (by decide +kernel) (by decide +kernel) (by decide +kernel) (by decide +kernel)
    (by decide +kernel)
  exact absurd hopen (by decide +kernel)

end Laplus.Tcp
