/-
# `Laplus.Tcp.Wakeup` — who is told when a wait is over

A task asleep in one of the five waiting calls goes on only after a
`cond_broadcast` on its pcb.  Every change that ends a wait is either paired
with a broadcast or it is on the list `Silences`: an acknowledgement that only
opens the send window, a FIN in FIN-WAIT-1 or FIN-WAIT-2, a SYN that moves an
opening pcb to SYN-RECEIVED, every release of a slot, and `tcp_connect` or
`tcp_listen` by another task.
-/
import Laplus.Tcp.Course
import Laplus.Tcp.Retransmit

namespace Laplus.Tcp

open Net Lib

/-! ## When a call stops waiting -/

/-- The states in which `tcp_receive` waits for bytes. -/
def PcbState.streaming : PcbState → Bool
  | .established | .finWait1 | .finWait2 => true
  | _ => false

/-- A wait for the connection to come up. -/
def Wait.opens : Wait → Bool
  | .openRfc793 _ | .connect _ => true
  | _ => false

/-- The condition on which the call stops waiting. -/
def Wait.Ready (p : Pcb) : Wait → Prop
  | .openRfc793 s | .connect s => p.state ≠ s
  | .accept => p.backlog ≠ []
  | .send _ _ => ¬ (p.state.sending ∧ p.cap = 0)
  | .receive _ => ¬ (p.state.streaming ∧ p.remain = 0)

instance (p : Pcb) (w : Wait) : Decidable (w.Ready p) :=
  match w with
  | .openRfc793 s => inferInstanceAs (Decidable (p.state ≠ s))
  | .connect s => inferInstanceAs (Decidable (p.state ≠ s))
  | .accept => inferInstanceAs (Decidable (p.backlog ≠ []))
  | .send _ _ => inferInstanceAs (Decidable (¬ (p.state.sending ∧ p.cap = 0)))
  | .receive _ => inferInstanceAs (Decidable (¬ (p.state.streaming ∧ p.remain = 0)))

/-- The states an opening call can have seen last. -/
def Wait.Proper : Wait → Prop
  | .openRfc793 s | .connect s => s = .listen ∨ s = .synSent ∨ s = .synReceived
  | _ => True

/-! ## Changes without a broadcast -/

/-- The room in the window after a new acknowledgement. -/
def Pcb.capAfter (p : Pcb) (seg : SegmentInfo) : UInt32 :=
  (if p.snd.newer seg then seg.wnd else p.snd.wnd).toUInt32 - (p.snd.nxt - seg.ack)

/-- An acknowledgement opens the send window and the segment has neither text
nor a FIN that would wake the sender. -/
def Pcb.quietAck (p : Pcb) (seg : SegmentInfo) (flags : UInt8) (data : List UInt8) : Prop :=
  p.state.sending ∧ p.takesAck seg flags ∧ p.capAfter seg ≠ 0 ∧
    p.textTaken seg flags data = false ∧ ¬ (flgIsSet flags flgFin ∧ p.state = .established)

/-- A FIN ends the stream after our own, and the segment has no text. -/
def Pcb.quietFin (p : Pcb) (seg : SegmentInfo) (flags : UInt8) (data : List UInt8) : Prop :=
  (p.state = .finWait1 ∨ p.state = .finWait2) ∧ p.admits seg flags ∧ p.ackBeyond seg = false ∧
    flgIsSet flags flgFin ∧ p.textTaken seg flags data = false

/-- The peer's SYN finds a pcb in SYN-SENT and does not acknowledge ours. -/
def Pcb.quietCross (p : Pcb) (seg : SegmentInfo) (flags : UInt8) : Prop :=
  p.state = .synSent ∧ synSentBadAck p seg flags = false ∧ flgIsSet flags flgRst = false ∧
    flgIsSet flags flgSyn ∧ ¬ p.iss < p.synUna seg flags

/-- The peer's SYN finds a pcb that `tcp_open_rfc793` has put in LISTEN. -/
def Pcb.quietSyn (p : Pcb) (flags : UInt8) : Prop :=
  p.state = .listen ∧ p.mode ≠ .socket ∧ flgIsSet flags flgSyn ∧
    flgIsSet flags flgRst = false ∧ flgIsSet flags flgAck = false

/-- The event ends the wait of `b` and nobody is told. -/
inductive Silences (w : World) (env : Env) (b : Blocked) : Event → Prop
  /-- A segment changes the pcb. -/
  | segment (s : TcpSegment) (hsel : selected w.tab s = some b.pcb)
      (h : match b.wait with
        | .send _ _ => (w.tab.pcb b.pcb).quietAck s.info s.flg s.data
        | .receive _ => (w.tab.pcb b.pcb).quietFin s.info s.flg s.data
        | .accept => False
        | _ => (w.tab.pcb b.pcb).quietCross s.info s.flg ∨ (w.tab.pcb b.pcb).quietSyn s.flg) :
      Silences w env b (.segment s)
  /-- The slot is released, directly or with the listener it is queued on. -/
  | release (e : Event) (r : PcbId) (h : Releases w env (w.found e) r e)
      (hl : Linked (w.found e) r b.pcb) (hw : b.wait ≠ .accept) : Silences w env b e
  /-- A failed `tcp_open_rfc793` gives back a slot the pcb is queued on. -/
  | spend (tid : TaskId) (l f : Endpoint) (r : PcbId) (hr : firstFree w.tab = some r)
      (ho : tcpOutputSegment env (({ (w.tab.claim r).pcb r with
        mode := .rfc793, localEp := l, foreignEp := f }.opening env).segment flgSyn []) = false)
      (hl : Linked w.tab r b.pcb) (hw : b.wait ≠ .accept) :
      Silences w env b (.user tid (.openActive l f))
  /-- Another task connects the pcb. -/
  | connect (tid : TaskId) (f : Endpoint) (hs : (w.tab.pcb b.pcb).state ≠ .free)
      (hm : (w.tab.pcb b.pcb).mode = .socket)
      (hl : ((w.tab.pcb b.pcb).source env f).isSome) (hw : b.wait ≠ .accept)
      (hne : b.wait ≠ .openRfc793 .synSent) (hne' : b.wait ≠ .connect .synSent) :
      Silences w env b (.user tid (.connect (tcpPcbId b.pcb) f))
  /-- Another task makes a listener of the pcb. -/
  | listen (tid : TaskId) (hs : (w.tab.pcb b.pcb).state ≠ .free)
      (hm : (w.tab.pcb b.pcb).mode = .socket) (hw : b.wait ≠ .accept)
      (hne : b.wait ≠ .openRfc793 .listen) (hne' : b.wait ≠ .connect .listen) :
      Silences w env b (.user tid (.listen (tcpPcbId b.pcb)))

/-- No event ends the wait of a sleeper without a broadcast. -/
def Heard (w : World) (x : Env × Event) : Prop :=
  w.acts x.2 → ∀ tid b, w.tasks tid = some b → b.woken = false → ¬ Silences w x.1 b x.2

/-! ## The segment handler -/

section Ready
variable {p p' : Pcb} {w : Wait}

theorem ready_congr (hst : p'.state = p.state) (hcap : p'.cap = p.cap)
    (hrem : p'.remain = p.remain) (hback : p'.backlog = p.backlog) : w.Ready p' ↔ w.Ready p := by
  cases w <;> simp only [Wait.Ready, hst, hcap, hrem, hback]

theorem ready_cond (c : Cond) : w.Ready { p with cond := c } ↔ w.Ready p :=
  ready_congr rfl rfl rfl rfl

end Ready

section Handler
variable {env : Env} {i : PcbId} {seg : SegmentInfo} {flags : UInt8} {data : List UInt8}
  {l f : Endpoint} {p : Pcb} {w : Wait}

theorem arrivesText_broadcast (o : Outcome) (j : PcbId) :
    Effect.broadcast j ∈ (arrivesText env i seg flags data o).effects ↔
      Effect.broadcast j ∈ o.effects ∨ j = i ∧ (o.pcb.takesText data ∨
        o.pcb.finTaken flags ∧ (o.pcb.state = .synReceived ∨ o.pcb.state = .established)) := by
  have hfin : (textStage env i seg data o).pcb.finTaken flags = o.pcb.finTaken flags := by
    simp only [Pcb.finTaken, textStage_state]
  have htext : Effect.broadcast j ∈ (textStage env i seg data o).effects ↔
      Effect.broadcast j ∈ o.effects ∨ j = i ∧ o.pcb.takesText data := by
    unfold textStage
    split
    · rename_i h
      simp [h]
    · rename_i h
      simp [h]
  rw [arrivesText, arrivesFin_effects, hfin, textStage_state]
  by_cases hf : o.pcb.finTaken flags
  · by_cases hs : o.pcb.state = .synReceived ∨ o.pcb.state = .established
    · simp only [hf, hs, if_true, List.mem_append, htext, List.mem_cons]
      simp
      tauto
    · simp only [hf, hs, if_true, if_false, List.mem_append, htext]
      simp
  · simp [hf, htext]

/-- The completion of a handshake wakes those who wait for it. -/
theorem opened_broadcast (o : Outcome) :
    Effect.broadcast i ∈ (establish env i o).effects := by
  cases h : o.pcb.parent <;> simp [establish, h]

/-- In the states of `tcp_send` the send side is the acknowledged one. -/
theorem passed_snd {o : Outcome} (h : Passed env i seg flags p o) (hs : p.state.sending) :
    o.pcb.snd = (p.acked seg).snd ∧ o.pcb.state = p.state := by
  cases h with
  | opened hst => rw [hst] at hs; cases hs
  | shared hst =>
      refine ⟨(ackedFin_sendSide env i seg _).1, ?_⟩
      have hstart : ((Outcome.start p).setPcb (p.acked seg)).pcb.state = p.state := rfl
      rw [ackedFin_state, hstart]
      rcases sending_cases hs with h | h <;> rw [h] <;> split <;> rfl
  | timeWait hst => rw [hst] at hs; cases hs
  | unused hst => rcases sending_cases hs with h | h <;> rw [h] at hst <;> cases hst

theorem acked_cap (p : Pcb) (seg : SegmentInfo) :
    (p.acked seg).cap = if p.freshAck seg then p.capAfter seg else p.cap := by
  cases hf : p.freshAck seg with
  | false => simp [Pcb.acked, Pcb.cap, hf]
  | true =>
      simp only [Pcb.acked, Pcb.cap, Pcb.capAfter, hf, if_true, SndSide.updateWindow,
        SndSide.newer, decide_eq_true_eq]
      split <;> rfl

/-- A sender whose window stays shut is told of everything else. -/
theorem processed_send {o : Outcome} (ha : p.admits seg flags) (ho : Passed env i seg flags p o)
    (hs : p.state.sending) (hc : p.cap = 0) (hq : ¬ p.quietAck seg flags data) :
    ((arrivesText env i seg flags data o).pcb.state.sending ∧
        (arrivesText env i seg flags data o).pcb.cap = 0) ∨
      Effect.broadcast i ∈ (arrivesText env i seg flags data o).effects := by
  rw [arrivesText_broadcast, passed_takesText ha ho]
  obtain ⟨hsnd, hst⟩ := passed_snd ho hs
  have hcap : (arrivesText env i seg flags data o).pcb.cap = (p.acked seg).cap := by
    simp only [Pcb.cap, arrivesText_snd, hsnd]
  rw [hcap, arrivesText_state, acked_cap, hst]
  cases ht : p.textTaken seg flags data with
  | true => exact .inr (.inr ⟨rfl, .inl rfl⟩)
  | false =>
      have hfin : o.pcb.finTaken flags = flgIsSet flags flgFin := by
        have htakes : p.state.takesFin = true := by
          rcases sending_cases hs with h | h <;> rw [h] <;> rfl
        rw [Pcb.finTaken, hst, htakes, Bool.and_true]
      by_cases hest : flgIsSet flags flgFin ∧ p.state = .established
      · exact .inr (.inr ⟨rfl, .inr ⟨hfin.trans hest.1, .inr hest.2⟩⟩)
      · left
        constructor
        · split
          · rename_i hf
            rw [hfin] at hf
            have hcw : p.state = .closeWait := by
              rcases sending_cases hs with h | h
              · exact absurd ⟨hf, h⟩ hest
              · exact h
            rw [Pcb.finState, hst, hcw]
            rfl
          · exact hs
        · split
          · rename_i hf
            have hack : p.state.acking = true := by
              rcases sending_cases hs with h | h <;> rw [h] <;> rfl
            refine Decidable.byContradiction fun hcap => hq ⟨hs, ?_, hcap, ht, hest⟩
            simp [Pcb.takesAck, ha, hack, hf]
          · exact hc

theorem streaming_cases {s : PcbState} (h : s.streaming) :
    s = .established ∨ s = .finWait1 ∨ s = .finWait2 := by
  cases s <;> simp_all [PcbState.streaming]

/-- A receiver with nothing to read is told of everything else. -/
theorem processed_receive {o : Outcome} (ha : p.admits seg flags)
    (ho : Passed env i seg flags p o) (hs : p.state.streaming) (hr : p.remain = 0)
    (hq : ¬ p.quietFin seg flags data) :
    ((arrivesText env i seg flags data o).pcb.state.streaming ∧
        (arrivesText env i seg flags data o).pcb.remain = 0) ∨
      Effect.broadcast i ∈ (arrivesText env i seg flags data o).effects := by
  rw [arrivesText_broadcast, passed_takesText ha ho]
  cases ht : p.textTaken seg flags data with
  | true => exact .inr (.inr ⟨rfl, .inl rfl⟩)
  | false =>
      have hrem : (arrivesText env i seg flags data o).pcb.remain = p.remain := by
        have hw := arrivesText_wnd env i seg flags data o
        rw [passed_takesText ha ho, ht, (passed_receive ho).1] at hw
        simp only [Bool.false_eq_true, if_false] at hw
        simp only [Pcb.remain, hw]
      rw [hrem, arrivesText_state]
      cases ho with
      | opened hst => rw [hst] at hs; cases hs
      | timeWait hst => rw [hst] at hs; cases hs
      | unused hst =>
          rcases streaming_cases hs with h | h | h <;> rw [h] at hst <;> cases hst
      | shared hst hb =>
          have hstart : ((Outcome.start p).setPcb (p.acked seg)).pcb.state = p.state := rfl
          have hstate : (ackedFin env i seg ((Outcome.start p).setPcb (p.acked seg))).pcb.state = _ :=
            ackedFin_state _
          rw [hstart] at hstate
          generalize ackedFin env i seg ((Outcome.start p).setPcb (p.acked seg)) = o at hstate ⊢
          rcases streaming_cases hs with h | h | h
          · -- ESTABLISHED: a FIN is told
            have ho : o.pcb.state = .established := by
              rw [hstate, h]
              split <;> rfl
            by_cases hf : o.pcb.finTaken flags
            · exact .inr (.inr ⟨rfl, .inr ⟨hf, .inr ho⟩⟩)
            · exact .inl ⟨by rw [if_neg hf, ho]; rfl, hr⟩
          · -- our FIN is out: the peer's is not told
            have hf : flgIsSet flags flgFin = false := by
              rw [← Bool.not_eq_true]
              exact fun hf => hq ⟨.inl h, ha, hb, hf, ht⟩
            left
            refine ⟨?_, hr⟩
            rw [if_neg (by simp [Pcb.finTaken, hf]), hstate, h]
            split <;> rfl
          · have hf : flgIsSet flags flgFin = false := by
              rw [← Bool.not_eq_true]
              exact fun hf => hq ⟨.inr h, ha, hb, hf, ht⟩
            left
            refine ⟨?_, hr⟩
            rw [if_neg (by simp [Pcb.finTaken, hf]), hstate, h]
            split <;> rfl

/-- **A segment past `Otherwise`** ends no wait in silence but for the two
cases above. -/
theorem handled_told {o : Outcome} (h : Handled env i seg flags data l f p o)
    (hr : o.released = false) (hs : p.state.pastOpen) (hp : w.Proper) (hw : ¬ w.Ready p)
    (hack : ∀ d n, w = .send d n → ¬ p.quietAck seg flags data)
    (hfin : ∀ n, w = .receive n → ¬ p.quietFin seg flags data) :
    ¬ w.Ready o.pcb ∨ Effect.broadcast i ∈ o.effects := by
  have hk := handled_keeps h
  cases h with
  | dropped => exact .inl hw
  | answered =>
      left
      rw [Outcome.output_pcb, tcpOutput_pcb]
      exact hw
  | refused => exact .inl hw
  | reset => simp at hr
  | processed ha o ho =>
      have opens (s : PcbState) (hst : p.state = s)
          (hsp : s = .listen ∨ s = .synSent ∨ s = .synReceived) :
          Effect.broadcast i ∈ (arrivesText env i seg flags data o).effects := by
        rw [arrivesText_broadcast]
        left
        have hrcvd : p.state = .synReceived := by
          rcases hsp with rfl | rfl | rfl
          · rw [hst] at hs; cases hs
          · rw [hst] at hs; cases hs
          · exact hst
        cases ho with
        | opened => exact opened_broadcast _
        | shared hst' => rw [hrcvd] at hst'; cases hst'
        | timeWait hst' => rw [hrcvd] at hst'; cases hst'
        | unused hst' => rw [hrcvd] at hst'; cases hst'
      cases w with
      | openRfc793 s => exact .inr (opens s (not_not.mp hw) hp)
      | connect s => exact .inr (opens s (not_not.mp hw) hp)
      | accept =>
          left
          simp only [Wait.Ready, hk.backlog]
          exact hw
      | send d n =>
          obtain ⟨h₁, h₂⟩ := not_not.mp hw
          exact (processed_send ha ho h₁ h₂ (hack d n rfl)).imp not_not.mpr id
      | receive n =>
          obtain ⟨h₁, h₂⟩ := not_not.mp hw
          exact (processed_receive ha ho h₁ h₂ (hfin n rfl)).imp not_not.mpr id

/-- A segment in SYN-SENT. -/
theorem synSent_told {o : Outcome} (h : SynSentHandled env i seg flags l f p o)
    (hr : o.released = false) (hs : p.state = .synSent) (hw : ¬ w.Ready p)
    (hcross : w.opens → ¬ p.quietCross seg flags) :
    ¬ w.Ready o.pcb ∨ Effect.broadcast i ∈ o.effects := by
  cases h with
  | dropped => exact .inl hw
  | refused => exact .inl hw
  | reset => simp at hr
  | taken hb hrst hsyn o _ _ ho =>
      cases ho with
      | established _ _ heff => exact .inr (by simp [heff])
      | crossed hlow heq _ =>
          have hback : o.pcb.backlog = p.backlog := by
            rw [heq, Pcb.synCrossed, synSentSyn_eq]
          have hquiet : p.quietCross seg flags := by
            refine ⟨hs, hb, hrst, hsyn, ?_⟩
            rwa [synSentSyn_eq] at hlow
          cases w with
          | openRfc793 s => exact absurd hquiet (hcross rfl)
          | connect s => exact absurd hquiet (hcross rfl)
          | accept =>
              left
              simp only [Wait.Ready, hback]
              exact hw
          | send d n => simp [Wait.Ready, hs, PcbState.sending] at hw
          | receive n => simp [Wait.Ready, hs, PcbState.streaming] at hw

end Handler

/-! ## Edits -/

section Edits
variable {w : World} {env : Env} {e : Event} {b : Blocked} {t t' : Table} {eff eff' : List Effect}
  {p' : Pcb}

theorem not_ready_opens {p : Pcb} {wt : Wait} {s : PcbState}
    (hs : wt = .openRfc793 s ∨ wt = .connect s) (h : p.state = s) : ¬ wt.Ready p := by
  rcases hs with rfl | rfl <;> simpa [Wait.Ready] using h

/-- A move into `s` ends no wait on the backlog, and no wait for a change from `s`. -/
theorem not_ready_moves {p p' : Pcb} {wt : Wait} {s : PcbState} (hw : ¬ wt.Ready p)
    (hs : p'.state = s) (hback : p'.backlog = p.backlog)
    (hq : wt ≠ .accept → wt ≠ .openRfc793 s → wt ≠ .connect s → False) : ¬ wt.Ready p' := by
  by_cases hcon : wt = .openRfc793 s ∨ wt = .connect s
  · exact not_ready_opens hcon hs
  rw [not_or] at hcon
  by_cases hacc : wt = .accept
  · subst hacc
    rwa [Wait.Ready, hback]
  · exact absurd hcon.2 fun h => hq hacc hcon.1 h

/-- **A pcb that changes in place** wakes those whose wait that ends. -/
theorem rewrites_told (hb : Before w (env, e) t eff)
    (hsel : ∀ s, e = .segment s → selected t s = some b.pcb)
    (h : Rewrites w env b.pcb (t.pcb b.pcb) e p' eff')
    (hw : ¬ b.wait.Ready (t.pcb b.pcb)) (hp : b.wait.Proper) (hq : ¬ Silences w env b e) :
    ¬ b.wait.Ready p' ∨ Effect.broadcast b.pcb ∈ eff' := by
  have same (hst : p'.state = (t.pcb b.pcb).state) (hcap : p'.cap = (t.pcb b.pcb).cap)
      (hrem : p'.remain = (t.pcb b.pcb).remain) (hback : p'.backlog = (t.pcb b.pcb).backlog) :
      ¬ b.wait.Ready p' := by
    rwa [ready_congr hst hcap hrem hback]
  obtain ⟨i, wt, woken⟩ := b
  cases h with
  | synSent s hs hr =>
      obtain rfl := hb.segment s rfl
      refine synSent_told (arrivesSynSent_handled _ _ _ _ _ _ _) hr hs hw fun ho hc => ?_
      refine hq (.segment s (hsel s rfl) ?_)
      cases wt with
      | openRfc793 => exact .inl hc
      | connect => exact .inl hc
      | _ => cases ho
  | otherwise s hs hr =>
      obtain rfl := hb.segment s rfl
      refine handled_told (arrivesOtherwise_handled _ _ _ _ _ _ _ _) hr hs hp hw ?_ ?_
      · rintro d n rfl hc
        exact hq (.segment s (hsel s rfl) hc)
      · rintro n rfl hc
        exact hq (.segment s (hsel s rfl) hc)
  | passive s hs hm hf hr ha =>
      obtain rfl := hb.segment s rfl
      have quiet : (w.tab.pcb i).quietSyn s.flg := ⟨hs, hm, hf, hr, ha⟩
      cases wt with
      | openRfc793 => exact absurd (.segment s (hsel s rfl) (.inr quiet)) hq
      | connect => exact absurd (.segment s (hsel s rfl) (.inr quiet)) hq
      | accept =>
          left
          rw [synTaken_pcb]
          exact hw
      | send d n => simp [Wait.Ready, hs, PcbState.sending] at hw
      | receive n => simp [Wait.Ready, hs, PcbState.streaming] at hw
  | ticked hs ht =>
      rw [emitQueue_broadcast]
      by_cases he : (t.pcb i).queue.any (·.expired env)
      · exact .inr he
      · left
        have hpcb := emitQueue_pcb env i (t.pcb i) (t.pcb i).queue
        rw [if_neg he] at hpcb
        refine same ?_ ?_ ?_ ?_ <;> rw [Pcb.ticked, hpcb] <;> rfl
  | connecting tid f l hs hm hl =>
      have ht : t = w.tab := (hb.once (by simp)).2
      subst ht
      exact .inl (not_ready_moves hw rfl rfl fun hacc hrfc hcon =>
        hq (.connect tid f hs hm (by simp [hl]) hacc hrfc hcon))
  | bound tid l hs hm => exact .inl (same rfl rfl rfl rfl)
  | listening tid hs hm =>
      have ht : t = w.tab := (hb.once (by simp)).2
      subst ht
      exact .inl (not_ready_moves hw rfl rfl fun hacc hrfc hcon =>
        hq (.listen tid hs hm hacc hrfc hcon))
  | sent dev data n he hs hstop hd =>
      have hrun := burst_bursts env dev (t.pcb i) data n
      have hkeep := burst_keeps hrun
      left
      cases wt with
      | send d m =>
          -- the window is shut: nothing is sent
          obtain ⟨-, hcap⟩ := not_not.mp hw
          have hself : ((t.pcb i).burst env dev data n).pcb = t.pcb i := by
            generalize (t.pcb i).burst env dev data n = r at hrun
            cases hrun with
            | finished => rfl
            | window => rfl
            | failed _ _ _ _ hc => exact absurd hcap hc
            | next _ _ _ _ hc => exact absurd hcap hc
          rw [hself]
          exact hw
      | _ =>
          simp only [Wait.Ready] at hw ⊢
          rw [hkeep]
          exact hw
  | received size he hs hr =>
      left
      cases wt with
      | receive n => exact absurd (not_not.mp hw).2 hr
      | _ => exact hw
  | closing => exact .inr (by simp)

theorem ready_backlog {p : Pcb} {wt : Wait} (h : wt ≠ .accept) (l : List PcbId) :
    wt.Ready { p with backlog := l } ↔ wt.Ready p := by
  cases wt with
  | accept => exact absurd rfl h
  | _ => exact Iff.rfl

/-- Nobody but an accepting task waits on a slot in state FREE. -/
theorem free_accept {p : Pcb} {wt : Wait} (hs : p.state = .free) (hw : ¬ wt.Ready p)
    (hp : wt.Proper) : wt = .accept := by
  cases wt with
  | accept => rfl
  | openRfc793 s | connect s =>
      have hst : p.state = s := not_not.mp hw
      rw [hs] at hst
      subst hst
      simp [Wait.Proper] at hp
  | send => simp [Wait.Ready, hs, PcbState.sending] at hw
  | receive => simp [Wait.Ready, hs, PcbState.streaming] at hw

theorem allocates_backlog {i : PcbId} (h : Allocates env t i e p' eff') :
    p'.backlog = (t.pcb i).backlog := by
  cases h with
  | child => rw [synTaken_pcb]; simp [Pcb.synTaking]
  | _ => simp [Pcb.opened, Pcb.opening, Pcb.openWindow]

/-- A child that is queued tells its listener. -/
theorem queued_broadcast {i q : PcbId} {s : TcpSegment} {p : Pcb} (hp : p.parent = some q)
    (hq : (p.otherwise env i s).queued) : Effect.broadcast q ∈ (p.otherwise env i s).effects := by
  have h : Handled env i s.info s.flg s.data s.foreignEp s.localEp p (p.otherwise env i s) :=
    arrivesOtherwise_handled _ _ _ _ _ _ _ _
  generalize p.otherwise env i s = o at h hq
  cases h with
  | dropped => simp at hq
  | answered => simp at hq
  | refused => simp at hq
  | reset h o ho => rcases ho with rfl | rfl <;> simp at hq
  | processed ha o ho =>
      rw [arrivesText_broadcast]
      left
      simp only [arrivesText_queued] at hq
      cases ho with
      | opened => simp [establish, hp]
      | shared => simp at hq
      | timeWait => split at hq <;> simp at hq
      | unused => simp at hq

/-- The wait of `b` goes on or a broadcast is on its way; the timer starts
nothing. -/
structure Told (w : World) (x : Env × Event) (b : Blocked) (t : Table) (eff : List Effect) :
    Prop where
  told : ¬ b.wait.Ready (t.pcb b.pcb) ∨ Effect.broadcast b.pcb ∈ eff
  timer : x.2 = .timer → Waning x.1 w.tab t

/-- **One edit** ends the wait of `b` with a broadcast, if it is not silent. -/
theorem edit_told (hb : Before w (env, e) t eff) (h : Told w (env, e) b t eff)
    (hp : b.wait.Proper) (hq : ¬ Silences w env b e) (he : Edit w env e t t' eff') :
    Told w (env, e) b t' (eff ++ eff') := by
  refine ⟨?_, ?_⟩
  swap
  · rintro rfl
    exact (h.timer rfl).edit he
  rcases h.told with hw | hbr
  swap
  · exact .inr (List.mem_append_left _ hbr)
  rw [List.mem_append, ← or_assoc, or_right_comm]
  left
  have gone (hacc : b.wait ≠ .accept → False) : ¬ b.wait.Ready Pcb.zero := by
    have hwait : b.wait = .accept := Decidable.byContradiction hacc
    simp [hwait, Wait.Ready, Pcb.zero]
  cases he with
  | rewrite i p' _ hr hsel =>
      by_cases hi : b.pcb = i
      · subst hi
        rw [Table.set_pcb_self]
        exact rewrites_told hb hsel hr hw hp hq
      · rw [Table.set_pcb_ne _ _ hi]
        exact .inl hw
  | allocate i p' _ hf ha =>
      by_cases hi : b.pcb = i
      · subst hi
        have hwait := free_accept (firstFree_free hf) hw hp
        rw [Table.set_pcb_self]
        left
        rw [hwait, Wait.Ready, allocates_backlog ha]
        rwa [hwait] at hw
      · rw [Table.set_pcb_ne _ _ hi, Table.claim_pcb_ne _ hi]
        exact .inl hw
  | spent i hf tid l f hev _ _ ho =>
      subst hev
      have ht : t = w.tab := (hb.once (by simp)).2
      subst ht
      have hback (a : PcbId) : ((w.tab.claim i).pcb a).backlog ⊆ (w.tab.pcb a).backlog := by
        by_cases ha : a = i
        · subst ha
          simp
        · simp [ha]
      left
      by_cases hl : Linked (w.tab.claim i) i b.pcb
      · rw [(tcpPcbRelease_pcb _ _ _).1 hl]
        exact gone fun hacc => hq (.spend tid l f i hf ho (hl.mono hback) hacc)
      · have hi : b.pcb ≠ i := fun hi => hl (hi ▸ .refl)
        rw [(tcpPcbRelease_pcb _ _ _).2 hl, Table.claim_pcb_ne _ hi]
        exact hw
  | release i _ hr _ =>
      left
      by_cases hl : Linked t i b.pcb
      · obtain ⟨hr', hl'⟩ := hr.found h.timer hb hl
        rw [(tcpPcbRelease_pcb _ _ _).1 hl]
        exact gone fun hacc => hq (.release e i hr' hl' hacc)
      · rw [(tcpPcbRelease_pcb _ _ _).2 hl]
        exact hw
  | enqueue i q s hsel hev hs hpar hr hqueued =>
      have kept : ¬ b.wait.Ready ((t.set i ((t.pcb i).otherwise env i s).pcb).pcb b.pcb) ∨
          Effect.broadcast b.pcb ∈ ((t.pcb i).otherwise env i s).effects := by
        by_cases hi : b.pcb = i
        · subst hi
          rw [Table.set_pcb_self]
          refine rewrites_told hb ?_ hr hw hp hq
          rintro s' rfl
          cases hev
          exact hsel
        · rw [Table.set_pcb_ne _ _ hi]
          exact .inl hw
      by_cases hi : b.pcb = q
      · by_cases hacc : b.wait = .accept
        · right
          rw [hi]
          exact queued_broadcast hpar hqueued
        · rw [hi] at kept ⊢
          rwa [Table.pushBacklog, Table.set_pcb_self, ready_backlog hacc]
      · rwa [Table.pushBacklog, Table.set_pcb_ne _ _ hi]
  | dequeue i c rest hback _ =>
      left
      by_cases hi : b.pcb = i
      · subst hi
        rw [Table.set_pcb_self]
        by_cases hacc : b.wait = .accept
        · rw [hacc] at hw
          exact absurd (by simp [Wait.Ready, hback]) hw
        · rwa [ready_backlog hacc]
      · rwa [Table.set_pcb_ne _ _ hi]
  | silent => exact .inl hw

/-- **One event** ends the wait of a sleeper with a broadcast. -/
theorem step_told {x : Env × Event} {tid : TaskId} (hh : Heard w x) (ht : w.tasks tid = some b)
    (hwoken : b.woken = false) (hw : ¬ b.wait.Ready (w.tab.pcb b.pcb)) (hp : b.wait.Proper) :
    ¬ b.wait.Ready ((w.step x).tab.pcb b.pcb) ∨ Effect.broadcast b.pcb ∈ w.effects x := by
  obtain ⟨env, e⟩ := x
  refine (step_edits w (env, e) (Told w (env, e) b) ?_ ?_ ?_).told
  · exact ⟨.inl hw, fun _ => .refl _ _⟩
  · intro t eff i c h
    refine ⟨h.told.imp_left fun hn => ?_, fun he => (h.timer he).cond i c⟩
    by_cases hi : b.pcb = i
    · rw [hi, Table.set_pcb_self, ready_cond, ← hi]
      exact hn
    · rwa [Table.set_pcb_ne _ _ hi]
  · intro t t' eff eff' hb h he
    exact edit_told hb h hp (hh hb.acts tid b ht hwoken) he

end Edits

/-! ## Going to sleep -/

/-- A call that sleeps has found nothing to go on with. -/
def CallResult.Waits (r : CallResult) : Prop :=
  ∀ i wt, r.progress = .blocked i wt → ¬ wt.Ready (r.tab.pcb i) ∧ wt.Proper

theorem waits_ret (t : Table) (val : Int) : (CallResult.ret t val).Waits := by
  simp [CallResult.Waits, CallResult.ret]

section Calls
variable {env : Env} {t : Table} {i : PcbId}

theorem awaitOpen_waits (wait : PcbState → Wait) (hwait : wait = .openRfc793 ∨ wait = .connect)
    (s : PcbState) (eff : List Effect) (hs : s = .listen ∨ s = .synSent ∨ s = .synReceived) :
    (awaitOpen wait t i s eff).Waits := by
  have sleeps (s : PcbState) (hs : s = .listen ∨ s = .synSent ∨ s = .synReceived)
      (h : (t.pcb i).state = s) : ¬ (wait s).Ready (t.pcb i) ∧ (wait s).Proper := by
    refine ⟨not_ready_opens (hwait.imp (congrFun · s) (congrFun · s)) h, ?_⟩
    rcases hwait with rfl | rfl <;> exact hs
  intro j wt hb
  simp only [awaitOpen] at hb ⊢
  split at hb
  · rename_i h
    rw [if_pos h]
    cases hb
    exact sleeps s hs h
  rename_i h
  rw [if_neg h]
  split at hb
  · cases hb
  rename_i h
  rw [if_neg h]
  split at hb
  · rename_i h
    rw [if_pos h]
    cases hb
    exact sleeps .synReceived (.inr (.inr rfl)) h
  · cases hb

theorem sendSyn_waits (wait : PcbState → Wait) (hwait : wait = .openRfc793 ∨ wait = .connect)
    (p : Pcb) : (sendSyn env t i wait p).Waits := by
  simp only [sendSyn]
  split
  · exact awaitOpen_waits wait hwait _ _ (.inr (.inl rfl))
  · intro j wt hb
    cases hb

theorem acceptLoop_waits : (acceptLoop t i).Waits := by
  intro j wt hb
  unfold acceptLoop at hb ⊢
  split at hb
  · rename_i h
    cases hb
    exact ⟨not_not.mpr h, trivial⟩
  · cases hb

theorem sendRetry_waits (data : List UInt8) (sent : Nat) :
    (sendRetry env t i data sent).result.Waits := by
  have ho := sendRetry_outcome env t i data sent
  generalize sendRetry env t i data sent = r at ho
  cases ho with
  | refused => exact waits_ret _ _
  | sending hs iface hr =>
      have hrun := burst_bursts env iface.dev (t.pcb i) data sent
      have hkeep := burst_keeps hrun
      generalize (t.pcb i).burst env iface.dev data sent = b at hrun hkeep
      intro j wt hb
      unfold sendEnd at hb ⊢
      split at hb
      · cases hb
      · cases hb
      · rename_i hstop
        cases hb
        have hcap : b.pcb.cap = 0 := window_cap hrun hstop
        have hst : b.pcb.state = (t.pcb i).state := by rw [hkeep]
        refine ⟨not_not.mpr ⟨?_, ?_⟩, trivial⟩
        · rw [Table.set_pcb_self, hst]
          rcases hs with hs | hs <;> rw [hs] <;> rfl
        · rwa [Table.set_pcb_self]
      · cases hb

theorem receiveRetry_waits (size : Nat) : (receiveRetry t i size).Waits := by
  have sleeps (hs : (t.pcb i).state.streaming) (hr : (t.pcb i).remain = 0) :
      CallResult.Waits ⟨t, [], .blocked i (.receive size)⟩ := by
    rintro j wt ⟨⟩
    exact ⟨not_not.mpr ⟨hs, hr⟩, trivial⟩
  have takes : (takeBytes t i size).Waits := by
    intro j wt hb
    cases hb
  cases hs : (t.pcb i).state with
  | established | finWait1 | finWait2 =>
      simp only [receiveRetry, hs]
      split
      · rename_i h
        exact sleeps (by rw [hs]; rfl) h
      · exact takes
  | closeWait =>
      simp only [receiveRetry, hs]
      split
      · exact waits_ret _ _
      · exact takes
  | _ =>
      simp only [receiveRetry, hs]
      exact waits_ret _ _

theorem call_waits (c : Command) : (c.call env t).Waits := by
  cases c with
  | openPassive l f =>
      simp only [Command.call, tcpOpenPassive]
      split
      · exact waits_ret _ _
      · exact awaitOpen_waits _ (.inl rfl) _ _ (.inl rfl)
  | openActive l f =>
      simp only [Command.call, tcpOpenActive]
      split
      · exact waits_ret _ _
      · exact sendSyn_waits _ (.inl rfl) _
  | «open» =>
      simp only [Command.call, tcpOpen]
      split <;> exact waits_ret _ _
  | connect id f =>
      simp only [Command.call, tcpConnect]
      split
      · exact waits_ret _ _
      split
      · exact waits_ret _ _
      · exact sendSyn_waits _ (.inr rfl) _
  | bind id l =>
      simp only [Command.call, tcpBind]
      split
      · exact waits_ret _ _
      split <;> exact waits_ret _ _
  | listen id =>
      simp only [Command.call, tcpListen]
      split <;> exact waits_ret _ _
  | accept id =>
      simp only [Command.call, tcpAccept]
      split
      · exact waits_ret _ _
      split
      · exact acceptLoop_waits
      · exact waits_ret _ _
  | send id data =>
      simp only [Command.call, tcpSend]
      split
      · exact waits_ret _ _
      · exact sendRetry_waits _ _
  | receive id size =>
      simp only [Command.call, tcpReceive]
      split
      · exact waits_ret _ _
      · exact receiveRetry_waits _
  | close id =>
      simp only [Command.call, tcpClose]
      split
      · exact waits_ret _ _
      split <;> intro j wt hb <;> cases hb

theorem retry_waits {wt : Wait} (hp : wt.Proper) : (wt.retry env t i).Waits := by
  cases wt with
  | openRfc793 s => exact awaitOpen_waits _ (.inl rfl) _ _ hp
  | connect s => exact awaitOpen_waits _ (.inr rfl) _ _ hp
  | accept => exact acceptLoop_waits
  | send data sent => exact sendRetry_waits _ _
  | receive size => exact receiveRetry_waits _

end Calls

/-! ## Runs -/

/-- Every sleeper nobody has woken has nothing to go on with. -/
def World.Attentive (w : World) : Prop :=
  ∀ tid b, w.tasks tid = some b →
    b.wait.Proper ∧ (b.woken = false → ¬ b.wait.Ready (w.tab.pcb b.pcb))

/-- A task after one event was asleep before it, or has just gone to sleep. -/
theorem step_tasks {w : World} {x : Env × Event} (hi : w.Attentive) {tid : TaskId} {b : Blocked}
    (ht : (w.step x).tasks tid = some b) :
    (∃ b₀, w.tasks tid = some b₀ ∧ b = wake (w.effects x) b₀) ∨
      (b.wait.Proper ∧ ¬ b.wait.Ready ((w.step x).tab.pcb b.pcb)) := by
  obtain ⟨env, e⟩ := x
  have after (t : Table) (eff : List Effect) (w' : World) (h : (w'.after t eff).tasks tid = some b) :
      ∃ b₀, w'.tasks tid = some b₀ ∧ b = wake eff b₀ := by
    obtain ⟨b₀, h₀, rfl⟩ := Option.map_eq_some_iff.mp h
    exact ⟨b₀, h₀, rfl⟩
  have call (tid' : TaskId) (w' : World) (r : CallResult) (hidle : w'.tasks tid' = none)
      (hother : ∀ t, t ≠ tid' → w'.tasks t = w.tasks t) (hr : r.Waits)
      (h : (w'.finish tid' r).tasks tid = some b) :
      (∃ b₀, w.tasks tid = some b₀ ∧ b = wake r.effects b₀) ∨
        (b.wait.Proper ∧ ¬ b.wait.Ready ((w'.finish tid' r).tab.pcb b.pcb)) := by
    by_cases hne : tid = tid'
    · subst hne
      have hnone : (w'.after r.tab r.effects).tasks tid = none := by
        simp [World.after, hidle]
      unfold World.finish at h ⊢
      cases hprog : r.progress with
      | returned v =>
          simp only [hprog] at h
          rw [hnone] at h
          cases h
      | blocked i wt =>
          simp only [hprog, World.sleep] at h ⊢
          rw [Function.update_self] at h
          cases h
          obtain ⟨hn, hp⟩ := hr i wt hprog
          refine .inr ⟨hp, ?_⟩
          rw [Table.set_pcb_self, ready_cond]
          exact hn
    · rw [finish_tasks_ne hne, hother tid hne] at h
      obtain ⟨b₀, h₀, hb⟩ := Option.map_eq_some_iff.mp h
      exact .inl ⟨b₀, h₀, hb.symm⟩
  cases e with
  | segment s => exact .inl (after _ _ _ ht)
  | timer => exact .inl (after _ _ _ ht)
  | user tid' c =>
      by_cases hb : (w.tasks tid').isSome
      · simp only [World.step, World.effects, callResult, if_pos hb] at ht ⊢
        exact .inl ⟨b, ht, by simp [wake]⟩
      · have hidle : w.tasks tid' = none := by simpa using hb
        simp only [World.step, World.effects, callResult, if_neg hb] at ht ⊢
        exact call tid' w _ hidle (fun _ _ => rfl) (call_waits c) ht
  | resume tid' =>
      cases hb : w.tasks tid' with
      | none =>
          simp only [World.step, World.effects, callResult, hb] at ht ⊢
          exact .inl ⟨b, ht, by simp [wake]⟩
      | some b' =>
          simp only [World.step, World.effects, callResult, hb] at ht ⊢
          refine call tid' _ _ (by simp [World.awake]) ?_ (retry_waits (hi tid' b' hb).1) ht
          intro t htne
          simp [World.awake, htne]

theorem step_attentive (w : World) (x : Env × Event) (hi : w.Attentive) (hh : Heard w x) :
    (w.step x).Attentive := by
  intro tid b ht
  rcases step_tasks hi ht with ⟨b₀, h₀, rfl⟩ | ⟨hp, hn⟩
  · obtain ⟨hp, hw⟩ := hi tid b₀ h₀
    refine ⟨hp, fun hwoken => ?_⟩
    simp only [wake, Bool.or_eq_false_iff, decide_eq_false_iff_not] at hwoken
    exact (step_told hh h₀ hwoken.1 (hw hwoken.1) hp).resolve_right hwoken.2
  · exact ⟨hp, fun _ => hn⟩

/-- Task 1 opens a connection to the sample peer. -/
def open1 : Env × Event :=
  (.ideal .zero 0 [sampleRoute], .user 1 (.openActive sampleLocal samplePeer))

/-- The peer's answer to the SYN leaves a window of five bytes. -/
def synAck5 : TcpSegment := { peerSegment 100 1 (flgSyn ||| flgAck) [] with wnd := 5 }

def answerSyn : Env × Event := (.ideal .zero 0 [], .segment synAck5)

theorem open1_heard : Heard .boot open1 := by
  intro _ tid b ht
  cases ht

/-- The answer releases nothing. -/
theorem answerSyn_releases (r : PcbId) :
    ¬ Releases (World.boot.step open1) answerSyn.1 (World.boot.step open1).tab r answerSyn.2 := by
  intro h
  have hsel : selected (World.boot.step open1).tab synAck5 = some 0 := by decide +kernel
  cases h with
  | reset _ hsel' hr =>
      cases hsel.symm.trans hsel'
      exact absurd hr (by decide +kernel)
  | refused _ _ _ hf => exact absurd hf (by decide)

theorem answerSyn_heard : Heard (World.boot.step open1) answerSyn := by
  intro _ tid b ht _ hs
  have hpcb : ((World.boot.step open1).tab.pcb 0).state = .synSent := by decide +kernel
  have hone : (World.boot.step open1).tasks 1 = some ⟨0, .openRfc793 .synSent, false⟩ := by
    decide +kernel
  by_cases htid : tid = 1
  · subst htid
    rw [hone] at ht
    cases ht
    cases hs with
    | segment s hsel h =>
        rcases h with h | h
        · exact h.2.2.2.2 (by decide +kernel)
        · exact absurd (hpcb.symm.trans h.1) (by decide)
    | release e r h hl hw => exact answerSyn_releases r h
  · have hnone : (World.boot.step open1).tasks tid = none := by
      show (World.boot.finish 1 (Command.call open1.1 .boot
        (.openActive sampleLocal samplePeer))).tasks tid = none
      rw [finish_tasks_ne htid]
      rfl
    rw [hnone] at ht
    cases ht

/-- The connection comes up, task 2 sends ten bytes into a window of five and
sleeps, and the five bytes are acknowledged. -/
def windowOpens : List (Env × Event) :=
  [open1, answerSyn, (.ideal .zero 0 [], .resume 1), send2 (List.replicate 10 0),
   (.ideal .zero 0 [], .segment { peerSegment 101 6 flgAck [] with wnd := 5 })]

end Laplus.Tcp
