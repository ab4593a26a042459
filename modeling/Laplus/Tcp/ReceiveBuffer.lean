/-
# `Laplus.Tcp.ReceiveBuffer` — the receive buffer and its window

The buffer of a pcb holds what has been stored and not yet taken, and the
window is the room that is left.  The handler checks a segment against the
window by its first or last sequence number only, and then copies the whole
text; so the bound holds exactly as long as no text that is taken is longer
than the window.
-/
import Laplus.Lib.Run
import Laplus.Tcp.Edit

namespace Laplus.Tcp

open Net Lib

/-! ## The invariant -/

/-- The states a pcb reaches once its window has been opened. -/
def PcbState.begun : PcbState → Bool
  | .free | .closed | .listen => false
  | _ => true

/-- How many bytes wait to be taken. -/
def Pcb.buffered (p : Pcb) : Nat := p.hist.stored.length - p.hist.taken.length

/-- Buffered bytes and window add up to the buffer. -/
def Pcb.Balanced (p : Pcb) : Prop :=
  p.hist.stored.length = p.hist.taken.length + (bufSize - p.rcv.wnd.toNat)

/-- The window has never been opened. -/
def Pcb.Shut (p : Pcb) : Prop := p.rcv.wnd = 0 ∧ p.hist.stored = [] ∧ p.hist.taken = []

structure Pcb.Bounded (p : Pcb) : Prop where
  wnd : p.rcv.wnd.toNat ≤ bufSize
  balance : p.Shut ∨ p.Balanced
  begun : p.state.begun → p.Balanced

theorem bounded_zero : Pcb.zero.Bounded :=
  ⟨by decide, .inl ⟨rfl, rfl, rfl⟩, by simp [Pcb.zero, PcbState.begun]⟩

section Transfer
variable {p p' : Pcb}

theorem Pcb.Bounded.congr (h : p.Bounded) (hw : p'.rcv.wnd = p.rcv.wnd)
    (hs : p'.hist.stored = p.hist.stored) (ht : p'.hist.taken = p.hist.taken)
    (hst : p'.state.begun → p.state.begun) : p'.Bounded := by
  have hb : p'.Balanced ↔ p.Balanced := by simp only [Pcb.Balanced, hw, hs, ht]
  have hsh : p'.Shut ↔ p.Shut := by simp only [Pcb.Shut, hw, hs, ht]
  exact ⟨hw ▸ h.wnd, h.balance.imp hsh.mpr hb.mpr, fun hp => hb.mpr (h.begun (hst hp))⟩

theorem Pcb.bounded_of_balanced (hw : p.rcv.wnd.toNat ≤ bufSize) (hb : p.Balanced) :
    p.Bounded := ⟨hw, .inr hb, fun _ => hb⟩

/-- A freshly opened window. -/
theorem Pcb.bounded_opened (hw : p.rcv.wnd = 8192) (hs : p.hist.stored = [])
    (ht : p.hist.taken = []) : p.Bounded := by
  refine Pcb.bounded_of_balanced ?_ ?_
  · rw [hw]; decide
  · rw [Pcb.Balanced, hw, hs, ht]; decide

end Transfer

/-- The subtraction `rcv.wnd -= len` of a length that fits. -/
theorem wnd_sub {wnd : UInt16} {n : Nat} (h : n ≤ wnd.toNat) :
    (wnd - UInt16.ofNat n).toNat = wnd.toNat - n := by
  have hof : (UInt16.ofNat n).toNat = n :=
    UInt16.toNat_ofNat_of_lt' (Nat.lt_of_le_of_lt h wnd.toNat_lt)
  rw [UInt16.toNat_sub_of_le _ _ (by rw [UInt16.le_iff_toNat_le, hof]; exact h), hof]

/-- Text no longer than the window goes where there is room for it. -/
theorem Pcb.Balanced.takeText {p p' : Pcb} {data : List UInt8} (h : p.Balanced)
    (hw : p.rcv.wnd.toNat ≤ bufSize) (hlen : data.length ≤ p.rcv.wnd.toNat)
    (hw' : p'.rcv.wnd = p.rcv.wnd - UInt16.ofNat data.length)
    (hs : p'.hist.stored = p.hist.stored ++ data) (ht : p'.hist.taken = p.hist.taken) :
    p'.rcv.wnd.toNat ≤ bufSize ∧ p'.Balanced := by
  have hn : p'.rcv.wnd.toNat = p.rcv.wnd.toNat - data.length := by rw [hw', wnd_sub hlen]
  unfold Pcb.Balanced at h ⊢
  rw [hs, ht, hn, List.length_append]
  omega

/-! ## The segment handler -/

section Handler
variable {env : Env} {i : PcbId} {seg : SegmentInfo} {flags : UInt8} {data : List UInt8}
  {l f : Endpoint} {p : Pcb}

theorem begun_of_pastOpen {s : PcbState} (h : s.pastOpen) (hf : s ≠ .free) : s.begun := by
  cases s <;> simp_all [PcbState.pastOpen, PcbState.begun]

theorem handled_bounded {o : Outcome} (h : Handled env i seg flags data l f p o)
    (hlen : p.textTaken seg flags data → data.length ≤ p.rcv.wnd.toNat)
    (hst : p.state.pastOpen) (hb : p.Bounded) : o.pcb.Bounded := by
  have hbegun : o.pcb.state.begun → p.state.begun := by
    intro ho
    refine begun_of_pastOpen hst fun hf => ?_
    rw [handled_free h hf] at ho
    cases ho
  cases h with
  | dropped => exact hb
  | answered =>
      rw [Outcome.output_pcb, tcpOutput_pcb] at hbegun ⊢
      exact hb.congr rfl rfl rfl hbegun
  | refused => exact hb
  | reset hr o ho =>
      rcases ho with rfl | rfl
      · exact hb.congr rfl rfl rfl hbegun
      · rw [Outcome.release_pcb, Outcome.output_pcb, tcpOutput_pcb] at hbegun ⊢
        exact hb.congr rfl rfl rfl hbegun
  | processed ha o ho =>
      obtain ⟨hrcv, -, hhist⟩ := passed_receive ho
      have hwnd := arrivesText_wnd env i seg flags data o
      have hstored := arrivesText_stored env i seg flags data o
      have htaken := (arrivesText_keeps env i seg flags data o).taken
      rw [hrcv] at hwnd
      rw [hhist] at hstored htaken
      rw [passed_takesText ha ho] at hwnd hstored
      cases ht : p.textTaken seg flags data with
      | false =>
          simp only [ht, Bool.false_eq_true, if_false] at hwnd hstored
          exact hb.congr hwnd hstored htaken hbegun
      | true =>
          simp only [ht, if_true] at hwnd hstored
          have hbal : p.Balanced := hb.begun (by
            refine begun_of_pastOpen hst fun hf => ?_
            simp [Pcb.textTaken, hf] at ht)
          obtain ⟨hw, hb'⟩ := hbal.takeText hb.wnd (hlen ht) hwnd hstored htaken
          exact Pcb.bounded_of_balanced hw hb'

/-- In SYN-SENT no segment touches the buffer. -/
theorem synSent_bounded {o : Outcome} (h : SynSentHandled env i seg flags l f p o)
    (hs : p.state = .synSent) (hb : p.Bounded) : o.pcb.Bounded := by
  have hbegun (s : PcbState) : s.begun → p.state.begun := fun _ => by rw [hs]; rfl
  cases h with
  | dropped => exact hb
  | refused => exact hb
  | reset => exact hb.congr rfl rfl rfl (hbegun _)
  | taken _ _ _ o _ _ ho =>
      cases ho with
      | established _ hp _ =>
          rw [hp, synSentSyn_eq]
          exact hb.congr rfl rfl rfl (hbegun _)
      | crossed _ hp _ =>
          rw [hp, synSentSyn_eq]
          exact hb.congr rfl rfl rfl (hbegun _)

end Handler

/-! ## The user commands -/

theorem remain_of_le {p : Pcb} (h : p.rcv.wnd.toNat ≤ bufSize) :
    p.remain = bufSize - p.rcv.wnd.toNat := by
  unfold Pcb.remain bufSize at *
  omega

/-- `tcp_receive` opens the window by what it takes. -/
theorem received_wnd {p : Pcb} {n : Nat} (h : p.rcv.wnd.toNat ≤ bufSize) (hn : n ≤ p.remain) :
    (p.received n).rcv.wnd.toNat = p.rcv.wnd.toNat + n := by
  rw [remain_of_le h] at hn
  unfold bufSize at *
  have hof : (UInt16.ofNat n).toNat = n :=
    UInt16.toNat_ofNat_of_lt' (by unfold UInt16.size; omega)
  simp only [Pcb.received, UInt16.toNat_add, hof]
  omega

theorem received_bounded {p : Pcb} (size : Nat) (hb : p.Bounded) (hs : p.state.readable) :
    (p.received (min size p.remain)).Bounded := by
  have hbal : p.Balanced := hb.begun (by
    cases h : p.state <;> simp_all [PcbState.readable, PcbState.begun])
  have hrem := remain_of_le hb.wnd
  have hle := hb.wnd
  have hmin : min size p.remain ≤ p.remain := Nat.min_le_right _ _
  have hw := received_wnd hb.wnd hmin
  refine Pcb.bounded_of_balanced (by omega) ?_
  unfold Pcb.Balanced at hbal ⊢
  rw [hw]
  simp only [Pcb.received, List.length_append, slice_length]
  omega

theorem rewrites_bounded {w : World} {env : Env} {i : PcbId} {p p' : Pcb} {e : Event}
    {eff : List Effect} (h : Rewrites w env i p e p' eff)
    (hlen : ∀ s, e = .segment s → p.textTaken s.info s.flg s.data →
      s.data.length ≤ p.rcv.wnd.toNat) (hb : p.Bounded) : p'.Bounded := by
  cases h with
  | synSent s hs hr => exact synSent_bounded (arrivesSynSent_handled ..) hs hb
  | otherwise s hs hr =>
      exact handled_bounded (arrivesOtherwise_handled ..) (hlen s rfl) hs hb
  | passive s hs hm hf =>
      rw [synTaken_pcb]
      exact Pcb.bounded_opened rfl rfl rfl
  | ticked hs ht =>
      rw [Pcb.ticked, emitQueue_pcb]
      refine hb.congr rfl rfl rfl ?_
      dsimp only
      split
      · simp [PcbState.begun]
      · exact id
  | connecting tid f l hs hm => exact Pcb.bounded_opened rfl rfl rfl
  | bound => exact hb.congr rfl rfl rfl id
  | listening => exact hb.congr rfl rfl rfl (by simp [PcbState.begun])
  | sent dev data sent he hs hstop =>
      rw [burst_keeps (burst_bursts env dev p data sent)]
      exact hb.congr rfl rfl rfl id
  | received size he hs hr => exact received_bounded size hb hs
  | closing tid s hs =>
      refine hb.congr rfl rfl rfl fun _ => ?_
      rcases hs with ⟨hs | hs, -⟩ | ⟨hs, -⟩ <;> rw [hs] <;> rfl

theorem allocates_bounded {env : Env} {t : Table} {i : PcbId} {p' : Pcb} {e : Event}
    {eff : List Effect} (h : Allocates env t i e p' eff) (hb : (t.pcb i).Bounded) :
    p'.Bounded := by
  cases h with
  | «open» => rw [Table.claim_pcb_self]; exact hb.congr rfl rfl rfl (by simp [PcbState.begun])
  | passive => rw [Table.claim_pcb_self]; exact hb.congr rfl rfl rfl (by simp [PcbState.begun])
  | active => exact Pcb.bounded_opened rfl rfl rfl
  | child =>
      rw [synTaken_pcb]
      exact Pcb.bounded_opened rfl rfl rfl

/-! ## Runs -/

/-- The text of a segment that would be copied fits the window. -/
def FitsWindow (w : World) (x : Env × Event) : Prop :=
  ∀ s ∈ x.2.arriving, ∀ i, selected w.tab s = some i →
    (w.tab.pcb i).textTaken s.info s.flg s.data →
    s.data.length ≤ (w.tab.pcb i).rcv.wnd.toNat

instance (w : World) (x : Env × Event) : Decidable (FitsWindow w x) :=
  inferInstanceAs (Decidable (∀ s ∈ x.2.arriving, ∀ i, selected w.tab s = some i →
    (w.tab.pcb i).textTaken s.info s.flg s.data →
    s.data.length ≤ (w.tab.pcb i).rcv.wnd.toNat))

theorem bounded_slotwise {w : World} {x : Env × Event} (hx : FitsWindow w x) :
    Slotwise w x Pcb.Bounded where
  zero := bounded_zero
  cond _ _ h := h.congr rfl rfl rfl id
  backlog _ _ h := h.congr rfl rfl rfl id
  rewrite t _ i _ _ hb hsel hr hi := by
    refine rewrites_bounded hr (fun s hs => ?_) hi
    have htab := hb.segment s hs
    subst htab
    exact hx s (Event.mem_arriving.mpr hs) i (hsel s hs)
  allocate _ _ _ _ _ ha hi := allocates_bounded ha hi

/-- Only the text of a segment that is processed is ever copied. -/
theorem edit_copy {w : World} {env : Env} {e : Event} {t t' : Table} {eff : List Effect}
    (h : Edit w env e t t' eff) {i : PcbId} {off : Nat} {text : List UInt8}
    (hc : Effect.copy i off text ∈ eff) :
    ∃ s, e = .segment s ∧ selected t s = some i ∧
      (t.pcb i).textTaken s.info s.flg s.data ∧ off = (t.pcb i).remain ∧ text = s.data := by
  have handler (j : PcbId) (s : TcpSegment) (he : e = .segment s)
      (hsel : selected t s = some j)
      (hc : Effect.copy i off text ∈ ((t.pcb j).otherwise env j s).effects) :
      ∃ s, e = .segment s ∧ selected t s = some i ∧
        (t.pcb i).textTaken s.info s.flg s.data ∧ off = (t.pcb i).remain ∧ text = s.data := by
    obtain ⟨ht, rfl, hoff, htext⟩ := handled_copy (arrivesOtherwise_handled ..) hc
    exact ⟨s, he, hsel, ht, hoff, htext⟩
  cases h with
  | rewrite j p' _ hr hsel =>
      cases hr with
      | synSent s hs hrel =>
          exfalso
          have hh := arrivesSynSent_handled env j s.info s.flg s.foreignEp s.localEp (t.pcb j)
          rw [Pcb.synSentOutcome] at hc
          generalize arrivesSynSent env j s.info s.flg s.foreignEp s.localEp (t.pcb j) = o
            at hh hc
          cases hh with
          | dropped => simp at hc
          | refused => simp [resetReply] at hc
          | reset => simp at hc
          | taken _ _ _ _ _ _ ho =>
              cases ho with
              | established _ _ he => simp [he] at hc
              | crossed _ _ he => simp [he] at hc
      | otherwise s hs hrel => exact handler j s rfl (hsel s rfl) hc
      | passive s => simp [synTaken_effects] at hc
      | ticked => exact absurd (emitQueue_effects _ _ _ _ _ hc) (by simp)
      | connecting => simp at hc
      | bound => simp at hc
      | listening => simp at hc
      | sent => exact absurd hc ((onlyOutputs_trace _).noCopy _ _ _)
      | received => simp at hc
      | closing => simp at hc
  | allocate j p' _ hf ha =>
      cases ha with
      | «open» => simp at hc
      | passive => simp at hc
      | active => simp at hc
      | child => simp [synTaken_effects] at hc
  | spent _ _ _ _ _ _ _ heff => exact absurd hc (heff.noCopy _ _ _)
  | release _ _ _ heff => exact absurd hc (heff.noCopy _ _ _)
  | enqueue j q s hsel he hs hp hr hq => exact handler j s he hsel hc
  | dequeue => simp at hc
  | silent _ heff => exact absurd hc (heff.onlyOutputs.noCopy _ _ _)

/-- Every copy of an event stays inside the buffer. -/
theorem copies_fit {w : World} {x : Env × Event} (hx : FitsWindow w x)
    (hi : ∀ j, (w.tab.pcb j).Bounded) {i : PcbId} {off : Nat} {text : List UInt8}
    (hc : Effect.copy i off text ∈ w.effects x) :
    off + text.length ≤ bufSize ∧ text.length ≤ (w.tab.pcb i).rcv.wnd.toNat := by
  refine step_edits w x (fun _ eff => ∀ i off text, Effect.copy i off text ∈ eff →
      off + text.length ≤ bufSize ∧ text.length ≤ (w.tab.pcb i).rcv.wnd.toNat)
    (fun _ _ _ h => absurd h List.not_mem_nil) (fun _ _ _ _ h => h) ?_ i off text hc
  · intro t t' eff eff' hb hP he i off text hc
    rcases List.mem_append.mp hc with hc | hc
    · exact hP i off text hc
    · obtain ⟨s, hs, hsel, ht, rfl, rfl⟩ := edit_copy he hc
      have htab := hb.segment s hs
      subst htab
      have hle := hx s (Event.mem_arriving.mpr hs) i hsel ht
      have hw := (hi i).wnd
      refine ⟨?_, hle⟩
      rw [remain_of_le hw]
      omega

theorem pastOpen_of_textTaken {p : Pcb} {seg : SegmentInfo} {flags : UInt8}
    {data : List UInt8} (h : p.textTaken seg flags data) : p.state.pastOpen := by
  cases hs : p.state <;> simp_all [Pcb.textTaken, PcbState.pastOpen]

/-- The text of a selected pcb is copied when it is taken. -/
theorem copy_of_textTaken (env : Env) {w : World} {s : TcpSegment} {i : PcbId}
    (hsel : selected w.tab s = some i)
    (ht : (w.tab.pcb i).textTaken s.info s.flg s.data) :
    Effect.copy i (w.tab.pcb i).remain s.data ∈ w.effects (env, .segment s) := by
  have heff : w.effects (env, .segment s) = ((w.tab.pcb i).otherwise env i s).effects := by
    simp only [World.effects, arrive_otherwise env hsel (pastOpen_of_textTaken ht)]
  rw [heff]
  exact textTaken_copied ht

/-- With every pcb bounded, the condition is exactly what keeps the copies of
the next event inside their buffers. -/
theorem copies_fit_iff {w : World} {x : Env × Event} (hi : ∀ j, (w.tab.pcb j).Bounded) :
    (∀ i off text, Effect.copy i off text ∈ w.effects x →
      off + text.length ≤ bufSize ∧ text.length ≤ (w.tab.pcb i).rcv.wnd.toNat) ↔
      FitsWindow w x := by
  refine ⟨fun h => ?_, fun hx i off text hc => copies_fit hx hi hc⟩
  obtain ⟨env, e⟩ := x
  intro s hs i hsel ht
  obtain rfl := Event.mem_arriving.mp hs
  exact (h i _ _ (copy_of_textTaken env hsel ht)).2

/-- **The receive buffer is bounded.**  In every run in which no text longer
than the window is taken, the window is at most the buffer, the buffered bytes
are exactly the rest of it once the window has been opened, and the copies of
the next event stay inside the buffer, and do not exceed the window they are
subtracted from, exactly when that event meets the condition too. -/
theorem receive_buffer_bounded (es : List (Env × Event))
    (hg : Guarded World.step FitsWindow World.boot es) :
    (∀ j, ((run World.step World.boot es).tab.pcb j).rcv.wnd.toNat ≤ bufSize ∧
      (((run World.step World.boot es).tab.pcb j).Shut ∨
        ((run World.step World.boot es).tab.pcb j).Balanced) ∧
      (((run World.step World.boot es).tab.pcb j).state.begun →
        ((run World.step World.boot es).tab.pcb j).Balanced)) ∧
    ∀ x, (∀ i off text, Effect.copy i off text ∈ (run World.step World.boot es).effects x →
        off + text.length ≤ bufSize ∧
          text.length ≤ ((run World.step World.boot es).tab.pcb i).rcv.wnd.toNat) ↔
      FitsWindow (run World.step World.boot es) x := by
  have hall : ∀ j, ((run World.step World.boot es).tab.pcb j).Bounded :=
    inv_run (fun w => ∀ j, (w.tab.pcb j).Bounded)
      (fun w x hi hx => (bounded_slotwise hx).step hi) (fun _ => bounded_zero) hg
  exact ⟨fun j => ⟨(hall j).wnd, (hall j).balance, (hall j).begun⟩,
    fun x => copies_fit_iff hall⟩

/-! ## A run that overruns the buffer -/

/-- Our endpoint and the peer's. -/
def sampleLocal : Endpoint := ⟨7, 80⟩
def samplePeer : Endpoint := ⟨9, 1000⟩

/-- A segment of the sample peer. -/
def peerSegment (seq ack : UInt32) (flg : UInt8) (data : List UInt8) : TcpSegment where
  seq := seq
  ack := ack
  flg := flg
  wnd := 1000
  data := data
  localEp := samplePeer
  foreignEp := sampleLocal

/-- A passive open and the peer's handshake; the pcb is ESTABLISHED. -/
def passiveHandshake : List (Env × Event) :=
  [(.ideal .zero 0 [], .user 1 (.openPassive sampleLocal none)),
   (.ideal .zero 0 [], .segment (peerSegment 100 0 flgSyn [])),
   (.ideal .zero 0 [], .segment (peerSegment 101 1 flgAck []))]

/-- The condition holds along the handshake and the bound with it. -/
theorem receive_buffer_bounded_handshake :
    Guarded World.step FitsWindow World.boot passiveHandshake ∧
      ((run World.step World.boot passiveHandshake).tab.pcb 0).Balanced :=
  have hg : Guarded World.step FitsWindow World.boot passiveHandshake := by decide +kernel
  ⟨hg, ((receive_buffer_bounded passiveHandshake hg).1 0).2.2 (by decide +kernel)⟩

/-- 9000 bytes from the left edge of the window on are copied whole. -/
theorem overrun_copy (data : List UInt8) (hlen : data.length = 9000) :
    Effect.copy 0 0 data ∈ (run World.step World.boot passiveHandshake).effects
      (.ideal .zero 0 [], .segment (peerSegment 101 1 flgAck data)) := by
  have hinfo : (peerSegment 101 1 flgAck data).info = ⟨101, 1, 9000, 1000⟩ := by
    have hsyn : flgIsSet flgAck flgSyn = false := by decide
    have hfin : flgIsSet flgAck flgFin = false := by decide
    have hadd : UInt16.ofNat 9000 + 0 + 0 = 9000 := by decide
    simp only [TcpSegment.info, TcpSegment.len, peerSegment, hlen, hsyn, hfin,
      Bool.false_eq_true, if_false, hadd]
  have hne : data.isEmpty = false := by
    cases data with
    | nil => cases hlen
    | cons => rfl
  have hsel : selected (run World.step World.boot passiveHandshake).tab
      (peerSegment 101 1 flgAck data) = some 0 := by
    have hfor : selected (run World.step World.boot passiveHandshake).tab
        (peerSegment 101 1 flgAck []) = some 0 := by decide +kernel
    exact hfor
  have ht : ((run World.step World.boot passiveHandshake).tab.pcb 0).textTaken
      (peerSegment 101 1 flgAck data).info flgAck data := by
    rw [hinfo, Pcb.textTaken, hne]
    decide +kernel
  have hrem : ((run World.step World.boot passiveHandshake).tab.pcb 0).remain = 0 := by
    decide +kernel
  have hc := copy_of_textTaken (.ideal .zero 0 []) hsel ht
  rwa [hrem] at hc

/-- The copy leaves the buffer, and the window it is subtracted from is smaller. -/
theorem receive_buffer_overrun :
    ∃ text : List UInt8, text = List.replicate 9000 0 ∧
      Effect.copy 0 0 text ∈ (run World.step World.boot passiveHandshake).effects
        (.ideal .zero 0 [], .segment (peerSegment 101 1 flgAck text)) ∧
      bufSize < 0 + text.length ∧
      ((run World.step World.boot passiveHandshake).tab.pcb 0).rcv.wnd.toNat < text.length := by
  have hlen : (List.replicate 9000 (0 : UInt8)).length = 9000 := List.length_replicate
  refine ⟨_, rfl, overrun_copy _ hlen, ?_, ?_⟩
  · rw [hlen]; decide
  · rw [hlen]; decide +kernel

end Laplus.Tcp
