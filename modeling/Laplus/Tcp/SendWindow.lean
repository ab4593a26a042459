/-
# `Laplus.Tcp.SendWindow` — `tcp_send` and the peer's window

The room left in the window is an unsigned difference.  While the flight fits
the window whenever the loop is entered, it fits after every segment; once the
peer has shrunk the window below the flight the difference wraps and the loop
sends as if there were no limit.  The bytes themselves go out in order and
once, across every wait, as long as the slot is still the caller's.
-/
import Laplus.Lib.Run
import Laplus.Tcp.Edit
import Laplus.Tcp.InOrder

namespace Laplus.Tcp

open Net Lib

/-! ## One burst -/

/-- The bytes sent and not acknowledged. -/
def Pcb.flight (p : Pcb) : Nat := (p.snd.nxt - p.snd.una).toNat

/-- The flight does not exceed the window. -/
def Pcb.Within (p : Pcb) : Prop := p.flight ≤ p.snd.wnd.toNat

instance (p : Pcb) : Decidable p.Within := inferInstanceAs (Decidable (_ ≤ _))

/-- The text of the segments, in order of emission. -/
def payload (tr : List Emission) : List UInt8 := tr.flatMap fun e => e.seg.data

@[simp] theorem payload_nil : payload [] = [] := rfl

@[simp] theorem payload_cons (e : Emission) (tr : List Emission) :
    payload (e :: tr) = e.seg.data ++ payload tr := rfl

@[simp] theorem payload_append (tr tr' : List Emission) :
    payload (tr ++ tr') = payload tr ++ payload tr' := List.flatMap_append

/-- The segments occupy consecutive ranges from sequence number `n` to `m`. -/
def Consecutive : UInt32 → List Emission → UInt32 → Prop
  | n, [], m => n = m
  | n, e :: tr, m => e.seg.seq = n ∧ Consecutive (n + UInt32.ofNat e.seg.data.length) tr m

theorem Consecutive.append {tr tr' : List Emission} {l m n : UInt32}
    (h : Consecutive l tr m) (h' : Consecutive m tr' n) : Consecutive l (tr ++ tr') n := by
  induction tr generalizing l with
  | nil => exact (show l = m from h) ▸ h'
  | cons e tr ih => exact ⟨h.1, ih h.2⟩

section Burst
variable {env : Env} {dev : NetDevice} {data : List UInt8} {k : Nat} {p : Pcb} {sent : Nat}
  {b : Burst}

theorem cap_toNat (h : p.Within) : p.cap.toNat = p.snd.wnd.toNat - p.flight := by
  have hw : (p.snd.nxt - p.snd.una).toNat ≤ p.snd.wnd.toUInt32.toNat := by
    rw [UInt16.toNat_toUInt32]
    exact h
  rw [Pcb.cap, UInt32.toNat_sub_of_le _ _ (UInt32.le_iff_toNat_le.mpr hw),
    UInt16.toNat_toUInt32]
  rfl

/-- A segment cut to the room in the window keeps the flight within it. -/
theorem pushed_within {text : List UInt8} (h : p.Within) (hlen : text.length ≤ p.cap.toNat) :
    (p.pushed env k text).Within := by
  rw [cap_toNat h] at hlen
  have hlt := p.snd.wnd.toNat_lt
  unfold Pcb.Within at h
  have hflight : (p.pushed env k text).flight = p.flight + text.length := by
    have hassoc : p.snd.nxt + UInt32.ofNat text.length - p.snd.una =
        (p.snd.nxt - p.snd.una) + UInt32.ofNat text.length := by
      rw [UInt32.sub_eq_add_neg, UInt32.sub_eq_add_neg, UInt32.add_assoc, UInt32.add_assoc,
        UInt32.add_comm (UInt32.ofNat text.length)]
    unfold Pcb.flight at h hlen ⊢
    simp only [Pcb.pushed, hassoc, UInt32.toNat_add, UInt32.toNat_ofNat']
    omega
  have hwnd : (p.pushed env k text).snd.wnd = p.snd.wnd := rfl
  rw [Pcb.Within, hflight, hwnd]
  omega

/-- Within the window at the start, within it after every segment. -/
theorem burst_within (hb : Bursts env dev data k p sent b) (h : p.Within) :
    ∀ e ∈ b.trace, e.pcb.Within := by
  induction hb with
  | finished => simp
  | window => simp
  | failed k p sent hs hc =>
      intro e he
      rw [List.mem_singleton.mp he]
      exact h
  | next k p sent hs hc b hb ih =>
      have hp : (p.pushed env k (p.nextText dev data sent)).Within :=
        pushed_within h (by rw [nextText_length]; exact Nat.min_le_right _ _)
      intro e he
      rcases List.mem_cons.mp he with rfl | he
      · exact hp
      · exact ih hp e he

/-- No segment is longer than the MTU less the headers. -/
theorem burst_mss (hb : Bursts env dev data k p sent b) :
    ∀ e ∈ b.trace, e.seg.data.length ≤ e.mtu - 40 := by
  have text (p : Pcb) (sent : Nat) :
      (p.nextText dev data sent).length ≤ dev.mtu.toNat - 40 := by
    rw [nextText_length]
    exact Nat.le_trans (Nat.min_le_left _ _) (Nat.min_le_left _ _)
  induction hb with
  | finished => simp
  | window => simp
  | failed k p sent hs hc =>
      intro e he
      rw [List.mem_singleton.mp he]
      exact text p sent
  | next k p sent hs hc b hb ih =>
      intro e he
      rcases List.mem_cons.mp he with rfl | he
      · exact text p sent
      · exact ih e he

/-- What a burst that does not fail has sent. -/
structure Covers (data : List UInt8) (p : Pcb) (sent : Nat) (b : Burst) : Prop where
  mono : sent ≤ b.sent
  le : b.sent ≤ data.length
  text : payload b.trace = (data.drop sent).take (b.sent - sent)
  seqs : Consecutive p.snd.nxt b.trace b.pcb.snd.nxt
  all : b.stop = .finished → b.sent = data.length
  rest : b.stop = .window → b.sent < data.length

theorem burst_covers (hb : Bursts env dev data k p sent b) (hle : sent ≤ data.length)
    (hstop : b.stop ≠ .failed) : Covers data p sent b := by
  induction hb with
  | finished k p sent h =>
      exact ⟨Nat.le_refl _, hle, by simp, rfl, fun _ => Nat.le_antisymm hle h, by simp⟩
  | window k p sent h hc => exact ⟨Nat.le_refl _, hle, by simp, rfl, by simp, fun _ => h⟩
  | failed => exact absurd rfl hstop
  | next k p sent h hc b hb ih =>
      have hcut : p.cut dev data sent ≤ data.length - sent :=
        Nat.le_trans (Nat.min_le_left _ _) (Nat.min_le_right _ _)
      obtain ⟨hmono, hle', htext, hseqs, hall, hrest⟩ := ih (by omega) hstop
      have hseg : (p.segment (flgAck ||| flgPsh) (p.nextText dev data sent)).seq = p.snd.nxt := by
        have : flgIsSet (flgAck ||| flgPsh) flgSyn = false := by decide
        simp [Pcb.segment, this]
      refine ⟨Nat.le_trans (Nat.le_add_right _ _) hmono, hle', ?_, ⟨hseg, hseqs⟩, hall, hrest⟩
      calc p.nextText dev data sent ++ payload b.trace
          = (data.drop sent).take (p.cut dev data sent) ++
              ((data.drop sent).drop (p.cut dev data sent)).take
                (b.sent - (sent + p.cut dev data sent)) := by
            rw [htext, List.drop_drop]
            rfl
        _ = (data.drop sent).take (b.sent - sent) := by
            rw [← List.take_add]
            congr 1
            omega

end Burst

/-! ## A call and its waits -/

/-- Where a call of `tcp_send` runs from `RETRY` on. -/
structure Entry where
  tab : Table
  pcb : PcbId
  data : List UInt8
  sent : Nat

/-- The event lets task `tid` enter `tcp_send`, for the first time or after a wait. -/
def World.sendEntry (w : World) (tid : TaskId) (x : Env × Event) : Option Entry :=
  match x.2 with
  | .user t (.send id data) =>
      if t = tid ∧ w.tasks tid = none then
        (tcpPcbGet w.tab id).map fun i => ⟨w.tab, i, data, 0⟩
      else none
  | .resume t =>
      if t = tid then
        match w.tasks tid with
        | some ⟨i, .send data sent, _⟩ => some ⟨(w.awake tid i).tab, i, data, sent⟩
        | _ => none
      else none
  | _ => none

/-- The segments task `tid` hands down in the event. -/
def World.emitted (w : World) (tid : TaskId) (x : Env × Event) : List Emission :=
  match w.sendEntry tid x with
  | some r => (sendRetry x.1 r.tab r.pcb r.data r.sent).trace
  | none => []

/-- The segments task `tid` hands down along a run. -/
def World.emissions (w : World) (tid : TaskId) : List (Env × Event) → List Emission
  | [] => []
  | x :: es => w.emitted tid x ++ (w.step x).emissions tid es

/-- What the call of task `tid` returns in the event. -/
def World.answer (w : World) (tid : TaskId) (x : Env × Event) : Option Ret :=
  match callResult w x.1 x.2 with
  | some (t, _, r) => if t = tid then r.progress.answer else none
  | none => none

/-- What the call of task `tid` returns along a run. -/
def World.returned (w : World) (tid : TaskId) : List (Env × Event) → Option Ret
  | [] => none
  | x :: es => (w.answer tid x).or ((w.step x).returned tid es)

/-- What happens while `tcp_send` waits: segments arrive, the timer runs, the
task itself runs on. -/
def Interleaved (tid : TaskId) (x : Env × Event) : Prop :=
  match x.2 with
  | .segment _ | .timer => True
  | .resume t => t = tid
  | .user _ _ => False

/-- The states in which `tcp_send` sends. -/
def PcbState.sending : PcbState → Bool
  | .established | .closeWait => true
  | _ => false

theorem sending_cases {s : PcbState} (h : s.sending) : s = .established ∨ s = .closeWait := by
  cases s <;> simp_all [PcbState.sending]

/-- The loop of `tcp_send` will run on the pcb. -/
def Pcb.sends (routes : List IpRoute) (p : Pcb) : Bool :=
  p.state.sending && (ipRouteGetIface routes p.localEp.addr).isSome

/-- Whenever the loop is entered with bytes left, the flight fits the window
and the slot is the one of generation `g`. -/
def Roomy (tid : TaskId) (g : Nat) (w : World) (x : Env × Event) : Prop :=
  ∀ r ∈ w.sendEntry tid x, (r.tab.pcb r.pcb).sends x.1.routes → r.sent < r.data.length →
    (r.tab.pcb r.pcb).Within ∧ r.tab.gen r.pcb = g

instance (tid : TaskId) (g : Nat) (w : World) (x : Env × Event) : Decidable (Roomy tid g w x) :=
  inferInstanceAs (Decidable (∀ r ∈ w.sendEntry tid x,
    (r.tab.pcb r.pcb).sends x.1.routes → r.sent < r.data.length →
      (r.tab.pcb r.pcb).Within ∧ r.tab.gen r.pcb = g))

theorem sends_of {routes : List IpRoute} {p : Pcb} {iface : IpIface}
    (hs : p.state = .established ∨ p.state = .closeWait)
    (hr : ipRouteGetIface routes p.localEp.addr = some iface) : p.sends routes := by
  rcases hs with hs | hs <;> simp [Pcb.sends, hs, hr, PcbState.sending]

/-! ## The slot while the call waits -/

/-- The slot is free, or it still has `m` as the next number to send. -/
def Pcb.Holds (m : UInt32) (p : Pcb) : Prop :=
  p.state = .free ∨ p.snd.nxt = m ∧ (p.state.synchronized ∨ p.state = .closed)

theorem Pcb.Holds.sending {m : UInt32} {p : Pcb} (h : p.Holds m)
    (hs : p.state = .established ∨ p.state = .closeWait) : p.snd.nxt = m := by
  rcases h with h | h
  · rcases hs with hs | hs <;> rw [h] at hs <;> cases hs
  · exact h.1

/-- A segment or a timer tick that rewrites the pcb keeps its next number. -/
theorem rewrites_holds {w : World} {env : Env} {i : PcbId} {p p' : Pcb} {e : Event}
    {eff : List Effect} {m : UInt32} (h : Rewrites w env i p e p' eff) (he : e.isCall = false) (hp : p.Holds m) :
    p'.Holds m := by
  cases h with
  | synSent s hs hr => simp [Pcb.Holds, hs, PcbState.synchronized] at hp
  | otherwise s hs hr =>
      have hh : Handled env i s.info s.flg s.data s.foreignEp s.localEp p
          (p.otherwise env i s) := arrivesOtherwise_handled ..
      rcases hp with hf | ⟨hn, hsync | hc⟩
      · exact .inl (handled_free hh hf)
      · exact .inr ⟨(handled_keeps hh).nxt.trans hn, .inl (handled_synchronized hh hr hsync)⟩
      · simp [hc, PcbState.pastOpen] at hs
  | passive s hs => simp [Pcb.Holds, hs, PcbState.synchronized] at hp
  | ticked hs ht =>
      rw [Pcb.ticked, emitQueue_pcb]
      rcases hp with hf | ⟨hn, hst⟩
      · exact absurd hf hs
      · refine .inr ⟨hn, ?_⟩
        dsimp only
        split
        · exact .inr rfl
        · exact hst
  | connecting => simp [Event.isCall] at he
  | bound => simp [Event.isCall] at he
  | listening => simp [Event.isCall] at he
  | sent _ _ _ hc =>
      have := hc.isCall
      rw [he] at this
      cases this
  | received _ hc => rw [he] at hc; cases hc
  | closing => simp [Event.isCall] at he

/-- As long as the slot is not handed out again it holds the number. -/
def Reserved (i : PcbId) (g : Nat) (m : UInt32) (t : Table) : Prop :=
  g ≤ t.gen i ∧ (t.gen i = g → (t.pcb i).Holds m)

theorem edit_reserved {w : World} {env : Env} {e : Event} {t t' : Table} {eff : List Effect}
    {i : PcbId} {g : Nat} {m : UInt32} (h : Edit w env e t t' eff) (he : e.isCall = false)
    (hr : Reserved i g m t) : Reserved i g m t' := by
  obtain ⟨hg, hp⟩ := hr
  cases h with
  | rewrite j p' _ hrw _ =>
      refine ⟨hg, fun h => ?_⟩
      by_cases hj : i = j
      · subst hj
        simpa using rewrites_holds hrw he (hp h)
      · simpa [hj] using hp h
  | allocate j p' _ hf _ =>
      by_cases hj : i = j
      · subst hj
        refine ⟨by simp; omega, fun h => ?_⟩
        simp only [Table.set_gen, Table.claim_gen_self] at h
        omega
      · exact ⟨by simpa [hj] using hg, fun h => by simpa [hj] using hp (by simpa [hj] using h)⟩
  | spent j hf tid l f hev => rw [hev] at he; cases he
  | release j _ _ _ =>
      refine ⟨by simpa using hg, fun h => ?_⟩
      rcases tcpPcbRelease_cases t j i with hz | ⟨-, hk⟩
      · exact .inl (by rw [hz]; rfl)
      · rw [hk]
        exact hp (by simpa using h)
  | enqueue j q s hsel hev hs hpar hrw hq =>
      refine ⟨hg, fun h => ?_⟩
      have hset : ((t.set j ((t.pcb j).otherwise env j s).pcb).pcb i).Holds m := by
        by_cases hj : i = j
        · subst hj
          simpa using rewrites_holds hrw he (hp h)
        · simpa [hj] using hp h
      unfold Table.pushBacklog
      by_cases hq : i = q
      · subst hq
        simpa [Pcb.Holds] using hset
      · simpa [hq] using hset
  | dequeue j c rest _ _ =>
      refine ⟨hg, fun h => ?_⟩
      by_cases hj : i = j
      · subst hj
        simpa [Pcb.Holds] using hp h
      · simpa [hj] using hp h
  | silent => exact ⟨hg, hp⟩

theorem cond_reserved {t : Table} {i j : PcbId} {g : Nat} {m : UInt32} {c : Cond}
    (hr : Reserved i g m t) : Reserved i g m (t.set j { t.pcb j with cond := c }) := by
  refine ⟨hr.1, fun h => ?_⟩
  by_cases hj : i = j
  · subst hj
    simpa [Pcb.Holds] using hr.2 h
  · simpa [hj] using hr.2 h

theorem step_reserved {w : World} {x : Env × Event} {i : PcbId} {g : Nat} {m : UInt32}
    (hx : x.2.isCall = false) (h : Reserved i g m w.tab) : Reserved i g m (w.step x).tab :=
  step_edits w x (fun t _ => Reserved i g m t) h (fun _ _ _ _ h => cond_reserved h)
    (fun _ _ _ _ _ h he => edit_reserved he hx h)

/-! ## The call -/

/-- How far the call of task `tid` has got: it waits with the first `sent`
bytes out, or it has returned. -/
inductive SendPhase (tid : TaskId) (i : PcbId) (data : List UInt8) (g : Nat) (w : World)
    (tr : List Emission) : Option Ret → Prop
  | waiting (sent : Nat) (woken : Bool) (n m : UInt32)
      (ht : w.tasks tid = some ⟨i, .send data sent, woken⟩) (hlt : sent < data.length)
      (hp : payload tr = data.take sent) (hc : Consecutive n tr m)
      (hr : Reserved i g m w.tab) : SendPhase tid i data g w tr none
  | returned (r : Ret) (ht : w.tasks tid = none)
      (hr : r.val = data.length → payload tr = data ∧ ∃ n m, Consecutive n tr m) :
      SendPhase tid i data g w tr (some r)

section Call
variable {tid : TaskId} {i : PcbId} {data : List UInt8} {g : Nat} {w : World} {env : Env}

/-- From `RETRY` to the next wait or the return. -/
theorem retry_phase {sent : Nat} {tr : List Emission} {n : UInt32} (ht : w.tasks tid = none)
    (hle : sent ≤ data.length) (hp : payload tr = data.take sent)
    (hc : (w.tab.pcb i).sends env.routes →
      w.tab.gen i = g ∧ Consecutive n tr (w.tab.pcb i).snd.nxt) :
    SendPhase tid i data g (w.finish tid (sendRetry env w.tab i data sent).result)
      (tr ++ (sendRetry env w.tab i data sent).trace)
      (sendRetry env w.tab i data sent).result.progress.answer := by
  have ho := sendRetry_outcome env w.tab i data sent
  generalize sendRetry env w.tab i data sent = r at ho
  cases ho with
  | refused =>
      refine .returned (.of (-1)) (by simp [World.finish, CallResult.ret, World.after, ht]) ?_
      intro h
      simp [Ret.of] at h
  | sending hs iface hr =>
      have hb := burst_bursts env iface.dev (w.tab.pcb i) data sent
      obtain ⟨hg, hc⟩ := hc (sends_of hs hr)
      set b := (w.tab.pcb i).burst env iface.dev data sent with hbdef
      have hkeep := burst_keeps hb
      have htrace (hstop : b.stop ≠ .failed) : payload (tr ++ b.trace) = data.take b.sent ∧
          Consecutive n (tr ++ b.trace) b.pcb.snd.nxt := by
        have hcov := burst_covers hb hle hstop
        have hmono := hcov.mono
        refine ⟨?_, hc.append hcov.seqs⟩
        rw [payload_append, hp, hcov.text, ← List.take_add]
        congr 1
        omega
      cases hstop : b.stop with
      | finished =>
          simp only [sendEnd, hstop]
          refine .returned _ (by simp [World.finish, World.after, ht]) fun _ => ?_
          obtain ⟨htext, hseqs⟩ := htrace (by simp [hstop])
          have hall := (burst_covers hb hle (by simp [hstop])).all hstop
          rw [hall, List.take_length] at htext
          exact ⟨htext, n, _, hseqs⟩
      | window =>
          simp only [sendEnd, hstop]
          obtain ⟨htext, hseqs⟩ := htrace (by simp [hstop])
          have hrest := (burst_covers hb hle (by simp [hstop])).rest hstop
          refine .waiting b.sent false n b.pcb.snd.nxt ?_ hrest htext hseqs ?_
          · simp [World.finish, World.sleep]
          · refine cond_reserved ⟨by simp [World.after, hg], fun _ => .inr ?_⟩
            have hst : b.pcb.state = (w.tab.pcb i).state := by rw [hkeep]
            simp only [World.after, Table.set_pcb_self, hst]
            refine ⟨trivial, .inl ?_⟩
            rcases hs with hs | hs <;> simp [hs, PcbState.synchronized]
      | failed =>
          simp only [sendEnd, hstop]
          refine .returned (.of (-1)) (by simp [World.finish, World.after, ht]) ?_
          intro h
          simp [Ret.of] at h
      | fuel => exact absurd hstop (burst_stop _ _ _ _ _)

theorem sendEntry_user {x : Env × Event} (hx : x.2 = .user tid (.send (tcpPcbId i) data))
    (ht : w.tasks tid = none) (hs : (w.tab.pcb i).state ≠ .free) :
    w.sendEntry tid x = some ⟨w.tab, i, data, 0⟩ := by
  have hget : tcpPcbGet w.tab (tcpPcbId i) = some i := tcpPcbGet_eq_some.mpr ⟨rfl, hs⟩
  simp [World.sendEntry, hx, ht, hget]

theorem sendEntry_resume {x : Env × Event} {sent : Nat} {woken : Bool}
    (hx : x.2 = .resume tid) (ht : w.tasks tid = some ⟨i, .send data sent, woken⟩) :
    w.sendEntry tid x = some ⟨(w.awake tid i).tab, i, data, sent⟩ := by
  simp [World.sendEntry, hx, ht]

/-- The call itself, up to its first wait or its return. -/
theorem user_phase {x : Env × Event} (hx : x.2 = .user tid (.send (tcpPcbId i) data))
    (ht : w.tasks tid = none) (hs : (w.tab.pcb i).state ≠ .free) :
    SendPhase tid i data (w.tab.gen i) (w.step x) (w.emitted tid x) (w.answer tid x) := by
  have hget : tcpPcbGet w.tab (tcpPcbId i) = some i := tcpPcbGet_eq_some.mpr ⟨rfl, hs⟩
  have hcall : (Command.send (tcpPcbId i) data).call x.1 w.tab =
      (sendRetry x.1 w.tab i data 0).result := by
    simp only [Command.call, tcpSend, hget]
  have hphase : SendPhase tid i data (w.tab.gen i)
      (w.finish tid (sendRetry x.1 w.tab i data 0).result)
      ([] ++ (sendRetry x.1 w.tab i data 0).trace)
      (sendRetry x.1 w.tab i data 0).result.progress.answer :=
    retry_phase ht (Nat.zero_le _) (by simp) fun _ => ⟨rfl, rfl⟩
  have hno : ¬ (w.tasks tid).isSome := by simp [ht]
  simpa only [World.step, World.emitted, World.answer, sendEntry_user hx ht hs, hx, callResult,
    if_neg hno, hcall, if_true, List.nil_append] using hphase

/-- The task runs on after a wait. -/
theorem resume_phase {x : Env × Event} {tr : List Emission} {sent : Nat} {woken : Bool}
    {n m : UInt32} (hx : x.2 = .resume tid)
    (ht : w.tasks tid = some ⟨i, .send data sent, woken⟩) (hlt : sent < data.length)
    (hp : payload tr = data.take sent) (hc : Consecutive n tr m) (hr : Reserved i g m w.tab)
    (hroom : Roomy tid g w x) :
    SendPhase tid i data g (w.step x) (tr ++ w.emitted tid x) (w.answer tid x) := by
  have hentry := sendEntry_resume hx ht
  have hnone : (w.awake tid i).tasks tid = none := by simp [World.awake]
  have hstate : ((w.awake tid i).tab.pcb i).state = (w.tab.pcb i).state := by
    simp [World.awake]
  have hnxt : ((w.awake tid i).tab.pcb i).snd.nxt = (w.tab.pcb i).snd.nxt := by
    simp [World.awake]
  have hphase : SendPhase tid i data g
      ((w.awake tid i).finish tid (sendRetry x.1 (w.awake tid i).tab i data sent).result)
      (tr ++ (sendRetry x.1 (w.awake tid i).tab i data sent).trace)
      (sendRetry x.1 (w.awake tid i).tab i data sent).result.progress.answer := by
    refine retry_phase hnone (Nat.le_of_lt hlt) hp fun hsend => (?_ : _ ∧ Consecutive n tr _)
    have hgen : (w.awake tid i).tab.gen i = g := (hroom _ hentry hsend hlt).2
    refine ⟨hgen, ?_⟩
    have hst : ((w.awake tid i).tab.pcb i).state.sending := by
      simp only [Pcb.sends, Bool.and_eq_true] at hsend
      exact hsend.1
    rw [hnxt, (hr.2 hgen).sending (hstate ▸ sending_cases hst)]
    exact hc
  simpa only [World.step, World.emitted, World.answer, hentry, hx, callResult, ht, Wait.retry,
    if_true] using hphase

theorem after_tasks_none {t : Table} {eff : List Effect} (h : w.tasks tid = none) :
    (w.after t eff).tasks tid = none := by
  simp [World.after, h]

theorem after_tasks_some {t : Table} {eff : List Effect} {b : Blocked}
    (h : w.tasks tid = some b) :
    ∃ woken, (w.after t eff).tasks tid = some { b with woken } :=
  ⟨(wake eff b).woken, by simp [World.after, h, wake]⟩

/-- One event between or after the waits. -/
theorem step_phase {x : Env × Event} {tr : List Emission} {ret : Option Ret}
    (h : SendPhase tid i data g w tr ret) (hx : Interleaved tid x) (hroom : Roomy tid g w x) :
    SendPhase tid i data g (w.step x) (tr ++ w.emitted tid x) (ret.or (w.answer tid x)) := by
  obtain ⟨env, e⟩ := x
  have other (hemit : w.emitted tid (env, e) = []) (hans : w.answer tid (env, e) = none)
      (hcall : e.isCall = false)
      (htasks : ∀ b, w.tasks tid = some b →
        ∃ woken, (w.step (env, e)).tasks tid = some { b with woken })
      (hidle : w.tasks tid = none → (w.step (env, e)).tasks tid = none) :
      SendPhase tid i data g (w.step (env, e)) (tr ++ w.emitted tid (env, e))
        (ret.or (w.answer tid (env, e))) := by
    rw [hemit, hans, List.append_nil, Option.or_none]
    cases h with
    | waiting sent woken n m ht hlt hp hc hr =>
        obtain ⟨woken', ht'⟩ := htasks _ ht
        exact .waiting sent woken' n m ht' hlt hp hc (step_reserved hcall hr)
    | returned r ht hr => exact .returned r (hidle ht) hr
  cases e with
  | user t c => exact absurd hx id
  | segment s =>
      exact other rfl rfl rfl (fun b hb => after_tasks_some hb) fun hn => after_tasks_none hn
  | timer =>
      exact other rfl rfl rfl (fun b hb => after_tasks_some hb) fun hn => after_tasks_none hn
  | resume t =>
      obtain rfl : t = tid := hx
      cases h with
      | waiting sent woken n m ht hlt hp hc hr =>
          rw [Option.none_or]
          exact resume_phase rfl ht hlt hp hc hr hroom
      | returned r ht hr =>
          have hstep : w.step (env, .resume t) = w := by
            simp only [World.step, callResult, ht]
          have hemit : w.emitted t (env, .resume t) = [] := by
            simp [World.emitted, World.sendEntry, ht]
          rw [hstep, hemit, List.append_nil, Option.some_or]
          exact .returned r ht hr

theorem run_phase (es : List (Env × Event)) : ∀ {w : World} {tr : List Emission}
    {ret : Option Ret}, SendPhase tid i data g w tr ret →
      Guarded World.step (fun w x => Interleaved tid x ∧ Roomy tid g w x) w es →
      SendPhase tid i data g (run World.step w es) (tr ++ w.emissions tid es)
        (ret.or (w.returned tid es)) := by
  induction es with
  | nil =>
      intro w tr ret h _
      simpa [World.emissions, World.returned] using h
  | cons x es ih =>
      intro w tr ret h hg
      have := ih (step_phase h hg.1.1 hg.1.2) hg.2
      simpa [World.emissions, World.returned, List.append_assoc, Option.or_assoc] using this

end Call

/-! ## Emissions -/

theorem emitted_within {w : World} {tid : TaskId} {g : Nat} {x : Env × Event}
    (hroom : Roomy tid g w x) : ∀ e ∈ w.emitted tid x,
      e.pcb.Within ∧ e.seg.data.length ≤ e.mtu - 40 := by
  intro e he
  unfold World.emitted at he
  cases hentry : w.sendEntry tid x with
  | none => simp [hentry] at he
  | some r =>
      simp only [hentry] at he
      have ho := sendRetry_outcome x.1 r.tab r.pcb r.data r.sent
      generalize sendRetry x.1 r.tab r.pcb r.data r.sent = res at ho he
      cases ho with
      | refused => simp at he
      | sending hs iface hr =>
          have hb := burst_bursts x.1 iface.dev (r.tab.pcb r.pcb) r.data r.sent
          have htrace : (sendEnd r.tab r.pcb r.data
              ((r.tab.pcb r.pcb).burst x.1 iface.dev r.data r.sent)).trace =
              ((r.tab.pcb r.pcb).burst x.1 iface.dev r.data r.sent).trace := by
            unfold sendEnd
            split <;> rfl
          rw [htrace] at he
          have hlt : r.sent < r.data.length := by
            refine Nat.lt_of_not_le fun hle => ?_
            generalize (r.tab.pcb r.pcb).burst x.1 iface.dev r.data r.sent = b at hb he
            cases hb with
            | finished => simp at he
            | window _ _ _ h => omega
            | failed _ _ _ h => omega
            | next _ _ _ h => omega
          exact ⟨burst_within hb (hroom r hentry (sends_of hs hr) hlt).1 e he, burst_mss hb e he⟩

theorem emissions_within {tid : TaskId} {g : Nat} (es : List (Env × Event)) : ∀ {w : World},
    Guarded World.step (Roomy tid g) w es → ∀ e ∈ w.emissions tid es,
      e.pcb.Within ∧ e.seg.data.length ≤ e.mtu - 40 := by
  induction es with
  | nil => intro w _ e he; simp [World.emissions] at he
  | cons x es ih =>
      intro w hg e he
      rcases List.mem_append.mp he with he | he
      · exact emitted_within hg.1 e he
      · exact ih hg.2 e he

/-- **The sender respects the window and loses no byte.**  A call of
`tcp_send` on a connection, with whatever arrives at its waits: while the
flight fits the window at every entry of the loop, and the slot has not passed
to another connection, the flight fits the window right after each segment, no
segment is longer than the MTU allows, and if the call returns the length of
its data then the segments carry exactly these bytes in consecutive ranges. -/
theorem send_within_window (w : World) (tid : TaskId) (i : PcbId) (data : List UInt8)
    (x : Env × Event) (es : List (Env × Event))
    (hcall : x.2 = .user tid (.send (tcpPcbId i) data)) (hidle : w.tasks tid = none)
    (hs : (w.tab.pcb i).state = .established ∨ (w.tab.pcb i).state = .closeWait)
    (hwaits : Guarded World.step (fun _ y => Interleaved tid y) (w.step x) es)
    (hroom : Guarded World.step (Roomy tid (w.tab.gen i)) w (x :: es)) :
    (∀ e ∈ w.emissions tid (x :: es),
      e.pcb.flight ≤ e.pcb.snd.wnd.toNat ∧ e.seg.data.length ≤ e.mtu - 40) ∧
    ∀ r, w.returned tid (x :: es) = some r → r.val = data.length →
      payload (w.emissions tid (x :: es)) = data ∧
        ∃ n m, Consecutive n (w.emissions tid (x :: es)) m := by
  refine ⟨fun e he => emissions_within (x :: es) hroom e he, fun r hr hval => ?_⟩
  have hfree : (w.tab.pcb i).state ≠ .free := by
    rcases hs with hs | hs <;> rw [hs] <;> simp
  have h := run_phase es (user_phase hcall hidle hfree) (guarded_and.mpr ⟨hwaits, hroom.2⟩)
  change SendPhase tid i data (w.tab.gen i) (run World.step (w.step x) es)
    (w.emissions tid (x :: es)) (w.returned tid (x :: es)) at h
  rw [hr] at h
  cases h with
  | returned _ _ hres => exact hres hval

/-! ## A window that shrinks -/

/-- A default route by a device with an MTU of 1500. -/
def sampleRoute : IpRoute :=
  ⟨0, 0, 0, ⟨⟨1500, by decide⟩, sampleLocal.addr⟩⟩

/-- Task 2 sends the bytes on the sample connection. -/
def send2 (data : List UInt8) : Env × Event :=
  (.ideal .zero 0 [sampleRoute], .user 2 (.send 0 data))

theorem send_within_window_sample :
    payload (afterHandshake.emissions 2 [send2 [1, 2, 3]]) = [1, 2, 3] :=
  ((send_within_window afterHandshake 2 0 [1, 2, 3] (send2 [1, 2, 3]) [] rfl rfl
      (.inl (by decide +kernel)) trivial (by decide +kernel)).2
    ⟨3, [], none⟩ (by decide +kernel) rfl).1

/-- The peer acknowledges one byte of ten and leaves a window of five. -/
def shrink : Env × Event :=
  (.ideal .zero 0 [], .segment { peerSegment 101 2 flgAck [] with wnd := 5 })

/-- Nine bytes are in flight against a window of five, and one more goes out. -/
theorem send_beyond_window :
    ∃ e ∈ (run World.step afterHandshake [send2 (List.replicate 10 0), shrink]).emissions 2
        [send2 [0]],
      e.pcb.flight = 10 ∧ e.pcb.snd.wnd = 5 := by
  have h : ((run World.step afterHandshake [send2 (List.replicate 10 0), shrink]).emissions 2
      [send2 [0]]).any (fun e => e.pcb.flight = 10 ∧ e.pcb.snd.wnd = 5) := by decide +kernel
  simpa using h

end Laplus.Tcp
