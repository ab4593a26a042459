/-
# `Laplus.Tcp.Handshake` — both ends agree on the initial sequence numbers

Two endpoints, each with one pcb opened by `tcp_open_rfc793`, and a network
that loses, repeats and reorders what they emit.  A pcb goes through four
phases: it listens, it has sent its SYN and heard nothing, it has heard the
peer's number, or its slot is released.  A segment that acknowledges
something vouches for its sender: the sender knows the other's number and
will not forget it while it holds its pcb.
-/
import Laplus.Lib.Network
import Laplus.Tcp.SendWindow

namespace Laplus.Tcp

open Net Lib

/-! ## Endpoints -/

/-- An endpoint: its TCP and the initial sequence number its pcb has chosen,
which it keeps when the slot is released. -/
structure Host where
  world : World
  isn : Option UInt32

/-- The pcb of the endpoint: the first slot `tcp_pcb_alloc` hands out. -/
def Host.pcb (h : Host) : Pcb := h.world.tab.pcb 0

/-- The number a pcb has chosen; a listening one has chosen none yet. -/
def Pcb.isn (p : Pcb) (old : Option UInt32) : Option UInt32 :=
  match p.state with
  | .free | .listen => old
  | _ => some p.iss

/-- The segment handed to `ip_output`. -/
def Effect.segment : Effect → Option TcpSegment
  | .output _ s | .reply s => some s
  | _ => none

/-- The segments of these effects. -/
def segments (eff : List Effect) : List TcpSegment := eff.filterMap Effect.segment

/-- The segments of an event that `ip_output` takes. -/
def World.transmitted (w : World) (x : Env × Event) : List TcpSegment :=
  (segments (w.effects x)).filter (tcpOutputSegment x.1)

/-- An endpoint as a party of a network. -/
def host : Party Host (Env × Event) TcpSegment where
  step h x := ⟨h.world.step x, ((h.world.step x).tab.pcb 0).isn h.isn⟩
  emits h x := h.world.transmitted x
  delivers x := x.2.arriving

def Host.boot : Host := ⟨.boot, none⟩

/-- `tcp_open_rfc793`, active or passive. -/
def Command.opens : Command → Bool
  | .openPassive _ _ | .openActive _ _ => true
  | _ => false

/-- Task 1 of each endpoint has opened its pcb. -/
def opened (x : Bool → Env × Command) : Duplex Host TcpSegment where
  party k := host.step .boot ((x k).1, .user 1 (x k).2)
  out k := host.emits .boot ((x k).1, .user 1 (x k).2)

/-- No user command any more, and `random()` stays below `2^31`. -/
def Undisturbed (x : Env × Event) : Prop :=
  (∀ tid c, x.2 ≠ .user tid c) ∧ x.1.random.toNat < 2 ^ 31

instance (x : Env × Event) : Decidable (Undisturbed x) :=
  match x with
  | (env, .user tid c) => isFalse fun h => h.1 tid c rfl
  | (env, .resume tid) => decidable_of_iff (env.random.toNat < 2 ^ 31) (by simp [Undisturbed])
  | (env, .segment s) => decidable_of_iff (env.random.toNat < 2 ^ 31) (by simp [Undisturbed])
  | (env, .timer) => decidable_of_iff (env.random.toNat < 2 ^ 31) (by simp [Undisturbed])

/-! ## What a pcb knows -/

/-- The pcb has the peer's number `m`, unless it is released. -/
def Pcb.Knows (p : Pcb) (m : UInt32) : Prop :=
  p.state = .free ∨
    ((p.state = .synReceived ∨ p.state = .established ∨ p.state = .closed) ∧ p.irs = m)

/-- What holds of a pcb from its SYN on. -/
structure Pcb.Begun (p : Pcb) : Prop where
  iss : p.iss.toNat + 1 < 2 ^ 32
  nxt : p.snd.nxt = p.iss + 1
  wnd : p.rcv.wnd = 8192
  parent : p.parent = none

/-- The SYN is out and nothing has been heard. -/
structure Pcb.Calling (p : Pcb) : Prop extends p.Begun where
  state : p.state = .synSent ∨ p.state = .closed
  una : p.snd.una = p.iss
  queue : ∀ e ∈ p.queue, e.data = [] ∧ e.seq = p.iss ∧ e.flg = flgSyn

/-- The peer's number `m` has been heard. -/
structure Pcb.Heard (p : Pcb) (m : UInt32) : Prop extends p.Begun where
  state : p.state = .synReceived ∨ p.state = .established ∨ p.state = .closed
  pending : p.state = .synReceived → p.snd.una = p.iss
  acked : p.state = .established → p.snd.una = p.iss + 1
  irs : p.irs = m
  rcv : p.rcv.nxt = m + 1
  queue : ∀ e ∈ p.queue, e.data = [] ∧ e.seq = p.iss ∧
    (e.flg = flgSyn ∨ e.flg = flgSyn ||| flgAck)

/-- The phases of an opening, `own` and `peer` the numbers chosen on both sides. -/
inductive Phase (own peer : Option UInt32) (p : Pcb) : Prop
  | gone (h : p.core = .zero)
  | listening (hs : p.state = .listen) (hm : p.mode ≠ .socket) (hp : p.parent = none)
      (hq : p.queue = []) (ho : own = none)
  | calling (h : p.Calling) (ho : own = some p.iss)
  | heard (m : UInt32) (h : p.Heard m) (ho : own = some p.iss) (hp : peer = some m)

/-- What a segment of the pcb `p` tells: its SYN has the number `own`, and its
acknowledgement covers the peer's SYN and nothing else. -/
structure Genuine (own peer : Option UInt32) (p : Pcb) (s : TcpSegment) : Prop where
  text : s.data = []
  fin : flgIsSet s.flg flgFin = false
  syn : flgIsSet s.flg flgSyn → flgIsSet s.flg flgRst = false → own = some s.seq
  ack : flgIsSet s.flg flgAck → flgIsSet s.flg flgRst = false →
    ∃ m, peer = some m ∧ s.ack = m + 1 ∧ p.Knows m

/-- The pcb `p` becomes `p'` and the segments of `eff` go out; `q` is the pcb of
the peer. -/
structure Advances (own peer : Option UInt32) (q p p' : Pcb) (eff : List Effect) : Prop where
  phase : Phase (p'.isn own) peer p'
  isn : ∀ n, own = some n → p'.isn own = some n
  knows : ∀ m, p.Knows m → p'.Knows m
  known : p'.state = .established → q.Knows p'.iss
  out : ∀ s ∈ segments eff, Genuine (p'.isn own) peer p' s

section Phases
variable {own peer own' peer' : Option UInt32} {p p' p'' q : Pcb} {eff eff' : List Effect}
  {s : TcpSegment}

theorem Phase.isn (h : Phase own peer p) : p.isn own = own := by
  cases h with
  | gone h =>
      have : p.state = .free := congrArg Pcb.state h
      simp [Pcb.isn, this]
  | listening hs => simp [Pcb.isn, hs]
  | calling h ho => rcases h.state with hs | hs <;> simp [Pcb.isn, hs, ho]
  | heard m h ho => rcases h.state with hs | hs | hs <;> simp [Pcb.isn, hs, ho]

theorem Phase.mono (h : Phase own peer p) (hp : ∀ m, peer = some m → peer' = some m) :
    Phase own peer' p := by
  cases h with
  | gone h => exact .gone h
  | listening hs hm hpar hq ho => exact .listening hs hm hpar hq ho
  | calling h ho => exact .calling h ho
  | heard m h ho hm => exact .heard m h ho (hp m hm)

/-- A pcb in SYN-SENT calls. -/
theorem Phase.calls (h : Phase own peer p) (hs : p.state = .synSent) :
    p.Calling ∧ own = some p.iss := by
  cases h with
  | gone h => rw [show p.state = .free from congrArg Pcb.state h] at hs; cases hs
  | listening h => rw [hs] at h; cases h
  | calling h ho => exact ⟨h, ho⟩
  | heard m h => rcases h.state with h | h | h <;> rw [hs] at h <;> cases h

/-- A pcb in LISTEN is no socket's, and has sent nothing. -/
theorem Phase.listens (h : Phase own peer p) (hs : p.state = .listen) :
    p.mode ≠ .socket ∧ p.queue = [] ∧ own = none := by
  cases h with
  | gone h => rw [show p.state = .free from congrArg Pcb.state h] at hs; cases hs
  | listening _ hm _ hq ho => exact ⟨hm, hq, ho⟩
  | calling h => rcases h.state with h | h <;> rw [hs] at h <;> cases h
  | heard m h => rcases h.state with h | h | h <;> rw [hs] at h <;> cases h

/-- Nobody is the child of a listener. -/
theorem Phase.orphan (h : Phase own peer p) : p.parent = none := by
  cases h with
  | gone h =>
      have hpar : p.core.parent = none := by rw [h]; rfl
      exact hpar
  | listening _ _ hp => exact hp
  | calling h => exact h.parent
  | heard m h => exact h.parent

theorem Genuine.mono (h : Genuine own peer p s) (ho : ∀ n, own = some n → own' = some n)
    (hp : ∀ m, peer = some m → peer' = some m) (hk : ∀ m, p.Knows m → p'.Knows m) :
    Genuine own' peer' p' s where
  text := h.text
  fin := h.fin
  syn hf hr := ho _ (h.syn hf hr)
  ack ha hr := by
    obtain ⟨m, hm, hs, hkn⟩ := h.ack ha hr
    exact ⟨m, hp m hm, hs, hk m hkn⟩

/-- A reset tells nothing. -/
theorem genuine_reset (hd : s.data = []) (hr : flgIsSet s.flg flgRst)
    (hf : flgIsSet s.flg flgFin = false) : Genuine own peer p s where
  text := hd
  fin := hf
  syn _ h := by rw [hr] at h; cases h
  ack _ h := by rw [hr] at h; cases h

theorem resets_genuine (h : OnlyResets eff) : ∀ s ∈ segments eff, Genuine own peer p s := by
  intro s hs
  obtain ⟨x, hx, hxs⟩ := List.mem_filterMap.mp hs
  obtain ⟨s', ⟨i, rfl⟩ | rfl, hd, hr, hf⟩ := h x hx
  · cases hxs
    exact genuine_reset hd hr hf
  · cases hxs
    exact genuine_reset hd hr hf

theorem Advances.trans (h : Advances own peer q p p' eff) (hi : p'.isn own = own)
    (h' : Advances own peer q p' p'' eff') : Advances own peer q p p'' (eff ++ eff') where
  phase := h'.phase
  isn := h'.isn
  knows m hm := h'.knows m (h.knows m hm)
  known := h'.known
  out s hs := by
    rw [segments, List.filterMap_append] at hs
    rcases List.mem_append.mp hs with hs | hs
    · have hs := h.out s hs
      rw [hi] at hs
      exact hs.mono h'.isn (fun _ => id) h'.knows
    · exact h'.out s hs

/-- The pcb stays as it is. -/
theorem Phase.stays (h : Phase own peer p) (hk : p.state = .established → q.Knows p.iss)
    (ho : ∀ s ∈ segments eff, Genuine own peer p s) : Advances own peer q p p eff where
  phase := by rwa [h.isn]
  isn _ hn := by rw [h.isn, hn]
  knows _ hm := hm
  known := hk
  out s hs := by
    rw [h.isn]
    exact ho s hs

/-- The slot is released. -/
theorem Phase.ends (hp : p'.core = .zero) (ho : OnlyResets eff) :
    Advances own peer q p p' eff := by
  have hs : p'.state = .free := congrArg Pcb.state hp
  have hi : p'.isn own = own := by simp [Pcb.isn, hs]
  refine ⟨.gone hp, fun n hn => by rw [hi, hn], fun m _ => .inl hs, fun h => ?_, ?_⟩
  · rw [hs] at h
    cases h
  · exact resets_genuine ho

theorem Genuine.of_ack (hd : s.data = []) (hf : flgIsSet s.flg flgFin = false)
    (hs : flgIsSet s.flg flgSyn → own = some s.seq) {m : UInt32} (hp : peer = some m)
    (ha : s.ack = m + 1) (hk : p.Knows m) : Genuine own peer p s where
  text := hd
  fin := hf
  syn h _ := hs h
  ack _ _ := ⟨m, hp, ha, hk⟩

theorem Pcb.Heard.knows {m : UInt32} (h : p.Heard m) : p.Knows m := .inr ⟨h.state, h.irs⟩

/-- Nothing is known before the peer is heard. -/
theorem not_knows (hs : p.state = .listen ∨ p.state = .synSent) (m : UInt32) : ¬ p.Knows m := by
  rintro (h | ⟨h, -⟩)
  · rcases hs with hs | hs <;> rw [hs] at h <;> cases h
  · rcases hs with hs | hs <;> rw [hs] at h <;> rcases h with h | h | h <;> cases h

end Phases

/-! ## A segment -/

section Segment
variable {env : Env} {i : PcbId} {own peer : Option UInt32} {p q : Pcb} {s : TcpSegment}

theorem flag_bits : flgIsSet flgAck flgSyn = false ∧ flgIsSet flgAck flgFin = false ∧
    flgIsSet flgSyn flgAck = false ∧ flgIsSet flgSyn flgFin = false ∧
    flgIsSet (flgSyn ||| flgAck) flgFin = false := by decide

/-- An acknowledgement of the handshake covers the SYN. -/
theorem ack_next {n a : UInt32} (hn : n.toNat + 1 < 2 ^ 32) (hlo : n < a) (hhi : a ≤ n + 1) :
    a = n + 1 := by
  apply UInt32.toNat_inj.mp
  have h₁ := UInt32.lt_iff_toNat_lt.mp hlo
  have h₂ := UInt32.le_iff_toNat_le.mp hhi
  rw [UInt32.toNat_add, UInt32.toNat_one, Nat.mod_eq_of_lt hn] at h₂ ⊢
  omega

theorem lt_next {n : UInt32} (hn : n.toNat + 1 < 2 ^ 32) : n < n + 1 := by
  rw [UInt32.lt_iff_toNat_lt, UInt32.toNat_add, UInt32.toNat_one, Nat.mod_eq_of_lt hn]
  exact Nat.lt_succ_self _

/-- Without text and FIN the last two stages do nothing. -/
theorem arrivesText_bare {seg : SegmentInfo} {flags : UInt8} (hf : flgIsSet flags flgFin = false)
    (o : Outcome) : arrivesText env i seg flags [] o = o := by
  have htext : textStage env i seg [] o = o := by
    unfold textStage
    cases h : o.pcb.state <;> simp [Pcb.takesText, h]
  rw [arrivesText, htext, arrivesFin, if_neg (by simp [hf])]

/-- An acknowledgement sent by a pcb that has heard the peer. -/
theorem Pcb.Heard.ack_genuine {m : UInt32} (h : p.Heard m) (ho : own = some p.iss)
    (hp : peer = some m) {flg : UInt8} (hflg : flg = flgAck ∨ flg = flgSyn ||| flgAck)
    (p₀ : Pcb) (hiss : p₀.iss = p.iss) (hrcv : p₀.rcv.nxt = p.rcv.nxt) :
    Genuine own peer p (p₀.segment flg []) := by
  have hfin : flgIsSet flg flgFin = false := by
    rcases hflg with rfl | rfl
    · exact flag_bits.2.1
    · exact flag_bits.2.2.2.2
  refine .of_ack rfl hfin (fun hs => ?_) hp (hrcv.trans h.rcv) h.knows
  have hseq : (p₀.segment flg []).seq = p₀.iss := if_pos hs
  rw [ho, hseq, hiss]

/-- A pcb that has begun and hears the peer's number. -/
theorem Pcb.Begun.hears {p p' : Pcb} {m : UInt32} (h : p.Begun) (hiss : p'.iss = p.iss)
    (hnxt : p'.snd.nxt = p.snd.nxt) (hrcv : p'.rcv = ⟨m + 1, p.rcv.wnd⟩) (hirs : p'.irs = m)
    (hpar : p'.parent = p.parent)
    (hs : p'.state = .synReceived ∧ p'.snd.una = p.iss ∨
      p'.state = .established ∧ p'.snd.una = p.iss + 1)
    (hq : ∀ e ∈ p'.queue, e.data = [] ∧ e.seq = p.iss ∧
      (e.flg = flgSyn ∨ e.flg = flgSyn ||| flgAck)) : p'.Heard m where
  iss := by rw [hiss]; exact h.iss
  nxt := by rw [hnxt, hiss, h.nxt]
  wnd := by rw [hrcv]; exact h.wnd
  parent := hpar.trans h.parent
  state := hs.elim (fun h => .inl h.1) fun h => .inr (.inl h.1)
  pending hst := by
    rcases hs with ⟨-, h⟩ | ⟨h, -⟩
    · rw [h, hiss]
    · rw [hst] at h
      cases h
  acked hst := by
    rcases hs with ⟨h, -⟩ | ⟨-, h⟩
    · rw [hst] at h
      cases h
    · rw [h, hiss]
  irs := hirs
  rcv := by rw [hrcv]
  queue := by rwa [hiss]

/-- A pcb that hears the peer moves on, with an acknowledgement. -/
theorem Pcb.Heard.advances {p p' : Pcb} {m : UInt32} {eff : List Effect} (h : p'.Heard m)
    (ho : ∀ n, own = some n → n = p'.iss) (hp : peer = some m) (hk : ∀ n, ¬ p.Knows n)
    (hknown : p'.state = .established → q.Knows p'.iss)
    (hout : ∀ s ∈ segments eff, Genuine (some p'.iss) peer p' s) :
    Advances own peer q p p' eff := by
  have hi : p'.isn own = some p'.iss := by
    rcases h.state with hs | hs | hs <;> simp [Pcb.isn, hs]
  refine ⟨?_, ?_, fun n hn => absurd hn (hk n), hknown, ?_⟩
  · rw [hi]
    exact .heard m h rfl hp
  · intro n hn
    rw [hi, ho n hn]
  · rwa [hi]

/-- The peer's SYN arrives in SYN-SENT. -/
theorem synSent_advances (hph : Phase own peer p) (hs : p.state = .synSent)
    (hg : Genuine peer own q s) (hr : (p.synSentOutcome env i s).released = false) :
    Advances own peer q p (p.synSentOutcome env i s).pcb (p.synSentOutcome env i s).effects := by
  have hh : SynSentHandled env i s.info s.flg s.foreignEp s.localEp p
      (p.synSentOutcome env i s) := arrivesSynSent_handled _ _ _ _ _ _ _
  obtain ⟨hc, ho⟩ := hph.calls hs
  have hne : p.state = .established → q.Knows p.iss := by
    rw [hs]
    intro h
    cases h
  generalize p.synSentOutcome env i s = o at hh hr
  cases hh with
  | dropped => exact hph.stays hne (by simp [segments])
  | refused => exact hph.stays hne (resets_genuine (resetReply_onlyResets _ _ _))
  | reset => simp at hr
  | taken hbad hrst hsyn o _ _ ht =>
      have hm : peer = some s.seq := hg.syn hsyn hrst
      -- what the SYN leaves of the pcb
      set p₁ := synSentSyn p s.info (synSentAcceptable p s.info s.flg) with hp₁
      have hkeep : p₁.iss = p.iss ∧ p₁.snd.nxt = p.snd.nxt ∧ p₁.rcv = ⟨s.seq + 1, p.rcv.wnd⟩ ∧
          p₁.irs = s.seq ∧ p₁.parent = p.parent ∧ p₁.queue ⊆ p.queue ∧
          p₁.snd.una = if synSentAcceptable p s.info s.flg then s.ack else p.snd.una := by
        rw [hp₁, synSentSyn_eq]
        refine ⟨rfl, rfl, rfl, rfl, rfl, ?_, rfl⟩
        split
        · exact cleanup_subset _ _
        · exact fun _ h => h
      obtain ⟨hiss, hnxt, hrcv, hirs, hpar, hqueue, huna⟩ := hkeep
      have hq (e : QueueEntry) (he : e ∈ p₁.queue) : e.data = [] ∧ e.seq = p.iss ∧
          (e.flg = flgSyn ∨ e.flg = flgSyn ||| flgAck) := by
        obtain ⟨h₁, h₂, h₃⟩ := hc.queue e (hqueue he)
        exact ⟨h₁, h₂, .inl h₃⟩
      have hown (n : UInt32) (hn : own = some n) : n = p₁.iss := by
        rw [ho] at hn
        cases hn
        exact hiss.symm
      cases ht with
      | established hlow heq heff =>
          -- only an acknowledgement of our SYN takes `snd.una` past `iss`
          have hacc : synSentAcceptable p s.info s.flg := by
            by_contra hacc
            rw [huna, if_neg hacc, hiss, hc.una] at hlow
            exact absurd hlow (UInt32.lt_irrefl _)
          rw [huna, if_pos hacc, hiss] at hlow
          rw [if_pos hacc] at huna
          simp only [synSentAcceptable, Bool.and_eq_true, decide_eq_true_eq] at hacc
          have hack : s.ack = p.iss + 1 := ack_next hc.iss hlow (hc.nxt ▸ hacc.2.2)
          have hheard : (p₁.synEstablished s.info).Heard s.seq :=
            hc.toBegun.hears hiss hnxt hrcv hirs hpar (.inr ⟨rfl, huna.trans hack⟩) hq
          rw [heq, heff]
          refine hheard.advances hown hm (not_knows (.inr hs)) (fun _ => ?_) ?_
          · obtain ⟨n, hn, -, hkn⟩ := hg.ack hacc.1 hrst
            rw [hown n hn] at hkn
            exact hkn
          · intro s' hs'
            rw [show s' = p₁.segment flgAck [] by simpa [segments, Effect.segment] using hs']
            exact hheard.ack_genuine rfl hm (.inl rfl) p₁ rfl rfl
      | crossed hlow heq heff =>
          have huna' : p₁.snd.una = p.iss := by
            rw [hiss] at hlow
            rw [huna] at hlow ⊢
            split at hlow
            · rename_i hacc
              simp only [synSentAcceptable, Bool.and_eq_true, decide_eq_true_eq] at hacc
              rw [if_pos (by simp [synSentAcceptable, hacc])]
              exact UInt32.le_antisymm (UInt32.not_lt.mp hlow) (hc.una ▸ hacc.2.1)
            · rename_i hacc
              rw [if_neg hacc]
              exact hc.una
          have hheard : (p₁.synCrossed env).Heard s.seq := by
            refine hc.toBegun.hears hiss hnxt hrcv hirs hpar (.inl ⟨rfl, huna'⟩) fun e he => ?_
            simp only [Pcb.synCrossed, Pcb.queueAfter] at he
            split at he
            · rcases List.mem_append.mp he with he | he
              · exact hq e he
              · rw [List.mem_singleton.mp he]
                exact ⟨rfl, hiss, .inr rfl⟩
            · exact hq e he
          rw [heq, heff]
          refine hheard.advances hown hm (not_knows (.inr hs)) (fun h => by cases h) ?_
          intro s' hs'
          rw [show s' = p₁.segment (flgSyn ||| flgAck) [] by
            simpa [segments, Effect.segment] using hs']
          exact hheard.ack_genuine rfl hm (.inr rfl) p₁ rfl rfl

/-- A pcb that has heard the peer goes on. -/
theorem Pcb.Heard.continues {p p' : Pcb} {m : UInt32} {eff : List Effect} (h : p.Heard m)
    (h' : p'.Heard m) (hiss : p'.iss = p.iss) (ho : own = some p.iss) (hp : peer = some m)
    (hknown : p'.state = .established → q.Knows p'.iss)
    (hout : ∀ s ∈ segments eff, Genuine own peer p' s) : Advances own peer q p p' eff := by
  have hph : Phase own peer p' := .heard m h' (by rw [ho, hiss]) hp
  refine ⟨by rwa [hph.isn], fun n hn => by rw [hph.isn, hn], ?_, hknown, by rwa [hph.isn]⟩
  rintro n (hn | ⟨-, hn⟩)
  · rcases h.state with hs | hs | hs <;> rw [hs] at hn <;> cases hn
  · exact .inr ⟨h'.state, h'.irs.trans (h.irs.symm.trans hn)⟩

/-- The history does not matter. -/
theorem Pcb.Heard.sending {p : Pcb} {m : UInt32} (h : p.Heard m) (s : TcpSegment) :
    (p.sending s).Heard m :=
  ⟨⟨h.iss, h.nxt, h.wnd, h.parent⟩, h.state, h.pending, h.acked, h.irs, h.rcv, h.queue⟩

/-- A segment reaches a pcb that has heard the peer. -/
theorem otherwise_advances {m : UInt32} (hh : p.Heard m) (ho : own = some p.iss)
    (hp : peer = some m) (hs : p.state ≠ .closed) (hg : Genuine peer own q s)
    (hk : p.state = .established → q.Knows p.iss)
    (hr : (p.otherwise env i s).released = false) :
    Advances own peer q p (p.otherwise env i s).pcb (p.otherwise env i s).effects := by
  have hph : Phase own peer p := .heard m hh ho hp
  have hhand : Handled env i s.info s.flg s.data s.foreignEp s.localEp p
      (p.otherwise env i s) := arrivesOtherwise_handled _ _ _ _ _ _ _ _
  generalize p.otherwise env i s = o at hhand hr
  cases hhand with
  | dropped => exact hph.stays hk (by simp [segments])
  | answered =>
      have hpcb : ((Outcome.start p).output env i flgAck).pcb = p.sending (p.segment flgAck []) := by
        rw [Outcome.output_pcb, tcpOutput_pcb, Outcome.start_pcb, queueAfter_ack]
        rfl
      rw [hpcb]
      refine hh.continues (hh.sending _) rfl ho hp hk ?_
      intro s' hs'
      rw [show s' = p.segment flgAck [] by simpa [segments, Effect.segment] using hs']
      exact (hh.sending _).ack_genuine ho hp (.inl rfl) p rfl rfl
  | refused => exact hph.stays hk (resets_genuine (resetReply_onlyResets _ _ _))
  | reset => simp at hr
  | processed ha o hpass =>
      rw [hg.text, arrivesText_bare hg.fin]
      cases hpass with
      | opened hst hlo hhi =>
          have hbits : flgIsSet s.flg flgAck ∧ flgIsSet s.flg flgRst = false := by
            simp only [Pcb.admits, hst, PcbState.synchronized, Bool.and_eq_true,
              Bool.not_true, Bool.false_or, Bool.not_eq_true'] at ha
            exact ⟨ha.2, ha.1.1.2⟩
          obtain ⟨n, hn, hack, hkn⟩ := hg.ack hbits.1 hbits.2
          rw [ho] at hn
          cases hn
          have hfresh : { p with state := .established }.freshAck s.info := by
            have hlt : p.snd.una < s.ack := by
              rw [hh.pending hst, hack]
              exact lt_next hh.iss
            have hle : s.ack ≤ p.snd.nxt := hhi
            simp [Pcb.freshAck, TcpSegment.info, hlt, hle]
          have hheard : ({ p with state := .established }.acked s.info).Heard m := by
            rw [Pcb.acked_fresh hfresh]
            refine hh.toBegun.hears rfl (updateWindow_nxt _ _) ?_ hh.irs rfl
              (.inr ⟨rfl, (updateWindow_una _ _).trans hack⟩)
              fun e he => hh.queue e (cleanup_subset _ _ he)
            show p.rcv = ⟨m + 1, p.rcv.wnd⟩
            rw [← hh.rcv]
          refine hh.continues hheard rfl ho hp (fun _ => hkn) ?_
          simp [segments, establish, hh.parent, Effect.segment]
      | shared hst hb =>
          have hest : p.state = .established := by
            rcases hh.state with h | h | h
            · rw [h] at hst; cases hst
            · exact h
            · exact absurd h hs
          have hstale : p.freshAck s.info = false := by
            simp [Pcb.freshAck, hh.acked hest, hh.nxt, TcpSegment.info]
          rw [Pcb.acked_stale hstale]
          have hself : ackedFin env i s.info ((Outcome.start p).setPcb p) = .start p := by
            simp [ackedFin, hest, Outcome.start, Outcome.setPcb]
          rw [hself]
          exact hph.stays hk (by simp [segments])
      | timeWait hst => rcases hh.state with h | h | h <;> rw [h] at hst <;> cases hst
      | unused hst =>
          rcases hh.state with h | h | h
          · rw [h] at hst; cases hst
          · rw [h] at hst; cases hst
          · exact absurd h hs

/-- A SYN reaches a listening pcb. -/
theorem passive_advances (hph : Phase own peer p) (hs : p.state = .listen)
    (hg : Genuine peer own q s) (hf : flgIsSet s.flg flgSyn) (hr : flgIsSet s.flg flgRst = false)
    (hrand : env.random.toNat < 2 ^ 31) :
    Advances own peer q p (p.synTaken env i s).pcb (p.synTaken env i s).effects := by
  obtain ⟨-, hq, ho⟩ := hph.listens hs
  have hpar := hph.orphan
  have hm : peer = some s.seq := hg.syn hf hr
  have hheard : (p.synTaken env i s).pcb.Heard s.seq := by
    rw [synTaken_pcb]
    refine ⟨⟨?_, rfl, rfl, hpar⟩, .inl rfl, fun _ => rfl, fun h => ?_, rfl, rfl, fun e he => ?_⟩
    · show env.random.toNat + 1 < 2 ^ 32
      omega
    · cases h
    · have he : e ∈ (p.synTaking env s).queueAfter env (env.calloc 0) (flgSyn ||| flgAck) [] := he
      unfold Pcb.queueAfter at he
      split at he
      · rcases List.mem_append.mp he with he | he
        · rw [show (p.synTaking env s).queue = [] from hq] at he
          cases he
        · rw [List.mem_singleton.mp he]
          exact ⟨rfl, rfl, .inr rfl⟩
      · rw [show (p.synTaking env s).queue = [] from hq] at he
        cases he
  refine hheard.advances (fun n hn => ?_) hm (not_knows (.inl hs)) (fun h => ?_) ?_
  · rw [ho] at hn
    cases hn
  · rw [synTaken_pcb] at h
    cases h
  · intro s' hs'
    rw [synTaken_effects] at hs'
    rw [show s' = (p.synTaking env s).segment (flgSyn ||| flgAck) [] by
      simpa [segments, Effect.segment] using hs']
    refine hheard.ack_genuine rfl hm (.inr rfl) _ ?_ ?_ <;> rw [synTaken_pcb]

end Segment

/-! ## The timer -/

section Tick
variable {env : Env} {i : PcbId} {own peer : Option UInt32} {p q : Pcb}

/-- What is sent again has been sent before, with what is known now. -/
theorem retransmission_genuine {p p' : Pcb} {e : QueueEntry} {peer : Option UInt32}
    (hd : e.data = []) (hseq : e.seq = p.iss) (ho : own = some p.iss)
    (hflg : e.flg = flgSyn ∨ e.flg = flgSyn ||| flgAck ∧
      ∃ m, peer = some m ∧ p.rcv.nxt = m + 1 ∧ p'.Knows m) :
    Genuine own peer p' (p.retransmission e) := by
  have hfin : flgIsSet e.flg flgFin = false := by
    rcases hflg with h | ⟨h, -⟩ <;> rw [h]
    · exact flag_bits.2.2.2.1
    · exact flag_bits.2.2.2.2
  refine ⟨hd, hfin, fun _ _ => ?_, fun ha _ => ?_⟩
  · rw [ho, ← hseq]
    rfl
  · rcases hflg with h | ⟨-, h⟩
    · have ha : flgIsSet e.flg flgAck := ha
      rw [h, flag_bits.2.2.1] at ha
      cases ha
    · exact h

/-- An entry keeps its content when it is sent again. -/
theorem ticked_queue (P : QueueEntry → Prop)
    (hP : ∀ e e', e'.content = e.content → P e → P e')
    (h : ∀ e ∈ p.queue, P e) : ∀ e ∈ (p.ticked env i).queue, P e := by
  intro e he
  have hcon := emitQueue_content env i p p.queue
  have hmem : e.content ∈ p.queue.map QueueEntry.content := by
    rw [← hcon]
    exact List.mem_map_of_mem he
  obtain ⟨e₀, he₀, heq⟩ := List.mem_map.mp hmem
  exact hP e₀ e heq.symm (h e₀ he₀)

theorem Pcb.Begun.ticked (h : p.Begun) : (p.ticked env i).Begun := by
  obtain ⟨hiss, hsnd, hrcv, -, hpar⟩ := ticked_keeps env i p
  exact ⟨by rw [hiss]; exact h.iss, by rw [hsnd, hiss]; exact h.nxt, by rw [hrcv]; exact h.wnd,
    hpar.trans h.parent⟩

theorem Pcb.Calling.ticked (h : p.Calling) : (p.ticked env i).Calling := by
  obtain ⟨hiss, hsnd, -, -, -⟩ := ticked_keeps env i p
  refine ⟨h.toBegun.ticked, ?_, by rw [hsnd, hiss]; exact h.una, ?_⟩
  · rcases ticked_state env i p with hs | hs
    · exact .inr hs
    · rw [hs]
      exact h.state
  · rw [hiss]
    refine ticked_queue _ (fun e e' heq he => ?_) h.queue
    simp only [QueueEntry.content, Prod.mk.injEq] at heq
    rwa [heq.1, heq.2.1, heq.2.2]

theorem Pcb.Heard.ticked {m : UInt32} (h : p.Heard m) : (p.ticked env i).Heard m := by
  obtain ⟨hiss, hsnd, hrcv, hirs, -⟩ := ticked_keeps env i p
  have hstate := ticked_state env i p
  refine ⟨h.toBegun.ticked, ?_, fun hst => ?_, fun hst => ?_, hirs.trans h.irs,
    by rw [hrcv]; exact h.rcv, ?_⟩
  · rcases hstate with hs | hs
    · exact .inr (.inr hs)
    · rw [hs]
      exact h.state
  · rw [hsnd, hiss]
    rcases hstate with hs | hs <;> rw [hst] at hs
    · cases hs
    · exact h.pending hs.symm
  · rw [hsnd, hiss]
    rcases hstate with hs | hs <;> rw [hst] at hs
    · cases hs
    · exact h.acked hs.symm
  · rw [hiss]
    refine ticked_queue _ (fun e e' heq he => ?_) h.queue
    simp only [QueueEntry.content, Prod.mk.injEq] at heq
    rwa [heq.1, heq.2.1, heq.2.2]

theorem Phase.ticked (hph : Phase own peer p) (hs : p.state ≠ .free) :
    Phase own peer (p.ticked env i) := by
  have hiss : (p.ticked env i).iss = p.iss := (ticked_keeps env i p).1
  cases hph with
  | gone h => exact absurd (congrArg Pcb.state h) hs
  | listening hl hm hp hq ho =>
      have hself : p.ticked env i = p := by
        simp only [Pcb.ticked, hq, emitQueue]
        rw [← hq]
      rw [hself]
      exact .listening hl hm hp hq ho
  | calling h ho => exact .calling h.ticked (by rw [ho, hiss])
  | heard m h ho hm => exact .heard m h.ticked (by rw [ho, hiss]) hm

/-- The walk over the queue of a pcb. -/
theorem ticked_advances (hph : Phase own peer p)
    (hk : p.state = .established → q.Knows p.iss) (hs : p.state ≠ .free) :
    Advances own peer q p (p.ticked env i) (emitQueue env i p p.queue).2.2 := by
  obtain ⟨hiss, -, -, hirs, -⟩ := ticked_keeps env i p
  have hstate := ticked_state env i p
  have hph' : Phase own peer (p.ticked env i) := hph.ticked hs
  refine ⟨by rwa [hph'.isn], fun n hn => by rw [hph'.isn, hn], fun m hkn => ?_, fun hst => ?_, ?_⟩
  · rcases hkn with hkn | ⟨hkn, hm⟩
    · exact absurd hkn hs
    · refine .inr ⟨?_, hirs.trans hm⟩
      rcases hstate with hs | hs
      · exact .inr (.inr hs)
      · rwa [hs]
  · rw [hiss]
    rcases hstate with hs | hs <;> rw [hst] at hs
    · cases hs
    · exact hk hs.symm
  · rw [hph'.isn]
    intro s hseg
    obtain ⟨x, hx, hxs⟩ := List.mem_filterMap.mp hseg
    rcases emitQueue_effects env i p p.queue x hx with rfl | ⟨e, he, rfl⟩
    · cases hxs
    cases hxs
    cases hph with
    | gone h => exact absurd (congrArg Pcb.state h) hs
    | listening hl hm hp hq ho =>
        rw [hq] at he
        cases he
    | calling h ho =>
        obtain ⟨h₁, h₂, h₃⟩ := h.queue e he
        exact retransmission_genuine h₁ h₂ ho (.inl h₃)
    | heard m h ho hm =>
        obtain ⟨h₁, h₂, h₃⟩ := h.queue e he
        exact retransmission_genuine h₁ h₂ ho
          (h₃.imp_right fun h₃ => ⟨h₃, m, hm, h.rcv, h.ticked.knows⟩)

end Tick

/-! ## One event -/

section Step
variable {env : Env} {e : Event} {own peer : Option UInt32} {p p' q : Pcb} {w : World} {i : PcbId}
  {eff eff' : List Effect} {t t' : Table}

/-- A zeroed slot does not react. -/
theorem zero_rewrites (hp : p.core = .zero) (huser : ∀ tid c, e ≠ .user tid c)
    (hg : ∀ s, e = .segment s → s.data = [] ∧ flgIsSet s.flg flgFin = false)
    (h : Rewrites w env i p e p' eff) : p' = p ∧ eff = [] := by
  have hfree : p.state = .free := congrArg Pcb.state hp
  cases h with
  | synSent s hs => rw [hfree] at hs; cases hs
  | otherwise s hs hr =>
      obtain ⟨hd, hf⟩ := hg s rfl
      have hself : p.otherwise env i s = .start p := by
        simp only [Pcb.otherwise, arrivesOtherwise, hfree, PcbState.synchronized, Bool.false_and,
          Bool.false_eq_true, if_false]
        split
        · rfl
        · simp only [arrivesAck, Outcome.start_pcb, hfree, hd]
          exact arrivesText_bare hf _
      rw [hself]
      exact ⟨rfl, rfl⟩
  | passive s hs => rw [hfree] at hs; cases hs
  | ticked hs => exact absurd hfree hs
  | connecting tid f => exact absurd rfl (huser tid _)
  | bound tid => exact absurd rfl (huser tid _)
  | listening tid => exact absurd rfl (huser tid _)
  | sent _ _ _ _ hs => rcases hs with hs | hs <;> rw [hfree] at hs <;> cases hs
  | received _ _ hs => rw [hfree] at hs; cases hs
  | closing tid => exact absurd rfl (huser tid _)

/-- The pcb of the endpoint changes in place. -/
theorem rewrites_advances (hph : Phase own peer p) (hk : p.state = .established → q.Knows p.iss)
    (hx : Undisturbed (env, e)) (hsend : ∀ data sent, ¬ w.sendsOn i data sent e)
    (hg : ∀ s, e = .segment s → Genuine peer own q s) (h : Rewrites w env i p e p' eff) :
    Advances own peer q p p' eff := by
  cases h with
  | synSent s hs hr => exact synSent_advances hph hs (hg s rfl) hr
  | otherwise s hs hr =>
      cases hph with
      | gone h =>
          obtain ⟨hp', heff⟩ := zero_rewrites h hx.1
            (fun s' he => ⟨(hg s' he).text, (hg s' he).fin⟩) (.otherwise (w := w) s hs hr)
          rw [hp', heff]
          exact Phase.ends h onlyResets_nil
      | listening h => rw [h] at hs; cases hs
      | calling h => rcases h.state with h | h <;> rw [h] at hs <;> cases hs
      | heard m h ho hm =>
          refine otherwise_advances h ho hm (fun hc => ?_) (hg s rfl) hk hr
          rw [hc] at hs
          cases hs
  | passive s hs hm hf hr => exact passive_advances hph hs (hg s rfl) hf hr hx.2
  | ticked hs => exact ticked_advances hph hk hs
  | connecting tid => exact absurd rfl (hx.1 tid _)
  | bound tid => exact absurd rfl (hx.1 tid _)
  | listening tid => exact absurd rfl (hx.1 tid _)
  | sent _ data sent he => exact absurd he (hsend data sent)
  | received _ he hs hr =>
      -- the window is fully open: there is nothing to receive
      exfalso
      cases hph with
      | gone h => rw [show p.state = .free from congrArg Pcb.state h] at hs; cases hs
      | listening h => rw [h] at hs; cases hs
      | calling h => rcases h.state with h | h <;> rw [h] at hs <;> cases hs
      | heard m h => exact hr (by rw [Pcb.remain, h.wnd]; rfl)
  | closing tid => exact absurd rfl (hx.1 tid _)

/-- Every sleeper of the endpoint waits for the connection to come up. -/
def World.Opening (w : World) : Prop :=
  ∀ tid b, w.tasks tid = some b → ∃ s, b.wait = .openRfc793 s

theorem World.Opening.not_sends (h : w.Opening) (hx : ∀ tid c, e ≠ .user tid c) (i : PcbId)
    (data : List UInt8) (sent : Nat) : ¬ w.sendsOn i data sent e := by
  rintro (⟨tid, rfl, -⟩ | ⟨tid, b, rfl, hb, -, hw⟩)
  · exact hx tid _ rfl
  · obtain ⟨s, hs⟩ := h tid b hb
    rw [hs] at hw
    cases hw

/-- What holds of the endpoint `own` in view of its peer. -/
structure Host.Sound (own peer : Host) : Prop where
  others : ∀ j, j ≠ 0 → (own.world.tab.pcb j).core = .zero
  opening : own.world.Opening
  phase : Phase own.isn peer.isn own.pcb
  known : own.pcb.state = .established → peer.pcb.Knows own.pcb.iss

theorem Phase.cond (h : Phase own peer p) (c : Cond) : Phase own peer { p with cond := c } := by
  cases h with
  | gone h => exact .gone h
  | listening hs hm hp hq ho => exact .listening hs hm hp hq ho
  | calling h ho =>
      exact .calling ⟨⟨h.iss, h.nxt, h.wnd, h.parent⟩, h.state, h.una, h.queue⟩ ho
  | heard m h ho hm =>
      exact .heard m ⟨⟨h.iss, h.nxt, h.wnd, h.parent⟩, h.state, h.pending, h.acked, h.irs, h.rcv,
        h.queue⟩ ho hm

theorem Advances.cond (h : Advances own peer q p p' eff) (c : Cond) :
    Advances own peer q p { p' with cond := c } eff :=
  ⟨h.phase.cond c, h.isn, h.knows, h.known, fun s hs =>
    (h.out s hs).mono (fun _ => id) (fun _ => id) fun _ => id⟩

/-- The table in the course of an event of the endpoint `own`. -/
structure Underway (own peer : Host) (x : Env × Event) (t : Table) (eff : List Effect) : Prop where
  others : ∀ j, j ≠ 0 → (t.pcb j).core = .zero
  adv : Advances own.isn peer.isn peer.pcb own.pcb (t.pcb 0) eff
  timer : x.2 = .timer → (t.pcb 0).isn own.isn = own.isn

theorem Host.Sound.underway {own peer : Host} {x : Env × Event} (h : own.Sound peer) :
    Underway own peer x own.world.tab [] where
  others := h.others
  adv := h.phase.stays h.known (by simp [segments])
  timer _ := h.phase.isn

theorem Underway.cond {own peer : Host} {x : Env × Event} (h : Underway own peer x t eff)
    (i : PcbId) (c : Cond) : Underway own peer x (t.set i { t.pcb i with cond := c }) eff where
  others j hj := by
    by_cases hji : j = i
    · subst hji
      rw [Table.set_pcb_self]
      exact h.others j hj
    · rw [Table.set_pcb_ne _ _ hji]
      exact h.others j hj
  adv := by
    by_cases hi : 0 = i
    · subst hi
      rw [Table.set_pcb_self]
      exact h.adv.cond c
    · rw [Table.set_pcb_ne _ _ hi]
      exact h.adv
  timer hx := by
    by_cases hi : 0 = i
    · subst hi
      rw [Table.set_pcb_self]
      exact h.timer hx
    · rw [Table.set_pcb_ne _ _ hi]
      exact h.timer hx

/-- The pcb of the endpoint found before an edit has chosen what the endpoint has. -/
theorem Underway.isn {own peer : Host} {x : Env × Event} (h : Underway own peer x t eff)
    (hown : own.Sound peer) (hb : Before own.world x t eff) :
    (t.pcb 0).isn own.isn = own.isn := by
  by_cases hx : x.2 = .timer
  · exact h.timer hx
  · obtain ⟨c, hc⟩ := core_eq (hb.core hx 0)
    have hp := (hown.phase.cond c).isn
    rw [hc]
    exact hp

/-- **One edit** of the table of an endpoint. -/
theorem edit_underway {own peer : Host} {x : Env × Event} (hown : own.Sound peer)
    (hx : Undisturbed x) (hg : ∀ s, x.2 = .segment s → Genuine peer.isn own.isn peer.pcb s)
    (hb : Before own.world x t eff) (h : Underway own peer x t eff)
    (he : Edit own.world x.1 x.2 t t' eff') : Underway own peer x t' (eff ++ eff') := by
  obtain ⟨env, e⟩ := x
  have hisn := h.isn hown hb
  have hph : Phase own.isn peer.isn (t.pcb 0) := hisn ▸ h.adv.phase
  have hk : (t.pcb 0).state = .established → peer.pcb.Knows (t.pcb 0).iss := h.adv.known
  have bare (s : TcpSegment) (he : e = .segment s) : s.data = [] ∧ flgIsSet s.flg flgFin = false :=
    ⟨(hg s he).text, (hg s he).fin⟩
  have nosend := hown.opening.not_sends hx.1
  -- the endpoint's own pcb moves on, and nothing else happens
  have moves (p' : Pcb) (eff' : List Effect)
      (ha : Advances own.isn peer.isn peer.pcb (t.pcb 0) p' eff')
      (ht : e = .timer → p'.isn own.isn = own.isn) {t' : Table} (h₀ : t'.pcb 0 = p')
      (hj : ∀ j, j ≠ 0 → (t'.pcb j).core = .zero) : Underway own peer (env, e) t' (eff ++ eff') :=
    ⟨hj, h₀ ▸ h.adv.trans hisn ha, fun hx => h₀ ▸ ht hx⟩
  have silent (eff' : List Effect) (ho : OnlyResets eff') {t' : Table}
      (h₀ : t'.pcb 0 = t.pcb 0 ∨ t'.pcb 0 = .zero)
      (hj : ∀ j, j ≠ 0 → (t'.pcb j).core = .zero) : Underway own peer (env, e) t' (eff ++ eff') := by
    rcases h₀ with h₀ | h₀
    · exact moves _ eff' (hph.stays hk (resets_genuine ho)) (fun _ => hisn) h₀ hj
    · exact moves _ eff' (Phase.ends rfl ho) (fun _ => rfl) h₀ hj
  cases he with
  | rewrite i p' _ hr hsel =>
      by_cases hi : i = 0
      · subst hi
        refine moves p' _ (rewrites_advances hph hk hx (nosend 0) hg hr) ?_ (by simp)
          fun j hj => by rw [Table.set_pcb_ne _ _ hj]; exact h.others j hj
        -- a tick chooses no number
        rintro rfl
        cases hr with
        | ticked hs => exact (hph.ticked hs).isn
        | sent _ _ _ he => cases he.isCall
        | received _ he => cases he
      · obtain ⟨hp', heff⟩ := zero_rewrites (h.others i hi) hx.1 bare hr
        have hset : t.set i p' = t := by rw [hp', Table.claim_set]
        rw [hset, heff]
        exact silent _ onlyResets_nil (.inl rfl) h.others
  | allocate i p' _ hf ha =>
      cases ha with
      | child s c hsel hs hm =>
          exfalso
          by_cases hc : c = 0
          · subst hc
            exact (hph.listens hs).1 hm
          · have hz : (t.pcb c).state = .free := congrArg Pcb.state (h.others c hc)
            rw [hs] at hz
            cases hz
      | «open» tid => exact absurd rfl (hx.1 tid _)
      | passive tid => exact absurd rfl (hx.1 tid _)
      | active tid => exact absurd rfl (hx.1 tid _)
  | spent i hf tid l f hev => exact absurd hev (hx.1 tid _)
  | release i _ hr heff hres =>
      have ho : OnlyResets eff' := by
        rcases hres with (⟨tid, c, hc⟩ | ⟨j, data, sent, hs⟩) | hres
        · exact absurd hc (hx.1 tid c)
        · exact absurd hs (nosend j data sent)
        · exact hres
      refine silent _ ho ?_ fun j hj => ?_
      · rcases tcpPcbRelease_cases t i 0 with hz | ⟨-, hz⟩
        · exact .inr hz
        · exact .inl hz
      · rcases tcpPcbRelease_cases t i j with hz | ⟨-, hz⟩ <;> rw [hz]
        · rfl
        · exact h.others j hj
  | enqueue i c s hsel hev hs hpar =>
      exfalso
      by_cases hi : i = 0
      · subst hi
        rw [hph.orphan] at hpar
        cases hpar
      · have hz : (t.pcb i).state = .free := congrArg Pcb.state (h.others i hi)
        rw [hs] at hz
        cases hz
  | dequeue i c rest hback hev =>
      exfalso
      rcases hev with ⟨tid, hev, -⟩ | ⟨tid, b, rfl, ht, -, hw⟩
      · exact hx.1 tid _ hev
      · obtain ⟨s, hs⟩ := hown.opening tid b ht
        rw [hs] at hw
        cases hw
  | silent _ heff => exact silent _ heff (.inl rfl) h.others

theorem awaitOpen_blocked {wait : PcbState → Wait} {st : PcbState} {wt : Wait} {j : PcbId}
    (h : (awaitOpen wait t i st eff).progress = .blocked j wt) : ∃ st', wt = wait st' := by
  simp only [awaitOpen] at h
  split at h
  · cases h
    exact ⟨st, rfl⟩
  split at h
  · cases h
  split at h
  · cases h
    exact ⟨_, rfl⟩
  · cases h

/-- Nobody goes to sleep but in the wait after an open. -/
theorem step_opening {x : Env × Event} (h : w.Opening) (hx : Undisturbed x) :
    (w.step x).Opening := by
  have after {w' : World} {t : Table} {eff : List Effect} (hw : w'.Opening) :
      (w'.after t eff).Opening := by
    intro tid b hb
    obtain ⟨b₀, h₀, rfl⟩ := Option.map_eq_some_iff.mp hb
    exact hw tid b₀ h₀
  obtain ⟨env, e⟩ := x
  cases e with
  | user tid c => exact absurd rfl (hx.1 tid c)
  | segment s => exact after h
  | timer => exact after h
  | resume tid =>
      simp only [World.step, callResult]
      cases hb : w.tasks tid with
      | none => exact h
      | some b =>
          obtain ⟨st, hwait⟩ := h tid b hb
          have hawake : (w.awake tid b.pcb).Opening := by
            intro tid' b' hb'
            by_cases hne : tid' = tid
            · subst hne
              simp [World.awake] at hb'
            · simp only [World.awake, Function.update_of_ne hne] at hb'
              exact h tid' b' hb'
          simp only [hwait, Wait.retry]
          unfold World.finish
          split
          · exact after hawake
          · rename_i i wt hprog
            intro tid' b' hb'
            by_cases hne : tid' = tid
            · subst hne
              simp only [World.sleep, Function.update_self] at hb'
              cases hb'
              exact awaitOpen_blocked hprog
            · simp only [World.sleep, Function.update_of_ne hne] at hb'
              exact after hawake tid' b' hb'

/-- **One event** at an endpoint. -/
theorem step_underway {own peer : Host} {x : Env × Event} (hown : own.Sound peer)
    (hx : Undisturbed x) (hg : ∀ s, x.2 = .segment s → Genuine peer.isn own.isn peer.pcb s) :
    Underway own peer x (own.world.step x).tab (own.world.effects x) :=
  step_edits own.world x (Underway own peer x) hown.underway
    (fun _ _ i c h => h.cond i c) fun _ _ _ _ hb h he => edit_underway hown hx hg hb h he

/-- **The contract of an endpoint.** -/
theorem host_contract : host.Contract Undisturbed Host.Sound
    (fun own peer s => Genuine own.isn peer.isn own.pcb s) := by
  have arriving {own peer : Host} {x : Env × Event}
      (hg : ∀ s ∈ host.delivers x, Genuine peer.isn own.isn peer.pcb s) (s : TcpSegment)
      (hs : x.2 = .segment s) : Genuine peer.isn own.isn peer.pcb s :=
    hg s (Event.mem_arriving.mpr hs)
  constructor
  · intro own peer x hown _ hg hx
    have h := step_underway hown hx (arriving hg)
    exact ⟨h.others, step_opening hown.opening hx, h.adv.phase, h.adv.known⟩
  · intro own peer x hown hpeer hg hx
    have h := (step_underway hown hx (arriving hg)).adv
    exact ⟨hpeer.others, hpeer.opening, hpeer.phase.mono h.isn,
      fun hst => h.knows _ (hpeer.known hst)⟩
  · intro own peer x hown _ hg hx s hs
    exact (step_underway hown hx (arriving hg)).adv.out s (List.mem_of_mem_filter hs)
  · intro own peer x hown _ hg hx s hs
    have h := (step_underway hown hx (arriving hg)).adv
    exact hs.mono h.isn (fun _ => id) h.knows
  · intro own peer x hown _ hg hx s hs
    have h := (step_underway hown hx (arriving hg)).adv
    exact hs.mono (fun _ => id) h.isn fun _ => id

end Step

/-! ## Opening -/

section Opening
variable {env : Env} {peer : Host}

theorem boot_firstFree : firstFree .boot = some 0 := by decide

/-- What `tcp_open_rfc793` leaves of an empty table. -/
structure CallResult.Opens (env : Env) (r : CallResult) : Prop where
  others : ∀ j, j ≠ 0 → (r.tab.pcb j).core = .zero
  phase : Phase ((r.tab.pcb 0).isn none) none (r.tab.pcb 0)
  fresh : (r.tab.pcb 0).state ≠ .established
  waits : ∀ i wt, r.progress = .blocked i wt → ∃ st, wt = .openRfc793 st
  out : ∀ s ∈ segments r.effects, tcpOutputSegment env s →
    Genuine ((r.tab.pcb 0).isn none) none (r.tab.pcb 0) s

theorem openPassive_opens (env : Env) (l : Endpoint) (f : Option Endpoint) :
    (tcpOpenPassive .boot l f).Opens env := by
  have ha : tcpPcbAlloc .boot = some (0, Table.boot.claim 0) := by
    rw [tcpPcbAlloc, boot_firstFree]
    rfl
  simp only [tcpOpenPassive, ha, awaitOpen, Table.set_pcb_self, if_true]
  refine ⟨fun j hj => ?_, ?_, ?_, ?_, ?_⟩
  · simp only [Table.set_pcb_ne _ _ hj, Table.claim_pcb_ne _ hj]
    rfl
  · rw [Table.set_pcb_self]
    exact .listening rfl (by simp) rfl rfl rfl
  · simp
  · rintro i wt ⟨⟩
    exact ⟨_, rfl⟩
  · simp [segments]

theorem openActive_opens (l f : Endpoint) (hr : env.random.toNat < 2 ^ 31) :
    (tcpOpenActive env .boot l f).Opens env := by
  have ha : tcpPcbAlloc .boot = some (0, Table.boot.claim 0) := by
    rw [tcpPcbAlloc, boot_firstFree]
    rfl
  have hothers (j : PcbId) (hj : j ≠ 0) : ((Table.boot.claim 0).pcb j).core = .zero := by
    rw [Table.claim_pcb_ne _ hj]
    rfl
  simp only [tcpOpenActive, ha]
  set p := { (Table.boot.claim 0).pcb 0 with mode := .rfc793, localEp := l, foreignEp := f } with hp
  rw [sendSyn_eq env _ _ _ p rfl]
  split
  · have hcall : (p.opened env).Calling := by
      refine ⟨⟨?_, rfl, rfl, rfl⟩, .inl rfl, rfl, fun e he => ?_⟩
      · show env.random.toNat + 1 < 2 ^ 32
        omega
      · have he : e ∈ (p.opening env).queueAfter env (env.calloc 0) flgSyn [] := he
        unfold Pcb.queueAfter at he
        split at he
        · rcases List.mem_append.mp he with he | he
          · exact absurd he List.not_mem_nil
          · rw [List.mem_singleton.mp he]
            exact ⟨rfl, rfl, rfl⟩
        · exact absurd he List.not_mem_nil
    refine ⟨fun j hj => ?_, ?_, ?_, ?_, ?_⟩
    · simp only [Table.set_pcb_ne _ _ hj]
      exact hothers j hj
    · simp only [Table.set_pcb_self]
      exact .calling hcall rfl
    · simp [Pcb.opened]
    · rintro i wt ⟨⟩
      exact ⟨_, rfl⟩
    · intro s hs _
      rw [show s = (p.opening env).segment flgSyn [] by
        simpa [segments, Effect.segment] using hs]
      simp only [Table.set_pcb_self]
      refine ⟨rfl, flag_bits.2.2.2.1, fun _ _ => rfl, fun ha => ?_⟩
      have ha : flgIsSet flgSyn flgAck := ha
      rw [flag_bits.2.2.1] at ha
      cases ha
  · rename_i ho
    refine ⟨fun j hj => ?_, .gone ?_, ?_, ?_, ?_⟩
    · rcases tcpPcbRelease_cases (Table.boot.claim 0) 0 j with hz | ⟨-, hz⟩
      · simp only [hz]
        rfl
      · simp only [hz]
        exact hothers j hj
    · simp only [tcpPcbRelease_self]
      rfl
    · simp [Pcb.zero]
    · rintro i wt ⟨⟩
    · intro s hs hout
      rw [show s = (p.opening env).segment flgSyn [] by
        simpa [segments, Effect.segment] using hs] at hout
      exact absurd hout ho

theorem opens_sound {r : CallResult} (h : r.Opens env) :
    Host.Sound ⟨World.boot.finish 1 r, ((World.boot.finish 1 r).tab.pcb 0).isn none⟩ peer := by
  obtain ⟨c, hc⟩ := core_eq (finish_core .boot 1 r 0)
  refine ⟨fun j hj => ?_, fun tid b hb => ?_, ?_, ?_⟩
  · exact (finish_core .boot 1 r j).trans (h.others j hj)
  · by_cases htid : tid = 1
    · subst htid
      unfold World.finish at hb
      split at hb
      · cases hb
      · rename_i i wt hprog
        simp only [World.sleep, Function.update_self] at hb
        cases hb
        exact h.waits i wt hprog
    · rw [show (World.boot.finish 1 r).tasks tid = _ from finish_tasks_ne htid r] at hb
      cases hb
  · show Phase (((World.boot.finish 1 r).tab.pcb 0).isn none) _ ((World.boot.finish 1 r).tab.pcb 0)
    rw [hc]
    exact (h.phase.cond c).mono (fun m hm => by cases hm)
  · intro hst
    change ((World.boot.finish 1 r).tab.pcb 0).state = .established at hst
    rw [hc] at hst
    exact absurd hst h.fresh

theorem opens_genuine {r : CallResult} (h : r.Opens env) (s : TcpSegment)
    (hs : s ∈ (segments r.effects).filter (tcpOutputSegment env)) :
    Genuine (((World.boot.finish 1 r).tab.pcb 0).isn none) peer.isn
      ((World.boot.finish 1 r).tab.pcb 0) s := by
  obtain ⟨c, hc⟩ := core_eq (finish_core .boot 1 r 0)
  rw [hc]
  obtain ⟨hs, ho⟩ := List.mem_filter.mp hs
  exact (h.out s hs ho).mono (fun _ => id) (fun m hm => by cases hm) fun _ => id

/-- After both have opened everything holds. -/
theorem opened_vouched (x : Bool → Env × Command) (hc : ∀ k, (x k).2.opens)
    (hr : ∀ k, (x k).1.random.toNat < 2 ^ 31) :
    Party.Vouched Host.Sound (fun own peer s => Genuine own.isn peer.isn own.pcb s) (opened x) := by
  have hopens (k : Bool) : ((x k).2.call (x k).1 .boot).Opens (x k).1 := by
    have hk := hc k
    cases hcmd : (x k).2 with
    | openPassive l f => exact openPassive_opens _ l f
    | openActive l f => exact openActive_opens l f (hr k)
    | _ => rw [hcmd] at hk; cases hk
  exact ⟨fun k => opens_sound (hopens k), fun k s hs => opens_genuine (hopens k) s hs⟩

end Opening

/-- **Agreement.**  After any run of two endpoints over a network that loses,
repeats and reorders what they emit, an ESTABLISHED endpoint has the initial
sequence number the other has chosen, all its own numbers are acknowledged, and
the other has its number, unless the other's pcb is released. -/
theorem handshake_agreement (x : Bool → Env × Command) (hc : ∀ k, (x k).2.opens)
    (hr : ∀ k, (x k).1.random.toNat < 2 ^ 31) (es : List (Bool × Env × Event))
    (hg : Guarded host.duplexStep (fun d y => host.Carried d y ∧ Undisturbed y.2) (opened x) es)
    (k : Bool)
    (hs : ((run host.duplexStep (opened x) es).party k).pcb.state = .established) :
    let own := (run host.duplexStep (opened x) es).party k
    let peer := (run host.duplexStep (opened x) es).party !k
    peer.isn = some own.pcb.irs ∧ own.pcb.rcv.nxt = own.pcb.irs + 1 ∧
      own.pcb.snd.una = own.pcb.iss + 1 ∧ own.pcb.snd.nxt = own.pcb.iss + 1 ∧
      (peer.pcb.state = .free ∨ peer.pcb.irs = own.pcb.iss ∧ peer.pcb.iss = own.pcb.irs) ∧
      (peer.pcb.state = .established →
        own.pcb.irs = peer.pcb.iss ∧ peer.pcb.irs = own.pcb.iss) := by
  have hv := host_contract.run (opened_vouched x hc hr) hg
  have hown := hv.inv k
  have hpeer := hv.inv !k
  rw [Bool.not_not] at hpeer
  intro own peer
  have heard : ∃ m, own.pcb.Heard m ∧ peer.isn = some m := by
    cases hown.phase with
    | gone h => rw [show own.pcb.state = .free from congrArg Pcb.state h] at hs; cases hs
    | listening h => rw [hs] at h; cases h
    | calling h => rcases h.state with h | h <;> rw [hs] at h <;> cases h
    | heard m h _ hm => exact ⟨m, h, hm⟩
  obtain ⟨m, hh, hm⟩ := heard
  have hirs : own.pcb.irs = m := hh.irs
  -- the peer's number is the one its pcb has, as long as it has one
  have hiss (hf : peer.pcb.state ≠ .free) : peer.pcb.iss = m := by
    have chosen (h : peer.isn = some peer.pcb.iss) : peer.pcb.iss = m := by
      rw [hm] at h
      cases h
      rfl
    cases hpeer.phase with
    | gone h => exact absurd (congrArg Pcb.state h) hf
    | listening _ _ _ _ ho =>
        rw [show peer.isn = none from ho] at hm
        cases hm
    | calling _ ho => exact chosen ho
    | heard _ _ ho => exact chosen ho
  have hknows : peer.pcb.state = .free ∨ peer.pcb.irs = own.pcb.iss ∧ peer.pcb.iss = own.pcb.irs := by
    by_cases hf : peer.pcb.state = .free
    · exact .inl hf
    · rcases hown.known hs with h | ⟨-, h⟩
      · exact absurd h hf
      · exact .inr ⟨h, by rw [hirs, hiss hf]⟩
  refine ⟨by rw [hirs, hm], by rw [hirs]; exact hh.rcv, hh.acked hs, hh.nxt, hknows, fun hest => ?_⟩
  rcases hknows with h | ⟨h₁, h₂⟩
  · rw [hest] at h
    cases h
  · exact ⟨h₂.symm, h₁⟩

/-- An environment of either endpoint: everything goes out by one interface. -/
def sideEnv (k : Bool) (random : UInt32) : Env :=
  .ideal .zero random
    [⟨0, 0, 0, ⟨sampleRoute.iface.dev, if k then sampleLocal.addr else samplePeer.addr⟩⟩]

/-- One endpoint calls, the other listens. -/
def sampleOpens (k : Bool) : Env × Command :=
  (sideEnv k 5, if k then .openActive sampleLocal samplePeer else .openPassive samplePeer none)

/-- The three segments of a handshake, delivered in turn. -/
def sampleHandshake : List (Bool × Env × Event) :=
  [(false, sideEnv false 9, .segment ⟨5, 0, flgSyn, 8192, [], sampleLocal, samplePeer⟩),
   (true, sideEnv true 0, .segment ⟨9, 6, flgSyn ||| flgAck, 8192, [], samplePeer, sampleLocal⟩),
   (false, sideEnv false 0, .segment ⟨6, 10, flgAck, 8192, [], sampleLocal, samplePeer⟩)]

theorem handshake_agreement_sample :
    ((run host.duplexStep (opened sampleOpens) sampleHandshake).party false).isn =
      some ((run host.duplexStep (opened sampleOpens) sampleHandshake).party true).pcb.irs :=
  (handshake_agreement sampleOpens (by decide) (by decide) sampleHandshake (by decide +kernel)
    true (by decide +kernel)).1

end Laplus.Tcp
