/-
# `Laplus.Tcp.Burst` — the loop of `tcp_send`

Inversion of `sendLoop`: a burst is a run of segments, each cut to the
smallest of the MSS, the bytes left and the room in the window, and it ends
because everything is sent, because the window is used up exactly, or because
a segment could not be handed down.  Facts about `tcp_send` are proved by
induction on `Bursts`.
-/
import Laplus.Tcp.User

namespace Laplus.Tcp

open Net Lib

/-- How many bytes the loop takes next. -/
def Pcb.cut (dev : NetDevice) (p : Pcb) (data : List UInt8) (sent : Nat) : Nat :=
  min (min dev.mss (data.length - sent)) p.cap.toNat

/-- The text of the next segment. -/
def Pcb.nextText (dev : NetDevice) (p : Pcb) (data : List UInt8) (sent : Nat) : List UInt8 :=
  (data.drop sent).take (p.cut dev data sent)

/-- The pcb once a text has been handed down, `snd.nxt` not yet moved. -/
def Pcb.handed (env : Env) (k : Nat) (p : Pcb) (text : List UInt8) : Pcb :=
  { p with
    queue := p.queueAfter env (env.calloc k) (flgAck ||| flgPsh) text
    hist := { p.hist with sent := p.hist.sent ++ [p.segment (flgAck ||| flgPsh) text] } }

/-- The pcb once a text has been sent. -/
def Pcb.pushed (env : Env) (k : Nat) (p : Pcb) (text : List UInt8) : Pcb :=
  { p with
    queue := p.queueAfter env (env.calloc k) (flgAck ||| flgPsh) text
    hist := { p.hist with sent := p.hist.sent ++ [p.segment (flgAck ||| flgPsh) text] }
    snd := { p.snd with nxt := p.snd.nxt + UInt32.ofNat text.length } }

/-- The ways the loop can run from pcb `p`, `sent` bytes into the data. -/
inductive Bursts (env : Env) (dev : NetDevice) (data : List UInt8) :
    Nat → Pcb → Nat → Burst → Prop
  /-- Everything is sent. -/
  | finished (k : Nat) (p : Pcb) (sent : Nat) (h : data.length ≤ sent) :
      Bursts env dev data k p sent ⟨p, sent, [], .finished⟩
  /-- The flight fills the window exactly. -/
  | window (k : Nat) (p : Pcb) (sent : Nat) (h : sent < data.length) (hc : p.cap = 0) :
      Bursts env dev data k p sent ⟨p, sent, [], .window⟩
  /-- The segment cannot be handed down. -/
  | failed (k : Nat) (p : Pcb) (sent : Nat) (h : sent < data.length) (hc : p.cap ≠ 0) :
      Bursts env dev data k p sent
        ⟨p.handed env k (p.nextText dev data sent), sent,
          [⟨p.segment (flgAck ||| flgPsh) (p.nextText dev data sent), dev.mtu.toNat,
            p.handed env k (p.nextText dev data sent)⟩], .failed⟩
  /-- A segment goes out and the loop runs on. -/
  | next (k : Nat) (p : Pcb) (sent : Nat) (h : sent < data.length) (hc : p.cap ≠ 0) (b : Burst)
      (hb : Bursts env dev data (k + 1) (p.pushed env k (p.nextText dev data sent))
        (sent + p.cut dev data sent) b) :
      Bursts env dev data k p sent
        { b with trace :=
            ⟨p.segment (flgAck ||| flgPsh) (p.nextText dev data sent), dev.mtu.toNat,
              p.pushed env k (p.nextText dev data sent)⟩ :: b.trace }

section Loop
variable {env : Env} {dev : NetDevice} {data : List UInt8} {p : Pcb} {sent : Nat}

theorem cut_pos (h : sent < data.length) (hc : p.cap ≠ 0) : 0 < p.cut dev data sent := by
  have hcap : 0 < p.cap.toNat := Nat.pos_of_ne_zero fun h0 => hc (UInt32.toNat_inj.mp h0)
  have hmss := dev.mss_pos
  unfold Pcb.cut
  omega

theorem nextText_length : (p.nextText dev data sent).length = p.cut dev data sent := by
  have hle : p.cut dev data sent ≤ data.length - sent := by
    unfold Pcb.cut
    omega
  rw [Pcb.nextText, List.length_take, List.length_drop]
  exact Nat.min_eq_left hle

/-- **Inversion of the loop.**  With fuel for every byte left and one more the
fuel does not run out. -/
theorem sendLoop_bursts {n : Nat} : ∀ (k : Nat) (p : Pcb) (sent : Nat),
    data.length - sent < n → Bursts env dev data k p sent (sendLoop env dev data n k p sent) := by
  induction n with
  | zero => intro k p sent h; exact absurd h (Nat.not_lt_zero _)
  | succ n ih =>
      intro k p sent hn
      have hpushed : { (tcpOutput env (env.calloc k) p (flgAck ||| flgPsh)
            (p.nextText dev data sent)).pcb with
          snd := { (tcpOutput env (env.calloc k) p (flgAck ||| flgPsh)
              (p.nextText dev data sent)).pcb.snd with
            nxt := (tcpOutput env (env.calloc k) p (flgAck ||| flgPsh)
              (p.nextText dev data sent)).pcb.snd.nxt + UInt32.ofNat (p.cut dev data sent) } } =
          p.pushed env k (p.nextText dev data sent) := by
        rw [tcpOutput_pcb, Pcb.pushed, nextText_length]
      have hhanded : (tcpOutput env (env.calloc k) p (flgAck ||| flgPsh)
            (p.nextText dev data sent)).pcb = p.handed env k (p.nextText dev data sent) := by
        rw [tcpOutput_pcb, Pcb.handed]
      unfold sendLoop
      split
      · rename_i h
        split
        · rename_i hc
          exact .window k p sent h hc
        · rename_i hc
          have hcut : 0 < p.cut dev data sent := cut_pos h hc
          by_cases hok : (tcpOutput env (env.calloc k) p (flgAck ||| flgPsh)
              (p.nextText dev data sent)).ok
          · have hb := ih (k + 1) (p.pushed env k (p.nextText dev data sent))
              (sent + p.cut dev data sent) (by omega)
            have := Bursts.next k p sent h hc _ hb
            rw [← hpushed] at this
            simp only [Pcb.nextText, Pcb.cut] at this hok
            simp only [hok, if_true]
            exact this
          · have this : Bursts env dev data k p sent _ := .failed k p sent h hc
            rw [← hhanded] at this
            simp only [Pcb.nextText, Pcb.cut] at this hok
            simp only [hok]
            exact this
      · rename_i h
        exact .finished k p sent (Nat.le_of_not_lt h)

theorem burst_bursts (env : Env) (dev : NetDevice) (p : Pcb) (data : List UInt8) (sent : Nat) :
    Bursts env dev data 0 p sent (p.burst env dev data sent) :=
  sendLoop_bursts 0 p sent (Nat.lt_succ_self _)

theorem Bursts.stop_ne_fuel {k : Nat} {b : Burst} (h : Bursts env dev data k p sent b) :
    b.stop ≠ .fuel := by
  induction h with
  | finished => simp
  | window => simp
  | failed => simp
  | next _ _ _ _ _ _ _ ih => exact ih

/-- The fuel of a burst never runs out. -/
theorem burst_stop (env : Env) (dev : NetDevice) (p : Pcb) (data : List UInt8) (sent : Nat) :
    (p.burst env dev data sent).stop ≠ .fuel :=
  (burst_bursts env dev p data sent).stop_ne_fuel

/-- What `tcp_send` never changes. -/
theorem burst_keeps {k : Nat} {b : Burst} (h : Bursts env dev data k p sent b) :
    b.pcb = { p with
      snd := { p.snd with nxt := b.pcb.snd.nxt }
      queue := b.pcb.queue
      hist := { p.hist with sent := b.pcb.hist.sent } } := by
  induction h with
  | finished => rfl
  | window => rfl
  | failed => rfl
  | next _ _ _ _ _ _ _ ih => simpa [Pcb.pushed] using ih

/-- The loop stops at the window only when the flight fills it exactly. -/
theorem window_cap {k : Nat} {b : Burst} (h : Bursts env dev data k p sent b)
    (hstop : b.stop = .window) : b.pcb.cap = 0 := by
  induction h with
  | finished => cases hstop
  | window _ _ _ _ hc => exact hc
  | failed => cases hstop
  | next _ _ _ _ _ _ _ ih => exact ih hstop

end Loop

/-- `tcp_send` from `RETRY` on: it fails at once, or the loop runs. -/
inductive SendOutcome (env : Env) (t : Table) (i : PcbId) (data : List UInt8) (sent : Nat) :
    SendResult → Prop
  | refused : SendOutcome env t i data sent ⟨.ret t (-1), []⟩
  | sending (hs : (t.pcb i).state = .established ∨ (t.pcb i).state = .closeWait)
      (iface : IpIface) (hr : ipRouteGetIface env.routes (t.pcb i).localEp.addr = some iface) :
      SendOutcome env t i data sent
        (sendEnd t i data ((t.pcb i).burst env iface.dev data sent))

theorem sendRetry_outcome (env : Env) (t : Table) (i : PcbId) (data : List UInt8) (sent : Nat) :
    SendOutcome env t i data sent (sendRetry env t i data sent) := by
  have sending (hs : (t.pcb i).state = .established ∨ (t.pcb i).state = .closeWait) :
      SendOutcome env t i data sent (sendRetry env t i data sent) := by
    cases hr : ipRouteGetIface env.routes (t.pcb i).localEp.addr with
    | none =>
        have hdef : sendRetry env t i data sent = ⟨.ret t (-1), []⟩ := by
          unfold sendRetry
          rcases hs with hs | hs <;> simp only [hs, hr]
        rw [hdef]
        exact .refused
    | some iface =>
        have hdef : sendRetry env t i data sent =
            sendEnd t i data ((t.pcb i).burst env iface.dev data sent) := by
          unfold sendRetry
          rcases hs with hs | hs <;> simp only [hs, hr]
        rw [hdef]
        exact .sending hs iface hr
  cases hs : (t.pcb i).state with
  | established => exact sending (.inl hs)
  | closeWait => exact sending (.inr hs)
  | _ =>
      simp only [sendRetry, hs]
      exact .refused

end Laplus.Tcp
