/-
# `Laplus.Tcp.Backoff` — how often and when an entry is sent again

Only `tcp_timer` touches an entry of a retransmit queue: every run that finds it due sends it
again and doubles its timeout, until it is as old as the deadline.  So the life of an entry is a
list of timer runs (`QueueEntry.lived`, `resends`), and what is bounded is a race: the timeouts
add up to `0.2 * (2^k - 1)` seconds before the `k`-th time, and after twelve it is over.

`Lived` says of the entries in a table that they have such a life.
-/
import Laplus.Tcp.Listener
import Laplus.Tcp.Retransmit
import Mathlib.Tactic.Linarith
import Mathlib.Tactic.Ring

namespace Laplus.Tcp

open Net Lib

/-! ## The life of an entry -/

namespace QueueEntry

/-- The entry that `tcp_retransmit_queue_add` makes. -/
def added (env : Env) (seq : UInt32) (flg : UInt8) (data : List UInt8) : QueueEntry :=
  { first := env.now, last := env.now, rto := tcpDefaultRto, seq, flg, data }

/-- The timer run sends the entry again. -/
def resent (env : Env) (e : QueueEntry) : Bool := !e.expired env && e.due env

/-- The entry after a timer run. -/
def ticked (env : Env) (e : QueueEntry) : QueueEntry :=
  if e.resent env then { e with last := env.now, rto := e.rto * 2 } else e

/-- The entry after timer runs. -/
def lived (e : QueueEntry) (runs : List Env) : QueueEntry := runs.foldl (fun e env => e.ticked env) e

/-- The times at which the timer runs send it again. -/
def resends : QueueEntry → List Env → List Timeval
  | _, [] => []
  | e, env :: runs => (if e.resent env then [env.now] else []) ++ (e.ticked env).resends runs

/-- An entry first sent at `t₀`, and sent again at the times `ts`. -/
structure Paced (t₀ : Timeval) (ts : List Timeval) (e : QueueEntry) : Prop where
  first : e.first = t₀
  normal : e.last.Normal
  rto : e.rto.toNat = 200000 * 2 ^ ts.length
  count : ts.length ≤ 5
  paced : t₀.usec + 200000 * (2 ^ ts.length - 1) ≤ e.last.usec
  late : ∀ k (hk : k < ts.length), t₀.usec + 200000 * (2 ^ (k + 1) - 1) < ts[k].usec
  early : ∀ t ∈ ts, t.usec < t₀.usec + 12000000

variable {e : QueueEntry} {env : Env} {t₀ : Timeval} {ts : List Timeval}

theorem resends_snoc (e : QueueEntry) (runs : List Env) (env : Env) :
    e.resends (runs ++ [env]) =
      e.resends runs ++ if (e.lived runs).resent env then [env.now] else [] := by
  induction runs generalizing e with
  | nil =>
      simp only [List.nil_append, resends, List.append_nil]
      rfl
  | cons env' runs ih =>
      simp only [List.cons_append, resends, ih, List.append_assoc]
      rfl

theorem lived_append (e : QueueEntry) (runs runs' : List Env) :
    e.lived (runs ++ runs') = (e.lived runs).lived runs' := List.foldl_append

theorem paced_added (hnow : env.now.Normal) (seq : UInt32) (flg : UInt8) (data : List UInt8) :
    Paced env.now [] (added env seq flg data) where
  first := rfl
  normal := hnow
  rto := rfl
  count := Nat.zero_le 5
  paced := by simp [added]
  late k hk := absurd hk (Nat.not_lt_zero k)
  early t ht := absurd ht List.not_mem_nil

/-- The entry is as old as the deadline. -/
theorem Paced.expired_iff (h : Paced t₀ ts e) (h₀ : t₀.Normal) (hnow : env.now.Normal) :
    e.expired env = true ↔ t₀.usec + 12000000 ≤ env.now.usec := by
  rw [expired, decide_eq_true_eq, h.first, ge_iff_le, Timeval.le_sub_tvSec_iff hnow h₀]
  rfl

/-- The timeout is over. -/
theorem Paced.due_iff (h : Paced t₀ ts e) (hnow : env.now.Normal) :
    e.due env = true ↔ e.last.usec + 200000 * 2 ^ ts.length < env.now.usec := by
  rw [due, Timeval.gt_iff hnow (Timeval.addUsec_normal h.normal _), Timeval.addUsec_usec, h.rto]
  norm_cast

/-- **One timer run.**  It sends the entry again only if that is at most the fifth time. -/
theorem Paced.tick (h : Paced t₀ ts e) (h₀ : t₀.Normal) (hnow : env.now.Normal) :
    Paced t₀ (ts ++ if e.resent env then [env.now] else []) (e.ticked env) := by
  cases hr : e.resent env with
  | false =>
      rw [ticked, hr, if_neg Bool.false_ne_true, if_neg Bool.false_ne_true, List.append_nil]
      exact h
  | true =>
      obtain ⟨hexp, hdue⟩ := (Bool.and_eq_true _ _).mp hr
      rw [Bool.not_eq_true', Bool.eq_false_iff, ne_eq, h.expired_iff h₀ hnow, not_le] at hexp
      have hdue := (h.due_iff hnow).mp hdue
      -- the sum of the timeouts so far
      have hpow : (2 : Int) ^ (ts.length + 1) = 2 * 2 ^ ts.length := by ring
      have hsum : t₀.usec + 200000 * (2 ^ (ts.length + 1) - 1) < env.now.usec := by
        have hpaced := h.paced
        linarith
      have hcount : ts.length + 1 ≤ 5 := by
        by_contra hmore
        have hfive : ts.length = 5 := by
          have hle := h.count
          omega
        rw [hfive] at hsum
        norm_num at hsum
        linarith
      rw [ticked, hr, if_pos rfl, if_pos rfl]
      refine ⟨h.first, hnow, ?_, by simpa using hcount, ?_, fun k hk => ?_, fun t ht => ?_⟩
      · have hpow' : 2 ^ ts.length ≤ 2 ^ 4 := Nat.pow_le_pow_right (by decide) (by omega)
        have hrto := h.rto
        rw [UInt32.toNat_mul, hrto, List.length_append, List.length_singleton, Nat.pow_succ,
          show (2 : UInt32).toNat = 2 from rfl, Nat.mod_eq_of_lt (by omega)]
        ring
      · rw [List.length_append, List.length_singleton]
        exact hsum.le
      · rw [List.length_append, List.length_singleton] at hk
        by_cases hlast : k < ts.length
        · rw [List.getElem_append_left hlast]
          exact h.late k hlast
        · obtain rfl : k = ts.length := by omega
          rw [List.getElem_append_right (Nat.le_refl _)]
          simpa using hsum
      · rcases List.mem_append.mp ht with ht | ht
        · exact h.early t ht
        · rw [List.mem_singleton.mp ht]
          exact hexp

/-- **Any timer runs.** -/
theorem paced_lived (hnow : env.now.Normal) (seq : UInt32) (flg : UInt8) (data : List UInt8)
    (runs : List Env) (hruns : ∀ r ∈ runs, r.now.Normal) :
    Paced env.now ((added env seq flg data).resends runs) ((added env seq flg data).lived runs) := by
  induction runs using List.reverseRecOn with
  | nil => exact paced_added hnow seq flg data
  | append_singleton runs r ih =>
      rw [resends_snoc, lived_append]
      exact (ih fun r' hr' => hruns r' (List.mem_append_left _ hr')).tick hnow
        (hruns r (List.mem_append_right _ (List.mem_singleton_self r)))

end QueueEntry

/-! ## The walk over a queue -/

section Walk
variable (env : Env) (i : PcbId)

theorem emitQueue_queue (p : Pcb) (q : List QueueEntry) :
    (emitQueue env i p q).2.1 = q.map (·.ticked env) := by
  induction q generalizing p with
  | nil => rfl
  | cons e q ih =>
      simp only [emitQueue, List.map_cons, ih]
      by_cases he : e.expired env
      · simp [tcpRetransmitQueueEmit, QueueEntry.ticked, QueueEntry.resent, he]
      · by_cases hd : e.due env <;>
          simp [tcpRetransmitQueueEmit, QueueEntry.ticked, QueueEntry.resent, he, hd]

/-- The walk sends the entries that are due, and these only. -/
theorem mem_emitQueue_output (p : Pcb) (q : List QueueEntry) (s : TcpSegment) :
    Effect.output i s ∈ (emitQueue env i p q).2.2 ↔
      ∃ e ∈ q, e.resent env = true ∧ s = p.retransmission e := by
  induction q generalizing p with
  | nil => simp [emitQueue]
  | cons e q ih =>
      simp only [emitQueue, List.mem_append, ih, List.exists_mem_cons_iff]
      by_cases he : e.expired env
      · simp [tcpRetransmitQueueEmit, QueueEntry.resent, he, Pcb.retransmission]
      · by_cases hd : e.due env <;>
          simp [tcpRetransmitQueueEmit, QueueEntry.resent, he, hd, Pcb.retransmission, Pcb.sending]

end Walk

/-! ## What the other events do to a queue -/

/-- What is on the queue afterwards was there, or has just been added. -/
def Gains (env : Env) (q q' : List QueueEntry) : Prop :=
  ∀ e ∈ q', e ∈ q ∨ e = .added env e.seq e.flg e.data

section Gains
variable {w : World} {env : Env} {x : Env × Event} {t : Table} {i : PcbId} {p p' : Pcb}
  {eff : List Effect} {q q' q'' : List QueueEntry}

theorem Gains.of_subset (h : q' ⊆ q) : Gains env q q' := fun _ he => .inl (h he)

theorem Gains.refl (env : Env) (q : List QueueEntry) : Gains env q q := .of_subset fun _ h => h

theorem Gains.trans (h : Gains env q q') (h' : Gains env q' q'') : Gains env q q'' := by
  intro e he
  rcases h' e he with he | he
  · exact h e he
  · exact .inr he

theorem gains_queueAfter (mem : Bool) (p : Pcb) (flg : UInt8) (data : List UInt8) :
    Gains env p.queue (p.queueAfter env mem flg data) := by
  intro e he
  unfold Pcb.queueAfter at he
  split at he
  · refine (List.mem_append.mp he).imp id fun he => ?_
    rw [List.mem_singleton.mp he]
    rfl
  · exact .inl he

theorem bursts_gains {dev : NetDevice} {data : List UInt8} {k : Nat} {sent : Nat} {b : Burst}
    (h : Bursts env dev data k p sent b) (hs : b.stop ≠ .failed) :
    Gains env p.queue b.pcb.queue := by
  induction h with
  | finished => exact .refl env _
  | window => exact .refl env _
  | failed => exact absurd rfl hs
  | next k p sent hlt hc b hb ih => exact (gains_queueAfter (env.calloc k) p _ _).trans (ih hs)

theorem handled_queue {seg : SegmentInfo} {flags : UInt8} {data : List UInt8} {l f : Endpoint}
    {o : Outcome} (h : Handled env i seg flags data l f p o) (hr : o.released = false) :
    o.pcb.queue ⊆ p.queue := by
  cases (handled_acks h hr).1 with
  | stale _ hq =>
      rw [hq]
      exact fun _ he => he
  | fresh _ _ hq =>
      rw [hq]
      exact cleanup_subset seg.ack p.queue

theorem synSent_gains {seg : SegmentInfo} {flags : UInt8} {l f : Endpoint} {o : Outcome}
    (h : SynSentHandled env i seg flags l f p o) (hr : o.released = false) :
    Gains env p.queue o.pcb.queue := by
  cases h with
  | dropped => exact .refl env _
  | refused => exact .refl env _
  | reset => cases hr
  | taken _ _ _ o _ _ ho =>
      have hsyn : (synSentSyn p seg (synSentAcceptable p seg flags)).queue ⊆ p.queue := by
        rw [synSentSyn_eq]
        cases synSentAcceptable p seg flags with
        | false => exact fun _ he => he
        | true => exact cleanup_subset seg.ack p.queue
      refine (Gains.of_subset hsyn).trans ?_
      cases ho with
      | established _ heq =>
          rw [heq]
          exact .refl env _
      | crossed _ heq =>
          rw [heq]
          exact gains_queueAfter (env.calloc 0) _ _ _

theorem synTaken_gains (i : PcbId) (p : Pcb) (s : TcpSegment) :
    Gains env p.queue (p.synTaken env i s).pcb.queue := by
  rw [synTaken_pcb]
  exact gains_queueAfter (env.calloc 0) (p.synTaking env s) _ _

theorem rewrites_gains (h : Rewrites w x.1 i p x.2 p' eff) (hx : x.2 ≠ .timer) :
    Gains x.1 p.queue p'.queue := by
  obtain ⟨env, e⟩ := x
  cases h with
  | synSent s hs hr =>
      exact synSent_gains (arrivesSynSent_handled env i s.info s.flg s.foreignEp s.localEp p) hr
  | otherwise s hs hr =>
      exact .of_subset
        (handled_queue (arrivesOtherwise_handled env i s.info s.flg s.data s.foreignEp s.localEp p) hr)
  | passive s => exact synTaken_gains i p s
  | ticked => exact absurd rfl hx
  | connecting tid f l =>
      exact gains_queueAfter (env.calloc 0) ({ p with localEp := l, foreignEp := f }.opening env) _ _
  | bound => exact .refl env _
  | listening => exact .refl env _
  | sent dev data sent _ _ hstop => exact bursts_gains (burst_bursts env dev p data sent) hstop
  | received => exact .refl env _
  | closing tid s => exact gains_queueAfter (env.calloc 0) p _ _

theorem allocates_gains (h : Allocates x.1 t i x.2 p' eff) :
    Gains x.1 (t.pcb i).queue p'.queue := by
  have hclaim : ((t.claim i).pcb i).queue = (t.pcb i).queue := by rw [Table.claim_pcb_self]
  rw [← hclaim]
  obtain ⟨env, e⟩ := x
  cases h with
  | «open» => exact .refl env _
  | passive => exact .refl env _
  | active tid l f =>
      exact gains_queueAfter (env.calloc 0) (Pcb.opening env
        { (t.claim i).pcb i with mode := .rfc793, localEp := l, foreignEp := f }) _ _
  | child s q =>
      exact synTaken_gains i { (t.claim i).pcb i with mode := .socket, parent := some q } s

/-- **Any event but the timer** only adds. -/
theorem step_gains (w : World) (hx : x.2 ≠ .timer) (j : PcbId) :
    Gains x.1 (w.tab.pcb j).queue ((w.step x).tab.pcb j).queue := by
  refine step_edits w x (fun t _ => Gains x.1 (w.tab.pcb j).queue (t.pcb j).queue)
    (.refl x.1 _) (fun t _ i c h => ?_) fun t t' _ _ hb h he => ?_
  · by_cases hj : j = i
    · subst hj
      rw [Table.set_pcb_self]
      exact h
    · rw [Table.set_pcb_ne _ _ hj]
      exact h
  · refine h.trans ?_
    have hslot := he.slot j
    generalize t'.pcb j = p' at hslot ⊢
    cases hslot with
    | zeroed => exact .of_subset (List.nil_subset _)
    | kept b => exact .refl x.1 _
    | rewritten p' _ b hr =>
        have hgain : Gains x.1 (t.pcb j).queue p'.queue := rewrites_gains hr hx
        exact hgain
    | allocated p' _ hf ha => exact allocates_gains ha

end Gains

/-! ## Free slots -/

/-- A free slot has nothing queued. -/
def Pcb.Vacant (p : Pcb) : Prop := p.state = .free → p.queue = []

section Vacant
variable {w : World} {x : Env × Event} {t : Table} {i : PcbId} {p p' : Pcb} {eff : List Effect}

theorem Pcb.vacant_of_ne (h : p.state ≠ .free) : p.Vacant := fun hf => absurd hf h

theorem rewrites_vacant (h : Rewrites w x.1 i p x.2 p' eff) (hp : p.Vacant) : p'.Vacant := by
  obtain ⟨env, e⟩ := x
  cases h with
  | synSent s hs hr =>
      have hlive := synSent_live
        (arrivesSynSent_handled env i s.info s.flg s.foreignEp s.localEp p) hr hs
      refine Pcb.vacant_of_ne fun hf => ?_
      rw [Pcb.synSentOutcome] at hf
      rw [hf] at hlive
      cases hlive
  | otherwise s hs hr =>
      have hh := arrivesOtherwise_handled env i s.info s.flg s.data s.foreignEp s.localEp p
      cases hsync : p.state.synchronized with
      | true =>
          have hsync' := handled_synchronized hh hr hsync
          refine Pcb.vacant_of_ne fun hf => ?_
          rw [Pcb.otherwise] at hf
          rw [hf] at hsync'
          cases hsync'
      | false =>
          intro _
          have hnil : p.queue = [] := hp (free_of_pastOpen hs hsync)
          exact List.subset_nil.mp (hnil ▸ handled_queue hh hr)
  | passive s =>
      rw [synTaken_pcb]
      exact Pcb.vacant_of_ne (by simp)
  | ticked hs =>
      refine Pcb.vacant_of_ne fun hf => ?_
      rcases ticked_state env i p with h | h
      · rw [h] at hf
        cases hf
      · exact hs (h.symm.trans hf)
  | connecting => exact Pcb.vacant_of_ne (by simp [Pcb.opened])
  | bound _ _ hs => exact Pcb.vacant_of_ne hs
  | listening => exact Pcb.vacant_of_ne (by simp)
  | sent dev data sent _ hs =>
      rw [burst_keeps (burst_bursts env dev p data sent)]
      refine Pcb.vacant_of_ne ?_
      rcases hs with hs | hs <;> simp [hs]
  | received _ _ hs =>
      refine Pcb.vacant_of_ne fun hf => ?_
      have hf : p.state = .free := hf
      rw [hf] at hs
      cases hs
  | closing _ s hs => rcases hs with ⟨-, rfl⟩ | ⟨-, rfl⟩ <;> exact Pcb.vacant_of_ne (by simp [Pcb.closing])

theorem allocates_vacant (h : Allocates x.1 t i x.2 p' eff) : p'.Vacant := by
  obtain ⟨env, e⟩ := x
  cases h with
  | «open» =>
      rw [Table.claim_pcb_self]
      exact Pcb.vacant_of_ne (by simp)
  | passive => exact Pcb.vacant_of_ne (by simp)
  | active => exact Pcb.vacant_of_ne (by simp [Pcb.opened])
  | child =>
      rw [synTaken_pcb]
      exact Pcb.vacant_of_ne (by simp)

theorem vacant_slotwise (w : World) (x : Env × Event) : Slotwise w x Pcb.Vacant where
  zero _ := rfl
  cond _ _ h := h
  backlog _ _ h := h
  rewrite _ _ _ _ _ _ _ hr hi := rewrites_vacant hr hi
  allocate _ _ _ _ _ ha _ := allocates_vacant ha

theorem run_vacant (es : List (Env × Event)) (j : PcbId) :
    ((run World.step .boot es).tab.pcb j).Vacant :=
  inv_run (fun w => ∀ j, (w.tab.pcb j).Vacant) (fun w x hi _ => (vacant_slotwise w x).step hi)
    (fun _ _ => rfl) (guarded_true World.step .boot es) j

end Vacant

/-! ## The timer -/

section Timer
variable {env : Env} {t : Table} {j : PcbId}

/-- **The timer** sends again what is due, on every slot that it does not release. -/
theorem timer_queue (env : Env) (hv : (t.pcb j).Vacant) :
    t.Lapses env slots j ∧ (tcpTimer env t).1.pcb j = .zero ∨
      ((tcpTimer env t).1.pcb j).queue = (t.pcb j).queue.map (·.ticked env) := by
  by_cases hl : t.Lapses env slots j
  · exact .inl ⟨hl, (tcpTimer_pcb env t j).1 hl⟩
  · refine .inr ?_
    have hel : (t.pcb j).timewaitElapsed env = false := by
      rw [Bool.eq_false_iff]
      exact fun hel => hl ⟨j, mem_slots j, hel, .refl⟩
    rw [(tcpTimer_pcb env t j).2 hl, Pcb.afterTimer]
    split
    · rename_i hf
      rw [hv hf]
      rfl
    · rw [hel, if_neg Bool.false_ne_true]
      exact emitQueue_queue env j (t.pcb j) (t.pcb j).queue

/-- An entry as old as the deadline ends the connection, if TIME-WAIT has not. -/
theorem timer_closes {e : QueueEntry} (hv : (t.pcb j).Vacant) (he : e ∈ (t.pcb j).queue)
    (hexp : e.expired env) :
    ((tcpTimer env t).1.pcb j).state = .closed ∨
      t.Lapses env slots j ∧ (tcpTimer env t).1.pcb j = .zero := by
  by_cases hl : t.Lapses env slots j
  · exact .inr ⟨hl, (tcpTimer_pcb env t j).1 hl⟩
  · refine .inl ?_
    have hel : (t.pcb j).timewaitElapsed env = false := by
      rw [Bool.eq_false_iff]
      exact fun hel => hl ⟨j, mem_slots j, hel, .refl⟩
    have hused : (t.pcb j).state ≠ .free := by
      intro hf
      rw [hv hf] at he
      exact List.not_mem_nil he
    have hany : (t.pcb j).queue.any (·.expired env) := List.any_eq_true.mpr ⟨e, he, hexp⟩
    rw [(tcpTimer_pcb env t j).2 hl, Pcb.afterTimer, if_neg hused, hel, if_neg Bool.false_ne_true,
      Pcb.ticked, emitQueue_pcb]
    show (if _ then _ else _) = _
    rw [if_pos hany]

theorem timerSlot_output {i : PcbId} {s : TcpSegment}
    (h : Effect.output j s ∈ (timerSlot env t i).2) :
    j = i ∧ ∃ e ∈ (t.pcb i).queue, e.resent env = true ∧ s = (t.pcb i).retransmission e := by
  simp only [timerSlot] at h
  split at h
  · exact absurd h List.not_mem_nil
  split at h
  · exact absurd h List.not_mem_nil
  · obtain rfl : j = i := by
      rcases emitQueue_effects env i (t.pcb i) (t.pcb i).queue _ h with heq | ⟨e, -, heq⟩
      · cases heq
      · cases heq
        rfl
    exact ⟨rfl, (mem_emitQueue_output env j (t.pcb j) (t.pcb j).queue s).mp h⟩

theorem timerLoop_output {s : TcpSegment} (is : List PcbId) :
    ∀ {t : Table}, is.Nodup → Effect.output j s ∈ (timerLoop env t is).2 →
      j ∈ is ∧ ∃ e ∈ (t.pcb j).queue, e.resent env = true ∧ s = (t.pcb j).retransmission e := by
  induction is with
  | nil => exact fun _ h => absurd h List.not_mem_nil
  | cons i rest ih =>
      intro t hnd h
      obtain ⟨hi, hnd'⟩ := List.nodup_cons.mp hnd
      have h : Effect.output j s ∈
        (timerSlot env t i).2 ++ (timerLoop env (timerSlot env t i).1 rest).2 := h
      rcases List.mem_append.mp h with h | h
      · obtain ⟨rfl, hsent⟩ := timerSlot_output h
        exact ⟨List.mem_cons_self, hsent⟩
      · obtain ⟨hj, e, he, hsent⟩ := ih hnd' h
        have hji : j ≠ i := fun heq => hi (heq ▸ hj)
        -- the slots before have left this one alone, or released it
        have hsame : (timerSlot env t i).1.pcb j = t.pcb j := by
          rcases timerSlot_pcb env t i with ⟨-, hslot⟩ | ⟨-, -, hother⟩
          · rw [hslot] at he ⊢
            rcases tcpPcbRelease_cases t i j with hz | ⟨-, hz⟩
            · rw [hz] at he
              exact absurd he List.not_mem_nil
            · exact hz
          · exact hother j hji
        rw [hsame] at he hsent
        exact ⟨List.mem_cons_of_mem i hj, e, he, hsent⟩

/-- **Nothing else** goes out. -/
theorem timer_output {s : TcpSegment} (h : Effect.output j s ∈ (tcpTimer env t).2) :
    ∃ e ∈ (t.pcb j).queue, e.resent env = true ∧ s = (t.pcb j).retransmission e :=
  (timerLoop_output slots (List.nodup_finRange 16) h).2

end Timer

/-! ## Runs -/

/-- The runs of the timer among the events. -/
def timerRuns (es : List (Env × Event)) : List Env :=
  es.filterMap fun x => if x.2 = .timer then some x.1 else none

theorem timerRuns_append (es es' : List (Env × Event)) :
    timerRuns (es ++ es') = timerRuns es ++ timerRuns es' := List.filterMap_append

/-- The event `x` has put `e₀` on the queue of slot `i`, and during `es₂` it stayed there. -/
structure Lingers (i : PcbId) (es₁ : List (Env × Event)) (x : Env × Event)
    (es₂ : List (Env × Event)) (e₀ : QueueEntry) : Prop where
  adds : x.2 ≠ .timer
  fresh : ∃ seq flg data, e₀ = .added x.1 seq flg data
  queued : ∀ es₃, es₃ <+: es₂ →
    e₀.lived (timerRuns es₃) ∈ ((run World.step .boot (es₁ ++ x :: es₃)).tab.pcb i).queue

/-- One event more. -/
theorem Lingers.snoc {i : PcbId} {es₁ es₂ : List (Env × Event)} {x y : Env × Event}
    {e₀ : QueueEntry} (h : Lingers i es₁ x es₂ e₀)
    (hy : e₀.lived (timerRuns (es₂ ++ [y])) ∈
      ((run World.step .boot (es₁ ++ x :: (es₂ ++ [y]))).tab.pcb i).queue) :
    Lingers i es₁ x (es₂ ++ [y]) e₀ where
  adds := h.adds
  fresh := h.fresh
  queued es₃ hp := by
    rcases List.prefix_concat_iff.mp hp with rfl | hp
    · exact hy
    · exact h.queued es₃ hp

/-- **Every entry** on a queue has been added by some event, and only the timer has touched it
since. -/
theorem run_lingers (es : List (Env × Event)) (i : PcbId) :
    ∀ e ∈ ((run World.step .boot es).tab.pcb i).queue, ∃ es₁ x es₂ e₀,
      es = es₁ ++ x :: es₂ ∧ Lingers i es₁ x es₂ e₀ ∧ e = e₀.lived (timerRuns es₂) := by
  induction es using List.reverseRecOn with
  | nil => exact fun e he => absurd he List.not_mem_nil
  | append_singleton es y ih =>
      intro e he
      have hstep : run World.step .boot (es ++ [y]) = (run World.step .boot es).step y := by
        rw [run_append, run_cons, run_nil]
      -- an entry that was there, and is now `e`
      have goesOn (e' : QueueEntry) (he' : e' ∈ ((run World.step .boot es).tab.pcb i).queue)
          (heq : e = e'.lived (timerRuns [y])) : ∃ es₁ x es₂ e₀,
          es ++ [y] = es₁ ++ x :: es₂ ∧ Lingers i es₁ x es₂ e₀ ∧ e = e₀.lived (timerRuns es₂) := by
        obtain ⟨es₁, x, es₂, e₀, hes, hl, he₀⟩ := ih e' he'
        have hes' : es ++ [y] = es₁ ++ x :: (es₂ ++ [y]) := by
          rw [hes, List.append_assoc, List.cons_append]
        have hlived : e = e₀.lived (timerRuns (es₂ ++ [y])) := by
          rw [timerRuns_append, QueueEntry.lived_append, ← he₀, heq]
        refine ⟨es₁, x, es₂ ++ [y], e₀, hes', hl.snoc ?_, hlived⟩
        rw [← hes', ← hlived]
        exact he
      rw [hstep] at he
      obtain ⟨env, ev⟩ := y
      by_cases hev : ev = .timer
      · subst hev
        have htimer : ((run World.step .boot es).step (env, .timer)).tab =
            (tcpTimer env (run World.step .boot es).tab).1 := step_timer rfl
        rw [htimer] at he
        rcases timer_queue env (run_vacant es i) with ⟨-, hz⟩ | hq
        · rw [hz] at he
          exact absurd he List.not_mem_nil
        · rw [hq] at he
          obtain ⟨e', he', rfl⟩ := List.mem_map.mp he
          exact goesOn e' he' rfl
      · have hruns : timerRuns [(env, ev)] = [] := by simp [timerRuns, hev]
        rcases step_gains _ hev i e he with hold | hnew
        · exact goesOn e hold (by rw [hruns]; rfl)
        · refine ⟨es, (env, ev), [], e, rfl, ⟨hev, ⟨_, _, _, hnew⟩, fun es₃ hp => ?_⟩, rfl⟩
          rw [List.prefix_nil.mp hp, hstep]
          exact he

/-- The timeout of an entry stays below 6.4 seconds. -/
theorem QueueEntry.Paced.rto_le {e : QueueEntry} {t₀ : Timeval} {ts : List Timeval}
    (h : e.Paced t₀ ts) : e.rto.toNat ≤ 6400000 := by
  rw [h.rto]
  calc 200000 * 2 ^ ts.length ≤ 200000 * 2 ^ 5 :=
        Nat.mul_le_mul_left _ (Nat.pow_le_pow_right (by decide) h.count)
    _ = 6400000 := rfl

/-- **Back-off is bounded.**  Every entry on a queue after any run has been sent again at most five
times, the `k`-th time more than `0.2 * (2^k - 1)` seconds after it was added, and its timeout is
at most 6.4 seconds.  A run of the timer when it is twelve seconds old does not send it again and
closes the pcb, or releases it because TIME-WAIT is over.  What the timer sends is due. -/
theorem backoff_bounded (es : List (Env × Event)) (hnow : ∀ x ∈ es, x.1.now.Normal) :
    let w := run World.step .boot es
    (∀ i, ∀ e ∈ (w.tab.pcb i).queue, ∃ es₁ x es₂ e₀, es = es₁ ++ x :: es₂ ∧
      Lingers i es₁ x es₂ e₀ ∧ e = e₀.lived (timerRuns es₂) ∧
      (e₀.resends (timerRuns es₂)).length ≤ 5 ∧
      (∀ k (hk : k < (e₀.resends (timerRuns es₂)).length),
        x.1.now.usec + 200000 * (2 ^ (k + 1) - 1) < (e₀.resends (timerRuns es₂))[k].usec) ∧
      e.rto.toNat ≤ 6400000 ∧ (e.last.addUsec e.rto.toNat).Normal ∧
      ∀ env : Env, env.now.Normal → 12 ≤ (env.now.sub x.1.now).tvSec →
        e.resent env = false ∧
          (((w.step (env, .timer)).tab.pcb i).state = .closed ∨
            w.tab.Lapses env slots i ∧ (w.step (env, .timer)).tab.pcb i = .zero)) ∧
    ∀ env i s, .output i s ∈ w.effects (env, .timer) →
      ∃ e ∈ (w.tab.pcb i).queue, e.resent env = true ∧ s = (w.tab.pcb i).retransmission e := by
  intro w
  refine ⟨fun i e he => ?_, fun env i s hs => timer_output hs⟩
  obtain ⟨es₁, x, es₂, e₀, hes, hl, hlived⟩ := run_lingers es i e he
  have hx : x.1.now.Normal := hnow x (hes ▸ List.mem_append_right _ List.mem_cons_self)
  have hruns : ∀ r ∈ timerRuns es₂, r.now.Normal := by
    intro r hr
    obtain ⟨y, hy, hyr⟩ := List.mem_filterMap.mp hr
    split at hyr
    · cases hyr
      exact hnow y (hes ▸ List.mem_append_right _ (List.mem_cons_of_mem x hy))
    · cases hyr
  have hpaced : e.Paced x.1.now (e₀.resends (timerRuns es₂)) := by
    obtain ⟨seq, flg, data, he₀⟩ := hl.fresh
    rw [hlived, he₀]
    exact QueueEntry.paced_lived hx seq flg data _ hruns
  refine ⟨es₁, x, es₂, e₀, hes, hl, hlived, hpaced.count, hpaced.late, hpaced.rto_le,
    Timeval.addUsec_normal hpaced.normal _, fun env henv hold => ?_⟩
  have hexp : e.expired env = true := by
    rw [QueueEntry.expired, hpaced.first]
    exact decide_eq_true hold
  refine ⟨by simp [QueueEntry.resent, hexp], ?_⟩
  have htimer : (w.step (env, .timer)).tab = (tcpTimer env w.tab).1 := step_timer rfl
  rw [htimer]
  exact timer_closes (run_vacant es i) he hexp

/-- The timer finds a SYN twice, and sends it again once. -/
def synAgain : List (Env × Event) :=
  [(.ideal .zero 0 [sampleRoute], .user 1 .open),
   (.ideal .zero 0 [sampleRoute], .user 1 (.connect 0 samplePeer)),
   (.ideal ⟨0, 100000⟩ 0 [], .timer), (.ideal ⟨0, 300000⟩ 0 [], .timer)]

theorem backoff_bounded_synAgain :
    let q := ((run World.step .boot synAgain).tab.pcb 0).queue
    q.map (·.last) = [⟨0, 300000⟩] ∧ ∀ e ∈ q, e.rto.toNat ≤ 6400000 := by
  refine ⟨by decide +kernel, fun e he => ?_⟩
  obtain ⟨-, -, -, -, -, -, -, -, -, hrto, -⟩ :=
    (backoff_bounded synAgain (by decide)).1 0 e he
  exact hrto

/-! ## TIME-WAIT with a full queue -/

/-- A segment of the peer for the port that `tcp_connect` takes. -/
def answers (seq ack : UInt32) (flg : UInt8) : Env × Event :=
  (.ideal .zero 0 [], .segment { peerSegment seq ack flg [] with
    foreignEp := ⟨sampleLocal.addr, 49152⟩ })

/-- A pcb is connected twice, the second time with a smaller `iss`, and closed.  The first SYN
stays at the head of the queue. -/
def reconnected : List (Env × Event) :=
  [(.ideal .zero 0 [sampleRoute], .user 1 .open),
   (.ideal .zero 1000 [sampleRoute], .user 1 (.connect 0 samplePeer)),
   (.ideal .zero 0 [sampleRoute], .user 2 (.connect 0 samplePeer)),
   answers 100 1 (flgSyn ||| flgAck),
   (.ideal .zero 0 [sampleRoute], .user 3 (.close 0)),
   answers 101 2 (flgFin ||| flgAck)]

/-- **Not CLOSED.**  When the timer runs for the first time TIME-WAIT is over as well as the
deadline of the entries, and the slot is released. -/
theorem deadline_in_timeWait :
    ¬ ∀ (es : List (Env × Event)) (i : PcbId) (e : QueueEntry) (env : Env),
      (∀ x ∈ es, x.1.now.Normal) → (es.map (·.1.now.usec)).Pairwise (· ≤ ·) →
      (∀ x ∈ es, x.2 ≠ .timer ∧ x.1.now.usec ≤ env.now.usec) → env.now.Normal →
      e ∈ ((run World.step .boot es).tab.pcb i).queue → 12 ≤ (env.now.sub e.first).tvSec →
      (((run World.step .boot es).step (env, .timer)).tab.pcb i).state = .closed := by
  intro h
  have hclosed := h reconnected 0
    { first := .zero, last := .zero, rto := tcpDefaultRto, seq := 1000, flg := flgSyn, data := [] }
    (.ideal ⟨100, 0⟩ 0 []) (by decide) (by decide) (by decide) (by decide) (by decide +kernel)
    (by decide)
  have hfree : (((run World.step .boot reconnected).step (.ideal ⟨100, 0⟩ 0 [], .timer)).tab.pcb
      0).state = .free := by
    decide +kernel
  cases hfree.symm.trans hclosed

end Laplus.Tcp
