/-
# `Laplus.Tcp.Sleepers` — releasing a pcb while a task sleeps on it

`tcp_pcb_release` means to leave a pcb alone while its condition variable is
in use, and tests `cond_destroy(..) == -1` for it.  The test never succeeds,
so the slot is zeroed under the sleepers.  As long as no slot with sleepers
is released, the counter of every slot counts the tasks asleep on it, and a
sleeper finds the connection it went to sleep on; a slot zeroed under a
sleeper counts below zero when the sleeper leaves.
-/
import Laplus.Lib.Census
import Laplus.Tcp.Wakeup

namespace Laplus.Tcp

open Net Lib

/-! ## Release -/

/-- **`tcp_pcb_release` spares sleepers** only when there are none: a pcb in
use by a sleeper is left alone if and only if no slot that is swept has one. -/
theorem release_spares_iff (t : Table) (i : PcbId) :
    (∀ j, (t.pcb j).cond.num ≠ 0 → (tcpPcbRelease t i).pcb j = t.pcb j) ↔
      ∀ j, Linked t i j → (t.pcb j).cond.num = 0 := by
  constructor
  · intro h j hl
    by_contra hnum
    have hz : t.pcb j = .zero := (h j hnum).symm.trans ((tcpPcbRelease_pcb t i j).1 hl)
    exact hnum (by rw [hz]; rfl)
  · intro h j hnum
    exact (tcpPcbRelease_pcb t i j).2 fun hl => hnum (h j hl)

/-- The event gives slot `r` to `tcp_pcb_release`. -/
inductive Frees (w : World) (env : Env) : Event → PcbId → Prop
  | release (e : Event) (r : PcbId) (h : Releases w env (w.found e) r e) : Frees w env e r
  /-- `tcp_open_rfc793` takes a slot and cannot send its SYN. -/
  | spend (tid : TaskId) (l f : Endpoint) (r : PcbId) (hr : firstFree w.tab = some r)
      (ho : tcpOutputSegment env (({ (w.tab.claim r).pcb r with
        mode := .rfc793, localEp := l, foreignEp := f }.opening env).segment flgSyn []) = false) :
      Frees w env (.user tid (.openActive l f)) r

/-- No slot is released, directly or with the listener it is queued on, while
its condition variable is in use.  Task 0 does not exist. -/
def Spares (w : World) (x : Env × Event) : Prop :=
  w.acts x.2 → (∀ c, x.2 ≠ .user 0 c) ∧
    ∀ r j, Frees w x.1 x.2 r → Linked (w.found x.2) r j → ((w.found x.2).pcb j).cond.num = 0

/-! ## Edits -/

section Rewrites
variable {w : World} {env : Env} {e : Event} {i : PcbId} {p p' : Pcb} {eff : List Effect}

theorem rewrites_cond (h : Rewrites w env i p e p' eff) : p'.cond = p.cond := by
  cases h with
  | synSent s =>
      have hh : SynSentHandled env i s.info s.flg s.foreignEp s.localEp p
          (p.synSentOutcome env i s) := arrivesSynSent_handled _ _ _ _ _ _ _
      generalize p.synSentOutcome env i s = o at hh
      cases hh with
      | dropped => rfl
      | refused => rfl
      | reset => rfl
      | taken _ _ _ o _ _ ho =>
          cases ho with
          | established _ hp => rw [hp, Pcb.synEstablished, synSentSyn_eq]
          | crossed _ hp => rw [hp, Pcb.synCrossed, synSentSyn_eq]
  | otherwise s =>
      exact (handled_keeps (arrivesOtherwise_handled _ _ _ _ _ _ _ _)).cond
  | passive s => rw [synTaken_pcb]; rfl
  | ticked => rw [Pcb.ticked, emitQueue_pcb]
  | connecting => rfl
  | bound => rfl
  | listening => rfl
  | sent dev data n => rw [burst_keeps (burst_bursts env dev p data n)]
  | received => rfl
  | closing => rfl

/-- A pcb that changes in place stays in use. -/
theorem rewrites_used (h : Rewrites w env i p e p' eff) (hu : p.state ≠ .free) :
    p'.state ≠ .free := by
  cases h with
  | synSent s hs hr =>
      have hh : SynSentHandled env i s.info s.flg s.foreignEp s.localEp p
          (p.synSentOutcome env i s) := arrivesSynSent_handled _ _ _ _ _ _ _
      generalize p.synSentOutcome env i s = o at hh
      cases hh with
      | dropped => exact hu
      | refused => exact hu
      | reset => simp
      | taken _ _ _ o _ _ ho =>
          cases ho with
          | established _ hp => simp [hp, Pcb.synEstablished]
          | crossed _ hp => simp [hp, Pcb.synCrossed]
  | otherwise s hs hr =>
      have hsync : p.state.synchronized := by
        by_contra h
        exact hu (free_of_pastOpen hs (by simpa using h))
      have h := handled_synchronized (arrivesOtherwise_handled _ _ _ _ _ _ _ _) hr hsync
      intro hf
      rw [Pcb.otherwise] at hf
      rw [hf] at h
      cases h
  | passive s => simp [synTaken_pcb]
  | ticked =>
      rcases ticked_state env i p with h | h
      · simp [h]
      · rwa [h]
  | connecting => simp [Pcb.opened]
  | bound => exact hu
  | listening => simp
  | sent dev data n => rwa [burst_keeps (burst_bursts env dev p data n)]
  | received => exact hu
  | closing _ s hs =>
      rcases hs with ⟨-, rfl⟩ | ⟨-, rfl⟩ <;> simp [Pcb.closing]

/-- The deadline is the only way into CLOSED. -/
theorem rewrites_closed (h : Rewrites w env i p e p' eff) (ht : e ≠ .timer)
    (hc : p'.state = .closed) : p.state = .closed := by
  cases h with
  | synSent s hs hr =>
      have hh : SynSentHandled env i s.info s.flg s.foreignEp s.localEp p
          (p.synSentOutcome env i s) := arrivesSynSent_handled _ _ _ _ _ _ _
      generalize p.synSentOutcome env i s = o at hh hr hc
      cases hh with
      | dropped => exact hc
      | refused => exact hc
      | reset => simp at hr
      | taken _ _ _ o _ _ ho =>
          cases ho with
          | established _ hp => rw [hp] at hc; cases hc
          | crossed _ hp => rw [hp] at hc; cases hc
  | otherwise s hs hr =>
      have hh : Handled env i s.info s.flg s.data s.foreignEp s.localEp p
          (p.otherwise env i s) := arrivesOtherwise_handled _ _ _ _ _ _ _ _
      cases hsync : p.state.synchronized with
      | true =>
          have h := handled_synchronized hh hr hsync
          rw [hc] at h
          cases h
      | false =>
          have hfree := free_of_pastOpen hs hsync
          have h := handled_free hh hfree
          rw [h] at hc
          cases hc
  | passive s => rw [synTaken_pcb] at hc; cases hc
  | ticked => exact absurd rfl ht
  | connecting => cases hc
  | bound => exact hc
  | listening => cases hc
  | sent dev data n => rwa [burst_keeps (burst_bursts env dev p data n)] at hc
  | received => exact hc
  | closing _ s hs => rcases hs with ⟨-, rfl⟩ | ⟨-, rfl⟩ <;> cases hc

/-- It wakes the sleepers. -/
theorem rewrites_closes (h : Rewrites w env i p e p' eff) (hc : p.state ≠ .closed)
    (hc' : p'.state = .closed) : Effect.broadcast i ∈ eff := by
  by_cases ht : e = .timer
  · subst ht
    cases h with
    | ticked =>
        rw [Pcb.ticked, emitQueue_pcb] at hc'
        rw [emitQueue_broadcast]
        by_contra hexp
        rw [if_neg hexp] at hc'
        exact hc hc'
    | sent _ _ _ he => cases he.isCall
    | received _ he => cases he
  · exact absurd (rewrites_closed h ht hc') hc

end Rewrites

/-- Slot `j` keeps its sleepers from `t₀` to `t`: their number stays, and while
there are any the connection stays theirs and does not end in silence. -/
structure SleepersKept (t₀ t : Table) (eff : List Effect) (j : PcbId) : Prop where
  num : (t.pcb j).cond.num = (t₀.pcb j).cond.num
  used : (t₀.pcb j).cond.num ≠ 0 → (t.pcb j).state ≠ .free
  gen : (t₀.pcb j).cond.num ≠ 0 → t.gen j = t₀.gen j
  told : (t₀.pcb j).cond.num ≠ 0 → (t₀.pcb j).state ≠ .closed → (t.pcb j).state = .closed →
    Effect.broadcast j ∈ eff

section Edits
variable {w : World} {env : Env} {e : Event} {t₀ t t' : Table} {eff eff' : List Effect} {j : PcbId}

theorem SleepersKept.refl (h : (t.pcb j).cond.num ≠ 0 → (t.pcb j).state ≠ .free) :
    SleepersKept t t [] j where
  num := rfl
  used := h
  gen _ := rfl
  told _ hc hc' := absurd hc' hc

/-- A change that leaves the sleepers of the slot alone. -/
theorem SleepersKept.next (h : SleepersKept t₀ t eff j)
    (hnum : (t'.pcb j).cond.num = (t.pcb j).cond.num)
    (hkeep : (t.pcb j).cond.num ≠ 0 → (t'.pcb j).state ≠ .free ∧ t'.gen j = t.gen j ∧
      ((t.pcb j).state ≠ .closed → (t'.pcb j).state = .closed → Effect.broadcast j ∈ eff')) :
    SleepersKept t₀ t' (eff ++ eff') j where
  num := hnum.trans h.num
  used hn := (hkeep (h.num ▸ hn)).1
  gen hn := (hkeep (h.num ▸ hn)).2.1.trans (h.gen hn)
  told hn hc hc' := by
    rw [List.mem_append]
    by_cases hmid : (t.pcb j).state = .closed
    · exact .inl (h.told hn hc hmid)
    · exact .inr ((hkeep (h.num ▸ hn)).2.2 hmid hc')

/-- A slot is released that nobody sleeps on. -/
theorem SleepersKept.zeroed (h : SleepersKept t₀ t eff j) (hz : t'.pcb j = .zero)
    (hnum : (t.pcb j).cond.num = 0) : SleepersKept t₀ t' (eff ++ eff') j :=
  h.next (by rw [hz, hnum]; rfl) fun hn => absurd hnum hn

/-- Nothing happens to the slot. -/
theorem SleepersKept.same (h : SleepersKept t₀ t eff j) (hp : t'.pcb j = t.pcb j)
    (hg : t'.gen j = t.gen j) : SleepersKept t₀ t' (eff ++ eff') j :=
  h.next (by rw [hp]) fun hn => ⟨by rw [hp]; exact h.used (h.num ▸ hn), hg, fun hc hc' => by
    rw [hp] at hc'
    exact absurd hc' hc⟩

theorem SleepersKept.rewrite {i : PcbId} {p' : Pcb} (h : SleepersKept t₀ t eff i)
    (hr : Rewrites w env i (t.pcb i) e p' eff') (hp : t'.pcb i = p') (hg : t'.gen i = t.gen i) :
    SleepersKept t₀ t' (eff ++ eff') i :=
  h.next (by rw [hp, rewrites_cond hr]) fun hn => by
    rw [hp]
    exact ⟨rewrites_used hr (h.used (h.num ▸ hn)), hg, rewrites_closes hr⟩

theorem allocates_num {i : PcbId} {p' : Pcb} (h : Allocates env t i e p' eff') :
    p'.cond.num = 0 := by
  cases h with
  | «open» => rw [Table.claim_pcb_self]; rfl
  | passive => rw [Table.claim_pcb_self]; rfl
  | active => rw [Table.claim_pcb_self]; rfl
  | child => rw [synTaken_pcb, Table.claim_pcb_self]; rfl

/-- **One edit** that spares the sleepers of a table keeps them all. -/
theorem edit_sleepers (hb : Before w (env, e) t eff) (hw : e = .timer → Waning env w.tab t)
    (h : ∀ j, SleepersKept (w.found e) t eff j) (hs : Spares w (env, e))
    (he : Edit w env e t t' eff') (j : PcbId) : SleepersKept (w.found e) t' (eff ++ eff') j := by
  have hj := h j
  -- what is released has no sleepers
  have spared {r : PcbId} (hr : Frees w env e r) (hl : Linked (w.found e) r j) :
      (t.pcb j).cond.num = 0 := by
    rw [hj.num]
    exact (hs hb.acts).2 r j hr hl
  have unused (hf : (t.pcb j).state = .free) : (t.pcb j).cond.num = 0 := by
    by_contra hn
    exact hj.used (hj.num ▸ hn) hf
  cases he with
  | rewrite i p' _ hr hsel =>
      by_cases hi : j = i
      · subst hi
        exact hj.rewrite hr (Table.set_pcb_self _ _ _) rfl
      · exact hj.same (Table.set_pcb_ne _ _ hi) rfl
  | allocate i p' _ hf ha =>
      by_cases hi : j = i
      · subst hi
        have hnum := unused (firstFree_free hf)
        refine hj.next ?_ fun hn => absurd hnum hn
        rw [Table.set_pcb_self, allocates_num ha, hnum]
      · exact hj.same (by rw [Table.set_pcb_ne _ _ hi, Table.claim_pcb_ne _ hi])
          (by rw [Table.set_gen, Table.claim_gen_ne _ hi])
  | spent i hf tid l f hev _ _ ho =>
      subst hev
      have ht : t = w.tab := (hb.once (by simp)).2
      subst ht
      have hback (a : PcbId) : ((w.tab.claim i).pcb a).backlog ⊆ (w.tab.pcb a).backlog := by
        by_cases ha : a = i
        · subst ha
          simp
        · simp [ha]
      by_cases hl : Linked (w.tab.claim i) i j
      · exact hj.zeroed ((tcpPcbRelease_pcb _ _ _).1 hl)
          (spared (.spend tid l f i hf ho) (hl.mono hback))
      · have hi : j ≠ i := fun hi => hl (hi ▸ .refl)
        refine hj.same ?_ ?_
        · rw [(tcpPcbRelease_pcb _ _ _).2 hl, Table.claim_pcb_ne _ hi]
        · rw [tcpPcbRelease_gen, Table.claim_gen_ne _ hi]
  | release i _ hr _ =>
      by_cases hl : Linked t i j
      · obtain ⟨hr', hl'⟩ := hr.found hw hb hl
        exact hj.zeroed ((tcpPcbRelease_pcb _ _ _).1 hl) (spared (.release e i hr') hl')
      · exact hj.same ((tcpPcbRelease_pcb _ _ _).2 hl) (by rw [tcpPcbRelease_gen])
  | enqueue i q s hsel hev hst hp hr hq =>
      have hset : SleepersKept (w.found e) (t.set i ((t.pcb i).otherwise env i s).pcb)
          (eff ++ ((t.pcb i).otherwise env i s).effects) j := by
        by_cases hi : j = i
        · subst hi
          exact hj.rewrite hr (Table.set_pcb_self _ _ _) rfl
        · exact hj.same (Table.set_pcb_ne _ _ hi) rfl
      by_cases hi : j = q
      · subst hi
        refine ⟨?_, ?_, hset.gen, ?_⟩ <;> rw [Table.pushBacklog, Table.set_pcb_self]
        · exact hset.num
        · exact hset.used
        · exact hset.told
      · refine ⟨?_, ?_, hset.gen, ?_⟩ <;> rw [Table.pushBacklog, Table.set_pcb_ne _ _ hi]
        · exact hset.num
        · exact hset.used
        · exact hset.told
  | dequeue i c rest =>
      by_cases hi : j = i
      · subst hi
        refine hj.next ?_ fun hn => ⟨?_, rfl, ?_⟩ <;> rw [Table.set_pcb_self]
        · exact hj.used (hj.num ▸ hn)
        · exact fun hc hc' => absurd hc' hc
      · exact hj.same (Table.set_pcb_ne _ _ hi) rfl
  | silent => exact hj.same rfl rfl

end Edits

/-- The timer spares the sleepers of every slot. -/
theorem timer_sleepers {w : World} {env : Env}
    (h : ∀ j, (w.tab.pcb j).cond.num ≠ 0 → (w.tab.pcb j).state ≠ .free)
    (hs : Spares w (env, .timer)) (j : PcbId) :
    SleepersKept w.tab (tcpTimer env w.tab).1 (tcpTimer env w.tab).2 j := by
  have hloop : Waning env w.tab (timerLoop env w.tab slots).1 ∧
      ∀ j, SleepersKept w.tab (timerLoop env w.tab slots).1
        ([] ++ (timerLoop env w.tab slots).2) j :=
    timerLoop_edits (fun t eff => Waning env w.tab t ∧ ∀ j, SleepersKept w.tab t eff j)
      (fun t t' eff eff' ht he => ⟨ht.1.edit he, edit_sleepers
        ⟨by simp [World.acts], fun h => absurd rfl h⟩ (fun _ => ht.1) ht.2 hs he⟩)
      slots ⟨.refl _ _, fun j => .refl (h j)⟩
  exact hloop.2 j

/-! ## The sleepers of a slot -/

/-- The tasks asleep on the pcb of slot `j`. -/
def World.sleepers (w : World) (j : PcbId) : Set TaskId :=
  { tid | ∃ b, w.tasks tid = some b ∧ b.pcb = j }

/-- Every counter counts the sleepers of its slot, and nobody sleeps on a slot
that is not in use. -/
structure World.Tended (w : World) : Prop where
  count : ∀ j, Census (w.sleepers j) (w.tab.pcb j).cond.num
  used : ∀ tid b, w.tasks tid = some b → (w.tab.pcb b.pcb).state ≠ .free
  proper : ∀ tid b, w.tasks tid = some b → b.wait.Proper
  zero : w.tasks 0 = none

section Tended
variable {w : World} {env : Env} {tid : TaskId} {b : Blocked} {t : Table} {eff : List Effect}

theorem boot_tended : World.boot.Tended where
  count j := by
    have hnone : World.boot.sleepers j = ∅ := Set.eq_empty_iff_forall_notMem.mpr
      fun tid ⟨b, hb, _⟩ => Option.some_ne_none b hb.symm
    rw [hnone]
    exact census_empty
  used tid b h := absurd h.symm (Option.some_ne_none b)
  proper tid b h := absurd h.symm (Option.some_ne_none b)
  zero := rfl

theorem World.Tended.exact (h : w.Tended) (j : PcbId) :
    (w.tab.pcb j).cond.num.toNat = (w.sleepers j).ncard := by
  refine (h.count j).toNat (ncard_lt ?_)
  rintro ⟨b, hb, -⟩
  rw [h.zero] at hb
  cases hb

/-- A slot with a sleeper counts at least one. -/
theorem World.Tended.num_ne (h : w.Tended) (ht : w.tasks tid = some b) :
    (w.tab.pcb b.pcb).cond.num ≠ 0 := by
  intro hn
  have hcard := h.exact b.pcb
  rw [hn] at hcard
  have hnone : w.sleepers b.pcb = ∅ := (Set.ncard_eq_zero (Set.toFinite _)).mp hcard.symm
  have hmem : tid ∈ w.sleepers b.pcb := ⟨b, ht, rfl⟩
  rw [hnone] at hmem
  exact hmem

/-- Only a slot in use counts anybody. -/
theorem World.Tended.free_of (h : w.Tended) (j : PcbId) (hn : (w.tab.pcb j).cond.num ≠ 0) :
    (w.tab.pcb j).state ≠ .free := by
  have hcard : (w.sleepers j).ncard ≠ 0 := by
    rw [← h.exact]
    exact fun h0 => hn (UInt64.toNat_inj.mp h0)
  obtain ⟨tid, b, hb, rfl⟩ := Set.nonempty_of_ncard_ne_zero hcard
  exact h.used tid b hb

theorem after_sleepers (w : World) (t : Table) (eff : List Effect) (j : PcbId) :
    (w.after t eff).sleepers j = w.sleepers j := by
  ext tid
  constructor
  · rintro ⟨b, hb, rfl⟩
    obtain ⟨b₀, h₀, rfl⟩ := Option.map_eq_some_iff.mp hb
    exact ⟨b₀, h₀, rfl⟩
  · rintro ⟨b, hb, rfl⟩
    exact ⟨wake eff b, by simp [World.after, hb], rfl⟩

/-- A change of the table that keeps the sleepers. -/
theorem World.Tended.after (h : w.Tended) (hk : ∀ j, SleepersKept w.tab t eff j) :
    (w.after t eff).Tended where
  count j := by
    rw [after_sleepers]
    exact (hk j).num ▸ h.count j
  used tid b hb := by
    obtain ⟨b₀, h₀, rfl⟩ := Option.map_eq_some_iff.mp hb
    exact (hk b₀.pcb).used (h.num_ne h₀)
  proper tid b hb := by
    obtain ⟨b₀, h₀, rfl⟩ := Option.map_eq_some_iff.mp hb
    exact h.proper tid b₀ h₀
  zero := by simp [World.after, h.zero]

theorem sleep_same (w : World) (tid : TaskId) (i : PcbId) (wt : Wait) :
    SameButCond w.tab (w.sleep tid i wt).tab := sameButCond_set _ _ _

theorem awake_same (w : World) (tid : TaskId) (i : PcbId) :
    SameButCond w.tab (w.awake tid i).tab := sameButCond_set _ _ _

/-- A task goes to sleep on a slot in use. -/
theorem World.Tended.sleep (h : w.Tended) {i : PcbId} {wt : Wait} (hp : wt.Proper)
    (hidle : w.tasks tid = none) (h0 : tid ≠ 0) (hu : (w.tab.pcb i).state ≠ .free) :
    (w.sleep tid i wt).Tended where
  count j := by
    by_cases hj : j = i
    · subst hj
      have hset : (w.sleep tid j wt).sleepers j = insert tid (w.sleepers j) := by
        ext u
        by_cases hu : u = tid
        · subst hu
          simp [World.sleepers, World.sleep]
        · simp [World.sleepers, World.sleep, hu]
      have hnot : tid ∉ w.sleepers j := by
        rintro ⟨b, hb, -⟩
        rw [hidle] at hb
        cases hb
      rw [hset]
      simpa [World.sleep] using (h.count j).enter hnot
    · have hset : (w.sleep tid i wt).sleepers j = w.sleepers j := by
        ext u
        by_cases hu : u = tid
        · subst hu
          simp [World.sleepers, World.sleep, hidle, Ne.symm hj]
        · simp [World.sleepers, World.sleep, hu]
      rw [hset]
      simpa [World.sleep, hj] using h.count j
  used u b hb := by
    rw [(sleep_same w tid i wt).state]
    by_cases hut : u = tid
    · subst hut
      simp only [World.sleep, Function.update_self] at hb
      cases hb
      exact hu
    · simp only [World.sleep, Function.update_of_ne hut] at hb
      exact h.used u b hb
  proper u b hb := by
    by_cases hut : u = tid
    · subst hut
      simp only [World.sleep, Function.update_self] at hb
      cases hb
      exact hp
    · simp only [World.sleep, Function.update_of_ne hut] at hb
      exact h.proper u b hb
  zero := by
    simp only [World.sleep, Function.update_of_ne (Ne.symm h0)]
    exact h.zero

/-- Who still sleeps slept before. -/
theorem awake_tasks {i : PcbId} {u : TaskId} {b' : Blocked}
    (h : (w.awake tid i).tasks u = some b') : w.tasks u = some b' := by
  by_cases hut : u = tid
  · subst hut
    simp [World.awake] at h
  · simpa [World.awake, hut] using h

/-- A sleeper runs on. -/
theorem World.Tended.awake (h : w.Tended) (hb : w.tasks tid = some b) :
    (w.awake tid b.pcb).Tended where
  count j := by
    by_cases hj : j = b.pcb
    · subst hj
      have hset : (w.awake tid b.pcb).sleepers b.pcb = w.sleepers b.pcb \ {tid} := by
        ext u
        by_cases hu : u = tid
        · subst hu
          simp [World.sleepers, World.awake]
        · simp [World.sleepers, World.awake, hu]
      rw [hset]
      simpa [World.awake] using (h.count b.pcb).leave ⟨b, hb, rfl⟩
    · have hset : (w.awake tid b.pcb).sleepers j = w.sleepers j := by
        ext u
        by_cases hu : u = tid
        · subst hu
          simp [World.sleepers, World.awake, hb, Ne.symm hj]
        · simp [World.sleepers, World.awake, hu]
      rw [hset]
      simpa [World.awake, hj] using h.count j
  used u b' hb' := by
    rw [(awake_same w tid b.pcb).state]
    exact h.used u b' (awake_tasks hb')
  proper u b' hb' := h.proper u b' (awake_tasks hb')
  zero := by
    by_cases h0 : (0 : TaskId) = tid
    · simp [World.awake, h0]
    · simp [World.awake, h0, h.zero]

end Tended

/-! ## Going to sleep on a slot in use -/

section Calls
variable {env : Env} {t : Table} {i j : PcbId}

theorem awaitOpen_accept (wait : PcbState → Wait) (hwait : ∀ s, wait s ≠ .accept) (s : PcbState)
    (eff : List Effect) : (awaitOpen wait t i s eff).progress ≠ .blocked j .accept := by
  intro h
  simp only [awaitOpen] at h
  split at h
  · injection h with _ h
    exact hwait _ h
  split at h
  · cases h
  split at h
  · injection h with _ h
    exact hwait _ h
  · cases h

theorem sendSyn_accept (wait : PcbState → Wait) (hwait : ∀ s, wait s ≠ .accept) (p : Pcb) :
    (sendSyn env t i wait p).progress ≠ .blocked j .accept := by
  simp only [sendSyn]
  split
  · exact awaitOpen_accept wait hwait _ _
  · simp

theorem sendRetry_accept (data : List UInt8) (sent : Nat) :
    (sendRetry env t i data sent).result.progress ≠ .blocked j .accept := by
  have ho := sendRetry_outcome env t i data sent
  generalize sendRetry env t i data sent = r at ho
  cases ho with
  | refused => simp [CallResult.ret]
  | sending =>
      unfold sendEnd
      split <;> simp

theorem receiveRetry_accept (size : Nat) :
    (receiveRetry t i size).progress ≠ .blocked j .accept := by
  cases hs : (t.pcb i).state with
  | established | finWait1 | finWait2 =>
      simp only [receiveRetry, hs]
      split <;> simp [takeBytes]
  | closeWait =>
      simp only [receiveRetry, hs]
      split <;> simp [takeBytes, CallResult.ret]
  | _ => simp [receiveRetry, hs, CallResult.ret]

/-- A call that waits for a connection to accept waits at a listener. -/
theorem call_accept {c : Command} (h : (c.call env t).progress = .blocked i .accept) :
    ((c.call env t).tab.pcb i).state = .listen := by
  cases c with
  | accept id =>
      simp only [Command.call, tcpAccept] at h ⊢
      split at h
      · cases h
      split at h
      · rename_i j _ hl
        rw [if_pos hl]
        unfold acceptLoop at h ⊢
        split at h
        · cases h
          exact hl
        · cases h
      · cases h
  | openPassive l f =>
      simp only [Command.call, tcpOpenPassive] at h
      split at h
      · cases h
      · exact absurd h (awaitOpen_accept _ (by simp) _ _)
  | openActive l f =>
      simp only [Command.call, tcpOpenActive] at h
      split at h
      · cases h
      · exact absurd h (sendSyn_accept _ (by simp) _)
  | «open» =>
      simp only [Command.call, tcpOpen] at h
      split at h <;> cases h
  | connect id f =>
      simp only [Command.call, tcpConnect] at h
      split at h
      · cases h
      split at h
      · cases h
      · exact absurd h (sendSyn_accept _ (by simp) _)
  | bind id l =>
      simp only [Command.call, tcpBind] at h
      split at h
      · cases h
      split at h <;> cases h
  | listen id =>
      simp only [Command.call, tcpListen] at h
      split at h <;> cases h
  | send id data =>
      simp only [Command.call, tcpSend] at h
      split at h
      · cases h
      · exact absurd h (sendRetry_accept _ _)
  | receive id size =>
      simp only [Command.call, tcpReceive] at h
      split at h
      · cases h
      · exact absurd h (receiveRetry_accept _)
  | close id =>
      simp only [Command.call, tcpClose] at h
      split at h
      · cases h
      split at h <;> cases h

/-- A call that waits for anything else waits at a pcb in use. -/
theorem used_of_wait {p : Pcb} {wt : Wait} (hw : ¬ wt.Ready p) (hp : wt.Proper)
    (hacc : wt ≠ .accept) : p.state ≠ .free := by
  intro hf
  cases wt with
  | accept => exact hacc rfl
  | openRfc793 s | connect s =>
      have hs : p.state = s := not_not.mp hw
      rw [hf] at hs
      subst hs
      rcases hp with h | h | h <;> cases h
  | send data sent => exact hw fun h => by rw [hf] at h; cases h.1
  | receive size => exact hw fun h => by rw [hf] at h; cases h.1

/-- What a call leaves to the task that sleeps in it. -/
structure CallResult.Sleeps (r : CallResult) (i : PcbId) (wt : Wait) : Prop where
  used : (r.tab.pcb i).state ≠ .free
  proper : wt.Proper

theorem call_sleeps {c : Command} {wt : Wait} (h : (c.call env t).progress = .blocked i wt) :
    (c.call env t).Sleeps i wt := by
  obtain ⟨hw, hp⟩ := call_waits c i wt h
  refine ⟨?_, hp⟩
  by_cases hacc : wt = .accept
  · subst hacc
    rw [call_accept h]
    simp
  · exact used_of_wait hw hp hacc

theorem retry_sleeps {wt wt' : Wait} (hp : wt.Proper) (hu : (t.pcb i).state ≠ .free)
    (h : (wt.retry env t i).progress = .blocked j wt') : (wt.retry env t i).Sleeps j wt' := by
  obtain ⟨hw, hp'⟩ := retry_waits hp j wt' h
  refine ⟨?_, hp'⟩
  by_cases hacc : wt' = .accept
  · subst hacc
    cases wt with
    | accept =>
        simp only [Wait.retry] at h ⊢
        unfold acceptLoop at h ⊢
        split at h
        · cases h
          exact hu
        · cases h
    | openRfc793 s => exact absurd h (awaitOpen_accept _ (by simp) _ _)
    | connect s => exact absurd h (awaitOpen_accept _ (by simp) _ _)
    | send data sent => exact absurd h (sendRetry_accept _ _)
    | receive size => exact absurd h (receiveRetry_accept _)
  · exact used_of_wait hw hp' hacc

end Calls

/-! ## One event -/

/-- A sleeper from `t` to `t'`: it waits for the same thing on the same
connection, and if that has been closed the sleeper has been woken. -/
structure Stays (t t' : Table) (b b' : Blocked) : Prop where
  pcb : b'.pcb = b.pcb
  wait : b'.wait = b.wait
  gen : t'.gen b.pcb = t.gen b.pcb
  woken : b.woken → b'.woken
  told : (t.pcb b.pcb).state ≠ .closed → (t'.pcb b.pcb).state = .closed → b'.woken

section Stays
variable {t t' t'' : Table} {b b' b'' : Blocked}

theorem Stays.refl (t : Table) (b : Blocked) : Stays t t b b :=
  ⟨rfl, rfl, rfl, id, fun hc hc' => absurd hc' hc⟩

theorem Stays.trans (h : Stays t t' b b') (h' : Stays t' t'' b' b'') : Stays t t'' b b'' where
  pcb := h'.pcb.trans h.pcb
  wait := h'.wait.trans h.wait
  gen := (h.pcb ▸ h'.gen).trans h.gen
  woken hw := h'.woken (h.woken hw)
  told hc hc' := by
    by_cases hmid : (t'.pcb b.pcb).state = .closed
    · exact h'.woken (h.told hc hmid)
    · exact (h.pcb ▸ h'.told) hmid hc'

theorem SleepersKept.stays {eff : List Effect} (h : SleepersKept t t' eff b.pcb)
    (hn : (t.pcb b.pcb).cond.num ≠ 0) : Stays t t' b (wake eff b) where
  pcb := rfl
  wait := rfl
  gen := h.gen hn
  woken hw := by simp [wake, hw]
  told hc hc' := by simp [wake, h.told hn hc hc']

theorem Stays.congr {t₁ t₁' : Table} (h : Stays t t' b b') (hs : SameButCond t₁ t)
    (hs' : SameButCond t' t₁') : Stays t₁ t₁' b b' where
  pcb := h.pcb
  wait := h.wait
  gen := by rw [hs'.1, h.gen, hs.1]
  woken := h.woken
  told hc hc' := h.told (by rwa [hs.state]) (by rwa [← hs'.state])

end Stays

section Step
variable {w : World} {tid : TaskId} {r : CallResult}

theorem World.Tended.finish (h : w.Tended) (hidle : w.tasks tid = none) (h0 : tid ≠ 0)
    (hk : ∀ j, SleepersKept w.tab r.tab r.effects j)
    (hs : ∀ i wt, r.progress = .blocked i wt → r.Sleeps i wt) : (w.finish tid r).Tended := by
  have hafter : (w.after r.tab r.effects).Tended := h.after hk
  unfold World.finish
  cases hp : r.progress with
  | returned => exact hafter
  | blocked i wt =>
      obtain ⟨hu, hproper⟩ := hs i wt hp
      exact hafter.sleep hproper (by simp [World.after, hidle]) h0 hu

theorem finish_same (w : World) (tid : TaskId) (r : CallResult) :
    SameButCond r.tab (w.finish tid r).tab := by
  unfold World.finish
  cases r.progress with
  | returned => exact .refl _
  | blocked i wt => exact sleep_same _ _ _ _

theorem finish_stays (h : w.Tended) (hk : ∀ j, SleepersKept w.tab r.tab r.effects j)
    {u : TaskId} {b : Blocked} (hu : u ≠ tid) (hb : w.tasks u = some b) :
    ∃ b', (w.finish tid r).tasks u = some b' ∧ Stays w.tab (w.finish tid r).tab b b' :=
  ⟨wake r.effects b, by rw [finish_tasks_ne hu, hb]; rfl,
    ((hk b.pcb).stays (h.num_ne hb)).congr (.refl _) (finish_same w tid r)⟩

/-- **One event** that releases no slot with sleepers: the counters are right
and every sleeper it does not wake up stays. -/
theorem step_tended {x : Env × Event} (h : w.Tended) (hs : Spares w x) :
    (w.step x).Tended ∧ ∀ u b, w.tasks u = some b → x.2 ≠ .resume u →
      ∃ b', (w.step x).tasks u = some b' ∧ Stays w.tab (w.step x).tab b b' := by
  obtain ⟨env, e⟩ := x
  have edited (t' : Table) (eff : List Effect) (hact : w.acts e) (he : e ≠ .timer)
      (hfound : ∀ j, ((w.found e).pcb j).cond.num ≠ 0 → ((w.found e).pcb j).state ≠ .free)
      (hr : Edit w env e (w.found e) t' eff) : ∀ j, SleepersKept (w.found e) t' eff j :=
    edit_sleepers ⟨hact, fun _ => ⟨rfl, rfl⟩⟩ (fun h => absurd h he)
      (fun j => .refl (hfound j)) hs hr
  have after (t' : Table) (eff : List Effect) (hk : ∀ j, SleepersKept w.tab t' eff j) :
      (w.after t' eff).Tended ∧ ∀ u b, w.tasks u = some b → e ≠ .resume u →
        ∃ b', (w.after t' eff).tasks u = some b' ∧ Stays w.tab (w.after t' eff).tab b b' :=
    ⟨h.after hk, fun u b hb _ =>
      ⟨wake eff b, by simp [World.after, hb], (hk b.pcb).stays (h.num_ne hb)⟩⟩
  have idle : w.Tended ∧ ∀ u b, w.tasks u = some b → e ≠ .resume u →
      ∃ b', w.tasks u = some b' ∧ Stays w.tab w.tab b b' :=
    ⟨h, fun u b hb _ => ⟨b, hb, .refl _ _⟩⟩
  cases e with
  | segment s =>
      exact after _ _ (edited _ _ (by simp [World.acts]) (by simp) h.free_of
        (arrive_edit w env w.tab s))
  | timer =>
      simp only [World.step]
      exact after (tcpTimer env w.tab).1 (tcpTimer env w.tab).2 (timer_sleepers h.free_of hs)
  | user tid c =>
      by_cases hb : (w.tasks tid).isSome
      · simp only [World.step, callResult, if_pos hb]
        exact idle
      · simp only [World.step, callResult, if_neg hb]
        have hidle : w.tasks tid = none := by simpa using hb
        have hact : w.acts (.user tid c) := by
          rintro tid' c' ⟨⟩
          exact hidle
        have h0 : tid ≠ 0 := by
          rintro rfl
          exact (hs hact).1 c rfl
        have hk := edited _ _ hact (by simp) h.free_of (call_edit w env w.tab tid c)
        refine ⟨h.finish hidle h0 hk fun i wt => call_sleeps, fun u b hu _ => ?_⟩
        refine finish_stays h hk ?_ hu
        rintro rfl
        rw [hidle] at hu
        cases hu
  | resume tid =>
      cases hb : w.tasks tid with
      | none =>
          simp only [World.step, callResult, hb]
          exact idle
      | some b₀ =>
          simp only [World.step, callResult, hb]
          have hw := h.awake hb
          have hfound : w.found (.resume tid) = (w.awake tid b₀.pcb).tab := by
            simp only [World.found, hb]
          have h0 : tid ≠ 0 := by
            rintro rfl
            rw [h.zero] at hb
            cases hb
          have hk := edited _ _ (by simp [World.acts]) (by simp) (hfound ▸ hw.free_of)
            (hfound ▸ retry_edit w env (w.awake tid b₀.pcb).tab tid b₀ hb)
          rw [hfound] at hk
          have hused : ((w.awake tid b₀.pcb).tab.pcb b₀.pcb).state ≠ .free := by
            rw [(awake_same w tid b₀.pcb).state]
            exact h.used tid b₀ hb
          refine ⟨hw.finish (by simp [World.awake]) h0 hk fun i wt =>
            retry_sleeps (h.proper tid b₀ hb) hused, fun u b hu hne => ?_⟩
          have hut : u ≠ tid := fun h => hne (by rw [h])
          have hu' : (w.awake tid b₀.pcb).tasks u = some b := by
            simpa [World.awake, hut] using hu
          obtain ⟨b', hb', hst⟩ := finish_stays hw hk hut hu'
          exact ⟨b', hb', hst.congr (awake_same _ _ _) (.refl _)⟩

end Step

/-! ## Runs -/

/-- The connection comes up and task 2 waits for its bytes. -/
def receiverWaits : List (Env × Event) :=
  [open1, answerSyn, (.ideal .zero 0 [], .resume 1), (.ideal .zero 0 [], .user 2 (.receive 0 10))]

/-- The peer resets the connection. -/
def peerResets : Env × Event :=
  (.ideal .zero 0 [], .segment (peerSegment 101 1 flgRst []))

end Laplus.Tcp
