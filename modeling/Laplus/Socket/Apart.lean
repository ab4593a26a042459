/-
# `Laplus.Socket.Apart` — two sockets, two connections

An entry of the socket table names its pcb by an index, and nobody tells it
when the slot is released: a reset, a failed connect or a failed send takes
the pcb away from below, and the next open or the next peer gets the slot.
The entries stay apart exactly as long as no slot is given to somebody while
an entry still names it.
-/
import Laplus.Socket.Table
import Laplus.Tcp.Incarnation

namespace Laplus.Socket

open Net Lib Tcp

/-! ## Apart -/

/-- An entry in use for a TCP connection. -/
def Entry.Stream (e : Entry) : Prop := e.used ∧ e.type = sockStream

instance decStream (e : Entry) : Decidable e.Stream :=
  inferInstanceAs (Decidable (_ ∧ _))

/-- Some entry in use for a TCP connection has this descriptor. -/
def System.Names (σ : System) (d : Int) : Prop :=
  ∃ a, (σ.sockets a).Stream ∧ (σ.sockets a).desc = d

instance decNames (σ : System) (d : Int) : Decidable (σ.Names d) :=
  inferInstanceAs (Decidable (∃ _, _))

/-- No two entries share a descriptor, and the pcb an entry names is the
incarnation that was opened or accepted for it. -/
structure System.Apart (σ : System) : Prop where
  distinct : ∀ a b, (σ.sockets a).Stream → (σ.sockets b).Stream →
    (σ.sockets a).desc = (σ.sockets b).desc → a = b
  same : ∀ a k, (σ.sockets a).Stream → (σ.sockets a).desc = tcpPcbId k →
    σ.world.tab.gen k = σ.holds a

/-- The descriptor that `tcp_open` will answer. -/
def openDesc (t : Tcp.Table) : Int := (firstFree t).elim (-1) tcpPcbId

/-- What `socketaccept` on `s` will make a new entry name. -/
def System.accepted (σ : System) (s : SocketId) (e : Event) : Option Int :=
  if (σ.sockets s).type = sockStream ∧ (firstUnused σ.sockets).isSome then
    (σ.world.offered e).map tcpPcbId
  else none

/-- The pcb that the event gives to somebody: to a new entry, or to a peer. -/
def System.given (σ : System) : Action → Option Int
  | .call tid (.open d t p) =>
      if (σ.world.tasks tid).isNone ∧ d = afInet ∧ t = sockStream ∧ p = 0 ∧
          (firstUnused σ.sockets).isSome then
        some (openDesc σ.world.tab)
      else none
  | .call tid (.accept s) =>
      if (σ.world.tasks tid).isNone ∧ (σ.sockets s).family = afInet then
        σ.accepted s (.user tid (.accept (σ.sockets s).desc))
      else none
  | .resume tid => (σ.accepts tid).bind fun s => σ.accepted s (.resume tid)
  | .segment s => (σ.world.allocated (.segment s)).map tcpPcbId
  | _ => none

/-- What the event gives to somebody no entry names. -/
def Unclaimed (σ : System) (x : Env × Action) : Prop :=
  ∀ d, σ.given x.2 = some d → ¬ σ.Names d

/-! ## Entries that come and go -/

section Entries
variable {σ σ' : System} {a : SocketId} {e : Entry}

@[simp] theorem incarnation_id (t : Tcp.Table) (k : PcbId) :
    incarnation t (tcpPcbId k) = t.gen k := by
  simp [incarnation, tcpPcbId]

theorem firstUnused_unused (h : firstUnused σ.sockets = some a) : (σ.sockets a).used = false := by
  simpa using List.find?_some h

/-- Entries may go, and what is no TCP connection does not matter. -/
theorem System.Apart.fewer (h : σ.Apart) (hg : σ'.world.tab.gen = σ.world.tab.gen)
    (hs : ∀ a, (σ'.sockets a).Stream → σ'.sockets a = σ.sockets a ∧ σ'.holds a = σ.holds a) :
    σ'.Apart where
  distinct a b ha hb hd := by
    have hsa := (hs a ha).1
    have hsb := (hs b hb).1
    exact h.distinct a b (hsa ▸ ha) (hsb ▸ hb) (hsa ▸ hsb ▸ hd)
  same a k ha hd := by
    obtain ⟨hsa, hh⟩ := hs a ha
    rw [hg, hh]
    exact h.same a k (hsa ▸ ha) (hsa ▸ hd)

/-- A slot is given to a peer. -/
theorem System.Apart.bump_iff (h : σ.Apart) {k : PcbId} (hs : σ'.sockets = σ.sockets)
    (hh : σ'.holds = σ.holds) (hg : σ'.world.tab.gen = bump σ.world.tab.gen (some k)) :
    σ'.Apart ↔ ¬ σ.Names (tcpPcbId k) := by
  constructor
  · rintro h' ⟨a, ha, hd⟩
    have hnew := h'.same a k (hs ▸ ha) (hs ▸ hd)
    rw [hg, hh, ← h.same a k ha hd, bump, Function.update_self] at hnew
    omega
  · intro hn
    refine ⟨hs ▸ h.distinct, fun a j ha hd => ?_⟩
    rw [hs] at ha hd
    have hj : j ≠ k := by
      rintro rfl
      exact hn ⟨a, ha, hd⟩
    rw [hg, hh, bump, Function.update_of_ne hj]
    exact h.same a j ha hd

/-- A new entry gets a pcb, that of a slot handed out for it or another. -/
theorem System.Apart.enter_iff (h : σ.Apart) (ha : (σ.sockets a).used = false) (he : e.Stream)
    (hs : σ'.sockets = Function.update σ.sockets a e)
    (hh : σ'.holds = Function.update σ.holds a (incarnation σ'.world.tab e.desc))
    (hg : ∀ k, tcpPcbId k ≠ e.desc → σ'.world.tab.gen k = σ.world.tab.gen k) :
    σ'.Apart ↔ ¬ σ.Names e.desc := by
  have other {b : SocketId} (hb : b ≠ a) : σ'.sockets b = σ.sockets b ∧ σ'.holds b = σ.holds b := by
    rw [hs, hh, Function.update_of_ne hb, Function.update_of_ne hb]
    exact ⟨rfl, rfl⟩
  have new : σ'.sockets a = e := by rw [hs, Function.update_self]
  constructor
  · rintro h' ⟨b, hb, hd⟩
    have hba : b ≠ a := by
      rintro rfl
      rw [Entry.Stream, ha] at hb
      cases hb.1
    have hsb := (other hba).1
    refine hba (h'.distinct b a (by rw [hsb]; exact hb) (by rw [new]; exact he) ?_)
    rw [hsb, new, hd]
  · intro hn
    have hne {b : SocketId} (hba : b ≠ a) (hb : (σ'.sockets b).Stream) :
        (σ'.sockets b).desc ≠ e.desc := fun hd => by
      rw [(other hba).1] at hb hd
      exact hn ⟨b, hb, hd⟩
    refine ⟨fun b c hb hc hd => ?_, fun b k hb hd => ?_⟩
    · by_cases hba : b = a
      · by_cases hca : c = a
        · rw [hba, hca]
        · subst hba
          rw [new] at hd
          exact absurd hd.symm (hne hca hc)
      · by_cases hca : c = a
        · subst hca
          rw [new] at hd
          exact absurd hd (hne hba hb)
        · rw [(other hba).1, (other hca).1] at hd
          exact h.distinct b c ((other hba).1 ▸ hb) ((other hca).1 ▸ hc) hd
    · by_cases hba : b = a
      · subst hba
        rw [new] at hd
        rw [hh, Function.update_self, hd, incarnation_id]
      · have hk : tcpPcbId k ≠ e.desc := fun hk => hne hba hb (hd.trans hk)
        rw [hg k hk, (other hba).2]
        exact h.same b k ((other hba).1 ▸ hb) ((other hba).1 ▸ hd)

end Entries

/-! ## The calls -/

section Calls
variable {σ : System} {env : Env} {tid : TaskId} {s : SocketId}

/-- A TCP event that hands out no slot. -/
theorem tcp_gen {e : Event} (he : σ.world.allocated e = none) :
    (σ.tcp env tid e).1.world.tab.gen = σ.world.tab.gen := by
  have hstep := step_gen σ.world (env, e)
  rw [he] at hstep
  exact hstep

theorem allocated_user {c : Command} (hc : c.allocates = false) :
    σ.world.allocated (.user tid c) = none := by
  simp [World.allocated, hc]

theorem System.Apart.tcp {e : Event} (h : σ.Apart) (env : Env) (tid : TaskId)
    (he : σ.world.allocated e = none) :
    (σ.tcp env tid e).1.Apart :=
  h.fewer (tcp_gen he) fun _ _ => ⟨rfl, rfl⟩

theorem System.Apart.stream {c : Int → Command} (h : σ.Apart)
    (hc : ∀ d, (c d).allocates = false) : (σ.stream env tid s c).1.Apart := by
  simp only [System.stream]
  split
  · exact h.tcp env tid (allocated_user (hc _))
  · exact h

theorem System.Apart.udp (h : σ.Apart) (udp : Udp.Table) : { σ with udp }.Apart :=
  h.fewer rfl fun _ _ => ⟨rfl, rfl⟩

theorem System.Apart.bind (h : σ.Apart) (addr : IpAddr) (port : UInt16) :
    (socketBind σ env tid s addr port).1.Apart := by
  simp only [socketBind]
  split
  · exact h.udp _
  · exact h.stream fun _ => rfl

/-- The entry of a closed socket is gone. -/
theorem System.Apart.clear (h : σ.Apart) (s : SocketId) :
    { σ with sockets := Function.update σ.sockets s .zero }.Apart := by
  refine h.fewer rfl fun a ha => ⟨?_, rfl⟩
  have has : a ≠ s := by
    rintro rfl
    simp [Entry.Stream, Entry.zero] at ha
  exact Function.update_of_ne has _ _

theorem System.Apart.close (h : σ.Apart) : (socketClose σ env tid s).1.Apart := by
  simp only [socketClose]
  split
  · exact (h.tcp env tid (allocated_user rfl)).clear s
  split
  · exact (h.udp (Udp.udpClose σ.udp (σ.sockets s).desc).1).clear s
  · exact h

/-- `tcp_open` answers at once. -/
theorem answer_open (hidle : σ.world.tasks tid = none) :
    σ.world.answer tid (env, .user tid .open) = some (.of (openDesc σ.world.tab)) := by
  rw [answer_user hidle]
  simp only [Command.call, tcpOpen, tcpPcbAlloc, openDesc]
  cases firstFree σ.world.tab <;> rfl

/-- What a call answers does not change what it did. -/
theorem answered (b : Prop) [Decidable b] (σ : System) (x y : Answer) :
    (if b then (σ, x) else (σ, y)).1 = σ := by
  split <;> rfl

/-- A new TCP socket. -/
theorem socketOpen_stream {a : SocketId} (hidle : σ.world.tasks tid = none)
    (ha : firstUnused σ.sockets = some a) : (socketOpen σ env tid afInet sockStream 0).1 =
      { σ with
        world := σ.world.step (env, .user tid .open)
        sockets := Function.update σ.sockets a ⟨true, afInet, sockStream, openDesc σ.world.tab⟩
        holds := Function.update σ.holds a
          (incarnation (σ.world.step (env, .user tid .open)).tab (openDesc σ.world.tab)) } := by
  simp only [socketOpen, socketalloc, ha, Option.map_some, System.tcp, answer_open hidle,
    Option.elim_some, if_true]
  rw [if_neg (by simp), answered]
  simp only [System.enter, Function.update_idem]
  rfl

/-- A new UDP socket, or none. -/
theorem System.Apart.open_other {d t p : Int} (h : σ.Apart)
    (hn : ¬ (d = afInet ∧ t = sockStream ∧ p = 0 ∧ (firstUnused σ.sockets).isSome)) :
    (socketOpen σ env tid d t p).1.Apart := by
  simp only [socketOpen]
  split
  · exact h
  rename_i hgood
  cases ha : firstUnused σ.sockets with
  | none => simpa [socketalloc, ha] using h
  | some a =>
      have ht : t ≠ sockStream := by
        rintro rfl
        refine hn ⟨?_, rfl, ?_, by simp [ha]⟩ <;> by_contra hne <;> exact hgood (by simp [hne])
      simp only [socketalloc, ha, Option.map_some, if_neg ht, answered]
      refine h.fewer rfl fun b hb => ?_
      have hba : b ≠ a := by
        rintro rfl
        simp [System.enter, Entry.Stream, ht] at hb
      simp [System.enter, hba]

/-- An open makes two entries share a pcb exactly when the slot it takes, or the
failure it ends in, is that of another entry. -/
theorem open_apart_iff {d t p : Int} (h : σ.Apart) (hidle : σ.world.tasks tid = none) :
    (socketOpen σ env tid d t p).1.Apart ↔
      ∀ k, σ.given (.call tid (.open d t p)) = some k → ¬ σ.Names k := by
  by_cases hok : d = afInet ∧ t = sockStream ∧ p = 0 ∧ (firstUnused σ.sockets).isSome
  · obtain ⟨rfl, rfl, rfl, ha⟩ := hok
    obtain ⟨a, ha⟩ := Option.isSome_iff_exists.mp ha
    have hgiven : σ.given (.call tid (.open afInet sockStream 0)) = some (openDesc σ.world.tab) := by
      simp [System.given, hidle, ha]
    simp only [hgiven, Option.some.injEq, forall_eq']
    rw [socketOpen_stream hidle ha]
    refine h.enter_iff (e := ⟨true, afInet, sockStream, openDesc σ.world.tab⟩)
      (firstUnused_unused ha) ⟨rfl, rfl⟩ rfl rfl fun k hk => ?_
    have hstep := step_gen σ.world (env, .user tid .open)
    rw [show σ.world.allocated (.user tid .open) = firstFree σ.world.tab by
      simp [World.allocated, hidle, Command.allocates]] at hstep
    rw [hstep]
    cases hf : firstFree σ.world.tab with
    | none => rfl
    | some j =>
        have hkj : k ≠ j := by
          rintro rfl
          exact hk (by simp [openDesc, hf])
        exact Function.update_of_ne hkj _ _
  · have hgiven : σ.given (.call tid (.open d t p)) = none := by
      simp [System.given, hok]
    simp [hgiven, h.open_other hok]

/-- The end of an accept. -/
theorem accepted_apart_iff (h : σ.Apart) (r : Ret) :
    (socketAccepted σ s r).1.Apart ↔ (r.val ≠ -1 → (σ.sockets s).type = sockStream →
      (firstUnused σ.sockets).isSome → ¬ σ.Names r.val) := by
  simp only [socketAccepted]
  by_cases hr : r.val = -1
  · simp [hr, h]
  cases ha : firstUnused σ.sockets with
  | none => simp [hr, socketalloc, ha, h]
  | some a =>
      have htype : (Function.update σ.sockets a { σ.sockets a with used := true } s).type =
          (σ.sockets s).type := by
        by_cases hs : s = a
        · subst hs
          rw [Function.update_self]
        · rw [Function.update_of_ne hs]
      simp only [hr, if_false, socketalloc, ha, Option.map_some, Option.isSome_some, ne_eq,
        not_false_iff, forall_const, System.enter, Function.update_idem, htype]
      by_cases ht : (σ.sockets s).type = sockStream
      · simp only [ht, forall_const]
        exact h.enter_iff (e := ⟨true, _, sockStream, r.val⟩) (firstUnused_unused ha) ⟨rfl, rfl⟩
          rfl rfl fun _ _ => rfl
      · simp only [ht, false_imp_iff, iff_true]
        refine h.fewer rfl fun b hb => ?_
        have hba : b ≠ a := by
          rintro rfl
          have hb' := hb.2
          simp only [Function.update_self] at hb'
          exact ht hb'
        simp [hba]

end Calls

/-! ## One event -/

/-- A task in `socketaccept` sleeps in `tcp_accept`. -/
def System.Waits (σ : System) : Prop :=
  ∀ tid s, σ.accepts tid = some s → ∃ b, σ.world.tasks tid = some b ∧ b.wait = .accept

section Step
variable {σ : System} {env : Env} {tid : TaskId}

theorem accepted_world (σ : System) (s : SocketId) (r : Ret) :
    (socketAccepted σ s r).1.world = σ.world ∧ (socketAccepted σ s r).1.accepts = σ.accepts := by
  simp only [socketAccepted]
  split
  · exact ⟨rfl, rfl⟩
  split <;> exact ⟨rfl, rfl⟩

/-- What an accept answers and what it was going to give out. -/
theorem accepted_given {o : Option PcbId} {r : Ret} (ho : AcceptAnswers o (some r)) (P : Int → Prop)
    (b : Prop) [Decidable b] : (r.val ≠ -1 → b → P r.val) ↔
      ∀ d, (if b then o.map tcpPcbId else none) = some d → P d := by
  cases o with
  | none =>
      rcases ho with ho | ⟨r', hr, hv⟩
      · cases ho
      · cases hr
        simp [hv]
  | some c =>
      obtain ⟨r', hr, hv⟩ := ho
      cases hr
      have hne : tcpPcbId c ≠ -1 := by
        rw [tcpPcbId]
        omega
      by_cases hb : b <;> simp [hb, hv, hne]

/-- An accept makes two entries share a pcb exactly when the pcb it takes off the
backlog is that of another entry. -/
theorem accept_apart_iff {s : SocketId} (h : σ.Apart) (hidle : σ.world.tasks tid = none) :
    (socketAccept σ env tid s).1.Apart ↔
      ∀ d, σ.given (.call tid (.accept s)) = some d → ¬ σ.Names d := by
  have hans := accept_answers env (σ.sockets s).desc hidle
  have hnext : (σ.tcp env tid (.user tid (.accept (σ.sockets s).desc))).1.Apart :=
    h.tcp env tid (allocated_user rfl)
  by_cases hok : (σ.sockets s).type = sockStream ∧ (σ.sockets s).family = afInet
  · simp only [socketAccept, hok, and_self, if_true, System.given, System.accepted, hidle,
      Option.isNone_none, true_and]
    cases ha : σ.world.answer tid (env, .user tid (.accept (σ.sockets s).desc)) with
    | none =>
        rw [ha] at hans
        simp only [System.tcp, ha, hans.asleep, Option.map_none, ite_self, reduceCtorEq, false_imp_iff,
          implies_true, iff_true]
        exact hnext.fewer rfl fun _ _ => ⟨rfl, rfl⟩
    | some r =>
        rw [ha] at hans
        rw [← accepted_given hans (fun d => ¬ σ.Names d)]
        simp only [System.tcp, ha]
        refine (accepted_apart_iff hnext r).trans ?_
        simp [hok, System.Names, System.tcp]
  · have hgiven : σ.given (.call tid (.accept s)) = none := by
      simp only [System.given, System.accepted, hidle, Option.isNone_none, true_and]
      by_cases hf : (σ.sockets s).family = afInet
      · have ht : (σ.sockets s).type ≠ sockStream := fun ht => hok ⟨ht, hf⟩
        simp [ht]
      · simp [hf]
    simp [socketAccept, hok, hgiven, h]

/-- The same when the call has slept. -/
theorem resume_apart_iff (h : σ.Apart) (hw : σ.Waits) :
    (σ.resume env tid).1.Apart ↔ ∀ d, σ.given (.resume tid) = some d → ¬ σ.Names d := by
  have hnext : (σ.tcp env tid (.resume tid)).1.Apart := h.tcp env tid rfl
  cases hs : σ.accepts tid with
  | none =>
      simp only [System.given, hs, Option.bind_none, reduceCtorEq, false_imp_iff, implies_true,
        iff_true]
      simpa only [System.resume, hs] using hnext
  | some s =>
      obtain ⟨b, hb, hwait⟩ := hw tid s hs
      have hans := resumed_answers env hb hwait
      simp only [System.given, hs, Option.bind_some, System.accepted]
      cases ha : σ.world.answer tid (env, .resume tid) with
      | none =>
          rw [ha] at hans
          simp only [System.resume, hs, System.tcp, ha, hans.asleep, Option.map_none, ite_self,
            reduceCtorEq, false_imp_iff, implies_true, iff_true]
          exact hnext
      | some r =>
          rw [ha] at hans
          rw [← accepted_given hans (fun d => ¬ σ.Names d)]
          simp only [System.resume, hs, System.tcp, ha]
          have hclear : { (σ.tcp env tid (.resume tid)).1 with
              accepts := Function.update σ.accepts tid none }.Apart :=
            hnext.fewer rfl fun _ _ => ⟨rfl, rfl⟩
          refine (accepted_apart_iff hclear r).trans ?_
          simp [System.Names, System.tcp]

/-- **One event** keeps the entries apart exactly when nobody is given what an entry
names. -/
theorem step_apart_iff {x : Env × Action} (h : σ.Apart) (hw : σ.Waits) :
    (σ.step x).Apart ↔ Unclaimed σ x := by
  obtain ⟨env, e⟩ := x
  unfold Unclaimed
  cases e with
  | segment s =>
      have hg : (σ.step (env, .segment s)).world.tab.gen =
          bump σ.world.tab.gen (σ.world.allocated (.segment s)) := step_gen σ.world (env, .segment s)
      cases hk : σ.world.allocated (.segment s) with
      | none =>
          rw [hk] at hg
          have hnext : (σ.step (env, .segment s)).Apart := h.fewer hg fun _ _ => ⟨rfl, rfl⟩
          simp [System.given, hk, hnext]
      | some k =>
          rw [hk] at hg
          refine (h.bump_iff ?_ ?_ hg).trans ?_
          · rfl
          · rfl
          · simp [System.given, hk]
  | timer =>
      have hnext : (σ.step (env, .timer)).Apart := h.tcp env 0 (e := .timer) rfl
      simp [System.given, hnext]
  | resume tid => exact resume_apart_iff h hw
  | call tid c =>
      cases ht : σ.world.tasks tid with
      | some b =>
          have hsame : σ.step (env, .call tid c) = σ := by simp [System.step, ht]
          have hgiven : σ.given (.call tid c) = none := by
            cases c <;> simp [System.given, ht]
          simp [hsame, hgiven, h]
      | none =>
          have hstep : σ.step (env, .call tid c) = (c.run σ env tid).1 := by simp [System.step, ht]
          rw [hstep]
          cases c with
          | «open» d t p => exact open_apart_iff h ht
          | accept s => exact accept_apart_iff h ht
          | close s => simpa [System.given, Call.run] using h.close
          | bind s addr port => simpa [System.given, Call.run] using h.bind addr port
          | listen s =>
              simpa [System.given, Call.run, socketListen] using h.stream fun _ => rfl
          | connect s addr port =>
              simpa [System.given, Call.run, socketConnect] using h.stream fun _ => rfl
          | send s data =>
              simpa [System.given, Call.run, socketSend] using h.stream fun _ => rfl
          | recv s n =>
              simpa [System.given, Call.run, socketRecv] using h.stream fun _ => rfl

/-- The world of a call that is no accept: the TCP command has run, or none has. -/
structure Hands (σ σ' : System) (env : Env) (tid : TaskId) : Prop where
  accepts : σ'.accepts = σ.accepts
  world : σ'.world = σ.world ∨ ∃ c, σ'.world = σ.world.step (env, .user tid c)

theorem run_hands {c : Call} (hc : ∀ s, c ≠ .accept s) :
    Hands σ (c.run σ env tid).1 env tid := by
  have stay : Hands σ σ env tid := ⟨rfl, .inl rfl⟩
  have stream (s : SocketId) (k : Int → Command) : Hands σ (σ.stream env tid s k).1 env tid := by
    simp only [System.stream]
    split
    · exact ⟨rfl, .inr ⟨_, rfl⟩⟩
    · exact stay
  cases c with
  | accept s => exact absurd rfl (hc s)
  | «open» d t p =>
      simp only [Call.run, socketOpen]
      split
      · exact stay
      split
      · exact stay
      · by_cases ht : t = sockStream
        · simp only [if_pos ht]
          split <;> exact ⟨rfl, .inr ⟨_, rfl⟩⟩
        · simp only [if_neg ht]
          split <;> exact ⟨rfl, .inl rfl⟩
  | close s =>
      simp only [Call.run, socketClose]
      split
      · exact ⟨rfl, .inr ⟨_, rfl⟩⟩
      split
      · exact ⟨rfl, .inl rfl⟩
      · exact stay
  | bind s addr port =>
      simp only [Call.run, socketBind]
      split
      · exact ⟨rfl, .inl rfl⟩
      · exact stream s _
  | listen s => exact stream s _
  | connect s addr port => exact stream s _
  | send s data => exact stream s _
  | recv s n => exact stream s _

/-- A task in `socketaccept` stays there until it runs on. -/
theorem System.Waits.asleep {σ' : System} {x : Env × Event} (hw : σ.Waits)
    (hx : ∀ u s, σ'.accepts u = some s → x.2 ≠ .resume u)
    (hworld : σ'.world = σ.world.step x)
    (hacc : ∀ u s, σ'.accepts u = some s → σ.accepts u = some s) : σ'.Waits := by
  intro u s hu
  obtain ⟨b, hb, hwait⟩ := hw u s (hacc u s hu)
  obtain ⟨b', hb', -, hwait'⟩ := step_asleep x hb (hx u s hu)
  exact ⟨b', hworld ▸ hb', hwait'.trans hwait⟩

theorem System.Waits.hands {σ' : System} (hw : σ.Waits) (h : Hands σ σ' env tid) : σ'.Waits := by
  rcases h.world with hworld | ⟨c, hworld⟩
  · intro u s hu
    rw [hworld]
    exact hw u s (h.accepts ▸ hu)
  · exact hw.asleep (x := (env, .user tid c)) (fun u s _ he => by cases he) hworld
      fun u s hu => h.accepts ▸ hu

theorem System.Waits.accept {s : SocketId} (hw : σ.Waits) (hidle : σ.world.tasks tid = none) :
    (socketAccept σ env tid s).1.Waits := by
  simp only [socketAccept, System.tcp]
  split
  · cases ha : σ.world.answer tid (env, .user tid (.accept (σ.sockets s).desc)) with
    | none =>
        intro u s' hu
        by_cases hut : u = tid
        · subst hut
          exact accept_asleep hidle ha
        · have hold : σ.accepts u = some s' := by simpa [hut] using hu
          obtain ⟨b, hb, hwait⟩ := hw u s' hold
          obtain ⟨b', hb', -, hwait'⟩ :=
            step_asleep (env, .user tid (.accept (σ.sockets s).desc)) hb (by simp)
          exact ⟨b', hb', hwait'.trans hwait⟩
    | some r =>
        have hh : Hands σ (socketAccepted (σ.tcp env tid (.user tid
            (.accept (σ.sockets s).desc))).1 s r).1 env tid :=
          ⟨(accepted_world _ s r).2, .inr ⟨.accept (σ.sockets s).desc, (accepted_world _ s r).1⟩⟩
        exact hw.hands hh
  · exact hw

theorem System.Waits.resume (hw : σ.Waits) : (σ.resume env tid).1.Waits := by
  cases hs : σ.accepts tid with
  | none =>
      simp only [System.resume, hs, System.tcp]
      refine hw.asleep (x := (env, .resume tid)) (fun u s hu he => ?_) rfl fun _ _ hu => hu
      cases he
      cases hs.symm.trans hu
  | some s =>
      obtain ⟨b, hb, hwait⟩ := hw tid s hs
      cases ha : σ.world.answer tid (env, .resume tid) with
      | none =>
          simp only [System.resume, hs, System.tcp, ha]
          intro u s' hu
          by_cases hut : u = tid
          · subst hut
            exact resumed_asleep hb hwait ha
          · obtain ⟨b', hb', hwait'⟩ := hw u s' hu
            obtain ⟨b'', hb'', -, hwait''⟩ := step_asleep (env, .resume tid) hb' fun he => by
              cases he
              exact hut rfl
            exact ⟨b'', hb'', hwait''.trans hwait'⟩
      | some r =>
          simp only [System.resume, hs, System.tcp, ha]
          have hne {u : TaskId} {s' : SocketId}
              (hu : Function.update σ.accepts tid none u = some s') : u ≠ tid := by
            rintro rfl
            rw [Function.update_self] at hu
            cases hu
          refine hw.asleep (x := (env, .resume tid)) (fun u s' hu he => ?_)
            (accepted_world _ s r).1 fun u s' hu => ?_
          · rw [(accepted_world _ s r).2] at hu
            cases he
            exact hne hu rfl
          · rw [(accepted_world _ s r).2] at hu
            have hu' : Function.update σ.accepts tid none u = some s' := hu
            rwa [Function.update_of_ne (hne hu')] at hu'

theorem System.Waits.step (hw : σ.Waits) (x : Env × Action) : (σ.step x).Waits := by
  obtain ⟨env, e⟩ := x
  cases e with
  | segment s =>
      exact hw.asleep (x := (env, .segment s)) (fun _ _ _ he => by cases he) rfl fun _ _ hu => hu
  | timer =>
      exact hw.asleep (x := (env, .timer)) (fun _ _ _ he => by cases he) rfl fun _ _ hu => hu
  | resume tid => exact hw.resume
  | call tid c =>
      cases ht : σ.world.tasks tid with
      | some b =>
          have hsame : σ.step (env, .call tid c) = σ := by simp [System.step, ht]
          rwa [hsame]
      | none =>
          have hstep : σ.step (env, .call tid c) = (c.run σ env tid).1 := by simp [System.step, ht]
          rw [hstep]
          by_cases hc : ∀ s, c ≠ .accept s
          · exact hw.hands (run_hands hc)
          · simp only [not_forall, not_not] at hc
            obtain ⟨s, rfl⟩ := hc
            exact hw.accept ht

end Step

/-! ## Runs -/

theorem boot_apart : System.boot.Apart where
  distinct a b h := by cases h.1
  same a k h := by cases h.1

theorem boot_waits : System.boot.Waits := fun _ _ h => by cases h

/-- **Two sockets never share a connection** in the states of a run exactly when in
the run nobody is given a pcb that an entry still names. -/
theorem sockets_apart_iff (es : List (Env × Action)) :
    (∀ es', es' <+: es → (run System.step .boot es').Apart) ↔
      Guarded System.step Unclaimed .boot es :=
  prefix_iff_guarded System.Waits System.Apart (fun _ x hw => hw.step x)
    (fun _ _ hw h => step_apart_iff h hw) boot_waits boot_apart

/-- A connect cannot send its SYN; the slot it gives back goes to the next open, and
both sockets name it. -/
theorem sockets_share :
    let down : Env := { Env.ideal .zero 0 [sampleRoute] with link := fun _ => false }
    let σ := run System.step .boot
      [(down, .call 1 (.open afInet sockStream 0)),
       (down, .call 1 (.connect 0 samplePeer.addr samplePeer.port)),
       (down, .call 2 (.open afInet sockStream 0))]
    (σ.sockets 0).Stream ∧ (σ.sockets 1).Stream ∧ (σ.sockets 0).desc = (σ.sockets 1).desc ∧
      ¬ σ.Apart := by
  intro down σ
  have h0 : (σ.sockets 0).Stream := by decide +kernel
  have h1 : (σ.sockets 1).Stream := by decide +kernel
  have hd : (σ.sockets 0).desc = (σ.sockets 1).desc := by decide +kernel
  exact ⟨h0, h1, hd, fun h => absurd (h.distinct 0 1 h0 h1 hd) (by decide)⟩

end Laplus.Socket
