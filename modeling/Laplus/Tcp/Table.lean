/-
# `Laplus.Tcp.Table` — allocating, releasing and finding a pcb

`tcp_pcb_alloc` takes the first free slot and sets only its state and its
condition variable; everything else is as the last release left it.
`tcp_pcb_release` empties the retransmit queue, releases whatever is queued
in the backlog, recursively, and zeroes the slot.  Its test
`cond_destroy(..) == -1` never succeeds, because `cond_destroy` answers 0 or
`EBUSY`, so a slot is zeroed also while a task sleeps on it.
-/
import Laplus.Tcp.Pcb
import Mathlib.Data.List.FinRange
import Mathlib.Algebra.BigOperators.Fin
import Mathlib.Algebra.Order.BigOperators.Group.Finset
import Mathlib.Logic.Relation

namespace Laplus.Tcp

open Net

/-! ## Condition variables -/

/-- `EBUSY`. -/
def eBusy : Int := 16

/-- `cond_destroy`: the variable afterwards and the return value. -/
def condDestroy (c : Cond) : Cond × Int :=
  if c.num ≠ 0 then (c, eBusy) else (.zero, 0)

theorem condDestroy_ne (c : Cond) : (condDestroy c).2 ≠ -1 := by
  unfold condDestroy
  split <;> simp [eBusy]

/-! ## Allocation -/

/-- The slots in the order of the loops over `pcbs`. -/
def slots : List PcbId := List.finRange 16

@[simp] theorem mem_slots (i : PcbId) : i ∈ slots := List.mem_finRange i

/-- The slot `tcp_pcb_alloc` would take. -/
def firstFree (t : Table) : Option PcbId :=
  slots.find? fun i => (t.pcb i).state = .free

/-- The slot handed out: state and condition variable are set, nothing else. -/
def Table.claim (t : Table) (i : PcbId) : Table where
  pcb := Function.update t.pcb i { t.pcb i with state := .closed, cond := .zero }
  gen := Function.update t.gen i (t.gen i + 1)

/-- `tcp_pcb_alloc`. -/
def tcpPcbAlloc (t : Table) : Option (PcbId × Table) :=
  (firstFree t).map fun i => (i, t.claim i)

theorem firstFree_free {t : Table} {i : PcbId} (h : firstFree t = some i) :
    (t.pcb i).state = .free := by
  simpa using List.find?_some h

theorem tcpPcbAlloc_eq_some {t t' : Table} {i : PcbId} :
    tcpPcbAlloc t = some (i, t') ↔ firstFree t = some i ∧ t' = t.claim i := by
  simp only [tcpPcbAlloc, Option.map_eq_some_iff, Prod.mk.injEq]
  constructor
  · rintro ⟨j, hj, rfl, rfl⟩
    exact ⟨hj, rfl⟩
  · rintro ⟨hi, rfl⟩
    exact ⟨i, hi, rfl, rfl⟩

@[simp] theorem Table.claim_pcb_self (t : Table) (i : PcbId) :
    (t.claim i).pcb i = { t.pcb i with state := .closed, cond := .zero } := by
  simp [Table.claim]

@[simp] theorem Table.claim_pcb_ne (t : Table) {i j : PcbId} (h : j ≠ i) :
    (t.claim i).pcb j = t.pcb j := by
  simp [Table.claim, h]

@[simp] theorem Table.claim_gen_self (t : Table) (i : PcbId) :
    (t.claim i).gen i = t.gen i + 1 := by
  simp [Table.claim]

@[simp] theorem Table.claim_gen_ne (t : Table) {i j : PcbId} (h : j ≠ i) :
    (t.claim i).gen j = t.gen j := by
  simp [Table.claim, h]

/-! ## Release -/

/-- How many pointers all backlogs hold together. -/
def Table.queued (t : Table) : Nat :=
  (slots.map fun i => (t.pcb i).backlog.length).sum

/-- The second loop of `tcp_pcb_release` and the `memset` after it.  Each
round pops one pointer off the slot's backlog and releases what it names;
the fuel bounds the pointers left in the table. -/
def releaseLoop : Nat → Table → PcbId → Table
  | 0, t, _ => t
  | n + 1, t, i =>
      match (t.pcb i).backlog with
      | [] => t.set i .zero
      | est :: rest =>
          releaseLoop n (releaseLoop n (t.set i { t.pcb i with backlog := rest }) est) i

/-- `tcp_pcb_release`.  The first branch is the one `cond_destroy` never
takes; it would only wake the waiter. -/
def tcpPcbRelease (t : Table) (i : PcbId) : Table :=
  let d := condDestroy (t.pcb i).cond
  if d.2 = -1 then t
  else releaseLoop (t.queued + 1) (t.set i { t.pcb i with cond := d.1, queue := [] }) i

/-- `Linked t i j`: slot `j` hangs below slot `i` in the backlogs. -/
def Linked (t : Table) : PcbId → PcbId → Prop :=
  Relation.ReflTransGen fun a b => b ∈ (t.pcb a).backlog

theorem Linked.mono {t t' : Table}
    (h : ∀ a, (t'.pcb a).backlog ⊆ (t.pcb a).backlog) {i j : PcbId}
    (hl : Linked t' i j) : Linked t i j :=
  Relation.ReflTransGen.mono (fun a _ hb => h a hb) _ _ hl

theorem Table.queued_eq (t : Table) :
    t.queued = ∑ i : PcbId, (t.pcb i).backlog.length := by
  rw [Fin.sum_univ_def]
  rfl

theorem queued_le {t t' : Table}
    (h : ∀ j, (t'.pcb j).backlog.length ≤ (t.pcb j).backlog.length) :
    t'.queued ≤ t.queued := by
  rw [Table.queued_eq, Table.queued_eq]
  exact Finset.sum_le_sum fun j _ => h j

theorem queued_pop {t : Table} {i est : PcbId} {rest : List PcbId}
    (h : (t.pcb i).backlog = est :: rest) :
    (t.set i { t.pcb i with backlog := rest }).queued < t.queued := by
  rw [Table.queued_eq, Table.queued_eq]
  refine Finset.sum_lt_sum (fun j _ => ?_) ⟨i, Finset.mem_univ i, ?_⟩
  · by_cases hj : j = i
    · subst hj; simp [h]
    · simp [hj]
  · simp [h]

/-- What the loop does to a slot: nothing, or it is zeroed together with
everything it had queued. -/
def Swept (t t' : Table) (j : PcbId) : Prop :=
  t'.pcb j = .zero ∧ ∀ c ∈ (t.pcb j).backlog, t'.pcb c = .zero

theorem releaseLoop_gen (n : Nat) (t : Table) (i : PcbId) :
    (releaseLoop n t i).gen = t.gen := by
  induction n generalizing t i with
  | zero => rfl
  | succ n ih =>
      unfold releaseLoop
      split
      · rfl
      · rw [ih, ih]; rfl

theorem releaseLoop_swept {n : Nat} : ∀ (t : Table) (i : PcbId), t.queued < n →
    Swept t (releaseLoop n t i) i ∧
      ∀ j, (releaseLoop n t i).pcb j = t.pcb j ∨ Swept t (releaseLoop n t i) j := by
  induction n with
  | zero => intro t i h; exact absurd h (Nat.not_lt_zero _)
  | succ n ih =>
      intro t i h
      unfold releaseLoop
      split
      · rename_i hb
        have hi : Swept t (t.set i .zero) i := ⟨by simp, by simp [hb]⟩
        refine ⟨hi, fun j => ?_⟩
        by_cases hj : j = i
        · exact .inr (hj ▸ hi)
        · exact .inl (by simp [hj])
      · rename_i est rest hb
        set t₁ := t.set i { t.pcb i with backlog := rest } with ht₁
        set t₂ := releaseLoop n t₁ est with ht₂
        set t₃ := releaseLoop n t₂ i with ht₃
        have hlt₁ : t₁.queued < n := Nat.lt_of_lt_of_le (queued_pop hb) (Nat.le_of_lt_succ h)
        obtain ⟨h₂est, h₂⟩ := ih t₁ est hlt₁
        have hle : t₂.queued ≤ t₁.queued := queued_le fun j => by
          rcases h₂ j with e | e
          · exact e ▸ Nat.le_refl _
          · rw [e.1]; exact Nat.zero_le _
        obtain ⟨h₃i, h₃⟩ := ih t₂ i (Nat.lt_of_le_of_lt hle hlt₁)
        -- what the inner call zeroed stays zero in the outer one
        have hz : ∀ c, t₂.pcb c = .zero → t₃.pcb c = .zero := by
          intro c hc
          rcases h₃ c with e | e
          · exact e.trans hc
          · exact e.1
        have hi : Swept t t₃ i := by
          refine ⟨h₃i.1, fun c hc => ?_⟩
          rw [hb] at hc
          rcases List.mem_cons.mp hc with rfl | hc
          · exact hz _ h₂est.1
          · have hc₁ : c ∈ (t₁.pcb i).backlog := by simpa [ht₁] using hc
            rcases h₂ i with e | e
            · exact h₃i.2 c (e ▸ hc₁)
            · exact hz c (e.2 c hc₁)
        refine ⟨hi, fun j => ?_⟩
        by_cases hj : j = i
        · exact .inr (hj ▸ hi)
        have h₁j : t₁.pcb j = t.pcb j := by simp [ht₁, hj]
        rcases h₂ j with e₂ | e₂
        · rcases h₃ j with e₃ | e₃
          · exact .inl (e₃.trans (e₂.trans h₁j))
          · exact .inr ⟨e₃.1, fun c hc => e₃.2 c (by rw [e₂, h₁j]; exact hc)⟩
        · exact .inr ⟨hz j e₂.1, fun c hc => hz c (e₂.2 c (by rw [h₁j]; exact hc))⟩

theorem releaseLoop_linked {n : Nat} : ∀ (t : Table) (i : PcbId), t.queued < n →
    ∀ j, (releaseLoop n t i).pcb j = t.pcb j ∨ Linked t i j := by
  induction n with
  | zero => intro t i h; exact absurd h (Nat.not_lt_zero _)
  | succ n ih =>
      intro t i h j
      unfold releaseLoop
      split
      · by_cases hj : j = i
        · exact .inr (hj ▸ .refl)
        · exact .inl (by simp [hj])
      · rename_i est rest hb
        set t₁ := t.set i { t.pcb i with backlog := rest } with ht₁
        have hlt₁ : t₁.queued < n := Nat.lt_of_lt_of_le (queued_pop hb) (Nat.le_of_lt_succ h)
        have hsub₁ : ∀ a, (t₁.pcb a).backlog ⊆ (t.pcb a).backlog := by
          intro a
          by_cases ha : a = i
          · subst ha; simp [ht₁, hb]
          · simp [ht₁, ha]
        have hsub₂ : ∀ a, ((releaseLoop n t₁ est).pcb a).backlog ⊆ (t₁.pcb a).backlog := by
          intro a
          rcases (releaseLoop_swept t₁ est hlt₁).2 a with e | e
          · rw [e]
            exact fun _ h => h
          · rw [e.1]
            exact List.nil_subset _
        have hlt₂ : (releaseLoop n t₁ est).queued < n :=
          Nat.lt_of_le_of_lt (queued_le fun a => by
            rcases (releaseLoop_swept t₁ est hlt₁).2 a with e | e
            · rw [e]
            · rw [e.1]; exact Nat.zero_le _) hlt₁
        rcases ih _ i hlt₂ j with e₃ | l₃
        · rcases ih t₁ est hlt₁ j with e₂ | l₂
          · by_cases hj : j = i
            · exact .inr (hj ▸ .refl)
            · exact .inl (e₃.trans (e₂.trans (by simp [ht₁, hj])))
          · exact .inr (.head (by simp [hb]) (l₂.mono hsub₁))
        · exact .inr ((l₃.mono hsub₂).mono hsub₁)

/-- **What `tcp_pcb_release` leaves.**  The slots linked below the released
one are zeroed, every other slot is as before. -/
theorem tcpPcbRelease_pcb (t : Table) (i j : PcbId) :
    (Linked t i j → (tcpPcbRelease t i).pcb j = .zero) ∧
      (¬ Linked t i j → (tcpPcbRelease t i).pcb j = t.pcb j) := by
  set t₀ := t.set i { t.pcb i with cond := (condDestroy (t.pcb i).cond).1, queue := [] }
    with ht₀
  have hrel : tcpPcbRelease t i = releaseLoop (t.queued + 1) t₀ i := by
    simp only [tcpPcbRelease, condDestroy_ne, if_false, ht₀]
  have hback : ∀ a, (t₀.pcb a).backlog = (t.pcb a).backlog := by
    intro a
    by_cases ha : a = i
    · subst ha; simp [ht₀]
    · simp [ht₀, ha]
  have hlt : t₀.queued < t.queued + 1 :=
    Nat.lt_succ_of_le (queued_le fun a => by rw [hback])
  obtain ⟨hi, hsw⟩ := releaseLoop_swept t₀ i hlt
  rw [hrel]
  constructor
  · intro hl
    induction hl with
    | refl => exact hi.1
    | tail _ hb ih =>
        rename_i a b _
        rcases hsw a with e | e
        · rw [ih] at e
          rw [← hback, ← e] at hb
          exact absurd hb List.not_mem_nil
        · exact e.2 _ (by rw [hback]; exact hb)
  · intro hl
    have hji : j ≠ i := fun h => hl (h ▸ .refl)
    rcases releaseLoop_linked t₀ i hlt j with e | l
    · rw [e, ht₀, Table.set_pcb_ne _ _ hji]
    · exact absurd (l.mono fun a => by rw [hback]; exact fun _ h => h) hl

@[simp] theorem tcpPcbRelease_self (t : Table) (i : PcbId) :
    (tcpPcbRelease t i).pcb i = .zero :=
  (tcpPcbRelease_pcb t i i).1 .refl

theorem tcpPcbRelease_cases (t : Table) (i j : PcbId) :
    (tcpPcbRelease t i).pcb j = .zero ∨
      (j ≠ i ∧ (tcpPcbRelease t i).pcb j = t.pcb j) := by
  by_cases h : Linked t i j
  · exact .inl ((tcpPcbRelease_pcb t i j).1 h)
  · exact .inr ⟨fun e => h (e ▸ .refl), (tcpPcbRelease_pcb t i j).2 h⟩

@[simp] theorem tcpPcbRelease_gen (t : Table) (i : PcbId) :
    (tcpPcbRelease t i).gen = t.gen := by
  simp only [tcpPcbRelease]
  split
  · rfl
  · rw [releaseLoop_gen]; rfl

/-- Of the released slot only the backlog matters. -/
theorem tcpPcbRelease_set {t : Table} {i : PcbId} {p : Pcb}
    (h : p.backlog = (t.pcb i).backlog) : tcpPcbRelease (t.set i p) i = tcpPcbRelease t i := by
  have hback : ∀ a, ((t.set i p).pcb a).backlog = (t.pcb a).backlog := by
    intro a
    by_cases ha : a = i
    · subst ha; simpa using h
    · simp [ha]
  have hpcb : ∀ j, (tcpPcbRelease (t.set i p) i).pcb j = (tcpPcbRelease t i).pcb j := by
    intro j
    by_cases hl : Linked t i j
    · rw [(tcpPcbRelease_pcb t i j).1 hl]
      exact (tcpPcbRelease_pcb _ i j).1 (hl.mono fun a => by rw [hback]; exact fun _ h => h)
    · have hl' : ¬ Linked (t.set i p) i j := fun h =>
        hl (h.mono fun a => by rw [hback]; exact fun _ h => h)
      have hj : j ≠ i := fun h => hl (h ▸ .refl)
      rw [(tcpPcbRelease_pcb t i j).2 hl, (tcpPcbRelease_pcb _ i j).2 hl',
        Table.set_pcb_ne _ _ hj]
  exact Table.ext (funext hpcb) (by simp)

/-! ## Demultiplexing -/

/-- The loop of `tcp_pcb_select`; the third argument is `listen_pcb`. -/
def selectLoop (t : Table) (localEp : Endpoint) (foreignEp : Option Endpoint) :
    List PcbId → Option PcbId → Option PcbId
  | [], listenPcb => listenPcb
  | i :: rest, listenPcb =>
      let pcb := t.pcb i
      if (pcb.localEp.addr = ipAddrAny ∨ pcb.localEp.addr = localEp.addr) ∧
          pcb.localEp.port = localEp.port then
        match foreignEp with
        | none => some i
        | some f =>
            if pcb.foreignEp.addr = f.addr ∧ pcb.foreignEp.port = f.port then some i
            else if pcb.state = .listen ∧ pcb.foreignEp.addr = ipAddrAny ∧
                pcb.foreignEp.port = 0 then
              selectLoop t localEp foreignEp rest (some i)
            else selectLoop t localEp foreignEp rest listenPcb
      else selectLoop t localEp foreignEp rest listenPcb

/-- `tcp_pcb_select`. -/
def tcpPcbSelect (t : Table) (localEp : Endpoint) (foreignEp : Option Endpoint) :
    Option PcbId :=
  selectLoop t localEp foreignEp slots none

/-- `tcp_pcb_get`. -/
def tcpPcbGet (t : Table) (id : Int) : Option PcbId :=
  if h : 0 ≤ id ∧ id < 16 then
    let i : PcbId := ⟨id.toNat, by omega⟩
    if (t.pcb i).state = .free then none else some i
  else none

/-- `tcp_pcb_id`. -/
def tcpPcbId (i : PcbId) : Int := i.val

theorem tcpPcbGet_eq_some {t : Table} {id : Int} {i : PcbId} :
    tcpPcbGet t id = some i ↔ id = tcpPcbId i ∧ (t.pcb i).state ≠ .free := by
  unfold tcpPcbGet tcpPcbId
  split
  · rename_i h
    dsimp only
    split
    · rename_i hf
      simp only [reduceCtorEq, ne_eq, false_iff, not_and, not_not]
      rintro rfl
      simpa using hf
    · rename_i hf
      simp only [Option.some.injEq]
      constructor
      · rintro rfl
        exact ⟨(Int.toNat_of_nonneg h.1).symm, hf⟩
      · rintro ⟨rfl, -⟩
        simp
  · rename_i h
    simp only [reduceCtorEq, ne_eq, false_iff, not_and, not_not]
    rintro rfl
    exact absurd ⟨Int.natCast_nonneg _, by omega⟩ h

end Laplus.Tcp
