/-
# `Laplus.Net.Queue` — the linked queue (`benri.c`)

A queue has pointers to its first and to its last entry and counts them; the entries are on the
heap, each with a pointer to the next.  The queues share the heap, and where `calloc` puts an entry
is part of the event.

Each queue stands for a list: its entries are a segment from `head` to null, `tail` is the last of
them and `num` their number (`Holds`).  No two queues have an entry in common, so that an operation
on one is none on another, and the queues do what lists would do (`queue_refines_fifo`).
-/
import Laplus.Lib.Loop
import Laplus.Lib.Run
import Laplus.Lib.Segment
import Laplus.Memory.Boot

namespace Laplus.Net.Queue

open Lib

/-! ## The source -/

/-- `struct queue_entry`; null is zero. -/
structure QueueEntry where
  next : Nat
  data : Nat

/-- `struct queue_head`. -/
structure QueueHead where
  head : Nat
  tail : Nat
  num : UInt32

/-- The entries on the heap, and the queues. -/
structure Store (ι : Type) where
  entry : Nat → Option QueueEntry
  queue : ι → QueueHead

/-- The heap: `kHeapFrames` frames from `program_break` on. -/
def heapSize : Nat := Memory.kHeapFrames * 4096

/-- `queue_init`, and what is zeroed. -/
def queueInit : QueueHead := ⟨0, 0, 0⟩

namespace Store

variable {ι : Type} [DecidableEq ι] (s : Store ι)

/-- The queues before the first operation. -/
def zeroed : Store ι := ⟨fun _ => none, fun _ => queueInit⟩

/-- An entry is written. -/
def write (p : Nat) (e : QueueEntry) : Store ι :=
  { s with entry := Function.update s.entry p (some e) }

def setQueue (q : ι) (h : QueueHead) : Store ι :=
  { s with queue := Function.update s.queue q h }

/-- `queue->tail->next = entry`, if there is a tail; there is no entry at a stale pointer. -/
def setNext (tail entry : Nat) : Option (Store ι) :=
  if tail = 0 then some s else (s.entry tail).map fun e => s.write tail { e with next := entry }

/-- `queue_push`, when `calloc` returns `entry`. -/
def queuePush (queue : Option ι) (data entry : Nat) : Option (Store ι × Nat) :=
  match queue with
  | none => some (s, 0)
  | some q =>
      if entry = 0 then some (s, 0)
      else
        let h := s.queue q
        ((s.write entry ⟨0, data⟩).setNext h.tail entry).map fun s =>
          (s.setQueue q
            { head := if h.head = 0 then entry else h.head, tail := entry, num := h.num + 1 }, data)

/-- `queue_pop`. -/
def queuePop (queue : Option ι) : Option (Store ι × Nat) :=
  match queue with
  | none => some (s, 0)
  | some q =>
      let h := s.queue q
      if h.head = 0 then some (s, 0)
      else (s.entry h.head).map fun e =>
        ({ s with entry := Function.update s.entry h.head none }.setQueue q
          { head := e.next, tail := if e.next = 0 then 0 else h.tail, num := h.num - 1 }, e.data)

/-- `queue_peek`. -/
def queuePeek (queue : Option ι) : Option Nat :=
  match queue with
  | none => some 0
  | some q =>
      let h := s.queue q
      if h.head = 0 then some 0 else (s.entry h.head).map QueueEntry.data

/-- A round of `queue_foreach`; `func` changes what `arg` points to. -/
def foreachRound {σ : Type} (func : σ → Nat → σ) : Nat × σ → Round (Nat × σ) σ
  | (entry, arg) =>
      if entry = 0 then .done arg
      else
        match s.entry entry with
        | none => .fault
        | some e => .again (e.next, func arg e.data)

/-- `queue_foreach`.  A list that has more entries than the heap has bytes is a cycle. -/
def queueForeach {σ : Type} (queue : Option ι) (func : Option (σ → Nat → σ)) (arg : σ) : Option σ :=
  match queue, func with
  | some q, some func =>
      match rounds (s.foreachRound func) (heapSize + 1) ((s.queue q).head, arg) with
      | .done arg => some arg
      | _ => none
  | _, _ => some arg

end Store

/-- A call; of `queue_push`, with what `calloc` returns. -/
inductive Call (ι : Type) where
  | push (queue : Option ι) (data entry : Nat)
  | pop (queue : Option ι)
  | peek (queue : Option ι)
  | foreach (queue : Option ι)

/-- The memory, and the data that the caller has seen. -/
structure History (ι : Type) where
  mem : Store ι
  seen : List Nat

namespace History

variable {ι : Type} [DecidableEq ι] (w : History ι)

/-- A call, which is seen to return something or to call a function for it; `none` is an access to an
entry that there is not. -/
def call (c : Call ι) : Option (History ι) :=
  match c with
  | .push queue data entry =>
      (w.mem.queuePush queue data entry).map fun r => ⟨r.1, w.seen ++ [r.2]⟩
  | .pop queue => (w.mem.queuePop queue).map fun r => ⟨r.1, w.seen ++ [r.2]⟩
  | .peek queue => (w.mem.queuePeek queue).map fun r => { w with seen := w.seen ++ [r] }
  | .foreach queue =>
      (w.mem.queueForeach queue (some fun seen data => seen ++ [data]) w.seen).map fun seen =>
        { w with seen }

def step (w : Option (History ι)) (c : Call ι) : Option (History ι) := w.bind (·.call c)

end History

/-! ## The purpose -/

/-- Lists of data, and what was seen of them. -/
structure Fifos (ι : Type) where
  list : ι → List Nat
  seen : List Nat

namespace Fifos

variable {ι : Type} [DecidableEq ι] (f : Fifos ι)

/-- What is to come of a call. -/
def step : Call ι → Fifos ι
  | .push (some q) data entry =>
      if entry = 0 then { f with seen := f.seen ++ [0] }
      else ⟨Function.update f.list q (f.list q ++ [data]), f.seen ++ [data]⟩
  | .pop (some q) => ⟨Function.update f.list q (f.list q).tail, f.seen ++ [(f.list q).headD 0]⟩
  | .peek (some q) => { f with seen := f.seen ++ [(f.list q).headD 0] }
  | .push none _ _ | .pop none | .peek none => { f with seen := f.seen ++ [0] }
  | .foreach (some q) => { f with seen := f.seen ++ f.list q }
  | .foreach none => f

end Fifos

/-! ## What a queue holds -/

/-- The next entry and the data of an entry. -/
def Store.cell {ι : Type} (s : Store ι) (p : Nat) : Option (Nat × Nat) :=
  (s.entry p).map fun e => (e.next, e.data)

/-- The entries of a queue are a list, from `head` to `tail`, and `num` is its length. -/
structure Holds {ι : Type} (start : Nat) (s : Store ι) (q : ι) (cells : List (Nat × Nat)) :
    Prop where
  segment : Segment s.cell (s.queue q).head cells 0
  nodup : (places cells).Nodup
  tail : (s.queue q).tail = (places cells).getLastD 0
  num : (s.queue q).num = UInt32.ofNat cells.length
  inside : ∀ p ∈ places cells, start ≤ p ∧ p < start + heapSize
  ne_zero : ∀ p ∈ places cells, p ≠ 0

namespace Holds

variable {ι : Type} {start : Nat} {s s' : Store ι} {q : ι} {cells l : List (Nat × Nat)}
  {p x : Nat}

/-- What is done elsewhere. -/
theorem congr (h : Holds start s q cells) (hq : s'.queue q = s.queue q)
    (hc : ∀ p ∈ places cells, s'.entry p = s.entry p) : Holds start s' q cells where
  segment := hq ▸ h.segment.congr fun p hp => congrArg (Option.map _) (hc p hp)
  nodup := h.nodup
  tail := hq ▸ h.tail
  num := hq ▸ h.num
  inside := h.inside
  ne_zero := h.ne_zero

theorem entry_isSome (h : Holds start s q cells) (hp : p ∈ places cells) : (s.entry p).isSome := by
  have hcell := h.segment.cell_of_mem hp
  rwa [Store.cell, Option.isSome_map] at hcell

theorem head_nil (h : Holds start s q []) : (s.queue q).head = 0 := Segment.nil_iff.mp h.segment

theorem head_cons (h : Holds start s q ((p, x) :: l)) :
    (s.queue q).head = p ∧ ∃ n, s.entry p = some ⟨n, x⟩ ∧ Segment s.cell n l 0 := by
  obtain ⟨hhead, n, hcell, hl⟩ := Segment.cons_iff.mp h.segment
  rw [← hhead, Store.cell] at hcell
  obtain ⟨⟨n', x'⟩, he, heq⟩ := Option.map_eq_some_iff.mp hcell
  cases heq
  exact ⟨hhead.symm, _, he, hl⟩

/-- The last entry. -/
theorem tail_concat (h : Holds start s q (l ++ [(p, x)])) :
    (s.queue q).tail = p ∧ s.entry p = some ⟨0, x⟩ ∧ Segment s.cell (s.queue q).head l p := by
  obtain ⟨hl, hcell⟩ := Segment.concat_iff.mp h.segment
  rw [Store.cell] at hcell
  obtain ⟨⟨n, x'⟩, he, heq⟩ := Option.map_eq_some_iff.mp hcell
  cases heq
  have htail := h.tail
  rw [places_append, places_cons, places_nil, List.getLastD_concat] at htail
  exact ⟨htail, he, hl⟩

theorem length_le (h : Holds start s q cells) : cells.length ≤ heapSize := by
  have hle := length_le_of_nodup h.nodup h.inside
  rwa [places, List.length_map] at hle

/-- The counter has room for as many entries as there are on the heap. -/
theorem num_toNat (h : Holds start s q cells) : (s.queue q).num.toNat = cells.length := by
  have hle := h.length_le
  have hsize : heapSize = 134217728 := rfl
  rw [h.num, UInt32.toNat_ofNat']
  exact Nat.mod_eq_of_lt (by omega)

/-- One entry more. -/
theorem append (h : Holds start s q cells) {entry data head : Nat} (hnew : entry ∉ places cells)
    (hin : start ≤ entry ∧ entry < start + heapSize) (hne : entry ≠ 0)
    (hqueue : s'.queue q = ⟨head, entry, (s.queue q).num + 1⟩)
    (hseg : Segment s'.cell head (cells ++ [(entry, data)]) 0) :
    Holds start s' q (cells ++ [(entry, data)]) where
  segment := by
    rw [hqueue]
    exact hseg
  nodup := by
    rw [places_append]
    refine List.nodup_append.mpr ⟨h.nodup, List.nodup_singleton _, fun p hp p' hp' heq => ?_⟩
    have hentry : p = entry := heq.trans (List.mem_singleton.mp hp')
    exact hnew (hentry ▸ hp)
  tail := by
    rw [hqueue, places_append]
    exact List.getLastD_concat.symm
  num := by
    rw [hqueue, h.num, List.length_append, List.length_singleton, UInt32.ofNat_add]
    rfl
  inside p hp := by
    rw [places_append, List.mem_append] at hp
    rcases hp with hp | hp
    · exact h.inside p hp
    · rw [List.mem_singleton.mp hp]
      exact hin
  ne_zero p hp := by
    rw [places_append, List.mem_append] at hp
    rcases hp with hp | hp
    · exact h.ne_zero p hp
    · rw [List.mem_singleton.mp hp]
      exact hne

/-- The first entry less. -/
theorem rest (h : Holds start s q ((p, x) :: l)) {n tail : Nat}
    (hqueue : s'.queue q = ⟨n, tail, (s.queue q).num - 1⟩) (hseg : Segment s'.cell n l 0)
    (htail : tail = if n = 0 then 0 else (s.queue q).tail) (hn : n = 0 ↔ l = []) :
    Holds start s' q l where
  segment := by
    rw [hqueue]
    exact hseg
  nodup := (List.nodup_cons.mp h.nodup).2
  tail := by
    rw [hqueue]
    cases l with
    | nil => exact htail.trans (if_pos (hn.mpr rfl))
    | cons c l =>
        have hne : n ≠ 0 := fun h => List.cons_ne_nil _ _ (hn.mp h)
        exact (htail.trans (if_neg hne)).trans h.tail
  num := by
    rw [hqueue, h.num, List.length_cons, UInt32.ofNat_add]
    exact UInt32.add_sub_cancel _ _
  inside p' hp' := h.inside p' (List.mem_cons_of_mem _ hp')
  ne_zero p' hp' := h.ne_zero p' (List.mem_cons_of_mem _ hp')

/-- `tail` is null iff `head` is. -/
theorem tail_null (h : Holds start s q cells) :
    (s.queue q).tail = 0 ↔ (s.queue q).head = 0 := by
  cases cells with
  | nil => exact iff_of_true h.tail h.head_nil
  | cons c l =>
      refine iff_of_false (fun htail => ?_) fun hhead => ?_
      · have hlast : (places (c :: l)).getLastD 0 ∈ places (c :: l) := by
          rw [places_cons, List.getLastD_eq_getLast?,
            List.getLast?_eq_some_getLast (List.cons_ne_nil _ _)]
          exact List.getLast_mem _
        exact h.ne_zero _ hlast (h.tail.symm.trans htail)
      · exact h.ne_zero _ List.mem_cons_self (h.head_cons.1.symm.trans hhead)

end Holds

/-! ## The calls -/

/-- What `calloc` promises of a place that it returns: it is on the heap, and an entry there is over
none that is in use. -/
def Fresh {ι : Type} (start : Nat) (s : Store ι) (p : Nat) : Prop :=
  (start ≤ p ∧ p + 16 ≤ start + heapSize) ∧
    ∀ r, (s.entry r).isSome → p + 16 ≤ r ∨ r + 16 ≤ p

/-- The queues hold these entries, none two of them. -/
structure Parted {ι : Type} (start : Nat) (s : Store ι) (cells : ι → List (Nat × Nat)) : Prop where
  holds : ∀ q, Holds start s q (cells q)
  apart : ∀ q q', q ≠ q' → (places (cells q)).Disjoint (places (cells q'))

theorem parted_zeroed {ι : Type} (start : Nat) : Parted start (.zeroed : Store ι) fun _ => [] where
  holds _ := ⟨.nil 0, List.nodup_nil, rfl, rfl, nofun, nofun⟩
  apart _ _ _ := List.disjoint_nil_left _

theorem Parted.fresh_not_mem {ι : Type} {start : Nat} {s : Store ι}
    {cells : ι → List (Nat × Nat)} (h : Parted start s cells) {entry : Nat}
    (hf : Fresh start s entry) (q : ι) : entry ∉ places (cells q) := fun hmem => by
  have hover := hf.2 entry ((h.holds q).entry_isSome hmem)
  omega

theorem rounds_foreach {ι σ : Type} {s : Store ι} {p : Nat} {l : List (Nat × Nat)}
    (hl : Segment s.cell p l 0) (h0 : ∀ r ∈ places l, r ≠ 0) (func : σ → Nat → σ) (arg : σ) :
    rounds (s.foreachRound func) (l.length + 1) (p, arg) =
      .done ((l.map Prod.snd).foldl func arg) := by
  induction l generalizing p arg with
  | nil =>
      obtain rfl := Segment.nil_iff.mp hl
      have hround : s.foreachRound func (0, arg) = .done arg := by
        rw [Store.foreachRound, if_pos rfl]
      exact rounds_done hround 0
  | cons c l ih =>
      obtain ⟨r, x⟩ := c
      obtain ⟨rfl, n, hcell, hrest⟩ := Segment.cons_iff.mp hl
      obtain ⟨e, he, heq⟩ := Option.map_eq_some_iff.mp hcell
      obtain ⟨rfl, rfl⟩ := Prod.mk.inj heq
      have hround : s.foreachRound func (r, arg) = .again (e.next, func arg e.data) := by
        rw [Store.foreachRound, if_neg (h0 r List.mem_cons_self), he]
      exact (rounds_again hround _).trans
        (ih hrest (fun r hr => h0 r (List.mem_cons_of_mem _ hr)) (func arg e.data))

/-- **`queue_foreach`** calls the function for what is in the entries, in order. -/
theorem Holds.foreach {ι σ : Type} {start : Nat} {s : Store ι} {q : ι} {cells : List (Nat × Nat)}
    (h : Holds start s q cells) (func : σ → Nat → σ) (arg : σ) :
    s.queueForeach (some q) (some func) arg = some ((cells.map Prod.snd).foldl func arg) := by
  have hrounds := rounds_mono (rounds_foreach h.segment h.ne_zero func arg)
    (Nat.succ_le_succ h.length_le)
  rw [Store.queueForeach, hrounds]

section

variable {ι : Type} [DecidableEq ι] {start : Nat} {s : Store ι} {cells : ι → List (Nat × Nat)}
  {q : ι}

/-- A queue whose entries change, while the others have what they had. -/
theorem Parted.update (h : Parted start s cells) {s' : Store ι} {l : List (Nat × Nat)}
    (hq : Holds start s' q l) (hqueue : ∀ q', q' ≠ q → s'.queue q' = s.queue q')
    (hentry : ∀ q' p, q' ≠ q → p ∈ places (cells q') → s'.entry p = s.entry p)
    (hl : ∀ q' p, q' ≠ q → p ∈ places (cells q') → p ∉ places l) :
    Parted start s' (Function.update cells q l) where
  holds q' := by
    by_cases heq : q' = q
    · subst heq
      rwa [Function.update_self]
    · rw [Function.update_of_ne heq]
      exact (h.holds q').congr (hqueue q' heq) fun p => hentry q' p heq
  apart q' q'' hne := by
    rw [Function.update_apply, Function.update_apply]
    split
    next heq =>
      subst heq
      rw [if_neg hne.symm]
      exact fun p hp hp' => hl q'' p hne.symm hp' hp
    next heq =>
      split
      next => exact fun p hp => hl q' p heq hp
      next => exact h.apart q' q'' hne

/-- What `queue_push` leaves of the others. -/
theorem Parted.pushed (h : Parted start s cells) {s' : Store ι} {entry data : Nat}
    (hf : Fresh start s entry) (hqueue : ∀ q', q' ≠ q → s'.queue q' = s.queue q')
    (hentry : ∀ p, p ≠ entry → p ≠ (s.queue q).tail → s'.entry p = s.entry p)
    (htail : (s.queue q).tail = 0 ∨ (s.queue q).tail ∈ places (cells q))
    (hq : Holds start s' q (cells q ++ [(entry, data)])) :
    Parted start s' (Function.update cells q (cells q ++ [(entry, data)])) := by
  refine h.update hq hqueue (fun q' p hne hp => hentry p ?_ ?_) fun q' p hne hp hmem => ?_
  · rintro rfl
    exact h.fresh_not_mem hf q' hp
  · rintro rfl
    rcases htail with hnull | hmem
    · exact (h.holds q').ne_zero _ hp hnull
    · exact h.apart q' q hne hp hmem
  · rw [places_append, List.mem_append] at hmem
    rcases hmem with hmem | hmem
    · exact h.apart q' q hne hp hmem
    · rw [List.mem_singleton.mp hmem] at hp
      exact h.fresh_not_mem hf q' hp

/-- **A push** appends an entry. -/
theorem Parted.push (h : Parted start s cells) {entry : Nat} (hne : entry ≠ 0)
    (hf : Fresh start s entry) (data : Nat) :
    ∃ s', s.queuePush (some q) data entry = some (s', data) ∧
      Parted start s' (Function.update cells q (cells q ++ [(entry, data)])) := by
  have hq := h.holds q
  have hnew := h.fresh_not_mem hf q
  have hin : start ≤ entry ∧ entry < start + heapSize := ⟨hf.1.1, by have := hf.1.2; omega⟩
  rcases (cells q).eq_nil_or_concat' with hnil | ⟨l, ⟨p, x⟩, hcells⟩
  · -- the entry is the first
    have hempty : Holds start s q [] := hnil ▸ hq
    have hhead := hempty.head_nil
    have htail : (s.queue q).tail = 0 := hempty.tail
    have hpush : s.queuePush (some q) data entry =
        some ((s.write entry ⟨0, data⟩).setQueue q ⟨entry, entry, (s.queue q).num + 1⟩, data) := by
      simp only [Store.queuePush, if_neg hne, Store.setNext, htail, hhead, if_true, Option.map_some]
    have hentry : ((s.write entry ⟨0, data⟩).setQueue q
        ⟨entry, entry, (s.queue q).num + 1⟩).cell entry = some (0, data) :=
      congrArg (Option.map _) (Function.update_self entry _ s.entry)
    refine ⟨_, hpush, h.pushed hf (fun q' hq' => Function.update_of_ne hq' _ s.queue)
      (fun p hp _ => Function.update_of_ne hp _ s.entry) (.inl htail) ?_⟩
    refine hq.append hnew hin hne (Function.update_self q _ s.queue) ?_
    rw [hnil]
    exact .cons hentry (.nil 0)
  · -- the entry is linked to the last
    have hfull : Holds start s q (l ++ [(p, x)]) := hcells ▸ hq
    obtain ⟨htail, he, hl⟩ := hfull.tail_concat
    have hp : p ∈ places (cells q) := by
      rw [hcells, places_append]
      exact List.mem_append_right _ List.mem_cons_self
    have hp0 : p ≠ 0 := hq.ne_zero p hp
    have hpe : p ≠ entry := fun heq => hnew (heq ▸ hp)
    have hhead : (s.queue q).head ≠ 0 := fun hnull =>
      hp0 (htail.symm.trans (hq.tail_null.mpr hnull))
    have hold : (s.write entry ⟨0, data⟩).entry p = some ⟨0, x⟩ :=
      (Function.update_of_ne hpe _ s.entry).trans he
    let s₁ := s.write entry ⟨0, data⟩
    let s' := (s₁.write p ⟨entry, x⟩).setQueue q
      ⟨(s.queue q).head, entry, (s.queue q).num + 1⟩
    have hpush : s.queuePush (some q) data entry = some (s', data) := by
      simp only [Store.queuePush, if_neg hne, Store.setNext, htail, if_neg hp0, hold, if_neg hhead,
        Option.map_some, s', s₁]
    have hother : ∀ r, r ≠ entry → r ≠ p → s'.entry r = s.entry r := fun r hr hr' =>
      (Function.update_of_ne hr' _ s₁.entry).trans (Function.update_of_ne hr _ s.entry)
    refine ⟨s', hpush, h.pushed hf (fun q' hq' => Function.update_of_ne hq' _ s.queue)
      (fun r hr hr' => hother r hr (htail ▸ hr')) (.inr (htail ▸ hp)) ?_⟩
    refine hq.append hnew hin hne (Function.update_self q _ s.queue) ?_
    have hlast : s'.cell p = some (entry, x) :=
      congrArg (Option.map _) (Function.update_self p _ s₁.entry)
    have hentry : s'.cell entry = some (0, data) := congrArg (Option.map _)
      ((Function.update_of_ne hpe.symm _ s₁.entry).trans (Function.update_self entry _ s.entry))
    have hnodup : (places l ++ [p]).Nodup := by
      have hall := hfull.nodup
      rwa [places_append] at hall
    rw [hcells, Segment.concat_iff, Segment.concat_iff]
    refine ⟨⟨hl.congr fun r hr => congrArg (Option.map _) (hother r ?_ ?_), hlast⟩, hentry⟩
    · rintro rfl
      exact hnew (by rw [hcells, places_append]; exact List.mem_append_left _ hr)
    · rintro rfl
      exact (List.nodup_append.mp hnodup).2.2 r hr r List.mem_cons_self rfl

/-- **A pop** takes the first entry. -/
theorem Parted.pop (h : Parted start s cells) {p x : Nat} {l : List (Nat × Nat)}
    (hcells : cells q = (p, x) :: l) :
    ∃ s', s.queuePop (some q) = some (s', x) ∧ Parted start s' (Function.update cells q l) := by
  have hq : Holds start s q ((p, x) :: l) := hcells ▸ h.holds q
  obtain ⟨hhead, n, he, hl⟩ := hq.head_cons
  have hp0 : p ≠ 0 := hq.ne_zero p List.mem_cons_self
  have hnotin : p ∉ places l := (List.nodup_cons.mp hq.nodup).1
  let tail := if n = 0 then 0 else (s.queue q).tail
  let s' := ({ s with entry := Function.update s.entry p none } : Store ι).setQueue q
    ⟨n, tail, (s.queue q).num - 1⟩
  have hpop : s.queuePop (some q) = some (s', x) := by
    simp only [Store.queuePop, hhead, if_neg hp0, he, Option.map_some, s', tail]
  have hother : ∀ r, r ≠ p → s'.entry r = s.entry r := fun r hr =>
    Function.update_of_ne hr _ s.entry
  have hn : n = 0 ↔ l = [] := by
    cases l with
    | nil => exact iff_of_true (Segment.nil_iff.mp hl) rfl
    | cons c l =>
        obtain ⟨heq, -⟩ := Segment.cons_iff.mp hl
        refine iff_of_false (heq ▸ hq.ne_zero _ ?_) (List.cons_ne_nil c l)
        exact List.mem_cons_of_mem p List.mem_cons_self
  have hseg : Segment s'.cell n l 0 := hl.congr fun r hr =>
    congrArg (Option.map _) (hother r fun heq => hnotin (heq ▸ hr))
  refine ⟨s', hpop, h.update (hq.rest (Function.update_self q _ s.queue) hseg rfl hn)
    (fun q' hq' => Function.update_of_ne hq' _ s.queue) (fun q' r hne hr => hother r ?_)
    fun q' r hne hr hmem => ?_⟩
  · rintro rfl
    exact h.apart q' q hne hr (hcells ▸ List.mem_cons_self)
  · exact h.apart q' q hne hr (hcells ▸ List.mem_cons_of_mem _ hmem)

/-! ## Runs -/

/-- `calloc` keeps to its promise. -/
def Admits (start : Nat) (w : Option (History ι)) : Call ι → Prop
  | .push (some _) _ entry => entry ≠ 0 → ∀ h ∈ w, Fresh start h.mem entry
  | _ => True

/-- The queues are there, and hold the lists. -/
def Agrees (start : Nat) (w : Option (History ι)) (f : Fifos ι) : Prop :=
  ∃ h cells, w = some h ∧ Parted start h.mem cells ∧ f.list = List.map Prod.snd ∘ cells ∧
    h.seen = f.seen

/-- **A step** of the queues is one of the lists. -/
theorem Agrees.step {w : Option (History ι)} {f : Fifos ι} {c : Call ι}
    (h : Agrees start w f) (hc : Admits start w c) :
    Agrees start (History.step w c) (f.step c) := by
  obtain ⟨⟨s, seen⟩, cells, rfl, hp, hlist, rfl⟩ := h
  have hlist' : ∀ q, f.list q = (cells q).map Prod.snd := fun q => congrFun hlist q
  have hdata : ∀ q l, Function.update f.list q (l.map Prod.snd) =
      List.map Prod.snd ∘ Function.update cells q l := fun q l => by
    rw [hlist, Function.comp_update]
  cases c with
  | foreach queue =>
      cases queue with
      | none => exact ⟨_, cells, rfl, hp, hlist, rfl⟩
      | some q =>
          have hforeach := (hp.holds q).foreach (fun seen data => seen ++ [data]) f.seen
          refine ⟨_, cells, congrArg (Option.map _) hforeach, hp, hlist, ?_⟩
          have hconcat : ((cells q).map Prod.snd).foldl (fun seen data => seen ++ [data]) f.seen =
              f.seen ++ f.list q := by
            rw [hlist', List.foldl_append_eq_append, ← List.flatMap_def, List.flatMap_singleton']
          exact hconcat
  | push queue data entry =>
      cases queue with
      | none => exact ⟨_, cells, rfl, hp, hlist, rfl⟩
      | some q =>
          by_cases he : entry = 0
          · have hpush : s.queuePush (some q) data entry = some (s, 0) := if_pos he
            refine ⟨_, cells, congrArg (Option.map _) hpush, hp, ?_, ?_⟩
            · rw [Fifos.step, if_pos he]
              exact hlist
            · rw [Fifos.step, if_pos he]
          · obtain ⟨s', hpush, hp'⟩ := hp.push he (hc he _ rfl) data
            refine ⟨_, _, congrArg (Option.map _) hpush, hp', ?_, ?_⟩
            · rw [Fifos.step, if_neg he, ← hdata, List.map_append, hlist']
              rfl
            · rw [Fifos.step, if_neg he]
  | pop queue =>
      cases queue with
      | none => exact ⟨_, cells, rfl, hp, hlist, rfl⟩
      | some q =>
          cases hcells : cells q with
          | nil =>
              have hempty : f.list q = [] := by rw [hlist', hcells]; rfl
              have hhead := (hcells ▸ hp.holds q : Holds start s q []).head_nil
              have hpop : s.queuePop (some q) = some (s, 0) := if_pos hhead
              refine ⟨_, cells, congrArg (Option.map _) hpop, hp, ?_, ?_⟩
              · rw [Fifos.step, hempty]
                exact (Function.update_eq_self_iff.mpr hempty.symm).trans hlist
              · rw [Fifos.step, hempty]
                rfl
          | cons e l =>
              obtain ⟨p, x⟩ := e
              have hfull : f.list q = x :: l.map Prod.snd := by rw [hlist', hcells]; rfl
              obtain ⟨s', hpop, hp'⟩ := hp.pop hcells
              refine ⟨_, _, congrArg (Option.map _) hpop, hp', ?_, ?_⟩
              · rw [Fifos.step, hfull]
                exact hdata q l
              · rw [Fifos.step, hfull]
                rfl
  | peek queue =>
      cases queue with
      | none => exact ⟨_, cells, rfl, hp, hlist, rfl⟩
      | some q =>
          have hpeek : s.queuePeek (some q) = some ((f.list q).headD 0) := by
            cases hcells : cells q with
            | nil =>
                have hhead := (hcells ▸ hp.holds q : Holds start s q []).head_nil
                rw [hlist', hcells]
                exact if_pos hhead
            | cons e l =>
                obtain ⟨p, x⟩ := e
                have hq : Holds start s q ((p, x) :: l) := hcells ▸ hp.holds q
                obtain ⟨hhead, n, he, -⟩ := hq.head_cons
                have hp0 : p ≠ 0 := hq.ne_zero p List.mem_cons_self
                rw [hlist', hcells, Store.queuePeek]
                simp only [hhead, if_neg hp0, he, Option.map_some]
                rfl
          exact ⟨_, cells, congrArg (Option.map _) hpeek, hp, hlist, rfl⟩

/-- The queues and the lists before the first call. -/
def History.boot : Option (History ι) := some ⟨.zeroed, []⟩

def Fifos.boot : Fifos ι := ⟨fun _ => [], []⟩

/-- **The queues refine lists.**  After any calls no pointer is stale and what was seen is what the
lists show; the entries from `head` on are a list without a cycle, with `tail` its last and
`num` its length, and hold what is in the list; `queue_foreach` goes over them, oldest first; and a
push that gets no memory changes nothing. -/
theorem queue_refines_fifo {cs : List (Call ι)}
    (hg : Guarded History.step (Admits start) History.boot cs) :
    ∃ w, run History.step History.boot cs = some w ∧
      w.seen = (run Fifos.step Fifos.boot cs).seen ∧
      ∀ q, (∃ cells, Segment w.mem.cell (w.mem.queue q).head cells 0 ∧ (places cells).Nodup ∧
          (w.mem.queue q).tail = (places cells).getLastD 0 ∧
          ((w.mem.queue q).tail = 0 ↔ (w.mem.queue q).head = 0) ∧
          (w.mem.queue q).num.toNat = cells.length ∧
          cells.map Prod.snd = (run Fifos.step Fifos.boot cs).list q) ∧
        (∀ (σ : Type) (func : σ → Nat → σ) (arg : σ),
          w.mem.queueForeach (some q) (some func) arg =
            some (((run Fifos.step Fifos.boot cs).list q).foldl func arg)) ∧
        ∀ data, w.mem.queuePush (some q) data 0 = some (w.mem, 0) := by
  have hboot : Agrees start (History.boot : Option (History ι)) Fifos.boot :=
    ⟨_, _, rfl, parted_zeroed start, rfl, rfl⟩
  have hstep : ∀ (w : Option (History ι)) (f : Fifos ι) (c : Call ι), Agrees start w f →
      Admits start w c → Agrees start (History.step w c) (f.step c) := fun _ _ _ h hc => h.step hc
  have hrun : Agrees start (run History.step History.boot cs) (run Fifos.step Fifos.boot cs) :=
    sim_run (Agrees start) hstep hboot hg
  obtain ⟨w, cells, hw, hp, hlist, hseen⟩ := hrun
  refine ⟨w, hw, hseen, fun q => ?_⟩
  have hq := hp.holds q
  have hdata : (cells q).map Prod.snd = (run Fifos.step Fifos.boot cs).list q :=
    (congrFun hlist q).symm
  refine ⟨⟨cells q, hq.segment, hq.nodup, hq.tail, hq.tail_null, hq.num_toNat, hdata⟩,
    fun σ func arg => ?_, fun data => rfl⟩
  rw [← hdata]
  exact hq.foreach func arg

/-- Two entries one after the other, and the second is left. -/
theorem queue_refines_fifo_two : ∃ w : History Unit, run History.step History.boot
    [.push (some ()) 7 4096, .push (some ()) 8 4112, .pop (some ())] = some w ∧
      w.seen = [7, 8, 7] ∧ (w.mem.queue ()).num.toNat = 1 := by
  have hfirst : Fresh 4096 (.zeroed : Store Unit) 4096 := ⟨by decide, nofun⟩
  have hsecond : ∀ h ∈ History.step (History.boot : Option (History Unit))
      (.push (some ()) 7 4096), Fresh 4096 h.mem 4112 := by
    rintro _ ⟨⟩
    refine ⟨by decide, fun r hr => .inr ?_⟩
    by_contra hne
    have hr' : r ≠ 4096 := by omega
    have hnone : Function.update (fun _ => none) 4096 (some (⟨0, 7⟩ : QueueEntry)) r = none :=
      Function.update_of_ne hr' _ _
    exact Option.not_isSome_iff_eq_none.mpr hnone hr
  have hg : Guarded History.step (Admits 4096) (History.boot : Option (History Unit))
      [.push (some ()) 7 4096, .push (some ()) 8 4112, .pop (some ())] := by
    refine ⟨?_, fun _ => hsecond, trivial, trivial⟩
    rintro - _ ⟨⟩
    exact hfirst
  obtain ⟨w, hw, hseen, hq⟩ := queue_refines_fifo hg
  obtain ⟨⟨cells, -, -, -, -, hnum, hdata⟩, -⟩ := hq ()
  refine ⟨w, hw, hseen, ?_⟩
  have hone : (cells.map Prod.snd).length = 1 := congrArg List.length hdata
  rwa [List.length_map, ← hnum] at hone

end

end Laplus.Net.Queue
