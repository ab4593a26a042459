/-
# `Laplus.Paging.Isolation` — tasks that run one image

The tasks that run an application share the frames of the image that `LoadApp` keeps.  A write of
the program to one of them faults first, and goes to a copy; a write of the kernel does not fault,
as `SetupIdentityPageTable` clears `CR0.WP`, and goes to the image.

Nothing else writes to an image (`image_kept_iff`), and as long as nothing does, no task sees what
another one stores.
-/
import Laplus.Lib.Run
import Laplus.Paging.Ownership

namespace Laplus.Paging

open Lib

variable {s s' m : Machine} {T P f i j addr num stack : Nat} {O O' OP I : Set Nat}
  {a : Access} {task : Task} {words : Fin 512 → PageMapEntry}

/-! ## The source -/

namespace Machine

/-- `SetCR3`. -/
def setCR3 (s : Machine) (T : Nat) : Machine := { s with cr3 := T }

/-- `LoadApp`, of an image that it has kept. -/
def loadKept (s : Machine) (P : Nat) : Machine × Except Error Nat :=
  match s.setupPML4 with
  | (s, .error e) => (s, .error e)
  | (s, .ok T) =>
      match s.copyPageMaps 4 T P 256 with
      | (s, .error e) => (s, .error e)
      | (s, .ok _) => (s, .ok T)

/-- An access; after a write the words of the page are `words`.  If it faults, the fault is handled,
and there is no outcome if the kernel faults there. -/
def access (s : Machine) (addr : Nat) (a : Access) (task : Task) (words : Fin 512 → PageMapEntry) :
    Option Machine :=
  match s.fault addr a with
  | some code => (s.handlePageFault task code addr).map Prod.fst
  | none =>
      if a.write then (translate s.mem s.cr3 (path addr)).map fun t => s.fill t.frame words
      else some s

/-- What is in the page of an address. -/
def page (s : Machine) (T addr : Nat) : Option (Fin 512 → PageMapEntry) :=
  (s.leaf T addr).map fun e => s.mem e.addr

end Machine

/-- The machine, and the maps of the tasks that run the application. -/
structure Sharers where
  machine : Machine
  root : Nat → Option Nat

/-- What happens: a task is started; it gets pages for its arguments and its stack; the program, or
the kernel for it, accesses a page; the task ends; and whatever else there is. -/
inductive SharerEvent where
  | start (i : Nat)
  | setup (i addr num : Nat)
  | access (i addr : Nat) (a : Access) (task : Task) (words : Fin 512 → PageMapEntry)
  | exit (i pml4Table : Nat)
  | other (s : Machine)

/-- The task to which it happens. -/
def SharerEvent.actor : SharerEvent → Option Nat
  | .start i | .setup i _ _ | .access i _ _ _ _ | .exit i _ => some i
  | .other _ => none

namespace Sharers

/-- `LoadApp` has kept the image, and no task runs it yet. -/
def boot (m : Machine) : Sharers := ⟨m, fun _ => none⟩

def step (P : Nat) (σ : Sharers) : SharerEvent → Option Sharers
  | .start i =>
      let r := σ.machine.loadKept P
      some ⟨r.1, Function.update σ.root i r.2.toOption⟩
  | .setup i addr num => (σ.root i).map fun T =>
      { σ with machine := ((σ.machine.setCR3 T).setupPageMaps addr num true).1 }
  | .access i addr a task words => (σ.root i).bind fun T =>
      ((σ.machine.setCR3 T).access addr a task words).map fun s => { σ with machine := s }
  | .exit i pml4Table => (σ.root i).map fun T =>
      ⟨((σ.machine.setCR3 T).cleanUp pml4Table).1, Function.update σ.root i none⟩
  | .other s => some { σ with machine := s }

/-- There is no outcome after one that there is not. -/
def next (P : Nat) (σ : Option Sharers) (e : SharerEvent) : Option Sharers := σ.bind (·.step P e)

/-- The frames of the image and of the tasks. -/
def Uses (σ : Sharers) (P f : Nat) : Prop :=
  σ.machine.FrameOf P f ∨ ∃ i T, σ.root i = some T ∧ σ.machine.FrameOf T f

/-- A task is started that does not run; the pages of arguments and stack lie from the page `stack`
on; the application has its pages in the upper half; and nothing else touches the frames that are
in use here. -/
def Admitted (stack P : Nat) (σ : Option Sharers) : SharerEvent → Prop
  | .start i => ∀ σ' ∈ σ, σ'.root i = none
  | .setup _ addr _ => Upper addr ∧ stack ≤ addr / 4096
  | .access _ addr _ _ _ => Upper addr
  | .exit _ _ => True
  | .other s => ∀ σ' ∈ σ, ∀ f, σ'.Uses P f → s.Allocated f ∧ s.mem f = σ'.machine.mem f

/-- A write of the kernel to a page that is mapped read-only leaves what is there. -/
def Leaves (σ : Option Sharers) : SharerEvent → Prop
  | .access i addr ⟨false, true⟩ _ words => ∀ σ' ∈ σ, ∀ T e, σ'.root i = some T →
      σ'.machine.leaf T addr = some e → e.writable = false → words = σ'.machine.mem e.addr
  | _ => True

/-- The frames of the image have what they had when `LoadApp` kept it. -/
def Kept (m : Machine) (P : Nat) (σ : Sharers) : Prop :=
  ∀ f, m.FrameOf P f → σ.machine.mem f = m.mem f

/-- No other task sees what happens, and a task that is started sees the image. -/
structure Isolates (m : Machine) (P : Nat) (σ : Sharers) (e : SharerEvent) (σ' : Sharers) : Prop where
  others : ∀ j T, e.actor ≠ some j → σ.root j = some T → σ'.root j = some T ∧
    ∀ addr, σ'.machine.page T addr = σ.machine.page T addr
  start : ∀ i T, e = .start i → σ'.root i = some T →
    ∀ addr, σ'.machine.page T addr = m.page P addr

end Sharers

/-! ## What one task does to the others -/

/-- The frames `O` become `O'`, and the frames of others stay. -/
structure Moves (s s' : Machine) (O O' : Set Nat) : Prop where
  mem : ∀ f, s.Allocated f → f ∉ O → s'.mem f = s.mem f
  kept : ∀ f, s.Allocated f → f ∉ O → s'.Allocated f
  old : ∀ f ∈ O', s.Allocated f → f ∈ O

theorem Moves.refl (s : Machine) (O : Set Nat) : Moves s s O O where
  mem _ _ _ := rfl
  kept _ hf _ := hf
  old _ hf _ := hf

theorem Works.moves (h : Works s s' T O O' I) : Moves s s' O O' where
  mem := h.mem
  kept f hf _ := (h.allocated f).mpr (.inl hf)
  old := h.old

/-- Which map is in use does not matter. -/
theorem Moves.of_setCR3 (h : Moves (s.setCR3 T) s' O O') : Moves s s' O O' := ⟨h.mem, h.kept, h.old⟩

/-- A space of others. -/
theorem Space.moved {O₁ : Set Nat} (h : Space s T O I) (hm : Moves s s' O₁ O')
    (hO : ∀ f ∈ O, f ∉ O₁) (hI : ∀ f ∈ I, f ∉ O₁) :
    Space s' T O I ∧ s'.space T = s.space T := by
  have hmem : ∀ f ∈ O, s'.mem f = s.mem f := fun f hf =>
    hm.mem f (h.allocated f (.inl hf)) (hO f hf)
  refine ⟨h.congr hmem fun f hf => hm.kept f (h.allocated f hf) ?_, h.space_congr hmem⟩
  exact hf.elim (hO f) (hI f)

theorem Space.setCR3 (h : Space s T O I) : Space (s.setCR3 T) (s.setCR3 T).cr3 O I :=
  h.congr (fun _ _ => rfl) h.allocated

theorem Space.mem_of_frameOf (h : Space s P O I) (hf : s.FrameOf P f) : f ∈ O ∨ f ∈ I := by
  rcases hf with rfl | ⟨p, i, e, he, rfl⟩
  · exact .inl h.owns.root
  · cases hw : e.writable with
    | true => exact .inl (h.owns.own he hw).1
    | false => exact .inr (h.owns.share he hw)

/-- What another task sees. -/
theorem Space.page_eq (h : Space s T O I) (hspace : s'.space T = s.space T)
    (hmem : ∀ f, f ∈ O ∨ f ∈ I → s'.mem f = s.mem f) (addr : Nat) :
    s'.page T addr = s.page T addr := by
  have hleaf : s'.leaf T addr = s.leaf T addr := congrFun (congrFun hspace _) _
  rw [Machine.page, Machine.page, hleaf]
  cases he : s.leaf T addr with
  | none => rfl
  | some e => exact congrArg some (hmem e.addr (h.mem_of_frameOf (.inr ⟨_, _, e, he, rfl⟩)))

/-! ## What a task does -/

/-- What an access does: its fault is handled, or a page is written to, or nothing changes. -/
theorem access_cases (hr : s.access addr a task words = some s') :
    (∃ code res, s.fault addr a = some code ∧
      s.handlePageFault task code addr = some (s', res)) ∨ s' = s ∨
    ∃ t, s.fault addr a = none ∧ a.write = true ∧ translate s.mem s.cr3 (path addr) = some t ∧
      s' = s.fill t.frame words := by
  rw [Machine.access] at hr
  cases hf : s.fault addr a with
  | some code =>
      rw [hf] at hr
      obtain ⟨⟨s₁, res⟩, hhandle, rfl⟩ := Option.map_eq_some_iff.mp hr
      exact .inl ⟨code, res, rfl, hhandle⟩
  | none =>
      rw [hf] at hr
      cases hw : a.write with
      | false =>
          rw [hw] at hr
          cases hr
          exact .inr (.inl rfl)
      | true =>
          rw [hw] at hr
          obtain ⟨t, ht, rfl⟩ := Option.map_eq_some_iff.mp hr
          exact .inr (.inr ⟨t, rfl, rfl, ht, rfl⟩)

/-- **An access**, if it is not a write of the kernel that changes a page mapped read-only. -/
theorem access_works (h : Space s s.cr3 O I) (haddr : Upper addr)
    (hk : a = ⟨false, true⟩ → ∀ e, s.leaf s.cr3 addr = some e → e.writable = false →
      words = s.mem e.addr)
    (hr : s.access addr a task words = some s') : ∃ O', Works s s' s.cr3 O O' I := by
  rcases access_cases hr with ⟨code, res, hf, hhandle⟩ | rfl | ⟨t, hf, hw, ht, rfl⟩
  · obtain ⟨O', hworks, -⟩ := handlePageFault_works h haddr hf hhandle
    exact ⟨O', hworks⟩
  · exact ⟨O, .refl h⟩
  · obtain ⟨e, he, rfl⟩ := leaf_of_translate h haddr ht
    refine ⟨O, ?_⟩
    cases hro : e.writable with
    | true => exact .of_fill h he rfl hro words
    | false =>
        -- only the kernel gets here without a fault
        have hkernel : a = ⟨false, true⟩ := by
          rw [Machine.fault, ht] at hf
          obtain ⟨user, write⟩ := a
          cases hw
          cases user with
          | false => rfl
          | true => simp [PageMapEntry.mapping, hro] at hf
        have hsame : s.fill e.mapping.frame words = s := by
          rw [hk hkernel e he hro]
          exact congrArg (fun mem => { s with mem }) (Function.update_eq_self _ _)
        rw [hsame]
        exact .refl h

/-- The end of a task frees what it owns. -/
theorem cleanUp_moves (h : Space s s.cr3 O I) (pml4Table : Nat) :
    Moves s (s.cleanUp pml4Table).1 O ∅ := by
  obtain ⟨-, -, hall, hmem⟩ := h.cleanUp pml4Table
  exact ⟨fun f _ hf => hmem f hf, fun f hs hO => (hall f).mpr ⟨hs, hO⟩, fun f hf => hf.elim⟩

theorem setupPML4_error {e : Error} (hr : s.setupPML4 = (s', .error e)) : s' = s := by
  rw [Machine.setupPML4] at hr
  cases hnew : s.newPageMap with
  | mk s₁ r =>
      rw [hnew] at hr
      cases r with
      | ok T => cases hr
      | error e' =>
          cases hr
          exact Machine.newPageMap_error hnew

/-- A new map beside the others. -/
theorem copied_moves {s₁ : Machine} {res : Except Error Unit} (hP : Space s P OP I)
    (hro : ∀ q k e, q.length = 3 → s.space P q k = some e → e.writable = false)
    (hpml4 : s.setupPML4 = (s₁, .ok T)) (hr : s₁.copyPageMaps 4 T P 256 = (s', res)) :
    ∃ O', Moves s s' ∅ O' ∧ Space s' T O' I ∧ (res = .ok () → ∀ q k, q.length = 3 →
      s'.space T q k = (s.space P q k).map PageMapEntry.readOnly) := by
  obtain ⟨hT, hnone, hfree, halloc, hmem, -, -⟩ :=
    setupPML4_space (I := I) (fun f hf => hP.allocated f (.inr hf)) hpml4
  have hne : ∀ f, s.Allocated f → f ≠ T := fun f hf he => hfree (he ▸ hf)
  have hmem₁ : ∀ f ∈ OP, s₁.mem f = s.mem f := fun f hf => hmem f (hne f (hP.allocated f (.inl hf)))
  have hP₁ := hP.congr hmem₁ fun f hf => (halloc f).mpr (.inr (hP.allocated f hf))
  have heq := hP.space_congr hmem₁
  obtain ⟨O', hgrows, hleaves⟩ := copyPageMaps_grows hT hP₁
    (fun f hf he => hne f (hP.allocated f (.inl hf)) he)
    (fun q k e hq he => hP.owns.share (heq ▸ he) (hro q k e hq (heq ▸ he))) (hnone []) hr
  refine ⟨O', ?_, hgrows.space, fun hok q k hq => heq ▸ hleaves hok q k hq⟩
  constructor
  case mem =>
    intro f hf _
    rw [hgrows.mem f ((halloc f).mpr (.inr hf)) (hne f hf), hmem f (hne f hf)]
  case kept => exact fun f hf _ => (hgrows.allocated f).mpr (.inl ((halloc f).mpr (.inr hf)))
  case old => exact fun f hf hs => absurd ((hgrows.old f ((halloc f).mpr (.inr hs))).1 hf) (hne f hs)

/-- A task that is not started leaves frames behind that are nobody's. -/
theorem loadKept_error {e : Error} (hP : Space s P OP I)
    (hro : ∀ q k e, q.length = 3 → s.space P q k = some e → e.writable = false)
    (hr : s.loadKept P = (s', .error e)) : Moves s s' ∅ ∅ := by
  rw [Machine.loadKept] at hr
  cases hpml4 : s.setupPML4 with
  | mk s₁ r =>
      rw [hpml4] at hr
      cases r with
      | error e' =>
          cases hr
          obtain rfl := setupPML4_error hpml4
          exact .refl _ ∅
      | ok T =>
          cases hcopy : s₁.copyPageMaps 4 T P 256 with
          | mk s₂ res =>
              simp only [hcopy] at hr
              obtain ⟨O', hm, -⟩ := copied_moves hP hro hpml4 hcopy
              cases res with
              | ok u => cases hr
              | error e' =>
                  cases hr
                  exact ⟨hm.mem, hm.kept, fun f hf => hf.elim⟩

/-- **A task that is started** sees the image. -/
theorem loadKept_ok (hP : Space s P OP I)
    (hro : ∀ q k e, q.length = 3 → s.space P q k = some e → e.writable = false)
    (hu : s.Under stack P) (hr : s.loadKept P = (s', .ok T)) :
    ∃ O', Moves s s' ∅ O' ∧ Space s' T O' I ∧ s'.Under stack T ∧
      ∀ addr, s'.page T addr = s.page P addr := by
  rw [Machine.loadKept] at hr
  cases hpml4 : s.setupPML4 with
  | mk s₁ r =>
      rw [hpml4] at hr
      cases r with
      | error e => cases hr
      | ok T' =>
          cases hcopy : s₁.copyPageMaps 4 T' P 256 with
          | mk s₂ res =>
              simp only [hcopy] at hr
              cases res with
              | error e => cases hr
              | ok u =>
                  cases hr
                  obtain ⟨O', hm, hT, hleaves⟩ := copied_moves hP hro hpml4 hcopy
                  have hleaves := hleaves rfl
                  refine ⟨O', hm, hT, fun q k e hq he _ => ?_, fun addr => ?_⟩
                  · rw [hleaves q k hq] at he
                    obtain ⟨x, hx, -⟩ := Option.map_eq_some_iff.mp he
                    exact hu q k x hq hx (hro q k x hq hx)
                  · have hleaf : s'.leaf T addr = (s.leaf P addr).map PageMapEntry.readOnly :=
                      hleaves _ _ rfl
                    rw [Machine.page, Machine.page, hleaf]
                    cases he : s.leaf P addr with
                    | none => rfl
                    | some e =>
                        have hI := hP.allocated _ (.inr (hP.owns.share he (hro _ _ e rfl he)))
                        exact congrArg some (hm.mem e.addr hI id)

/-! ## The image and its tasks -/

/-- The maps of the image and of the tasks in memory: the task `i` owns the frames `O i`, no two own
the same frame, and all share the frames of the image. -/
structure Arranged (stack P : Nat) (m : Machine) (OP I : Set Nat) (O : Nat → Set Nat)
    (σ : Sharers) : Prop where
  image : Space σ.machine P OP I
  map : σ.machine.space P = m.space P
  shared : ∀ f ∈ I, m.FrameOf P f
  tasks : ∀ i T, σ.root i = some T → Space σ.machine T (O i) I ∧ σ.machine.Under stack T
  idle : ∀ i, σ.root i = none → O i = ∅
  apart : ∀ i j, i ≠ j → ∀ f ∈ O i, f ∉ O j
  imageApart : ∀ i, ∀ f ∈ O i, f ∉ OP

namespace Arranged

variable {σ : Sharers} {Os : Nat → Set Nat}

theorem owned (h : Arranged stack P m OP I Os σ) (hf : f ∈ Os i) :
    σ.machine.Allocated f ∧ f ∉ I := by
  cases hroot : σ.root i with
  | none =>
      rw [h.idle i hroot] at hf
      exact hf.elim
  | some T =>
      obtain ⟨hT, -⟩ := h.tasks i T hroot
      exact ⟨hT.allocated f (.inl hf), hT.owns.apart f hf⟩

/-- What one task does leaves the image. -/
theorem image_moved (h : Arranged stack P m OP I Os σ) (hm : Moves σ.machine s' (Os i) O') :
    Space s' P OP I ∧ s'.space P = σ.machine.space P :=
  h.image.moved hm (fun f hf hO => h.imageApart i f hO hf) fun _ hf hO => (h.owned hO).2 hf

/-- What one task does leaves the others. -/
theorem task_moved (h : Arranged stack P m OP I Os σ) (hm : Moves σ.machine s' (Os i) O')
    (hj : j ≠ i) (hroot : σ.root j = some T) :
    Space s' T (Os j) I ∧ s'.space T = σ.machine.space T :=
  (h.tasks j T hroot).1.moved hm (fun f hf hO => h.apart i j hj.symm f hO hf)
    fun _ hf hO => (h.owned hO).2 hf

/-- **One task moves.** -/
theorem move (h : Arranged stack P m OP I Os σ) (hm : Moves σ.machine s' (Os i) O')
    {t : Option Nat} (ht : ∀ T, t = some T → Space s' T O' I ∧ s'.Under stack T)
    (hnone : t = none → O' = ∅) :
    Arranged stack P m OP I (Function.update Os i O') ⟨s', Function.update σ.root i t⟩ := by
  obtain ⟨himage, hmap⟩ := h.image_moved hm
  -- what is new to the task is nobody's
  have hnew : ∀ j, j ≠ i → ∀ f ∈ O', f ∉ Os j := fun j hj f hf hO =>
    h.apart i j hj.symm f (hm.old f hf (h.owned hO).1) hO
  constructor
  case image => exact himage
  case map => exact hmap.trans h.map
  case shared => exact h.shared
  case tasks =>
    intro j T hroot
    dsimp only at hroot ⊢
    by_cases hj : j = i
    · subst hj
      rw [Function.update_self] at hroot ⊢
      exact ht T hroot
    · rw [Function.update_of_ne hj] at hroot ⊢
      obtain ⟨hT, hspace⟩ := h.task_moved hm hj hroot
      refine ⟨hT, ?_⟩
      rw [Machine.Under, hspace]
      exact (h.tasks j T hroot).2
  case idle =>
    intro j hroot
    dsimp only at hroot
    by_cases hj : j = i
    · subst hj
      rw [Function.update_self] at hroot ⊢
      exact hnone hroot
    · rw [Function.update_of_ne hj] at hroot ⊢
      exact h.idle j hroot
  case apart =>
    intro j k hjk f hf hf'
    by_cases hj : j = i
    · subst hj
      rw [Function.update_self] at hf
      rw [Function.update_of_ne hjk.symm] at hf'
      exact hnew k hjk.symm f hf hf'
    · rw [Function.update_of_ne hj] at hf
      by_cases hk : k = i
      · subst hk
        rw [Function.update_self] at hf'
        exact hnew j hjk f hf' hf
      · rw [Function.update_of_ne hk] at hf'
        exact h.apart j k hjk f hf hf'
  case imageApart =>
    intro j f hf hOP
    by_cases hj : j = i
    · subst hj
      rw [Function.update_self] at hf
      exact h.imageApart j f (hm.old f hf (h.image.allocated f (.inl hOP))) hOP
    · rw [Function.update_of_ne hj] at hf
      exact h.imageApart j f hf hOP

/-- The frames of the image. -/
theorem frameOf_iff (h : Arranged stack P m OP I Os σ) :
    σ.machine.FrameOf P f ↔ m.FrameOf P f := by
  rw [Machine.FrameOf, Machine.FrameOf, h.map]

/-- What happens elsewhere. -/
theorem other (h : Arranged stack P m OP I Os σ)
    (hs : ∀ f, σ.Uses P f → s'.Allocated f ∧ s'.mem f = σ.machine.mem f) :
    Arranged stack P m OP I Os { σ with machine := s' } := by
  have hshared : ∀ f ∈ I, s'.Allocated f := fun f hf =>
    (hs f (.inl (h.frameOf_iff.mpr (h.shared f hf)))).1
  have himage : ∀ f ∈ OP, σ.Uses P f := fun f hf => .inl (h.image.frameOf (.inl hf))
  have htask : ∀ i T, σ.root i = some T → ∀ f ∈ Os i, σ.Uses P f := fun i T hroot f hf =>
    .inr ⟨i, T, hroot, (h.tasks i T hroot).1.frameOf (.inl hf)⟩
  constructor
  case image =>
    exact h.image.congr (fun f hf => (hs f (himage f hf)).2) fun f hf =>
      hf.elim (fun hf => (hs f (himage f hf)).1) (hshared f)
  case map => exact (h.image.space_congr fun f hf => (hs f (himage f hf)).2).trans h.map
  case shared => exact h.shared
  case tasks =>
    intro i T hroot
    obtain ⟨hT, hu⟩ := h.tasks i T hroot
    have hmem : ∀ f ∈ Os i, s'.mem f = σ.machine.mem f := fun f hf =>
      (hs f (htask i T hroot f hf)).2
    refine ⟨hT.congr hmem fun f hf =>
      hf.elim (fun hf => (hs f (htask i T hroot f hf)).1) (hshared f), ?_⟩
    rw [Machine.Under, hT.space_congr hmem]
    exact hu
  case idle => exact h.idle
  case apart => exact h.apart
  case imageApart => exact h.imageApart

/-- What one task does leaves the frames of the image. -/
theorem kept_moved (h : Arranged stack P m OP I Os σ) (hm : Moves σ.machine s' (Os i) O')
    (hk : σ.Kept m P) (hf : m.FrameOf P f) : s'.mem f = m.mem f := by
  have hmem := h.image.mem_of_frameOf (h.frameOf_iff.mpr hf)
  rw [hm.mem f (h.image.allocated f hmem), hk f hf]
  intro hO
  exact hmem.elim (h.imageApart i f hO) (h.owned hO).2

/-- **What one task does is not seen by the others.** -/
theorem page_moved (h : Arranged stack P m OP I Os σ) (hm : Moves σ.machine s' (Os i) O')
    (hj : j ≠ i) (hroot : σ.root j = some T) (addr : Nat) :
    s'.page T addr = σ.machine.page T addr := by
  obtain ⟨hT, -⟩ := h.tasks j T hroot
  refine hT.page_eq (h.task_moved hm hj hroot).2 (fun f hf => ?_) addr
  refine hm.mem f (hT.allocated f hf) fun hO => ?_
  exact hf.elim (h.apart i j hj.symm f hO) (h.owned hO).2

end Arranged

/-! ## Steps -/

variable {σ σ' : Sharers} {Os : Nat → Set Nat}

/-- What a step comes to that is allowed. -/
structure Goes (stack P : Nat) (m : Machine) (OP I : Set Nat) (σ : Sharers) (e : SharerEvent)
    (σ' : Sharers) : Prop where
  arranged : ∃ Os, Arranged stack P m OP I Os σ'
  kept : σ'.Kept m P
  isolates : σ.Isolates m P e σ'

/-- A task moves. -/
theorem Arranged.goes (h : Arranged stack P m OP I Os σ) (hk : σ.Kept m P)
    (hm : Moves σ.machine s' (Os i) O') {t : Option Nat}
    (ht : ∀ T, t = some T → Space s' T O' I ∧ s'.Under stack T) (hnone : t = none → O' = ∅)
    {e : SharerEvent} (he : e.actor = some i)
    (hstart : e = .start i → ∀ T, t = some T → ∀ addr, s'.page T addr = m.page P addr) :
    Goes stack P m OP I σ e ⟨s', Function.update σ.root i t⟩ where
  arranged := ⟨_, h.move hm ht hnone⟩
  kept _ hf := h.kept_moved hm hk hf
  isolates := by
    constructor
    case others =>
      intro j T hj hroot
      have hne : j ≠ i := fun heq => hj (heq ▸ he)
      exact ⟨(Function.update_of_ne hne _ _).trans hroot, h.page_moved hm hne hroot⟩
    case start =>
      rintro j T rfl hroot
      obtain rfl : j = i := Option.some.inj he
      exact hstart rfl T ((Function.update_self j t σ.root).symm.trans hroot)

/-- A task that runs moves. -/
theorem Arranged.goes_work (h : Arranged stack P m OP I Os σ) (hk : σ.Kept m P)
    (hroot : σ.root i = some T) (hw : Works (σ.machine.setCR3 T) s' T (Os i) O' I) {e : SharerEvent}
    (he : e.actor = some i) (hstart : e ≠ .start i) :
    Goes stack P m OP I σ e { σ with machine := s' } := by
  have hgoes := h.goes hk hw.moves.of_setCR3 (t := some T) (fun T' hT' => by
    cases hT'
    exact ⟨hw.space, hw.under (h.tasks i T hroot).2⟩) (fun hnone => by cases hnone) he
    fun heq => absurd heq hstart
  have hsame : Function.update σ.root i (some T) = σ.root := by
    rw [← hroot]
    exact Function.update_eq_self i σ.root
  rwa [hsame] at hgoes

theorem Arranged.image_page (h : Arranged stack P m OP I Os σ) (hk : σ.Kept m P) (addr : Nat) :
    σ.machine.page P addr = m.page P addr := by
  have hleaf : σ.machine.leaf P addr = m.leaf P addr := congrFun (congrFun h.map _) _
  rw [Machine.page, Machine.page, hleaf]
  cases he : m.leaf P addr with
  | none => rfl
  | some e => exact congrArg some (hk e.addr (.inr ⟨_, _, e, he, rfl⟩))

/-- A task is started. -/
theorem Arranged.start (himage : Image stack m P) (h : Arranged stack P m OP I Os σ)
    (hk : σ.Kept m P) (hroot : σ.root i = none) (hr : σ.step P (.start i) = some σ') :
    Goes stack P m OP I σ (.start i) σ' := by
  have hidle : Os i = ∅ := h.idle i hroot
  have hro : ∀ q k e, q.length = 3 → σ.machine.space P q k = some e → e.writable = false := by
    rw [h.map]
    exact himage.readOnly
  have hu : σ.machine.Under stack P := by
    rw [Machine.Under, h.map]
    exact fun q k e hq he _ => himage.below q k e hq he
  obtain rfl := Option.some.inj hr
  cases hload : σ.machine.loadKept P with
  | mk s' r =>
      cases r with
      | error e =>
          have hm : Moves σ.machine s' (Os i) ∅ := by
            rw [hidle]
            exact loadKept_error h.image hro hload
          exact h.goes hk hm (t := none) (fun T hT => by cases hT) (fun _ => rfl) rfl
            fun _ T hT => by cases hT
      | ok T =>
          obtain ⟨O', hm, hT, hunder, hpage⟩ := loadKept_ok h.image hro hu hload
          have hm : Moves σ.machine s' (Os i) O' := by
            rw [hidle]
            exact hm
          refine h.goes hk hm (t := some T) (fun T' hT' => ?_) (fun hnone => by cases hnone) rfl
            fun _ T' hT' addr => ?_
          · cases hT'
            exact ⟨hT, hunder⟩
          · cases hT'
            rw [hpage, h.image_page hk]

/-- **A step** that leaves read-only pages as they are. -/
theorem Arranged.step (himage : Image stack m P) (h : Arranged stack P m OP I Os σ)
    (hk : σ.Kept m P) {e : SharerEvent} (ha : Sharers.Admitted stack P (some σ) e)
    (hl : Sharers.Leaves (some σ) e) (hr : σ.step P e = some σ') :
    Goes stack P m OP I σ e σ' := by
  cases e with
  | start i => exact h.start himage hk (ha σ rfl) hr
  | setup i addr num =>
      obtain ⟨haddr, hstack⟩ := ha
      obtain ⟨T, hroot, rfl⟩ := Option.map_eq_some_iff.mp hr
      obtain ⟨hT, hu⟩ := h.tasks i T hroot
      obtain ⟨O', hw⟩ := setup_works num hT.setCR3 hu haddr hstack
      exact h.goes_work hk hroot hw rfl nofun
  | access i addr a task words =>
      obtain ⟨T, hroot, hr⟩ := Option.bind_eq_some_iff.mp hr
      obtain ⟨s', haccess, rfl⟩ := Option.map_eq_some_iff.mp hr
      obtain ⟨hT, -⟩ := h.tasks i T hroot
      have hleaves : a = ⟨false, true⟩ → ∀ e, (σ.machine.setCR3 T).leaf T addr = some e →
          e.writable = false → words = σ.machine.mem e.addr := by
        rintro rfl e he hw
        exact hl σ rfl T e hroot he hw
      obtain ⟨O', hw⟩ := access_works hT.setCR3 ha hleaves haccess
      exact h.goes_work hk hroot hw rfl nofun
  | exit i pml4Table =>
      obtain ⟨T, hroot, rfl⟩ := Option.map_eq_some_iff.mp hr
      have hm := cleanUp_moves (h.tasks i T hroot).1.setCR3 pml4Table
      exact h.goes hk hm.of_setCR3 (t := none) (fun T hT => by cases hT) (fun _ => rfl) rfl
        fun heq => by cases heq
  | other s =>
      obtain rfl := Option.some.inj hr
      have hs := ha σ rfl
      have hmem : ∀ f, σ.Uses P f → s.mem f = σ.machine.mem f := fun f hf => (hs f hf).2
      refine ⟨⟨Os, h.other hs⟩, fun f hf => ?_, fun j T _ hroot => ⟨hroot, fun addr => ?_⟩,
        fun i T heq => by cases heq⟩
      · exact (hmem f (.inl (h.frameOf_iff.mpr hf))).trans (hk f hf)
      · obtain ⟨hT, -⟩ := h.tasks j T hroot
        have hused : ∀ f, f ∈ Os j ∨ f ∈ I → s.mem f = σ.machine.mem f := by
          rintro f (hf | hf)
          · exact hmem f (.inr ⟨j, T, hroot, hT.frameOf (.inl hf)⟩)
          · exact hmem f (.inl (h.frameOf_iff.mpr (h.shared f hf)))
        exact hT.page_eq (hT.space_congr fun f hf => hused f (.inl hf)) hused addr

/-- What else a step does. -/
theorem not_leaves {e : SharerEvent} (hl : ¬Sharers.Leaves (some σ) e) :
    ∃ i addr task words T x, e = .access i addr ⟨false, true⟩ task words ∧ σ.root i = some T ∧
      σ.machine.leaf T addr = some x ∧ x.writable = false ∧ words ≠ σ.machine.mem x.addr := by
  cases e with
  | start i => exact absurd trivial hl
  | setup i addr num => exact absurd trivial hl
  | exit i pml4Table => exact absurd trivial hl
  | other s => exact absurd trivial hl
  | access i addr a task words =>
      obtain ⟨user, write⟩ := a
      cases user with
      | true => exact absurd trivial hl
      | false =>
          cases write with
          | false => exact absurd trivial hl
          | true =>
              rw [Sharers.Leaves] at hl
              push Not at hl
              obtain ⟨_, ⟨⟩, T, x, hroot, hx, hw, hne⟩ := hl
              exact ⟨i, addr, task, words, T, x, rfl, hroot, hx, hw, hne⟩

/-- **A write of the kernel** to a page that is mapped read-only goes to the image. -/
theorem Arranged.breaks (h : Arranged stack P m OP I Os σ) (hk : σ.Kept m P) {e : SharerEvent}
    (ha : Sharers.Admitted stack P (some σ) e) (hl : ¬Sharers.Leaves (some σ) e) :
    ∃ σ', σ.step P e = some σ' ∧ ¬σ'.Kept m P := by
  obtain ⟨i, addr, task, words, T, x, rfl, hroot, hx, hw, hne⟩ := not_leaves hl
  have hT := (h.tasks i T hroot).1
  have htrans : translate (σ.machine.setCR3 T).mem (σ.machine.setCR3 T).cr3 (path addr) =
      some x.mapping := by
    rw [translate_upper hT.setCR3 ha]
    exact congrArg (Option.map _) hx
  have hfault : (σ.machine.setCR3 T).fault addr ⟨false, true⟩ = none := by
    rw [Machine.fault, htrans]
    rfl
  have haccess : (σ.machine.setCR3 T).access addr ⟨false, true⟩ task words =
      some ((σ.machine.setCR3 T).fill x.addr words) := by
    rw [Machine.access, hfault, htrans]
    rfl
  refine ⟨{ σ with machine := (σ.machine.setCR3 T).fill x.addr words }, ?_, fun hk' => hne ?_⟩
  · rw [Sharers.step, hroot, Option.bind_some, haccess, Option.map_some]
  · have hframe := h.shared x.addr (hT.owns.share hx hw)
    have hwords : ((σ.machine.setCR3 T).fill x.addr words).mem x.addr = words :=
      Function.update_self _ _ _
    rw [← hwords, hk x.addr hframe]
    exact hk' x.addr hframe

/-! ## Runs -/

theorem arranged_boot (hload : Loaded stack P m) :
    ∃ OP I, Arranged stack P m OP I (fun _ => ∅) (.boot m) := by
  have himage := hload.image
  obtain ⟨OP, hP⟩ := himage.space
  refine ⟨OP, m.LeafFrame P, ?_⟩
  constructor
  case image => exact hP
  case map => rfl
  case shared => exact fun f hf => hP.frameOf (.inr hf)
  case tasks => exact fun i T hroot => by cases hroot
  case idle => exact fun _ _ => rfl
  case apart => exact fun _ _ _ f hf => hf.elim
  case imageApart => exact fun _ f hf => hf.elim

/-- What holds between the steps. -/
structure Steady (stack P : Nat) (m : Machine) (OP I : Set Nat) (o : Option Sharers) : Prop where
  arranged : ∀ σ ∈ o, ∃ Os, Arranged stack P m OP I Os σ
  kept : ∀ σ ∈ o, σ.Kept m P

/-- A step that leaves read-only pages as they are. -/
theorem Steady.step (himage : Image stack m P) {o : Option Sharers} {e : SharerEvent}
    (h : Steady stack P m OP I o) (ha : Sharers.Admitted stack P o e) (hl : Sharers.Leaves o e) :
    Steady stack P m OP I (Sharers.next P o e) ∧
      ∀ σ σ', o = some σ → σ.step P e = some σ' → σ.Isolates m P e σ' := by
  cases o with
  | none => exact ⟨⟨nofun, nofun⟩, nofun⟩
  | some σ =>
      obtain ⟨Os, harranged⟩ := h.arranged σ rfl
      have hgoes : ∀ σ', σ.step P e = some σ' → Goes stack P m OP I σ e σ' := fun _ hr =>
        harranged.step himage (h.kept σ rfl) ha hl hr
      refine ⟨⟨fun σ' hr => (hgoes σ' hr).arranged, fun σ' hr => (hgoes σ' hr).kept⟩, ?_⟩
      rintro _ σ' ⟨⟩ hr
      exact (hgoes σ' hr).isolates

/-- A step that keeps the image leaves read-only pages as they are. -/
theorem Steady.leaves {o : Option Sharers} {e : SharerEvent} (h : Steady stack P m OP I o)
    (ha : Sharers.Admitted stack P o e) (hk : ∀ σ ∈ Sharers.next P o e, σ.Kept m P) :
    Sharers.Leaves o e := by
  cases o with
  | none =>
      cases e with
      | access i addr a task words =>
          obtain ⟨_ | _, _ | _⟩ := a
          · trivial
          · exact fun σ hσ => by cases hσ
          · trivial
          · trivial
      | _ => trivial
  | some σ =>
      obtain ⟨Os, harranged⟩ := h.arranged σ rfl
      by_contra hl
      obtain ⟨σ', hr, hbroken⟩ := harranged.breaks (h.kept σ rfl) ha hl
      exact hbroken (hk σ' hr)

/-- **What tasks that run one image see.**  The frames of the image stay as `LoadApp` kept them exactly
as long as the kernel writes nothing new to a page that is mapped read-only for a task; and as
long as it does not, no task sees what happens to another, and each that is started sees the
image. -/
theorem image_kept_iff (hload : Loaded stack P m) {es : List SharerEvent}
    (hbase : Guarded (Sharers.next P) (Sharers.Admitted stack P) (some (.boot m)) es) :
    ((∀ es', es' <+: es → ∀ σ ∈ run (Sharers.next P) (some (.boot m)) es', σ.Kept m P) ↔
      Guarded (Sharers.next P) Sharers.Leaves (some (.boot m)) es) ∧
    (Guarded (Sharers.next P) Sharers.Leaves (some (.boot m)) es →
      ∀ es' e σ σ', es' ++ [e] <+: es → run (Sharers.next P) (some (.boot m)) es' = some σ →
        σ.step P e = some σ' → σ.Isolates m P e σ') := by
  obtain ⟨OP, I, hboot⟩ := arranged_boot hload
  have himage := hload.image
  have hsteady : Steady stack P m OP I (some (.boot m)) := by
    constructor
    · rintro _ ⟨⟩
      exact ⟨_, hboot⟩
    · rintro _ ⟨⟩ f _
      rfl
  constructor
  · refine admitted_prefix_iff (fun o => ∀ σ ∈ o, ∃ Os, Arranged stack P m OP I Os σ)
      (fun o => ∀ σ ∈ o, σ.Kept m P) (fun o e hj hk ha hk' => ?_) (fun o e hj hk ha => ?_)
      hsteady.arranged hsteady.kept hbase
    · have h : Steady stack P m OP I o := ⟨hj, hk⟩
      exact (h.step himage ha (h.leaves ha hk')).1.arranged
    · have h : Steady stack P m OP I o := ⟨hj, hk⟩
      exact ⟨h.leaves ha, fun hl => (h.step himage ha hl).1.kept⟩
  · rintro hg es' e σ σ' ⟨rest, rfl⟩ hrun hr
    rw [List.append_assoc] at hbase hg
    obtain ⟨hbase', hbaseNext⟩ := guarded_append.mp hbase
    obtain ⟨hg', hgNext⟩ := guarded_append.mp hg
    have h := inv_run (Steady stack P m OP I) (fun o e h hok => (h.step himage hok.1 hok.2).1)
      hsteady (guarded_and.mpr ⟨hbase', hg'⟩)
    exact (h.step himage hbaseNext.1 hgNext.1).2 σ σ' hrun hr

/-! ## Two tasks -/

/-- A task of an image is started, an access to its first page writes there, and another is
started. -/
def twoTasks (user : Bool) : List SharerEvent :=
  [.start 0, .access 0 kUpperBegin ⟨user, true⟩ noTask fun _ => ⟨false, false, false, false, 0, 1⟩,
    .start 1]

/-- An access starts no task. -/
theorem root_access {o : Option Sharers} (hr : σ ∈ Sharers.next P o (.access i addr a task words)) :
    ∃ σ₀ ∈ o, σ.root = σ₀.root := by
  obtain ⟨σ₀, ho, hr⟩ := Option.bind_eq_some_iff.mp hr
  obtain ⟨T, -, hr⟩ := Option.bind_eq_some_iff.mp hr
  obtain ⟨s, -, rfl⟩ := Option.map_eq_some_iff.mp hr
  exact ⟨σ₀, ho, rfl⟩

theorem twoTasks_admitted (stack P : Nat) (m : Machine) (user : Bool) :
    Guarded (Sharers.next P) (Sharers.Admitted stack P) (some (.boot m)) (twoTasks user) := by
  refine ⟨fun σ hσ => ?_, kUpperBegin_upper, fun σ hσ => ?_, trivial⟩
  · rw [← Option.mem_some_iff.mp hσ]
    rfl
  · obtain ⟨σ₀, hσ₀, hroot⟩ := root_access hσ
    have hstarted : ⟨(m.loadKept P).1,
        Function.update (fun _ => none) 0 (m.loadKept P).2.toOption⟩ = σ₀ := Option.some.inj hσ₀
    rw [hroot, ← hstarted]
    exact Function.update_of_ne Nat.one_ne_zero (m.loadKept P).2.toOption fun _ => none

/-- The program writes to a copy. -/
theorem image_kept_two : (run (Sharers.next 2) (some (.boot smallImage)) (twoTasks true)).isSome ∧
    ∀ σ ∈ run (Sharers.next 2) (some (.boot smallImage)) (twoTasks true), σ.Kept smallImage 2 := by
  refine ⟨by decide +kernel, ?_⟩
  have h := (image_kept_iff smallImage_loaded (twoTasks_admitted _ 2 smallImage true)).1
  exact h.mpr ⟨trivial, trivial, trivial, trivial⟩ _ (List.prefix_refl _)

/-- The kernel writes to the image, and the other task sees it. -/
theorem image_written : Loaded 0xfffffffffffef 2 smallImage ∧
    Guarded (Sharers.next 2) (Sharers.Admitted 0xfffffffffffef 2) (some (.boot smallImage))
      (twoTasks false) ∧
    ∃ σ, run (Sharers.next 2) (some (.boot smallImage)) (twoTasks false) = some σ ∧
      smallImage.FrameOf 2 6 ∧ σ.machine.mem 6 0 ≠ smallImage.mem 6 0 ∧ σ.root 1 = some 11 ∧
      σ.machine.page 11 kUpperBegin ≠ smallImage.page 2 kUpperBegin := by
  have hleaf : (smallImage.leaf 2 kUpperBegin).map PageMapEntry.addr = some 6 := by decide +kernel
  obtain ⟨e, he, haddr⟩ := Option.map_eq_some_iff.mp hleaf
  have hrun : (run (Sharers.next 2) (some (.boot smallImage)) (twoTasks false)).map
      (fun σ => (decide (σ.machine.mem 6 0 ≠ smallImage.mem 6 0), σ.root 1,
        (σ.machine.page 11 kUpperBegin).map (· 0) == (smallImage.page 2 kUpperBegin).map (· 0))) =
      some (true, some 11, false) := by decide +kernel
  obtain ⟨σ, hσ, heq⟩ := Option.map_eq_some_iff.mp hrun
  obtain ⟨hmem, heq⟩ := Prod.mk.inj heq
  obtain ⟨hroot, hpage⟩ := Prod.mk.inj heq
  refine ⟨smallImage_loaded, twoTasks_admitted _ 2 smallImage false, σ, hσ, .inr ⟨_, _, e, he, haddr⟩,
    of_decide_eq_true hmem, hroot, fun hsame => ?_⟩
  rw [hsame, beq_self_eq_true] at hpage
  cases hpage

end Laplus.Paging
