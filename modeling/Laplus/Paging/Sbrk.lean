/-
# `Laplus.Paging.Sbrk` — the heap of an application (`newlib_support.c` of the applications)

`sbrk` asks `DemandPages` for pages when the last ones that it got are used up, and goes up in them
by itself.  It does not see what the application asks for elsewhere: the pages of two calls need
not be next to each other, and it begins anew in the pages that it gets.

The break and the end of the pages are a reserve in the demand region of the task, so that what is
returned is nobody else's (`sbrk_apart`).
-/
import Laplus.Lib.Reserve
import Laplus.Paging.Regions

namespace Laplus.Paging

open Lib

/-! ## The source -/

/-- An integer in a register. -/
def toUint64 (x : Int) : Nat := (x % 2 ^ 64).toNat

/-- `SyscallResult`. -/
structure SyscallResult where
  value : Nat
  error : Int

/-- `SYSCALL(DemandPages)`; it does not fail. -/
def App.syscallDemandPages (s : App) (numPages : Nat) : App × SyscallResult :=
  let r := s.demandPages numPages
  (r.1, ⟨r.2, 0⟩)

/-- The static variables of `sbrk`. -/
structure SbrkVars where
  dpageEnd : Nat
  programBreak : Nat

/-- `num_pages`. -/
def sbrkPages (incr : Int) : Int := (incr + 4095).tdiv 4096

namespace SbrkVars

variable (b : SbrkVars) (app : App) (incr : Int)

/-- The pages are used up. -/
def Short : Prop := b.dpageEnd = 0 ∨ b.dpageEnd < (b.programBreak + toUint64 incr) % 2 ^ 64

instance : Decidable (b.Short incr) := inferInstanceAs (Decidable (_ ∨ _))

/-- Pages are asked for. -/
def refill : App × Option SbrkVars :=
  let (app, res) := app.syscallDemandPages (toUint64 (sbrkPages incr))
  if res.error ≠ 0 then (app, none)
  else (app, some ⟨(res.value + toUint64 (4096 * sbrkPages incr)) % 2 ^ 64, res.value⟩)

/-- `sbrk`; without an address it is `ENOMEM`. -/
def sbrk : App × SbrkVars × Option Nat :=
  match if b.Short incr then refill app incr else (app, some b) with
  | (app, none) => (app, b, none)
  | (app, some b) =>
      (app, { b with programBreak := (b.programBreak + toUint64 incr) % 2 ^ 64 },
        some b.programBreak)

end SbrkVars

/-- A call of the application: of `sbrk`, or a system call elsewhere. -/
inductive HeapCall where
  | sbrk (incr : Int)
  | other (c : AppCall)

def HeapCall.isSbrk : HeapCall → Bool
  | .sbrk _ => true
  | .other _ => false

/-- The application, the blocks that `sbrk` has returned, and what others were handed. -/
structure Process where
  app : App
  vars : SbrkVars
  blocks : List (Nat × Nat)
  others : List Handed

namespace Process

/-- The application is started. -/
def start (vaddrEnd : Nat) (files : List (Option FileDescriptor)) : Process :=
  ⟨.start vaddrEnd files, ⟨0, 0⟩, [], []⟩

def step (s : Process) : HeapCall → Process
  | .sbrk incr =>
      let (app, vars, p) := s.vars.sbrk s.app incr
      match p with
      | none => { s with app, vars }
      | some p => { s with app, vars, blocks := (p, p + toUint64 incr) :: s.blocks }
  | .other c =>
      let sys := (⟨s.app, s.others⟩ : AppSystem).step c
      { s with app := sys.app, others := sys.handed }

/-- The blocks that others got by `DemandPages`. -/
def granted (s : Process) : List (Nat × Nat) :=
  s.others.filterMap fun h =>
    match h.fd with
    | none => some (h.start, h.start + h.size)
    | some _ => none

end Process

/-! ## The reserve -/

/-- `sbrk` is given what it may be, and no address wraps around. -/
def Process.NoWrap (s : Process) : HeapCall → Prop
  | .sbrk incr => (0 ≤ incr ∧ incr ≤ 2 ^ 30) ∧ s.vars.programBreak + toUint64 incr < 2 ^ 64 ∧
      (s.vars.Short incr → s.app.dpagingEnd + 4096 * toUint64 (sbrkPages incr) < 2 ^ 64)
  | .other (.demandPages numPages) => s.app.dpagingEnd + 4096 * numPages < 2 ^ 64
  | .other _ => True

/-- What `sbrk` may still return is nobody's. -/
structure Process.Reserved (s : Process) : Prop where
  reserve : Reserve s.app.dpagingBegin s.app.dpagingEnd s.vars.programBreak s.vars.dpageEnd
    (s.blocks ++ s.granted)
  begun : s.vars.dpageEnd ≠ 0 → s.app.dpagingBegin ≤ s.vars.programBreak

theorem toUint64_of_nonneg {x : Int} (h0 : 0 ≤ x) (h : x < 2 ^ 64) : (toUint64 x : Int) = x := by
  rw [toUint64, Int.emod_eq_of_lt h0 h]
  exact Int.toNat_of_nonneg h0

/-- The pages have room for what is asked for. -/
theorem sbrkPages_room {incr : Int} (h0 : 0 ≤ incr) (h : incr ≤ 2 ^ 30) :
    toUint64 incr ≤ 4096 * toUint64 (sbrkPages incr) ∧
      toUint64 (4096 * sbrkPages incr) = 4096 * toUint64 (sbrkPages incr) := by
  have hdiv : sbrkPages incr = (incr + 4095) / 4096 := Int.tdiv_eq_ediv_of_nonneg (by omega)
  have hincr := toUint64_of_nonneg h0 (by omega)
  have hpages : (toUint64 (sbrkPages incr) : Int) = sbrkPages incr :=
    toUint64_of_nonneg (by omega) (by omega)
  have hbytes : (toUint64 (4096 * sbrkPages incr) : Int) = 4096 * sbrkPages incr :=
    toUint64_of_nonneg (by omega) (by omega)
  omega

variable {s : Process} {incr : Int}

/-- A file may be mapped; that is below the stack. -/
theorem granted_mapFile (s : Process) (fd : Int) :
    (s.step (.other (.mapFile fd))).granted = s.granted ∧
      (s.step (.other (.mapFile fd))).app.dpagingBegin = s.app.dpagingBegin ∧
      (s.step (.other (.mapFile fd))).app.dpagingEnd = s.app.dpagingEnd := by
  by_cases hfile : 0 ≤ fd ∧ s.app.file fd.toNat ≠ none
  · obtain ⟨hfd, hfile⟩ := hfile
    obtain ⟨d, hd⟩ := Option.ne_none_iff_exists'.mp hfile
    obtain ⟨vaddrBegin, hbegin⟩ : ∃ vaddrBegin,
        (s.app.fileMapEnd + 2 ^ 64 - d.size) % 2 ^ 64 / 4096 * 4096 = vaddrBegin := ⟨_, rfl⟩
    have hsys := AppSystem.step_mapFile (s := ⟨s.app, s.others⟩) hfd hd hbegin
    simp only [Process.granted, Process.step, hsys]
    exact ⟨rfl, rfl, rfl⟩
  · have hsys := AppSystem.step_mapFile_bad (s := ⟨s.app, s.others⟩) hfile
    simp only [Process.granted, Process.step, hsys, and_self]

/-- **A system call elsewhere** moves the end of the region at most, for its own block. -/
theorem Process.Reserved.other (h : s.Reserved) {c : AppCall} (hc : s.NoWrap (.other c)) :
    (s.step (.other c)).Reserved := by
  cases c with
  | setFile fd d => exact ⟨h.reserve, h.begun⟩
  | mapFile fd =>
      obtain ⟨hgranted, hbegin, hend⟩ := granted_mapFile s fd
      constructor
      · rw [hgranted, hbegin, hend]
        exact h.reserve
      · rw [hbegin]
        exact h.begun
  | demandPages numPages =>
      have hend : (s.step (.other (.demandPages numPages))).app.dpagingEnd =
          s.app.dpagingEnd + 4096 * numPages := Nat.mod_eq_of_lt hc
      have hgrant := h.reserve.grant (Nat.le_add_right s.app.dpagingEnd (4096 * numPages))
      refine ⟨?_, h.begun⟩
      rw [hend]
      exact hgrant.perm List.perm_middle.symm

/-- There are pages for the block, which begins at the break. -/
structure SbrkVars.Ready (b : SbrkVars) (app : App) (incr : Int) (out : List (Nat × Nat)) :
    Prop where
  reserve : Reserve app.dpagingBegin app.dpagingEnd b.programBreak b.dpageEnd out
  begun : app.dpagingBegin ≤ b.programBreak
  room : b.programBreak + toUint64 incr ≤ b.dpageEnd
  noWrap : b.programBreak + toUint64 incr < 2 ^ 64

/-- **New pages** are above all others. -/
theorem Process.Reserved.refill (h : s.Reserved) (hc : s.NoWrap (.sbrk incr))
    (hshort : s.vars.Short incr) : ∃ app b, SbrkVars.refill s.app incr = (app, some b) ∧
      b.Ready app incr (s.blocks ++ s.granted) := by
  obtain ⟨⟨h0, hincr⟩, -, hwrap⟩ := hc
  obtain ⟨hroom, hbytes⟩ := sbrkPages_room h0 hincr
  have hwrap := hwrap hshort
  have hmod := Nat.mod_eq_of_lt hwrap
  have hrefill : SbrkVars.refill s.app incr = ((s.app.demandPages (toUint64 (sbrkPages incr))).1,
      some ⟨s.app.dpagingEnd + 4096 * toUint64 (sbrkPages incr), s.app.dpagingEnd⟩) := by
    have hend : (s.app.dpagingEnd + toUint64 (4096 * sbrkPages incr)) % 2 ^ 64 =
        s.app.dpagingEnd + 4096 * toUint64 (sbrkPages incr) := by rw [hbytes, hmod]
    exact congrArg (fun dpageEnd => (_, some (⟨dpageEnd, _⟩ : SbrkVars))) hend
  refine ⟨_, _, hrefill, ?_⟩
  constructor
  case reserve =>
    have hend : (s.app.demandPages (toUint64 (sbrkPages incr))).1.dpagingEnd =
        s.app.dpagingEnd + 4096 * toUint64 (sbrkPages incr) := hmod
    rw [hend]
    exact h.reserve.renew (Nat.le_add_right _ _)
  case begun => exact h.reserve.lower
  case room => exact Nat.add_le_add_left hroom _
  case noWrap => exact (Nat.add_le_add_left hroom _).trans_lt hwrap

/-- **`sbrk` returns a block** of what it has in reserve. -/
theorem Process.Reserved.ready (h : s.Reserved) (hc : s.NoWrap (.sbrk incr)) :
    ∃ app b, (if s.vars.Short incr then SbrkVars.refill s.app incr else (s.app, some s.vars)) =
      (app, some b) ∧ b.Ready app incr (s.blocks ++ s.granted) := by
  split
  next hshort => exact h.refill hc hshort
  next hshort =>
    obtain ⟨-, hwrap, -⟩ := hc
    obtain ⟨hne, hle⟩ := not_or.mp hshort
    rw [Nat.mod_eq_of_lt hwrap, Nat.not_lt] at hle
    exact ⟨_, _, rfl, h.reserve, h.begun hne, hle, hwrap⟩

/-- **A call of `sbrk`** takes its block off the reserve. -/
theorem Process.Reserved.sbrk (h : s.Reserved) (hc : s.NoWrap (.sbrk incr)) :
    (s.step (.sbrk incr)).Reserved := by
  obtain ⟨app, b, hready, hb⟩ := h.ready hc
  have hmod := Nat.mod_eq_of_lt hb.noWrap
  have hcall : s.vars.sbrk s.app incr =
      (app, ⟨b.dpageEnd, b.programBreak + toUint64 incr⟩, some b.programBreak) := by
    simp only [SbrkVars.sbrk, hready, hmod]
  have hstep : s.step (.sbrk incr) = ⟨app, ⟨b.dpageEnd, b.programBreak + toUint64 incr⟩,
      (b.programBreak, b.programBreak + toUint64 incr) :: s.blocks, s.others⟩ := by
    simp only [Process.step, hcall]
  have hle : b.programBreak ≤ b.programBreak + toUint64 incr := Nat.le_add_right _ _
  rw [hstep]
  exact ⟨hb.reserve.cut hb.begun hle hb.room, fun _ => hb.begun.trans hle⟩

theorem Process.Reserved.step (h : s.Reserved) {c : HeapCall} (hc : s.NoWrap c) :
    (s.step c).Reserved := by
  cases c with
  | sbrk incr => exact h.sbrk hc
  | other c => exact h.other hc

theorem reserved_start (vaddrEnd : Nat) (files : List (Option FileDescriptor)) :
    (Process.start vaddrEnd files).Reserved where
  reserve := reserve_nil (le_refl _) (le_refl 0) (Nat.zero_le _)
  begun h := absurd rfl h

/-- The blocks from `sbrk` are apart from one another and from what the others got, and in the
demand region. -/
structure Process.HeapApart (s : Process) : Prop where
  blocks : s.blocks.Pairwise fun x y => Disjoint (Set.Ico x.1 x.2) (Set.Ico y.1 y.2)
  others : ∀ x ∈ s.blocks, ∀ y ∈ s.granted, Disjoint (Set.Ico x.1 x.2) (Set.Ico y.1 y.2)
  inside : ∀ x ∈ s.blocks, s.app.dpagingBegin ≤ x.1 ∧ x.2 ≤ s.app.dpagingEnd

theorem Process.Reserved.heapApart (h : s.Reserved) : s.HeapApart := by
  obtain ⟨hblocks, -, hothers⟩ := List.pairwise_append.mp h.reserve.apart
  exact ⟨hblocks.imp Off.disjoint, fun x hx y hy => (hothers x hx y hy).disjoint,
    fun x hx => h.reserve.inside x (List.mem_append_left _ hx)⟩

/-- No call fails. -/
theorem SbrkVars.sbrk_returns (b : SbrkVars) (app : App) (incr : Int) :
    ∃ app' b' p, b.sbrk app incr = (app', b', some p) := by
  have hpages : ∃ app' b', (if b.Short incr then refill app incr else (app, some b)) =
      (app', some b') := by
    split
    next => exact ⟨_, _, rfl⟩
    next => exact ⟨_, _, rfl⟩
  obtain ⟨app', b', hpages⟩ := hpages
  simp only [sbrk, hpages]
  exact ⟨_, _, _, rfl⟩

theorem length_blocks (s : Process) (cs : List HeapCall) :
    (run Process.step s cs).blocks.length = s.blocks.length + cs.countP HeapCall.isSbrk := by
  induction cs generalizing s with
  | nil => rfl
  | cons c cs ih =>
      rw [run_cons, ih]
      cases c with
      | other c => exact congrArg _ (List.countP_cons_of_neg Bool.false_ne_true).symm
      | sbrk incr =>
          obtain ⟨app, b, p, hcall⟩ := s.vars.sbrk_returns s.app incr
          have hstep : (s.step (.sbrk incr)).blocks.length = s.blocks.length + 1 := by
            simp only [Process.step, hcall, List.length_cons]
          rw [hstep, List.countP_cons_of_pos rfl]
          omega

/-- **The heap of an application.**  However its calls of `sbrk` and its other system calls follow
one another, each of the former returns a block, and at its return the blocks are apart and in the demand
region. -/
theorem sbrk_apart (vaddrEnd : Nat) (files : List (Option FileDescriptor)) {cs : List HeapCall}
    (hg : Guarded Process.step Process.NoWrap (.start vaddrEnd files) cs) :
    (run Process.step (.start vaddrEnd files) cs).blocks.length = cs.countP HeapCall.isSbrk ∧
      (run Process.step (.start vaddrEnd files) cs).HeapApart := by
  have hreserved := inv_run Process.Reserved (fun _ _ h hc => h.step hc)
    (reserved_start vaddrEnd files) hg
  exact ⟨(length_blocks _ cs).trans (Nat.zero_add _), hreserved.heapApart⟩

instance (s : Process) (c : HeapCall) : Decidable (s.NoWrap c) :=
  match c with
  | .sbrk _ => inferInstanceAs (Decidable (_ ∧ _ ∧ (_ → _)))
  | .other (.demandPages _) => inferInstanceAs (Decidable (_ < _))
  | .other (.mapFile _) => .isTrue trivial
  | .other (.setFile _ _) => .isTrue trivial

/-- The application asks for a page between two calls; the second does not go on from the first. -/
theorem sbrk_apart_between :
    ∃ s, run Process.step (.start 0xffff800000000000 []) [.sbrk 100, .other (.demandPages 1),
      .sbrk 5000, .sbrk 8] = s ∧ s.blocks.length = 3 ∧ s.HeapApart :=
  ⟨_, rfl, sbrk_apart 0xffff800000000000 [] (by decide +kernel)⟩

end Laplus.Paging
