/-
# `Laplus.Terminal.Shell` — the steps of `ExecuteFile` (`terminal.cpp`)

`LoadApp` makes a map for the task, and one more for an image that is not kept yet; `ExecuteFile`
adds pages for the arguments and the stack, runs the program, and takes the map down.

A step works on the machine and on what the shell knows.  One that fails keeps what it has done.
-/
import Laplus.Lib.Routine
import Laplus.Paging.Account
import Laplus.Paging.Regions
import Laplus.Terminal.Argv
import Laplus.Terminal.LoadElf

namespace Laplus.Terminal

open Lib Paging

/-! ## The source -/

/-- The errors of `ExecuteFile`. -/
inductive ExecuteError where
  | paging (e : Error)
  | kInvalidFile
  | kFull
deriving DecidableEq

/-- `AppLoadInfo`. -/
structure AppLoadInfo where
  vaddrEnd : Nat
  entry : Nat
  pml4 : Nat

/-- The machine; the task that runs the shell, with the `cr3` of its context and the fields for the
program; and `app_loads`. -/
structure Shell where
  machine : Machine
  contextCr3 : Nat
  app : App
  appLoads : Nat → Option AppLoadInfo

/-- A step of `ExecuteFile`. -/
abbrev Step (α : Type) := Routine Shell ExecuteError α

/-- `args_frame_addr`. -/
def argsFrameAddr : Nat := 0xfffffffffffff000

/-- `argv` and its strings are written to their page. -/
def writeArgs (s : Machine) (v : ArgVector) : Option Machine := do
  let argbuf := argsFrameAddr + 8 * 32
  let s ← s.storeBytes argsFrameAddr
    (fun k => UInt8.ofNat ((argbuf + v.argv (k / 8)) / 256 ^ (k % 8))) (8 * v.argc)
  s.storeBytes argbuf v.argbuf v.argbufIndex

/-- What the program does until it ends or is killed: it accesses memory, or the kernel does for it,
or it makes a system call. -/
inductive AppEvent where
  | access (addr : Nat) (a : Access) (words : Fin 512 → PageMapEntry)
  | call (c : AppCall)

namespace Step

/-- A call on the machine. -/
def machine {α : Type} (f : Machine → Machine × Except Error α) : Step α := .of fun σ =>
  let r := f σ.machine
  some (r.2.mapError .paging, { σ with machine := r.1 })

/-- `SetupPML4`. -/
def setupPML4 : Step Nat := do
  let pml4 ← machine Machine.setupPML4
  modify fun σ => { σ with contextCr3 := pml4 }
  return pml4

/-- `LoadELF`. -/
def loadELF (file : FileBuf) : Step Nat := .of fun σ =>
  let l := Terminal.loadELF σ.machine file
  match l.status with
  | .running lastAddr => some (.ok lastAddr, { σ with machine := l.machine })
  | .failed e => some (.error (.paging e), { σ with machine := l.machine })
  | .fault => none

/-- The magic bytes of an ELF file. -/
def checkIdent (file : FileBuf) : Step Unit :=
  if (List.range 4).map file.heap ≠ [0x7f, 0x45, 0x4c, 0x46] then throw .kInvalidFile
  else pure ()

/-- `LoadApp`, for an image that is kept. -/
def loadKept (info : AppLoadInfo) (pml4 : Nat) : Step AppLoadInfo := do
  machine fun s => s.copyPageMaps 4 pml4 info.pml4 256
  return { info with pml4 }

/-- `LoadApp`, for a file that is new. -/
def loadNew (entry : Nat) (file : FileBuf) (tempPML4 : Nat) : Step AppLoadInfo := do
  checkIdent file
  let lastAddr ← loadELF file
  let info : AppLoadInfo := ⟨lastAddr, file.ehdr.eEntry, tempPML4⟩
  modify fun σ => { σ with appLoads := Function.update σ.appLoads entry (some info) }
  let pml4 ← setupPML4
  loadKept info pml4

/-- `LoadApp`, of the directory entry with this address. -/
def loadApp (entry : Nat) (file : FileBuf) : Step AppLoadInfo := do
  let tempPML4 ← setupPML4
  let σ ← get
  match σ.appLoads entry with
  | some info => loadKept info tempPML4
  | none => loadNew entry file tempPML4

/-- `MakeArgVector`; the loop pushes an argument in every round, so that 33 rounds are all.  There is
no outcome for strings that go over the end of the page. -/
def makeArgVector (command text : List UInt8) (firstArg : Bool) : Step Nat := .of fun σ =>
  match rounds (ArgVector.argRound 32 (4096 - 8 * 32) command firstArg) 33
      (none, .start (fun _ => 0) (fun _ => 0) text) with
  | .done (err, v) => (writeArgs σ.machine v).map fun machine =>
      (match err with
        | none => .ok v.argc
        | some .kFull => .error .kFull, { σ with machine })
  | _ => none

/-- The fields for the program that `ExecuteFile` sets. -/
def startApp (info : AppLoadInfo) (files : List (Option FileDescriptor)) : Step Unit :=
  let elfNextPage := (info.vaddrEnd + 4095) % 2 ^ 64 / 4096 * 4096
  modify fun σ => { σ with app := { σ.app with
    elfNextPage
    dpagingBegin := elfNextPage
    dpagingEnd := elfNextPage
    fileMapEnd := stackFrameAddr
    files := σ.app.files ++ files } }

/-- The pages for the arguments and the stack. -/
def addPages (info : AppLoadInfo) (command text : List UInt8) (firstArg : Bool)
    (files : List (Option FileDescriptor)) : Step Unit := do
  machine fun s => s.setupPageMaps argsFrameAddr 1 true
  let _argc ← makeArgVector command text firstArg
  machine fun s => s.setupPageMaps stackFrameAddr 16 true
  startApp info files

/-- `ExecuteFile`, up to the run of the program. -/
def prepare (entry : Nat) (file : FileBuf) (command text : List UInt8) (firstArg : Bool)
    (files : List (Option FileDescriptor)) : Step Unit := do
  let info ← loadApp entry file
  addPages info command text firstArg files

/-- The program goes on. -/
def goOn : AppEvent → Step Unit
  | .access addr a words => .of fun σ =>
      (σ.machine.access addr a σ.app.task words).map fun machine => (.ok (), { σ with machine })
  | .call c => modify fun σ => { σ with app := (AppSystem.step ⟨σ.app, []⟩ c).app }

/-- `CallApp`. -/
def callApp (events : List AppEvent) : Step Unit := forM events goOn

/-- `CleanPageMaps`. -/
def cleanPageMaps (addr : Nat) : Step Unit :=
  modify fun σ => { σ with machine := (σ.machine.cleanPageMaps addr).1 }

/-- `FreePML4`. -/
def freePML4 (pml4Table : Nat) : Step Unit :=
  modify fun σ => { σ with
    machine := (σ.machine.setCR3 pml4Table).free σ.contextCr3
    contextCr3 := 0 }

/-- `ExecuteFile`, after the run of the program. -/
def finish (pml4Table : Nat) : Step Unit := do
  modify fun σ => { σ with app := { σ.app with files := [], fileMaps := [] } }
  cleanPageMaps kUpperBegin
  freePML4 pml4Table

/-- `ExecuteFile`; the kernel's own map is `pml4Table`. -/
def executeFile (pml4Table entry : Nat) (file : FileBuf) (command text : List UInt8)
    (firstArg : Bool) (files : List (Option FileDescriptor)) (events : List AppEvent) :
    Step Unit := do
  prepare entry file command text firstArg files
  callApp events
  finish pml4Table

end Step

variable {T P n addr : Nat} {s s' m : Machine} {file : FileBuf} {l : Loader} {v v' : ArgVector}

/-! ## Writes of the kernel -/

/-- A page of the upper half is written to. -/
def Writes (s s' : Machine) : Prop :=
  ∃ addr t words, Upper addr ∧ translate s.mem s.cr3 (path addr) = some t ∧ s' = s.fill t.frame words

theorem storeBytes_onward {bytes : Nat → UInt8} {len : Nat}
    (hr : s.storeBytes addr bytes len = some s') : Onward s s' := by
  induction len generalizing s' with
  | zero =>
      cases hr
      exact .refl s
  | succ len ih =>
      obtain ⟨s₁, h₁, h₂⟩ := Option.bind_eq_some_iff.mp hr
      obtain ⟨t, -, rfl⟩ := Option.map_eq_some_iff.mp h₂
      exact (ih h₁).store _ _ _

theorem storeBytes_writes {bytes : Nat → UInt8} {len : Nat}
    (haddr : ∀ k < len, Upper ((addr + k) % 2 ^ 64))
    (hr : s.storeBytes addr bytes len = some s') : Relation.ReflTransGen Writes s s' := by
  induction len generalizing s' with
  | zero =>
      cases hr
      exact .refl
  | succ len ih =>
      obtain ⟨s₁, h₁, h₂⟩ := Option.bind_eq_some_iff.mp hr
      obtain ⟨t, ht, rfl⟩ := Option.map_eq_some_iff.mp h₂
      refine (ih (fun k hk => haddr k (Nat.lt_succ_of_lt hk)) h₁).tail ?_
      exact ⟨_, t, _, haddr len (Nat.lt_succ_self len), ht, rfl⟩

theorem Writes.imageStep {stack : Nat} (h : Writes s s') : ImageStep stack s s' := by
  obtain ⟨addr, t, words, haddr, ht, rfl⟩ := h
  exact .write words haddr ht

theorem served_of_writes {stack : Nat} (h : Served stack m s T P)
    (hr : Relation.ReflTransGen Writes s s') : Served stack m s' T P := by
  induction hr with
  | refl => exact h
  | tail _ hw ih =>
      obtain ⟨addr, t, words, haddr, ht, rfl⟩ := hw
      exact ih.fill haddr ht words

/-! ## `LoadELF` -/

/-- The first page of the stack. -/
def stackPage : Nat := stackFrameAddr / 4096

/-- The segments of the file lie in the upper half, below the stack, and take no less memory than
they have bytes. -/
def FileBuf.Placed (file : FileBuf) : Prop :=
  ∀ i < file.ehdr.ePhnum, (file.phdr i).pType = ptLoad →
    kUpperBegin ≤ (file.phdr i).pVaddr ∧ (file.phdr i).pFilesz ≤ (file.phdr i).pMemsz ∧
      (file.phdr i).pVaddr + (file.phdr i).pMemsz ≤ stackFrameAddr

namespace Loader

theorem writeSegment_onward (file : FileBuf) (l : Loader) (ph : Elf64Phdr)
    (fillAddr fillSize last : Nat) :
    Onward l.machine (writeSegment file l ph fillAddr fillSize last).machine := by
  rw [writeSegment]
  dsimp only
  cases h₁ : l.machine.storeBytes ph.pVaddr (fun k => file.heap ((ph.pOffset + k) % 2 ^ 64))
      ph.pFilesz with
  | none => exact .refl _
  | some s =>
      dsimp only
      cases h₂ : s.storeBytes fillAddr (fun _ => 0) fillSize with
      | none => exact .refl _
      | some s' => exact (storeBytes_onward h₁).trans (storeBytes_onward h₂)

theorem copyLoadSegment_onward (file : FileBuf) (l : Loader) (i : Nat) :
    Onward l.machine (copyLoadSegment file l i).machine := by
  cases hstatus : l.status with
  | failed e =>
      simp only [copyLoadSegment, hstatus]
      exact .refl _
  | fault =>
      simp only [copyLoadSegment, hstatus]
      exact .refl _
  | running last =>
      by_cases hload : (file.phdr i).pType = ptLoad
      · have hsetup := setupPageMaps_onward l.machine (file.phdr i).pVaddr (file.phdr i).num4kPages
          false
        cases hr : l.machine.setupPageMaps (file.phdr i).pVaddr (file.phdr i).num4kPages false with
        | mk s r =>
            rw [hr] at hsetup
            cases r with
            | error e =>
                rw [copyLoadSegment_error hstatus hload hr]
                exact hsetup
            | ok u =>
                rw [copyLoadSegment_ok hstatus hload hr]
                have hsetup : Onward l.machine s := hsetup
                exact hsetup.trans (writeSegment_onward file ⟨s, _, _⟩ _ _ _ _)
      · rw [copyLoadSegment_skip hstatus hload]
        exact .refl _

theorem run_onward (file : FileBuf) (l : Loader) (is : List Nat) :
    Onward l.machine (run (copyLoadSegment file) l is).machine := by
  induction is generalizing l with
  | nil => exact .refl _
  | cons i is ih => exact (copyLoadSegment_onward file l i).trans (ih _)

/-- The two writes to a segment. -/
theorem writeSegment_writes {ph : Elf64Phdr} {fillAddr fillSize : Nat} (file : FileBuf)
    (l : Loader) (last : Nat) (hge : kUpperBegin ≤ ph.pVaddr) (hsize : ph.pFilesz ≤ ph.pMemsz)
    (hend : ph.pVaddr + ph.pMemsz < 2 ^ 64) (hfillAddr : fillAddr = ph.pVaddr + ph.pFilesz)
    (hfillSize : fillSize = ph.pMemsz - ph.pFilesz) :
    Relation.ReflTransGen Writes l.machine
      (writeSegment file l ph fillAddr fillSize last).machine := by
  have hupper : ∀ k < ph.pMemsz, Upper ((ph.pVaddr + k) % 2 ^ 64) := fun k hk => by
    rw [Nat.mod_eq_of_lt (by omega)]
    exact ⟨hge.trans (Nat.le_add_right _ _), by omega⟩
  rw [writeSegment]
  dsimp only
  cases h₁ : l.machine.storeBytes ph.pVaddr (fun k => file.heap ((ph.pOffset + k) % 2 ^ 64))
      ph.pFilesz with
  | none => exact .refl
  | some s =>
      dsimp only
      cases h₂ : s.storeBytes fillAddr (fun _ => 0) fillSize with
      | none => exact .refl
      | some s' =>
          refine (storeBytes_writes (fun k hk => hupper k (by omega)) h₁).trans
            (storeBytes_writes (fun k hk => ?_) h₂)
          rw [hfillAddr, Nat.add_assoc]
          exact hupper _ (by omega)

/-- The pages of a segment that ends below the stack. -/
theorem pages_below {ph : Elf64Phdr} (hend : ph.pVaddr + ph.pMemsz ≤ stackFrameAddr) :
    ph.pVaddr / 4096 + ph.num4kPages ≤ stackPage := by
  rw [stackFrameAddr_eq] at hend
  rw [stackPage, stackFrameAddr_eq, Elf64Phdr.num4kPages]
  omega

/-- A header that the loop goes on behind. -/
theorem copyLoadSegment_steps {i last : Nat} (hfile : file.Placed) (hi : i < file.ehdr.ePhnum)
    (hok : (copyLoadSegment file l i).status = .running last) :
    Relation.ReflTransGen (ImageStep stackPage) l.machine (copyLoadSegment file l i).machine := by
  obtain ⟨⟨last', hstatus⟩, -, -⟩ := copyLoadSegment_done hok
  by_cases hload : (file.phdr i).pType = ptLoad
  · obtain ⟨hge, hsize, hend⟩ := hfile i hi hload
    have hbelow := pages_below hend
    have hlt : (file.phdr i).pVaddr + (file.phdr i).pMemsz < 2 ^ 64 :=
      hend.trans_lt (by rw [stackFrameAddr_eq]; decide)
    cases hr : l.machine.setupPageMaps (file.phdr i).pVaddr (file.phdr i).num4kPages false with
    | mk s r =>
        cases r with
        | error e =>
            rw [copyLoadSegment_error hstatus hload hr] at hok
            cases hok
        | ok u =>
            rw [copyLoadSegment_ok hstatus hload hr]
            have hwrites := writeSegment_writes file
              ⟨s, .running last', .setup (file.phdr i) :: .header (file.phdrOffset i) :: l.trace⟩
              (max last' (file.phdr i).lastAddr) hge hsize hlt
              ((file.phdr i).fillAddr_eq (by omega)) ((file.phdr i).fillSize_eq hsize (by omega))
            exact .head (.segment ⟨hge, by omega⟩ hbelow hr)
              (hwrites.lift id fun _ _ hw => hw.imageStep)
  · rw [copyLoadSegment_skip hstatus hload]

theorem run_steps {last : Nat} {is : List Nat} (hfile : file.Placed)
    (his : ∀ i ∈ is, i < file.ehdr.ePhnum)
    (hok : (run (copyLoadSegment file) l is).status = .running last) :
    Relation.ReflTransGen (ImageStep stackPage) l.machine
      (run (copyLoadSegment file) l is).machine := by
  induction is using List.reverseRecOn generalizing last with
  | nil => exact .refl
  | append_singleton is j ih =>
      rw [run_append] at hok ⊢
      obtain ⟨⟨last', hlast'⟩, -, -⟩ := copyLoadSegment_done hok
      refine (ih (fun i hi => his i (List.mem_append_left _ hi)) hlast').trans ?_
      exact copyLoadSegment_steps hfile (his j (by simp)) hok

end Loader

theorem loadELF_onward (s : Machine) (file : FileBuf) : Onward s (loadELF s file).machine := by
  rw [loadELF]
  split
  · exact Loader.run_onward file (.start s) _
  · exact .refl s

/-- **A file that is loaded** has taken the frames of its map. -/
theorem loadELF_taken {last : Nat} (h : Taken stackPage m s P) (hfile : file.Placed)
    (hok : (loadELF s file).status = .running last) :
    Taken stackPage m (loadELF s file).machine P := by
  rw [loadELF] at hok ⊢
  split at hok
  next haccepted =>
    rw [if_pos haccepted]
    exact h.run (Loader.run_steps hfile (fun i hi => List.mem_range.mp hi) hok)
  next => cases hok

/-! ## The arguments -/

namespace ArgVector

variable {argvLen argbufLen : Nat} {command str : List UInt8} {firstArg : Bool}
  {q q' : Option Nat × ArgVector} {next : Option Nat} {r : Option ArgError × ArgVector}

/-- There is room for what the vector has. -/
def Bounded (argvLen argbufLen : Nat) (v : ArgVector) : Prop :=
  v.argc ≤ argvLen ∧ v.argbufIndex ≤ argbufLen

theorem pushToArgv_bounded (h : v.pushToArgv argvLen argbufLen str = some (.ok v')) :
    v'.argc = v.argc + 1 ∧ Bounded argvLen argbufLen v' := by
  rw [pushToArgv] at h
  split at h
  next => cases h
  next hroom =>
    split at h
    next => cases h
    next copied _ =>
      split at h
      next => cases h
      next hfits =>
        cases h
        exact ⟨rfl, show v.argc + 1 ≤ argvLen by omega, by exact Nat.le_of_not_lt hfits⟩

theorem pushed_again (h : v.pushed next (v.pushToArgv argvLen argbufLen str) = .again q') :
    q'.2.argc = v.argc + 1 ∧ Bounded argvLen argbufLen q'.2 := by
  cases hpush : v.pushToArgv argvLen argbufLen str with
  | none =>
      rw [hpush] at h
      cases h
  | some res =>
      rw [hpush] at h
      cases res with
      | error err => cases h
      | ok u =>
          rw [pushed] at h
          split at h
          next =>
            cases h
            exact pushToArgv_bounded hpush
          next => cases h

theorem pushed_done (hv : Bounded argvLen argbufLen v)
    (h : v.pushed next (v.pushToArgv argvLen argbufLen str) = .done r) :
    Bounded argvLen argbufLen r.2 := by
  cases hpush : v.pushToArgv argvLen argbufLen str with
  | none =>
      rw [hpush] at h
      cases h
  | some res =>
      rw [hpush] at h
      cases res with
      | error err =>
          cases h
          exact hv
      | ok u =>
          rw [pushed] at h
          split at h
          next => cases h
          next =>
            cases h
            exact (pushToArgv_bounded hpush).2

/-- What a round comes to. -/
theorem argRound_cases (argvLen argbufLen : Nat) (command : List UInt8) (firstArg : Bool)
    (q : Option Nat × ArgVector) :
    argRound argvLen argbufLen command firstArg q = .fault ∨
      argRound argvLen argbufLen command firstArg q = .done (none, q.2) ∨
      ∃ text next str, argRound argvLen argbufLen command firstArg q =
        ({ q.2 with text := text } : ArgVector).pushed next
          (({ q.2 with text := text } : ArgVector).pushToArgv argvLen argbufLen str) := by
  obtain ⟨_ | p, v⟩ := q
  · exact .inr (.inr ⟨v.text, _, command, rfl⟩)
  · dsimp only [argRound]
    split
    · exact .inl rfl
    · split
      · exact .inr (.inl rfl)
      · split
        · exact .inl rfl
        · exact .inr (.inr ⟨_, _, _, rfl⟩)

theorem argRound_again (h : argRound argvLen argbufLen command firstArg q = .again q') :
    q'.2.argc = q.2.argc + 1 ∧ Bounded argvLen argbufLen q'.2 := by
  rcases argRound_cases argvLen argbufLen command firstArg q with hr | hr | ⟨text, next, str, hr⟩
  · rw [hr] at h
    cases h
  · rw [hr] at h
    cases h
  · exact pushed_again (v := { q.2 with text := text }) (hr.symm.trans h)

theorem argRound_done (hq : Bounded argvLen argbufLen q.2)
    (h : argRound argvLen argbufLen command firstArg q = .done r) :
    Bounded argvLen argbufLen r.2 := by
  rcases argRound_cases argvLen argbufLen command firstArg q with hr | hr | ⟨text, next, str, hr⟩
  · rw [hr] at h
    cases h
  · rw [hr] at h
    cases h
    exact hq
  · refine pushed_done ?_ (hr.symm.trans h)
    exact hq

/-- The vector of a run. -/
theorem yields_bounded (hq : Bounded argvLen argbufLen q.2)
    (h : Yields (argRound argvLen argbufLen command firstArg) q r) :
    Bounded argvLen argbufLen r.2 :=
  h.inv (fun q => Bounded argvLen argbufLen q.2) (fun _ _ _ hr => (argRound_again hr).2)
    (fun _ _ hq hr => argRound_done hq hr) hq

/-- A round that goes on has pushed an argument. -/
theorem rounds_again_le (hq : q.2.argc ≤ argvLen)
    (h : rounds (argRound argvLen argbufLen command firstArg) n q = .again q') :
    q.2.argc + n ≤ argvLen := by
  induction n generalizing q with
  | zero => exact hq
  | succ n ih =>
      cases hr : argRound argvLen argbufLen command firstArg q with
      | done r =>
          rw [rounds_done hr] at h
          cases h
      | fault =>
          rw [rounds_fault hr] at h
          cases h
      | again t =>
          obtain ⟨hargc, hle, -⟩ := argRound_again hr
          have hrest := ih hle (rounds_again hr n ▸ h)
          omega

/-- **So many rounds are all.** -/
theorem yields_iff_rounds (hq : q.2.argc = 0) :
    Yields (argRound argvLen argbufLen command firstArg) q r ↔
      rounds (argRound argvLen argbufLen command firstArg) (argvLen + 1) q = .done r := by
  refine ⟨fun h => ?_, fun h => ⟨_, h⟩⟩
  cases hr : rounds (argRound argvLen argbufLen command firstArg) (argvLen + 1) q with
  | done r' => rw [h.unique ⟨_, hr⟩]
  | fault => exact absurd ⟨r, h⟩ (Faults.not_ends ⟨_, hr⟩)
  | again q' =>
      have hle := rounds_again_le (by omega) hr
      omega

end ArgVector

end Laplus.Terminal
