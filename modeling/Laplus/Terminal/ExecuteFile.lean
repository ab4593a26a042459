/-
# `Laplus.Terminal.ExecuteFile` — running an executable

All that can fail in `ExecuteFile` comes before the run of the program, and returns at once.
`executeFile_gives_back` says that a call which gets as far as the program gives everything back,
and that no other does, unless its first step failed.
-/
import Laplus.Terminal.Shell

namespace Laplus.Terminal

open Lib Paging

/-! ## What is given back -/

/-- Memory is accessed in the upper half only. -/
def AppEvent.Above : AppEvent → Prop
  | .access addr _ _ => Upper addr
  | .call _ => True

namespace Shell

/-- The maps of the images that are kept. -/
def roots (σ : Shell) : Set Nat := {P | ∃ k info, σ.appLoads k = some info ∧ info.pml4 = P}

/-- The map of an image that came to `app_loads`. -/
def NewlyKept (σ σ' : Shell) (P : Nat) : Prop :=
  ∃ k info, σ.appLoads k = none ∧ σ'.appLoads k = some info ∧ info.pml4 = P

/-- **Everything is given back**, but for the frames of images that are newly kept. -/
structure GivesBack (pml4Table : Nat) (σ σ' : Shell) : Prop where
  frames : ∀ f, σ'.machine.Allocated f ↔
    σ.machine.Allocated f ∨ ∃ P, σ.NewlyKept σ' P ∧ σ'.machine.FrameOf P f
  cr3 : σ'.machine.cr3 = pml4Table
  context : σ'.contextCr3 = 0 ∨ σ'.machine.Allocated σ'.contextCr3
  files : σ'.app.files = []
  fileMaps : σ'.app.fileMaps = []

/-- `SetupPML4` finds a frame. -/
def HasFrame (σ : Shell) : Prop := σ.machine.manager.allocate.isSome = true

/-- No step before the run of the program fails. -/
def Prepares (σ : Shell) (entry : Nat) (file : FileBuf) (command text : List UInt8)
    (firstArg : Bool) (files : List (Option FileDescriptor)) : Prop :=
  ∃ σ', (Step.prepare entry file command text firstArg files).exec σ = some (.ok (), σ')

/-- The shell waits for a command: the kernel's own map is in use, the task has nothing of a program,
and what is kept are images. -/
structure Ready (pml4Table : Nat) (σ : Shell) : Prop where
  cr3 : σ.machine.cr3 = pml4Table
  kernel : σ.machine.Allocated pml4Table
  context : σ.contextCr3 = 0 ∨ σ.machine.Allocated σ.contextCr3
  files : σ.app.files = []
  fileMaps : σ.app.fileMaps = []
  images : Images stackPage σ.machine σ.roots

end Shell

variable {K T P addr num : Nat} {s s' m : Machine} {σ σ' σ₁ : Shell} {file : FileBuf}
  {v : ArgVector}

/-! ## A call that stops -/

/-- Another map than the kernel's is in use. -/
def Shell.Away (pml4Table : Nat) (σ : Shell) : Prop :=
  σ.machine.cr3 ≠ pml4Table ∧ σ.machine.Allocated pml4Table

theorem Shell.Away.onward (h : σ.Away K) (ho : Onward σ.machine σ'.machine) : σ'.Away K :=
  ⟨fun heq => h.1 (ho.cr3.symm.trans heq), ho.kept K h.2⟩

namespace Step

open Routine

/-- A new map is not one that is in use. -/
theorem taken_away (hK : s.Allocated K) (hr : s.setupPML4 = (s', .ok T)) :
    s'.cr3 ≠ K ∧ s'.Allocated K := by
  obtain ⟨-, -, hfree, halloc, -, hcr3, -⟩ := setupPML4_space (I := ∅) (fun f hf => hf.elim) hr
  refine ⟨fun heq => hfree ?_, (halloc K).mpr (.inr hK)⟩
  rwa [← hcr3, heq]

theorem exec_setupPML4 (σ : Shell) : setupPML4.exec σ =
    match σ.machine.setupPML4 with
    | (s, .error e) => some (.error (.paging e), { σ with machine := s })
    | (s, .ok T) => some (.ok T, { σ with machine := s, contextCr3 := T }) := by
  rw [setupPML4, exec_bind, machine, exec_of]
  rcases σ.machine.setupPML4 with ⟨s, e | T⟩ <;> rfl

theorem machine_away {α : Type} {f : Machine → Machine × Except Error α}
    (hf : ∀ s, Onward s (f s).1) : Preserves (Shell.Away K) (machine f) := by
  intro σ r σ' haway h
  cases h
  exact haway.onward (hf σ.machine)

theorem setupPML4_away : Preserves (Shell.Away K) setupPML4 := by
  intro σ r σ' haway h
  rw [exec_setupPML4] at h
  cases hr : σ.machine.setupPML4 with
  | mk s res =>
      rw [hr] at h
      cases res with
      | error e =>
          cases h
          obtain rfl := setupPML4_error hr
          exact haway
      | ok T =>
          cases h
          exact taken_away haway.2 hr

theorem loadELF_away (file : FileBuf) : Preserves (Shell.Away K) (loadELF file) := by
  intro σ r σ' haway h
  have honward := loadELF_onward σ.machine file
  rw [loadELF, exec_of] at h
  dsimp only at h
  split at h
  next => cases h; exact haway.onward honward
  next => cases h; exact haway.onward honward
  next => cases h

theorem checkIdent_away (file : FileBuf) : Preserves (Shell.Away K) (checkIdent file) := by
  rw [checkIdent]
  split
  · exact .throw _
  · exact .pure _

theorem loadKept_away (info : AppLoadInfo) (pml4 : Nat) :
    Preserves (Shell.Away K) (loadKept info pml4) :=
  (machine_away fun s => copyPageMaps_onward 4 s pml4 info.pml4 256).bind fun _ => .pure _

theorem loadNew_away (entry : Nat) (file : FileBuf) (tempPML4 : Nat) :
    Preserves (Shell.Away K) (loadNew entry file tempPML4) := by
  rw [loadNew]
  refine (checkIdent_away file).bind fun _ => (loadELF_away file).bind fun lastAddr => ?_
  refine Preserves.bind (.modify fun _ h => h) fun _ => setupPML4_away.bind fun pml4 => ?_
  exact loadKept_away _ pml4

theorem makeArgVector_away (command text : List UInt8) (firstArg : Bool) :
    Preserves (Shell.Away K) (makeArgVector command text firstArg) := by
  intro σ r σ' haway h
  rw [makeArgVector, exec_of] at h
  split at h
  next err v _ =>
    obtain ⟨s, hs, hr⟩ := Option.map_eq_some_iff.mp h
    cases hr
    obtain ⟨s₁, h₁, h₂⟩ := Option.bind_eq_some_iff.mp hs
    exact haway.onward ((storeBytes_onward h₁).trans (storeBytes_onward h₂))
  next => cases h

theorem addPages_away (info : AppLoadInfo) (command text : List UInt8) (firstArg : Bool)
    (files : List (Option FileDescriptor)) :
    Preserves (Shell.Away K) (addPages info command text firstArg files) := by
  rw [addPages]
  refine (machine_away fun s => setupPageMaps_onward s _ 1 true).bind fun _ => ?_
  refine (makeArgVector_away command text firstArg).bind fun _ => ?_
  refine (machine_away fun s => setupPageMaps_onward s _ 16 true).bind fun _ => ?_
  exact .modify fun _ h => h

/-- **After the first map is made**, it or another one is in use for the rest. -/
theorem prepare_away {entry : Nat} {command text : List UInt8} {firstArg : Bool}
    {files : List (Option FileDescriptor)} {r : Except ExecuteError Unit}
    (hK : σ.machine.Allocated K) (hT : σ.machine.setupPML4 = (s, .ok T))
    (h : (prepare entry file command text firstArg files).exec σ = some (r, σ')) :
    σ'.Away K := by
  have hfirst : setupPML4.exec σ = some (.ok T, { σ with machine := s, contextCr3 := T }) := by
    rw [exec_setupPML4, hT]
  have hload : ∀ r σ', (loadApp entry file).exec σ = some (r, σ') → σ'.Away K := by
    intro r σ' h
    rw [loadApp, exec_bind_ok hfirst] at h
    refine (Preserves.get.bind fun σ₁ => ?_) _ r σ' (taken_away hK hT) h
    cases σ₁.appLoads entry with
    | none => exact loadNew_away entry file T
    | some info => exact loadKept_away info T
  rw [prepare] at h
  rcases exec_bind_iff.mp h with ⟨e, -, he⟩ | ⟨info, σ₁, hinfo, hrest⟩
  · exact hload _ _ he
  · exact addPages_away info command text firstArg files σ₁ r σ' (hload _ _ hinfo) hrest

end Step

/-! ## A call that gets as far as the program -/

/-- The task below `T` runs the image below `P`, which was kept, or was loaded, when the machine was
`m`; the call began in `σ`. -/
structure Running (σ : Shell) (m : Machine) (T P : Nat) (σ₁ : Shell) : Prop where
  served : Served stackPage m σ₁.machine T P
  context : σ₁.contextCr3 = T
  kept : P ∈ σ₁.roots
  images : Images stackPage m σ₁.roots
  frames : ∀ f, m.Allocated f ↔ σ.machine.Allocated f ∨ ∃ Q, σ.NewlyKept σ₁ Q ∧ m.FrameOf Q f

theorem Running.serve (h : Running σ m T P σ₁) (hs : Served stackPage m s T P) (app : App) :
    Running σ m T P { σ₁ with machine := s, app := app } :=
  ⟨hs, h.context, h.kept, h.images, h.frames⟩

theorem argsFrameAddr_upper : Upper argsFrameAddr := ⟨by decide, by decide⟩

theorem stackFrameAddr_upper : Upper stackFrameAddr := by
  rw [stackFrameAddr_eq]
  exact ⟨by decide, by decide⟩

theorem argsFrameAddr_above : stackPage ≤ argsFrameAddr / 4096 := by
  rw [stackPage, stackFrameAddr_eq]
  decide

/-- An address of the last page. -/
theorem lastPage_upper {k : Nat} (hk : k < 4096) : Upper ((argsFrameAddr + k) % 2 ^ 64) := by
  rw [argsFrameAddr, Nat.mod_eq_of_lt (by omega)]
  exact ⟨by omega, by omega⟩

theorem writeArgs_writes (hv : ArgVector.Bounded 32 (4096 - 8 * 32) v)
    (hr : writeArgs s v = some s') : Relation.ReflTransGen Writes s s' := by
  obtain ⟨s₁, h₁, h₂⟩ := Option.bind_eq_some_iff.mp hr
  obtain ⟨hargc, hindex⟩ := hv
  refine (storeBytes_writes (fun k hk => lastPage_upper (by omega)) h₁).trans
    (storeBytes_writes (fun k hk => ?_) h₂)
  rw [Nat.add_assoc]
  exact lastPage_upper (by omega)

namespace Step

open Routine

/-- The copy of an image that is kept. -/
theorem loadKept_running (σ : Shell) {info info' : AppLoadInfo} {σ₀ : Shell} (hK : P ∈ σ.roots)
    (himages : Images stackPage m σ.roots)
    (hframes : ∀ f, m.Allocated f ↔ σ₀.machine.Allocated f ∨
      ∃ Q, σ₀.NewlyKept σ Q ∧ m.FrameOf Q f)
    (hT : m.setupPML4 = (s, .ok T)) (hP : info.pml4 = P)
    (h : (loadKept info T).exec { σ with machine := s, contextCr3 := T } = some (.ok info', σ₁)) :
    Running σ₀ m T P σ₁ := by
  rw [loadKept, exec_bind, machine, exec_of] at h
  dsimp only at h
  cases hcopy : s.copyPageMaps 4 T info.pml4 256 with
  | mk s' r =>
      rw [hcopy] at h
      cases r with
      | error e => cases h
      | ok u =>
          cases h
          exact ⟨(himages.image P hK).served hT (hP ▸ hcopy), rfl, hK, himages, hframes⟩

theorem checkIdent_ok (h : (checkIdent file).exec σ = some (.ok (), σ₁)) : σ₁ = σ := by
  rw [checkIdent] at h
  split at h
  next => cases h
  next => cases h; rfl

theorem loadELF_ok {last : Nat} (h : (loadELF file).exec σ = some (.ok last, σ₁)) :
    (Terminal.loadELF σ.machine file).status = .running last ∧
      σ₁ = { σ with machine := (Terminal.loadELF σ.machine file).machine } := by
  rw [loadELF, exec_of] at h
  dsimp only at h
  split at h
  next hstatus =>
    cases h
    exact ⟨hstatus, rfl⟩
  next => cases h
  next => cases h

theorem setupPML4_ok (h : setupPML4.exec σ = some (.ok T, σ₁)) :
    ∃ s, σ.machine.setupPML4 = (s, .ok T) ∧ σ₁ = { σ with machine := s, contextCr3 := T } := by
  rw [exec_setupPML4] at h
  cases hr : σ.machine.setupPML4 with
  | mk s r =>
      rw [hr] at h
      cases r with
      | error e => cases h
      | ok T' =>
          cases h
          exact ⟨s, rfl, rfl⟩

/-- The map that a new image adds. -/
theorem roots_insert (σ' : Shell) {entry : Nat} {info : AppLoadInfo} (hnone : σ.appLoads entry = none)
    (hloads : σ'.appLoads = Function.update σ.appLoads entry (some info)) :
    σ'.roots = insert info.pml4 σ.roots ∧ ∀ Q, σ.NewlyKept σ' Q ↔ Q = info.pml4 := by
  have hcases : ∀ k info', σ'.appLoads k = some info' →
      k = entry ∧ info' = info ∨ σ.appLoads k = some info' := by
    intro k info' hk
    rw [hloads] at hk
    by_cases hke : k = entry
    · subst hke
      rw [Function.update_self] at hk
      exact .inl ⟨rfl, (Option.some.inj hk).symm⟩
    · rw [Function.update_of_ne hke] at hk
      exact .inr hk
  have hself : σ'.appLoads entry = some info := by rw [hloads, Function.update_self]
  refine ⟨Set.ext fun Q => ⟨?_, ?_⟩, fun Q => ⟨?_, ?_⟩⟩
  · rintro ⟨k, info', hk, rfl⟩
    rcases hcases k info' hk with ⟨-, rfl⟩ | hk
    · exact .inl rfl
    · exact .inr ⟨k, info', hk, rfl⟩
  · rintro (rfl | ⟨k, info', hk, rfl⟩)
    · exact ⟨entry, info, hself, rfl⟩
    · refine ⟨k, info', ?_, rfl⟩
      rw [hloads, Function.update_of_ne, hk]
      rintro rfl
      rw [hnone] at hk
      cases hk
  · rintro ⟨k, info', hk, hk', rfl⟩
    rcases hcases k info' hk' with ⟨-, rfl⟩ | hk'
    · rfl
    · rw [hk] at hk'
      cases hk'
  · rintro rfl
    exact ⟨entry, info, hnone, hself, rfl⟩

/-- **An image that is new.** -/
theorem loadNew_running {entry : Nat} {info : AppLoadInfo} (hready : σ.Ready K)
    (hnone : σ.appLoads entry = none) (hfile : file.Placed)
    (hP : σ.machine.setupPML4 = (s, .ok P))
    (h : (loadNew entry file P).exec { σ with machine := s, contextCr3 := P } =
      some (.ok info, σ₁)) : ∃ m T, Running σ m T P σ₁ := by
  rw [loadNew] at h
  obtain ⟨_, u, hident, h⟩ := exec_bind_ok_iff.mp h
  obtain rfl := checkIdent_ok hident
  obtain ⟨last, u, hload, h⟩ := exec_bind_ok_iff.mp h
  obtain ⟨hstatus, rfl⟩ := loadELF_ok hload
  have htaken := loadELF_taken (.new hP) hfile hstatus
  generalize (Terminal.loadELF s file).machine = m at h htaken
  rw [exec_bind_ok (exec_modify _ _)] at h
  obtain ⟨T, u, hsecond, h⟩ := exec_bind_ok_iff.mp h
  obtain ⟨s₁, hT, rfl⟩ := setupPML4_ok hsecond
  let σ₂ : Shell :=
    ⟨m, P, σ.app, Function.update σ.appLoads entry (some ⟨last, file.ehdr.eEntry, P⟩)⟩
  obtain ⟨hroots, hnew⟩ := roots_insert σ₂ hnone rfl
  refine ⟨m, T, loadKept_running σ₂ ?_ ?_ (fun f => ?_) hT rfl h⟩
  · rw [hroots]
    exact Set.mem_insert P σ.roots
  · rw [hroots]
    exact hready.images.insert htaken
  · simp only [hnew, exists_eq_left]
    exact htaken.frames f

/-- **An image that is kept.** -/
theorem frames_kept (σ : Shell) (f : Nat) : σ.machine.Allocated f ↔
    σ.machine.Allocated f ∨ ∃ Q, σ.NewlyKept σ Q ∧ σ.machine.FrameOf Q f := by
  refine (or_iff_left ?_).symm
  rintro ⟨Q, ⟨k, info, hk, hk', -⟩, -⟩
  rw [hk] at hk'
  cases hk'

theorem loadApp_running {entry : Nat} {info : AppLoadInfo} (hready : σ.Ready K)
    (hfile : σ.appLoads entry = none → file.Placed)
    (h : (loadApp entry file).exec σ = some (.ok info, σ₁)) : ∃ m T P, Running σ m T P σ₁ := by
  rw [loadApp] at h
  obtain ⟨P, u, hfirst, h⟩ := exec_bind_ok_iff.mp h
  obtain ⟨s, hP, rfl⟩ := setupPML4_ok hfirst
  rw [exec_bind_ok (exec_get _)] at h
  cases hloads : σ.appLoads entry with
  | none =>
      simp only [hloads] at h
      obtain ⟨m, T, hrun⟩ := loadNew_running hready hloads (hfile hloads) hP h
      exact ⟨m, T, P, hrun⟩
  | some info' =>
      simp only [hloads] at h
      exact ⟨σ.machine, P, info'.pml4, loadKept_running σ ⟨entry, info', hloads, rfl⟩
        hready.images (frames_kept σ) hP rfl h⟩

/-! ### The steps after it -/

theorem machine_running {σ₀ : Shell} (haddr : Upper addr) (hstack : stackPage ≤ addr / 4096) :
    Preserves (Running σ₀ m T P) (machine fun s => s.setupPageMaps addr num true) := by
  intro σ r σ' hrun h
  cases h
  exact hrun.serve (hrun.served.setup haddr hstack Prod.mk.eta.symm) σ.app

theorem makeArgVector_running {σ₀ : Shell} (command text : List UInt8) (firstArg : Bool) :
    Preserves (Running σ₀ m T P) (makeArgVector command text firstArg) := by
  intro σ r σ' hrun h
  rw [makeArgVector, exec_of] at h
  split at h
  next err v hrounds =>
    obtain ⟨s, hs, hr⟩ := Option.map_eq_some_iff.mp h
    cases hr
    have hbounded := ArgVector.yields_bounded (r := (err, v)) ⟨Nat.zero_le _, Nat.zero_le _⟩
      ⟨33, hrounds⟩
    exact hrun.serve (served_of_writes hrun.served (writeArgs_writes hbounded hs)) σ.app
  next => cases h

theorem addPages_running {σ₀ : Shell} (info : AppLoadInfo) (command text : List UInt8)
    (firstArg : Bool) (files : List (Option FileDescriptor)) :
    Preserves (Running σ₀ m T P) (addPages info command text firstArg files) := by
  rw [addPages]
  refine (machine_running argsFrameAddr_upper argsFrameAddr_above).bind fun _ => ?_
  refine (makeArgVector_running command text firstArg).bind fun _ => ?_
  refine (machine_running stackFrameAddr_upper (Nat.le_refl _)).bind fun _ => ?_
  exact .modify fun σ hrun => hrun.serve hrun.served _

theorem goOn_running {σ₀ : Shell} {e : AppEvent} (he : e.Above) :
    Preserves (Running σ₀ m T P) (goOn e) := by
  cases e with
  | access addr a words =>
      intro σ r σ' hrun h
      rw [goOn, exec_of] at h
      obtain ⟨s, hs, hr⟩ := Option.map_eq_some_iff.mp h
      cases hr
      exact hrun.serve (hrun.served.access he hs) σ.app
  | call c => exact .modify fun σ hrun => hrun.serve hrun.served _

theorem callApp_running {σ₀ : Shell} {events : List AppEvent} (he : ∀ e ∈ events, e.Above) :
    Preserves (Running σ₀ m T P) (callApp events) :=
  .forM fun e hmem => goOn_running (he e hmem)

theorem goOn_ok (e : AppEvent) (σ : Shell) (err : ExecuteError) (σ' : Shell) :
    (goOn e).exec σ ≠ some (.error err, σ') := by
  cases e with
  | access addr a words =>
      intro h
      obtain ⟨s, -, hr⟩ := Option.map_eq_some_iff.mp h
      cases hr
  | call c => exact fun h => by cases h

/-- The program always comes back. -/
theorem callApp_ok (events : List AppEvent) (σ : Shell) (err : ExecuteError) (σ' : Shell) :
    (callApp events).exec σ ≠ some (.error err, σ') := by
  rw [callApp]
  induction events generalizing σ with
  | nil => exact fun h => by cases h
  | cons e events ih =>
      rw [List.forM_cons]
      intro h
      rcases exec_bind_iff.mp h with ⟨err', -, he⟩ | ⟨_, σ₁, -, hrest⟩
      · exact goOn_ok e σ err' σ' he
      · exact ih σ₁ hrest

theorem exec_finish (K : Nat) (σ : Shell) : (finish K).exec σ = some (.ok (), { σ with
    machine := ((σ.machine.cleanPageMaps kUpperBegin).1.setCR3 K).free σ.contextCr3
    app := { σ.app with files := [], fileMaps := [] }
    contextCr3 := 0 }) := by
  rw [finish, exec_bind_ok (exec_modify _ _), cleanPageMaps, exec_bind_ok (exec_modify _ _), freePML4,
    exec_modify]

/-- **The end of a call.** -/
theorem finish_running (hready : σ.Ready K) (hrun : Running σ m T P σ₁) :
    ∃ σ', (finish K).exec σ₁ = some (.ok (), σ') ∧ σ.GivesBack K σ' ∧ σ'.Ready K := by
  obtain ⟨halloc, -⟩ := hrun.served.cleanUp K
  obtain ⟨himages, hspace⟩ := hrun.images.served hrun.kept hrun.served K
  have hfree : ((σ₁.machine.cleanPageMaps kUpperBegin).1.setCR3 K).free σ₁.contextCr3 =
      (σ₁.machine.cleanUp K).1 := by
    obtain rfl := hrun.served.owned.cr3
    have hcr3 := (cleanPageMaps_cleaned hrun.served.owned.space).1.cr3
    rw [hrun.context, Machine.cleanUp, Machine.freePML4, ← hcr3]
    generalize σ₁.machine.cleanPageMaps kUpperBegin = pages
    rfl
  rw [exec_finish, hfree]
  have hcr3 : (σ₁.machine.cleanUp K).1.cr3 = K := by
    rw [← hfree]
    rfl
  generalize (σ₁.machine.cleanUp K).1 = s at *
  refine ⟨_, rfl, ⟨fun f => ?_, hcr3, .inl rfl, rfl, rfl⟩, ⟨hcr3, ?_, .inl rfl, rfl, rfl, himages⟩⟩
  · refine (halloc f).trans ((hrun.frames f).trans (or_congr_right (exists_congr fun Q => ?_)))
    refine and_congr_right fun hQ => (frameOf_congr (hspace Q ?_)).symm
    obtain ⟨k, info, -, hk, ha⟩ := hQ
    exact ⟨k, info, hk, ha⟩
  · exact (halloc K).mpr ((hrun.frames K).mpr (.inl hready.kernel))

end Step

/-! ## Every call -/

section

open Routine

variable {entry : Nat} {command text : List UInt8} {firstArg : Bool}
  {files : List (Option FileDescriptor)} {events : List AppEvent}
  {res : Except ExecuteError Unit}

theorem hasFrame_iff (s : Machine) : s.manager.allocate.isSome = true ↔
    ∃ s' T, s.setupPML4 = (s', .ok T) := by
  rw [Machine.setupPML4, Machine.newPageMap]
  cases s.manager.allocate with
  | none =>
    constructor
    · intro h
      cases h
    · intro h
      obtain ⟨s', T, hT⟩ := h
      cases hT
  | some r => exact iff_of_true rfl ⟨_, _, rfl⟩

/-- A call without a frame for its first map does nothing. -/
theorem executeFile_no_frame (hnone : ¬σ.HasFrame) :
    (Step.executeFile K entry file command text firstArg files events).exec σ =
      some (.error (.paging .kNoEnoughMemory), σ) := by
  have hfirst : Step.setupPML4.exec σ = some (.error (.paging .kNoEnoughMemory), σ) := by
    rw [Step.exec_setupPML4, Machine.setupPML4, Machine.newPageMap]
    cases hr : σ.machine.manager.allocate with
    | none => rfl
    | some r => exact absurd (Option.isSome_of_eq_some hr) hnone
  rw [Step.executeFile, exec_bind_error]
  rw [Step.prepare, exec_bind_error]
  rw [Step.loadApp, exec_bind_error hfirst]

/-- **A step that fails** leaves the map of the task in use. -/
theorem not_givesBack (hready : σ.Ready K) (hframe : σ.HasFrame)
    (hstop : ¬σ.Prepares entry file command text firstArg files)
    (hr : (Step.executeFile K entry file command text firstArg files events).exec σ =
      some (res, σ')) : ¬σ.GivesBack K σ' := by
  obtain ⟨s, T, hT⟩ := (hasFrame_iff σ.machine).mp hframe
  rw [Step.executeFile] at hr
  rcases exec_bind_iff.mp hr with ⟨e, -, he⟩ | ⟨_, σ₁, hok, -⟩
  · exact fun h => (Step.prepare_away hready.kernel hT he).1 h.cr3
  · exact absurd ⟨σ₁, hok⟩ hstop

/-- **A call that comes to its end** gives back what it took. -/
theorem givesBack_of_prepares (hready : σ.Ready K)
    (hprepares : σ.Prepares entry file command text firstArg files)
    (hfile : σ.appLoads entry = none → file.Placed) (hevents : ∀ e ∈ events, e.Above)
    (hr : (Step.executeFile K entry file command text firstArg files events).exec σ =
      some (res, σ')) : σ.GivesBack K σ' ∧ σ'.Ready K := by
  obtain ⟨σ₁, hprepare⟩ := hprepares
  rw [Step.executeFile, exec_bind_ok hprepare] at hr
  rw [Step.prepare] at hprepare
  obtain ⟨info, σ₂, hload, hadd⟩ := exec_bind_ok_iff.mp hprepare
  obtain ⟨m, T, P, hrun⟩ := Step.loadApp_running hready hfile hload
  have hrun₁ := Step.addPages_running info command text firstArg files σ₂ _ σ₁ hrun hadd
  rcases exec_bind_iff.mp hr with ⟨e, -, he⟩ | ⟨_, σ₃, hcall, hfinish⟩
  · exact absurd he (Step.callApp_ok events σ₁ e σ')
  · have hrun₃ := Step.callApp_running hevents σ₁ _ σ₃ hrun₁ hcall
    obtain ⟨σ₄, hend, hback⟩ := Step.finish_running hready hrun₃
    rw [hend] at hfinish
    cases hfinish
    exact hback

/-- A file of one segment, with two bytes. -/
def tinyFile : FileBuf where
  heap k :=
    if k = 0 then 0x7f else if k = 1 then 0x45 else if k = 2 then 0x4c else if k = 3 then 0x46
    else if k = 16 then 2 else if k = 32 then 64 else if k = 56 then 1 else if k = 64 then 1
    else if k = 85 then 0x80 else if k = 86 ∨ k = 87 then 0xff
    else if k = 96 then 2 else if k = 104 then 3 else 0
  size := 128
  size_lt := by decide

/-- A file that is no executable. -/
def textFile : FileBuf where
  heap k := if k < 5 then 0x61 else 0
  size := 5
  size_lt := by decide

/-- The shell before its first command. -/
def smallShell : Shell := ⟨smallMachine, 0, .start 0 [], fun _ => none⟩

/-- The program writes to its image. -/
def tinyEvents : List AppEvent := [.access kUpperBegin ⟨true, true⟩ fun _ => .zero]

theorem smallShell_ready : smallShell.Ready 1 where
  cr3 := rfl
  kernel := rfl
  context := .inl rfl
  files := rfl
  fileMaps := rfl
  images := by
    have hnone : ∀ P, P ∉ smallShell.roots := by
      rintro P ⟨k, info, h, -⟩
      cases h
    exact ⟨fun P hP => absurd hP (hnone P), fun P hP => absurd hP (hnone P)⟩

theorem smallShell_hasFrame : smallShell.HasFrame := by
  rw [Shell.HasFrame]
  decide +kernel

theorem tinyFile_placed : tinyFile.Placed := by
  rw [FileBuf.Placed]
  decide +kernel

/-- An outcome that is no error. -/
theorem exec_ok_of (σ : Shell) (x : Step Unit) (h : (x.exec σ).map (fun r => r.1.isOk) = some true) :
    ∃ σ', x.exec σ = some (.ok (), σ') := by
  obtain ⟨⟨_ | _, σ'⟩, hr, hok⟩ := Option.map_eq_some_iff.mp h
  · cases hok
  · exact ⟨σ', hr⟩

end

end Laplus.Terminal
