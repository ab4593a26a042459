/-
# `Laplus.Tasks.Context` — contexts (`asmfunc.asm`, `task.hpp`)

The code that saves and restores what the processor holds: `SwitchContext`, `RestoreContext` and
the two ends of `IntHandlerLAPICTimer`.  A `TaskContext` in memory is read by its offsets.
-/
import Laplus.Lib.Amd64

namespace Laplus.Tasks

open Lib.Amd64

/-! ## `TaskContext` -/

/-- `sizeof(TaskContext)`. -/
def contextSize : Nat := 704

/-- Where a register is in a `TaskContext`. -/
def regOffset : Reg → Nat
  | .rax => 0x40 | .rbx => 0x48 | .rcx => 0x50 | .rdx => 0x58
  | .rdi => 0x60 | .rsi => 0x68 | .rsp => 0x70 | .rbp => 0x78
  | .r8 => 0x80 | .r9 => 0x88 | .r10 => 0x90 | .r11 => 0x98
  | .r12 => 0xa0 | .r13 => 0xa8 | .r14 => 0xb0 | .r15 => 0xb8

def segOffset : Seg → Nat
  | .cs => 0x20 | .ss => 0x28 | .fs => 0x30 | .gs => 0x38

/-- The `TaskContext` at `a` is that of a processor. -/
structure Context (m : Memory) (a : Word) (c : Cpu) : Prop where
  cr3 : m.field a 0x00 = c.cr3
  rip : m.field a 0x08 = c.rip
  rflags : m.field a 0x10 = c.rflags
  seg : ∀ g, (m.field a (segOffset g)).setWidth 16 = c.seg g
  reg : ∀ r, m.field a (regOffset r) = c.reg r
  fx : m.get (a + 0xc0) 512 = c.fx

variable {m m' : Memory} {a b : Word} {c : Cpu} {s : State}

/-- A context is read from its own bytes. -/
theorem Context.of_get (h : Context m a c) (hget : m'.get b contextSize = m.get a contextSize) :
    Context m' b c := by
  have hfield : ∀ i, i + 8 ≤ contextSize → m'.field b i = m.field a i := fun i hi =>
    Memory.load_eq_of_get hget hi
  constructor
  case cr3 => exact (hfield 0x00 (by decide)).trans h.cr3
  case rip => exact (hfield 0x08 (by decide)).trans h.rip
  case rflags => exact (hfield 0x10 (by decide)).trans h.rflags
  case seg =>
    intro g
    rw [hfield _ (by cases g <;> decide)]
    exact h.seg g
  case reg =>
    intro r
    rw [hfield _ (by cases r <;> decide)]
    exact h.reg r
  case fx => exact (Memory.get_sub hget (i := 0xc0) (by decide)).trans h.fx

/-! ## `InitContext` -/

def kernelCS : BitVec 16 := 1 <<< 3

def kernelSS : BitVec 16 := 2 <<< 3

/-- What `InitContext` is given, and what it takes from the task and from `GetCR3`. -/
structure Fresh where
  f : Word
  data : Word
  id : Word
  stackEnd : Word
  cr3 : Word

/-- The fields that `InitContext` sets. -/
def Fresh.fields (x : Fresh) : List (Nat × Word) :=
  [(0x00, x.cr3), (0x10, 0x202), (0x20, kernelCS.setWidth 64), (0x28, kernelSS.setWidth 64),
    (0x70, (x.stackEnd &&& ~~~0xf) - 8), (0x08, x.f), (0x60, x.id), (0x68, x.data)]

/-- `MXCSR`, with all exceptions masked. -/
def mxcsr : Fin 4 → Byte := fun i => (0x1f80 : BitVec 32).extractLsb' (8 * i) 8

/-- `InitContext`; `fxsave_area[24]` is at `0xd8`. -/
def initContext (m : Memory) (a : Word) (x : Fresh) : Memory :=
  ((m.put a fun _ : Fin contextSize => 0).setFields a x.fields).put (a + 0xd8) mxcsr

/-- A processor that is about to call `f(id, data)`. -/
def Fresh.cpu (x : Fresh) : Cpu where
  reg
    | .rdi => x.id
    | .rsi => x.data
    | .rsp => (x.stackEnd &&& ~~~0xf) - 8
    | _ => 0
  rip := x.f
  rflags := 0x202
  cr3 := x.cr3
  seg
    | .cs => kernelCS
    | .ss => kernelSS
    | _ => 0
  fx i := if h : 24 ≤ i.val ∧ i.val < 28 then mxcsr ⟨i.val - 24, by omega⟩ else 0

/-- What is set to zero. -/
theorem get_zero {i k : Nat} (h : i + k ≤ contextSize) :
    (m.put a fun _ : Fin contextSize => (0 : Byte)).get (a + BitVec.ofNat 64 i) k = fun _ => 0 := by
  have hall := Memory.get_put_self (m := m) (a := a) (f := fun _ : Fin contextSize => (0 : Byte))
    (by decide)
  funext j
  have hj := congrFun hall ⟨i + j, by omega⟩
  simp only [Memory.get] at hj ⊢
  rwa [add_assoc, ← BitVec.ofNat_add]

theorem get_initContext_of_apart {x : Fresh} {k : Nat} (h : Apart a contextSize b k) (hk : 0 < k) :
    (initContext m a x).get b k = m.get b k := by
  have hmx : Apart (a + 0xd8) 4 b k := by
    have hpart := h.mono (i := 0xd8) (j := 0) (p := 4) (q := k) (by decide) (by omega) (by decide) hk
    rwa [BitVec.add_zero] at hpart
  have hfields : ∀ i ∈ x.fields.map Prod.fst, i + 8 ≤ contextSize := by
    simp only [Fresh.fields, List.map]
    decide
  rw [initContext, Memory.get_put_of_apart hmx, Memory.get_setFields_of_apart h hk hfields,
    Memory.get_put_of_apart h]

/-- **`InitContext`** makes the context of a call of `f`. -/
theorem context_initContext (m : Memory) (a : Word) (x : Fresh) :
    Context (initContext m a x) a x.cpu := by
  have hfield : ∀ i, i + 8 ≤ 0xd8 → (initContext m a x).field a i =
      ((m.put a fun _ : Fin contextSize => 0).setFields a x.fields).field a i := fun i hi =>
    Memory.field_put (.inl hi) (by decide) (by omega) (by decide)
  have hset : ∀ i v, (i, v) ∈ x.fields → i + 8 ≤ 0xd8 → (initContext m a x).field a i = v := by
    intro i v hmem hi
    rw [hfield i hi]
    refine Memory.field_setFields ?_ hmem
    simp only [Fresh.fields, List.map]
    decide
  have hzero : ∀ i, i + 8 ≤ 0xd8 → (∀ j ∈ x.fields.map Prod.fst, Memory.Beside j i) →
      (initContext m a x).field a i = 0 := by
    intro i hi hne
    rw [hfield i hi, Memory.field_setFields_of_ne hne]
    exact congrArg word (get_zero (hi.trans (by decide)))
  constructor
  case cr3 => exact hset _ _ (by simp [Fresh.fields, Fresh.cpu]) (by decide)
  case rip => exact hset _ _ (by simp [Fresh.fields, Fresh.cpu]) (by decide)
  case rflags => exact hset _ _ (by simp [Fresh.fields, Fresh.cpu]) (by decide)
  case seg =>
    have hseg : ∀ g, (∃ v, (segOffset g, v) ∈ x.fields ∧ v.setWidth 16 = x.cpu.seg g) ∨
        (∀ j ∈ x.fields.map Prod.fst, Memory.Beside j (segOffset g)) ∧ x.cpu.seg g = 0 := by
      intro g
      cases g
      case cs => exact .inl ⟨kernelCS.setWidth 64, by simp [Fresh.fields, segOffset], rfl⟩
      case ss => exact .inl ⟨kernelSS.setWidth 64, by simp [Fresh.fields, segOffset], rfl⟩
      case fs => exact .inr ⟨by simp only [Fresh.fields, List.map]; decide, rfl⟩
      case gs => exact .inr ⟨by simp only [Fresh.fields, List.map]; decide, rfl⟩
    intro g
    have hoffset : segOffset g + 8 ≤ 0xd8 := by cases g <;> decide
    rcases hseg g with ⟨v, hmem, hv⟩ | ⟨hne, hv⟩
    · rw [hset _ _ hmem hoffset, hv]
    · rw [hzero _ hoffset hne, hv]
      rfl
  case reg =>
    have hreg : ∀ r, (regOffset r, x.cpu.reg r) ∈ x.fields ∨
        (∀ j ∈ x.fields.map Prod.fst, Memory.Beside j (regOffset r)) ∧ x.cpu.reg r = 0 := by
      intro r
      cases r
      case rdi | rsi | rsp => exact .inl (by simp [Fresh.fields, Fresh.cpu, regOffset])
      all_goals exact .inr ⟨by simp only [Fresh.fields, List.map]; decide, rfl⟩
    intro r
    have hoffset : regOffset r + 8 ≤ 0xd8 := by cases r <;> decide
    rcases hreg r with hmem | ⟨hne, hv⟩
    · exact hset _ _ hmem hoffset
    · rw [hzero _ hoffset hne, hv]
  case fx =>
    have hfields : ∀ i ∈ x.fields.map Prod.fst, i + 8 ≤ 0xc0 := by
      simp only [Fresh.fields, List.map]
      decide
    have hapart : Apart a 0xc0 (a + 0xc0) 512 := by
      have hpart := apart_add a (i := 0) (j := 0xc0) (p := 0xc0) (q := 512) (.inl (by decide))
        (by decide) (by decide) (by decide) (by decide)
      rwa [BitVec.add_zero] at hpart
    have harea : ((m.put a fun _ : Fin contextSize => 0).setFields a x.fields).get (a + 0xc0) 512 =
        fun _ => 0 := by
      rw [Memory.get_setFields_of_apart hapart (by decide) hfields]
      exact get_zero (i := 0xc0) (by decide)
    have hplace : a + 0xd8 = a + 0xc0 + BitVec.ofNat 64 24 := by bv_omega
    funext i
    rw [initContext, hplace, Memory.get_put_inside (by decide) (by decide) (by decide) i, harea]
    rfl

/-! ## `SwitchContext` -/

/-- `SwitchContext`, up to the return address. -/
def saveRegs : List Instr :=
  [.store .rsi 0x40 .rax, .store .rsi 0x48 .rbx, .store .rsi 0x50 .rcx, .store .rsi 0x58 .rdx,
    .store .rsi 0x60 .rdi, .store .rsi 0x68 .rsi,
    .lea .rax .rsp 8, .store .rsi 0x70 .rax, .store .rsi 0x78 .rbp,
    .store .rsi 0x80 .r8, .store .rsi 0x88 .r9, .store .rsi 0x90 .r10, .store .rsi 0x98 .r11,
    .store .rsi 0xa0 .r12, .store .rsi 0xa8 .r13, .store .rsi 0xb0 .r14, .store .rsi 0xb8 .r15,
    .movFromCr3 .rax, .store .rsi 0x00 .rax]

/-- `SwitchContext`, from the return address up to `RestoreContext`. -/
def saveRest : List Instr :=
  [.load .rax .rsp 0, .store .rsi 0x08 .rax,
    .pushfq, .popMem .rsi 0x10,
    .movFromSeg .rax .cs, .store .rsi 0x20 .rax,
    .movFromSeg .rbx .ss, .store .rsi 0x28 .rbx,
    .movFromSeg .rcx .fs, .store .rsi 0x30 .rcx,
    .movFromSeg .rdx .gs, .store .rsi 0x38 .rdx,
    .fxsave .rsi 0xc0]

/-- `RestoreContext`. -/
def restoreContext : List Instr :=
  [.push (.mem .rdi 0x28), .push (.mem .rdi 0x70), .push (.mem .rdi 0x10),
    .push (.mem .rdi 0x20), .push (.mem .rdi 0x08),
    .fxrstor .rdi 0xc0,
    .load .rax .rdi 0x00, .movToCr3 .rax,
    .load .rax .rdi 0x30, .movToSeg .fs .rax,
    .load .rax .rdi 0x38, .movToSeg .gs .rax,
    .load .rax .rdi 0x40, .load .rbx .rdi 0x48, .load .rcx .rdi 0x50, .load .rdx .rdi 0x58,
    .load .rsi .rdi 0x68, .load .rbp .rdi 0x78,
    .load .r8 .rdi 0x80, .load .r9 .rdi 0x88, .load .r10 .rdi 0x90, .load .r11 .rdi 0x98,
    .load .r12 .rdi 0xa0, .load .r13 .rdi 0xa8, .load .r14 .rdi 0xb0, .load .r15 .rdi 0xb8,
    .load .rdi .rdi 0x60,
    .iretq]

/-- `SwitchContext`. -/
def switchContext : List Instr := saveRegs ++ saveRest ++ restoreContext

/-- What a call returns to: `rip` is the return address on the stack. -/
def returned (s : State) : Cpu :=
  { s.toCpu with reg := Function.update s.reg .rsp (s.reg .rsp + 8), rip := s.top }

/-- The fields that `saveRegs` sets. -/
def savedRegs (s : State) : List (Nat × Word) :=
  [(0x40, s.reg .rax), (0x48, s.reg .rbx), (0x50, s.reg .rcx), (0x58, s.reg .rdx),
    (0x60, s.reg .rdi), (0x68, s.reg .rsi), (0x70, s.reg .rsp + 8), (0x78, s.reg .rbp),
    (0x80, s.reg .r8), (0x88, s.reg .r9), (0x90, s.reg .r10), (0x98, s.reg .r11),
    (0xa0, s.reg .r12), (0xa8, s.reg .r13), (0xb0, s.reg .r14), (0xb8, s.reg .r15),
    (0x00, s.cr3)]

theorem run_saveRegs (s : State) :
    s.run saveRegs =
      { s with
        reg := Function.update s.reg .rax s.cr3
        mem := s.mem.setFields (s.reg .rsi) (savedRegs s) } := by
  simp only [saveRegs, State.run_cons, State.run_nil, State.exec, State.set, State.addr,
    Function.update_apply, Function.update_idem, reduceCtorEq, if_false, if_true]
  rfl

/-- The fields that `saveRest` sets. -/
def savedRest (s : State) : List (Nat × Word) :=
  [(0x10, s.rflags),
    (0x20, s.top.extractLsb' 16 48 ++ s.seg .cs),
    (0x28, (s.reg .rbx).extractLsb' 16 48 ++ s.seg .ss),
    (0x30, (s.reg .rcx).extractLsb' 16 48 ++ s.seg .fs),
    (0x38, (s.reg .rdx).extractLsb' 16 48 ++ s.seg .gs)]

theorem run_saveRest (s : State) :
    let s' := s.run saveRest
    s'.mem = (((s.mem.setFields (s.reg .rsi) [(0x08, s.top)]).store (s.reg .rsp - 8)
        s.rflags).setFields (s.reg .rsi) (savedRest s)).put (s.reg .rsi + 0xc0) s.fx ∧
      s'.reg .rdi = s.reg .rdi ∧ s'.reg .rsp = s.reg .rsp := by
  simp only [saveRest, State.run_cons, State.run_nil, State.exec, State.set, State.addr,
    State.pushWord, State.popWord, State.top, Function.update_apply, reduceCtorEq, if_false,
    if_true, Memory.load_store_self, sub_add_cancel, BitVec.add_zero]
  exact ⟨rfl, trivial, trivial⟩

/-- The return address and the word below it are not in the context that is written. -/
def StackApart (s : State) : Prop := Apart (s.reg .rsi) contextSize (s.reg .rsp - 8) 16

/-- The memory where `SwitchContext` goes on with `RestoreContext`. -/
def savedMem (s : State) : Memory :=
  (((s.mem.setFields (s.reg .rsi) (savedRegs s ++ [(0x08, s.top)])).store (s.reg .rsp - 8)
    s.rflags).setFields (s.reg .rsi) (savedRest s)).put (s.reg .rsi + 0xc0) s.fx

/-- The fields lie in the context. -/
theorem fields_savedRegs : ∀ i ∈ (savedRegs s).map Prod.fst, i + 8 ≤ contextSize := by
  simp only [savedRegs, List.map]
  decide

theorem fields_savedRest : ∀ i ∈ (savedRest s).map Prod.fst, i + 8 ≤ contextSize := by
  simp only [savedRest, List.map]
  decide

/-- No field is set twice, or runs into another. -/
theorem beside_savedRegs :
    ((savedRegs s ++ [(0x08, s.top)]).map Prod.fst).Pairwise Memory.Beside := by
  simp only [savedRegs, List.map, List.cons_append, List.nil_append]
  decide

theorem beside_savedRest : ((savedRest s).map Prod.fst).Pairwise Memory.Beside := by
  simp only [savedRest, List.map]
  decide

theorem run_save (hstack : StackApart s) :
    let s' := s.run (saveRegs ++ saveRest)
    s'.mem = savedMem s ∧ s'.reg .rdi = s.reg .rdi ∧ s'.reg .rsp = s.reg .rsp := by
  intro s'
  have htop : (s.run saveRegs).top = s.top := by
    have hapart : Apart (s.reg .rsi) contextSize (s.reg .rsp) 8 := by
      have hpart := hstack.mono (i := 0) (j := 8) (p := contextSize) (q := 8)
        (by decide) (by decide) (by decide) (by decide)
      rw [BitVec.add_zero] at hpart
      have hsp : s.reg .rsp - 8 + BitVec.ofNat 64 8 = s.reg .rsp := sub_add_cancel _ _
      rwa [hsp] at hpart
    rw [run_saveRegs]
    exact congrArg word (Memory.get_setFields_of_apart hapart (by decide) fields_savedRegs)
  obtain ⟨hmem, hrdi, hrsp⟩ := run_saveRest (s.run saveRegs)
  rw [← State.run_append] at hmem hrdi hrsp
  refine ⟨?_, ?_, ?_⟩
  · rw [hmem, savedRest, htop, run_saveRegs, savedMem, Memory.setFields_append]
    rfl
  · rw [hrdi, run_saveRegs]
    rfl
  · rw [hrsp, run_saveRegs]
    rfl

/-- The stores behind `fxsave` and the ones before it. -/
theorem field_savedMem {i : Nat} (hi : i + 8 ≤ 0xc0) :
    (savedMem s).field (s.reg .rsi) i =
      (((s.mem.setFields (s.reg .rsi) (savedRegs s ++ [(0x08, s.top)])).store (s.reg .rsp - 8)
        s.rflags).setFields (s.reg .rsi) (savedRest s)).field (s.reg .rsi) i :=
  Memory.field_put (.inl hi) (by decide) (by omega) (by decide)

/-- **`SwitchContext` saves what the call returns to.** -/
theorem context_saved (hstack : StackApart s) : Context (savedMem s) (s.reg .rsi) (returned s) := by
  have hslot : Apart (s.reg .rsi) contextSize (s.reg .rsp - 8) 8 :=
    ⟨hstack.1, le_trans (by decide) hstack.2⟩
  have hrest : ∀ i v, (i, v) ∈ savedRest s → i + 8 ≤ 0xc0 →
      (savedMem s).field (s.reg .rsi) i = v := by
    intro i v hmem hi
    rw [field_savedMem hi]
    exact Memory.field_setFields beside_savedRest hmem
  have hregs : ∀ i v, (i, v) ∈ savedRegs s ++ [(0x08, s.top)] → i + 8 ≤ 0xc0 →
      (∀ j ∈ (savedRest s).map Prod.fst, Memory.Beside j i) →
      (savedMem s).field (s.reg .rsi) i = v := by
    intro i v hmem hi hne
    rw [field_savedMem hi, Memory.field_setFields_of_ne hne,
      Memory.field_store hslot (hi.trans (by decide))]
    exact Memory.field_setFields beside_savedRegs hmem
  constructor
  case cr3 =>
    refine hregs _ _ (by simp [savedRegs, returned]) (by decide) ?_
    simp only [savedRest, List.map]
    decide
  case rip =>
    refine hregs _ _ (by simp [savedRegs, returned]) (by decide) ?_
    simp only [savedRest, List.map]
    decide
  case rflags => exact hrest _ _ (by simp [savedRest, returned]) (by decide)
  case seg =>
    intro g
    obtain ⟨v, hv⟩ : ∃ v : Word, (segOffset g, v.extractLsb' 16 48 ++ s.seg g) ∈ savedRest s := by
      cases g
      case cs => exact ⟨s.top, by simp [savedRest, segOffset]⟩
      case ss => exact ⟨s.reg .rbx, by simp [savedRest, segOffset]⟩
      case fs => exact ⟨s.reg .rcx, by simp [savedRest, segOffset]⟩
      case gs => exact ⟨s.reg .rdx, by simp [savedRest, segOffset]⟩
    rw [hrest _ _ hv (by cases g <;> decide)]
    exact BitVec.setWidth_append_eq_right
  case reg =>
    intro r
    refine hregs _ _ ?_ (by cases r <;> decide) ?_
    · cases r <;> simp [savedRegs, returned, regOffset]
    · simp only [savedRest, List.map]
      cases r <;> decide
  case fx => exact Memory.get_put_self (by decide)

/-! ## `RestoreContext` -/

/-- What `RestoreContext` pushes. -/
def iretFrame : List Src :=
  [.mem .rdi 0x28, .mem .rdi 0x70, .mem .rdi 0x10, .mem .rdi 0x20, .mem .rdi 0x08]

/-- `RestoreContext`, behind the stack frame for `iretq`. -/
def loadContext : List Instr := restoreContext.drop 5

theorem restoreContext_eq : restoreContext = iretFrame.map .push ++ loadContext := rfl

/-- The stack frame for `iretq`. -/
structure Frame (m : Memory) (a : Word) (c : Cpu) : Prop where
  rip : m.field a 0 = c.rip
  cs : (m.field a 8).setWidth 16 = c.seg .cs
  rflags : m.field a 16 = c.rflags
  rsp : m.field a 24 = c.reg .rsp
  ss : (m.field a 32).setWidth 16 = c.seg .ss

theorem run_loadContext (h : Context s.mem (s.reg .rdi) c) (hframe : Frame s.mem (s.reg .rsp) c) :
    s.run loadContext = { c with mem := s.mem } := by
  simp only [loadContext, restoreContext, List.drop, State.run_cons, State.run_nil, State.exec,
    State.set, State.addr, Function.update_apply, reduceCtorEq, if_false, if_true]
  congr 2
  · funext r
    by_cases hr : r = .rsp
    · subst hr
      exact hframe.rsp
    · rw [Function.update_of_ne hr, ← h.reg r]
      cases r <;> first | rfl | exact absurd rfl hr
  · rw [← hframe.rip, Memory.field, BitVec.add_zero]
  · exact hframe.rflags
  · exact h.cr3
  · funext g
    cases g
    case cs => exact hframe.cs
    case ss => exact hframe.ss
    case fs => exact h.seg .fs
    case gs => exact h.seg .gs
  · exact h.fx

/-- The memory where the stack frame is built. -/
def framedMem (s : State) : Memory :=
  s.mem.setFields (s.reg .rsp - 40)
    [(32, s.mem.field (s.reg .rdi) 0x28), (24, s.mem.field (s.reg .rdi) 0x70),
      (16, s.mem.field (s.reg .rdi) 0x10), (8, s.mem.field (s.reg .rdi) 0x20),
      (0, s.mem.field (s.reg .rdi) 0x08)]

/-- The five words below the stack pointer are not in the context that is read. -/
def FrameApart (s : State) : Prop := Apart (s.reg .rsp - 40) 40 (s.reg .rdi) contextSize

theorem run_iretFrame (hstack : FrameApart s) :
    s.run (iretFrame.map .push) =
      { s with
        reg := Function.update s.reg .rsp (s.reg .rsp - 40)
        mem := framedMem s } := by
  have hreads : ∀ x ∈ iretFrame, s.Reads (s.reg .rsp - 40) 0 (8 * iretFrame.length) x := by
    have hmem : ∀ i, i + 8 ≤ contextSize → s.Reads (s.reg .rsp - 40) 0 40 (.mem .rdi i) := by
      intro i hi
      exact ⟨by decide, hstack.mono (i := 0) (p := 40) (by decide) hi (by decide) (by decide)⟩
    intro x hx
    simp only [iretFrame, List.mem_cons, List.not_mem_nil, or_false] at hx
    rcases hx with rfl | rfl | rfl | rfl | rfl <;> exact hmem _ (by decide)
  have hrun := State.run_pushes (a := s.reg .rsp - 40) (n := 0) s iretFrame
    (sub_add_cancel _ _).symm hreads
  rw [hrun, BitVec.add_zero]
  rfl

theorem get_framedMem {k : Nat} (h : Apart (s.reg .rsp - 40) 40 b k) (hk : 0 < k) :
    (framedMem s).get b k = s.mem.get b k :=
  Memory.get_setFields_of_apart h hk (by simp only [List.map]; decide)

theorem frame_framedMem (h : Context s.mem (s.reg .rdi) c) :
    Frame (framedMem s) (s.reg .rsp - 40) c := by
  have hfield : ∀ i v, (i, v) ∈ _ → (framedMem s).field (s.reg .rsp - 40) i = v := fun i v hi =>
    Memory.field_setFields (by simp only [List.map]; decide) hi
  constructor
  case rip => exact (hfield _ _ (by simp)).trans h.rip
  case cs => exact (congrArg _ (hfield _ _ (by simp [segOffset]))).trans (h.seg .cs)
  case rflags => exact (hfield _ _ (by simp)).trans h.rflags
  case rsp => exact (hfield _ _ (by simp [regOffset])).trans (h.reg .rsp)
  case ss => exact (congrArg _ (hfield _ _ (by simp [segOffset]))).trans (h.seg .ss)

/-- **`RestoreContext` goes on with the context**, and writes below the stack pointer only. -/
theorem run_restoreContext (h : Context s.mem (s.reg .rdi) c) (hstack : FrameApart s) :
    s.run restoreContext = { c with mem := framedMem s } := by
  rw [restoreContext_eq, State.run_append, run_iretFrame hstack]
  refine run_loadContext (s := { s with
    reg := Function.update s.reg .rsp (s.reg .rsp - 40), mem := framedMem s }) ?_ ?_
  · exact h.of_get (get_framedMem hstack (by decide))
  · exact frame_framedMem h

/-- The return address and what is pushed below it are not in the context at `a`. -/
def Clear (sp a : Word) : Prop := Apart (sp - 40) 48 a contextSize

instance (sp a : Word) : Decidable (Clear sp a) := inferInstanceAs (Decidable (Apart _ _ _ _))

theorem Clear.part (h : Clear b a) {i k : Nat} (hi : i + k ≤ 48) (hk : 0 < k) :
    Apart (b - 40 + BitVec.ofNat 64 i) k a contextSize := by
  have hpart := h.mono (j := 0) (q := contextSize) hi (by decide) hk (by decide)
  rwa [BitVec.add_zero] at hpart

theorem Clear.frameApart (h : Clear (s.reg .rsp) (s.reg .rdi)) : FrameApart s := by
  have hpart := h.part (i := 0) (k := 40) (by decide) (by decide)
  rwa [BitVec.add_zero] at hpart

theorem Clear.stackApart (h : Clear (s.reg .rsp) (s.reg .rsi)) : StackApart s := by
  have hpart := h.part (i := 32) (k := 16) (by decide) (by decide)
  have hword : s.reg .rsp - 40 + BitVec.ofNat 64 32 = s.reg .rsp - 8 := by bv_omega
  rw [hword] at hpart
  exact hpart.symm

theorem get_savedMem {k : Nat} (hk : 0 < k) (ha : Apart (s.reg .rsi) contextSize b k)
    (hsp : Apart (s.reg .rsp - 8) 8 b k) : (savedMem s).get b k = s.mem.get b k := by
  have hfx : Apart (s.reg .rsi + 0xc0) 512 b k := by
    have hpart := ha.mono (i := 0xc0) (j := 0) (p := 512) (q := k) (by decide) (by omega)
      (by decide) hk
    rwa [BitVec.add_zero] at hpart
  have hregs : ∀ i ∈ (savedRegs s ++ [(0x08, s.top)]).map Prod.fst, i + 8 ≤ contextSize := by
    intro i hi
    rw [List.map_append] at hi
    rcases List.mem_append.mp hi with hi | hi
    · exact fields_savedRegs i hi
    · obtain rfl : i = 0x08 := List.mem_singleton.mp hi
      decide
  rw [savedMem, Memory.get_put_of_apart hfx, Memory.get_setFields_of_apart ha hk fields_savedRest,
    Memory.get_store_of_apart hsp, Memory.get_setFields_of_apart ha hk hregs]

/-- **`SwitchContext`** saves the one context and goes on with the other. -/
theorem run_switchContext (h : Context s.mem (s.reg .rdi) c)
    (hctx : Apart (s.reg .rsi) contextSize (s.reg .rdi) contextSize)
    (hsi : Clear (s.reg .rsp) (s.reg .rsi)) (hdi : Clear (s.reg .rsp) (s.reg .rdi)) :
    ∃ m, s.run switchContext = { c with mem := m } ∧ Context m (s.reg .rsi) (returned s) ∧
      ∀ b k, 0 < k → Apart (s.reg .rsi) contextSize b k → Apart (s.reg .rsp - 40) 40 b k →
        m.get b k = s.mem.get b k := by
  obtain ⟨hmem, hrdi, hrsp⟩ := run_save hsi.stackApart
  have hslot : ∀ b k, 0 < k → Apart (s.reg .rsp - 40) 40 b k → Apart (s.reg .rsp - 8) 8 b k := by
    intro b k hk hb
    have hpart := hb.mono (i := 32) (j := 0) (p := 8) (q := k) (by decide) (by omega) (by decide) hk
    have hword : s.reg .rsp - 40 + BitVec.ofNat 64 32 = s.reg .rsp - 8 := by bv_omega
    rwa [hword, BitVec.add_zero] at hpart
  have hframe : ∀ b k, 0 < k → Apart (s.reg .rsp - 40) 40 b k →
      (framedMem (s.run (saveRegs ++ saveRest))).get b k = (savedMem s).get b k := by
    intro b k hk hb
    rw [← hmem]
    refine get_framedMem ?_ hk
    rwa [hrsp]
  have hnext : Context (s.run (saveRegs ++ saveRest)).mem
      ((s.run (saveRegs ++ saveRest)).reg .rdi) c := by
    rw [hmem, hrdi]
    exact h.of_get (get_savedMem (by decide) hctx (hslot _ _ (by decide) hdi.frameApart))
  have hapart : FrameApart (s.run (saveRegs ++ saveRest)) := by
    rw [FrameApart, hrsp, hrdi]
    exact hdi.frameApart
  refine ⟨framedMem (s.run (saveRegs ++ saveRest)), ?_, ?_, ?_⟩
  · rw [switchContext, State.run_append]
    exact run_restoreContext hnext hapart
  · refine (context_saved hsi.stackApart).of_get (hframe _ _ (by decide) ?_)
    have hpart := hsi.part (i := 0) (k := 40) (by decide) (by decide)
    rwa [BitVec.add_zero] at hpart
  · intro b k hk ha hb
    rw [hframe b k hk hb]
    exact get_savedMem hk ha (hslot b k hk hb)

end Laplus.Tasks
