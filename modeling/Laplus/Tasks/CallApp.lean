/-
# `Laplus.Tasks.CallApp` — the call of a program (`asmfunc.asm`)

`CallApp` leaves its caller's registers on the stack and goes to a program; the program comes back
to the kernel by `SyscallEntry` and by faults, any number of times, on the stack below what was left;
`ExitApp` returns to the caller of `CallApp`.
-/
import Laplus.Lib.Run
import Laplus.Tasks.Context

namespace Laplus.Tasks

open Lib Lib.Amd64

/-! ## The code -/

/-- The registers that a function gives back to its caller, as `CallApp` pushes them. -/
def calleeSaved : List Reg := [.rbx, .rbp, .r12, .r13, .r14, .r15]

/-- `CallApp`. -/
def callApp : List Instr :=
  (calleeSaved.map .reg).map .push ++ [.store .r9 0 .rsp] ++ [.reg .rdx, .reg .r8].map .push ++
    [.add .rdx 8] ++ [.reg .rdx, .reg .rcx].map .push ++ [.retf]

/-- `SyscallEntry`, up to the call of `GetCurrentTaskOSStackPointer`. -/
def syscallSave : List Instr :=
  [.reg .rbp, .reg .rcx, .reg .r11, .reg .rax].map .push ++
    [.mov .rcx .r10, .and .rax 0x7fffffff, .mov .rbp .rsp, .and .rsp 0xfffffffffffffff0] ++
    [.reg .rax, .reg .rdx].map .push ++ [.cli]

/-- `SyscallEntry`, up to the call of the system call. -/
def syscallStack : List Instr :=
  [.sti, .load .rdx .rsp 0, .store .rax (2 ^ 64 - 16) .rdx,
    .load .rdx .rsp 8, .store .rax (2 ^ 64 - 8) .rdx,
    .lea .rsp .rax (2 ^ 64 - 16), .pop .rdx, .pop .rax, .and .rsp 0xfffffffffffffff0]

/-- `SyscallEntry`, up to the test for `Exit`. -/
def syscallEnd : List Instr := [.mov .rsp .rbp, .pop .rsi]

/-- `SyscallEntry`, up to `sysret`. -/
def syscallReturn : List Instr := [.r11, .rcx, .rbp].map .pop

/-- `ExitApp`. -/
def exitApp : List Instr :=
  [.mov .rsp .rdi, .mov32 .rax .rsi] ++ [.r15, .r14, .r13, .r12, .rbp, .rbx].map .pop ++ [.ret]

/-- `SyscallEntry`, where the program exits. -/
def syscallExit : List Instr := [.mov .rdi .rax, .mov32 .rsi .rdx] ++ exitApp

/-! ## `CallApp` -/

variable {m m' : Memory} {p os a b : Word} {c : Cpu} {s : State}

/-- Where `CallApp` leaves a register, from the stack pointer that it notes on. -/
def savedOffsets : List (Reg × Nat) :=
  [(.r15, 0), (.r14, 8), (.r13, 16), (.r12, 24), (.rbp, 32), (.rbx, 40)]

/-- What the caller of `CallApp` goes on with is on the stack, and `os_stack_ptr_` points to it. -/
structure Held (m : Memory) (p os : Word) (c : Cpu) : Prop where
  pointer : m.load p = os
  saved : ∀ x ∈ savedOffsets, m.field os x.2 = c.reg x.1
  rip : m.field os 48 = c.rip

theorem Held.of_get (h : Held m p os c) (hp : m'.get p 8 = m.get p 8)
    (hos : m'.get os 56 = m.get os 56) : Held m' p os c where
  pointer := (congrArg word hp).trans h.pointer
  saved x hx := by
    have hle : x.2 + 8 ≤ 56 := by
      revert x
      decide
    exact (Memory.load_eq_of_get hos hle).trans (h.saved x hx)
  rip := (Memory.load_eq_of_get hos (i := 48) (by decide)).trans h.rip

/-- The fields that `CallApp` pushes, and the return address. -/
def callFields (s : State) : List (Nat × Word) :=
  [(72, s.reg .rbx), (64, s.reg .rbp), (56, s.reg .r12), (48, s.reg .r13), (40, s.reg .r14),
    (32, s.reg .r15)]

/-- The memory where the registers are left. -/
def heldMem (s : State) (b : Word) : Memory :=
  (s.mem.setFields b (callFields s)).store (s.reg .r9) (b + 32)

/-- The memory of the program, with what `CallApp` pushed at `b`. -/
def callMem (s : State) (b : Word) : Memory :=
  ((heldMem s b).setFields b [(24, s.reg .rdx), (16, s.reg .r8)]).setFields b
    [(8, s.reg .rdx + 8), (0, s.reg .rcx)]

/-- **`CallApp` goes to the program**, on its stack. -/
theorem run_callApp (hsp : s.reg .rsp = b + BitVec.ofNat 64 80) :
    let s' := s.run callApp
    s'.mem = callMem s b ∧ s'.rip = s.reg .rcx ∧ s'.reg .rsp = s.reg .r8 ∧
      (∀ r, r ≠ .rsp → r ≠ .rdx → s'.reg r = s.reg r) ∧
      s'.seg .cs = (s.reg .rdx + 8).setWidth 16 ∧ s'.seg .ss = (s.reg .rdx).setWidth 16 := by
  intro s'
  have hsave : (s.run ((calleeSaved.map .reg).map .push)).exec (.store .r9 0 .rsp) =
      s.stacked (b + BitVec.ofNat 64 32) (heldMem s b) := by
    rw [State.run_pushRegs (n := 32) s calleeSaved (by decide) hsp]
    simp only [State.exec, State.addr, BitVec.add_zero]
    rfl
  have hstack : (((s.stacked (b + BitVec.ofNat 64 32) (heldMem s b)).run
      (([Reg.rdx, .r8].map .reg).map .push)).exec (.add .rdx 8)) =
      (s.set .rdx (s.reg .rdx + 8)).stacked (b + BitVec.ofNat 64 16)
        ((heldMem s b).setFields b [(24, s.reg .rdx), (16, s.reg .r8)]) := by
    rw [State.stacked_pushRegs (a := b) (d := b + BitVec.ofNat 64 32) (n := 16) s [.rdx, .r8] (by decide) _ rfl, State.exec,
      State.stacked_reg (by decide), State.stacked_set (by decide)]
    rfl
  have hcode : ((s.set .rdx (s.reg .rdx + 8)).stacked (b + BitVec.ofNat 64 16)
      ((heldMem s b).setFields b [(24, s.reg .rdx), (16, s.reg .r8)])).run
        (([Reg.rdx, .rcx].map .reg).map .push) =
      (s.set .rdx (s.reg .rdx + 8)).stacked b (callMem s b) := by
    rw [State.stacked_pushRegs (a := b) (d := b + BitVec.ofNat 64 16) (n := 0) _ [.rdx, .rcx]
      (by decide) _ rfl, BitVec.add_zero]
    rfl
  have hrun : s' = ((s.set .rdx (s.reg .rdx + 8)).stacked b (callMem s b)).exec .retf := by
    rw [← hcode, ← hstack, ← hsave]
    simp only [s', callApp, State.run_append, State.run_cons, State.run_nil, List.map]
  have hfield : ∀ i v, (i, v) ∈ [(24, s.reg .rdx), (16, s.reg .r8)] ++ [(8, s.reg .rdx + 8),
      (0, s.reg .rcx)] → (callMem s b).field b i = v := by
    intro i v hi
    rw [callMem, ← Memory.setFields_append]
    refine Memory.field_setFields ?_ hi
    simp only [List.map, List.cons_append, List.nil_append]
    decide
  rw [hrun, State.exec_retf (State.stacked_rsp _ _ _)]
  refine ⟨rfl, hfield 0 (s.reg .rcx) (by simp), ?_, fun r hr hr' => ?_, ?_, ?_⟩
  · simp only [Function.update_self, State.stacked_mem, hfield 16 (s.reg .r8) (by simp)]
  · simp only [State.stacked, State.set, Function.update_of_ne hr, Function.update_of_ne hr']
  · rw [← hfield 8 (s.reg .rdx + 8) (by simp)]
    rfl
  · rw [← hfield 24 (s.reg .rdx) (by simp)]
    rfl

/-- What the caller goes on with is left on the stack. -/
theorem held_callMem (hsp : s.reg .rsp = b + BitVec.ofNat 64 80)
    (hp : Apart b 88 (s.reg .r9) 8) : Held (callMem s b) (s.reg .r9) (b + 32) (returned s) := by
  have hmem : ∀ k a, 0 < k → Apart b 88 a k → (callMem s b).get a k = (heldMem s b).get a k := by
    intro k a hk ha
    rw [callMem, ← Memory.setFields_append]
    refine Memory.get_setFields_of_apart ha hk ?_
    simp only [List.map, List.cons_append, List.nil_append]
    decide
  -- what is pushed for the program lies below
  have hfield : ∀ i, 32 ≤ i → i + 8 ≤ 88 → (callMem s b).field b i =
      (s.mem.setFields b (callFields s)).field b i := by
    intro i hi hi'
    rw [callMem, ← Memory.setFields_append, Memory.field_setFields_of_ne, heldMem,
      Memory.field_store hp hi']
    simp only [List.map, List.cons_append, List.nil_append, List.mem_cons, List.not_mem_nil, or_false,
      Memory.Beside]
    omega
  have hreg : ∀ x ∈ savedOffsets, (32 + x.2, s.reg x.1) ∈ callFields s ∧ x.1 ≠ .rsp ∧ x.2 ≤ 40 := by
    intro x hx
    simp only [savedOffsets, List.mem_cons, List.not_mem_nil, or_false] at hx
    rcases hx with rfl | rfl | rfl | rfl | rfl | rfl <;> simp [callFields]
  constructor
  case pointer =>
    rw [Memory.load, hmem 8 _ (by decide) hp, ← Memory.load, heldMem, Memory.load_store_self]
  case saved =>
    intro x hx
    obtain ⟨hfields, hne, hle⟩ := hreg x hx
    have hother : (returned s).reg x.1 = s.reg x.1 := Function.update_of_ne hne _ _
    rw [show b + 32 = b + BitVec.ofNat 64 32 from rfl, Memory.field_add, hother,
      hfield _ (by omega) (by omega)]
    refine Memory.field_setFields ?_ hfields
    simp only [callFields, List.map]
    decide
  case rip =>
    rw [show b + 32 = b + BitVec.ofNat 64 32 from rfl, Memory.field_add, hfield _ (by decide) (by decide),
      Memory.field_setFields_of_ne]
    · rw [Memory.field, ← hsp]
      rfl
    · simp only [callFields, List.map]
      decide

/-! ## `ExitApp` -/

/-- **`ExitApp` returns from `CallApp`**, with the exit code. -/
theorem run_exitApp (h : Held s.mem p os c) (hdi : s.reg .rdi = os) :
    let s' := s.run exitApp
    (∀ r ∈ calleeSaved, s'.reg r = c.reg r) ∧ s'.reg .rsp = os + BitVec.ofNat 64 56 ∧
      s'.rip = c.rip ∧ s'.reg .rax = ((s.reg .rsi).setWidth 32).setWidth 64 := by
  intro s'
  have hpops := State.run_pops (a := os) (n := 0)
    ((s.exec (.mov .rsp .rdi)).exec (.mov32 .rax .rsi)) [.r15, .r14, .r13, .r12, .rbp, .rbx]
    (by
      rw [BitVec.add_zero, ← hdi]
      rfl)
    (by decide)
  have hrun : s' = ((((s.exec (.mov .rsp .rdi)).exec (.mov32 .rax .rsi)).run
      ([Reg.r15, .r14, .r13, .r12, .rbp, .rbx].map .pop)).exec .ret) := by
    simp only [s', exitApp, State.run_append, State.run_cons, State.run_nil]
  rw [hrun, hpops]
  simp only [State.popped_cons, State.popped_nil, State.exec, State.popWord, State.set, State.top,
    Function.update_self]
  refine ⟨?_, add_assoc os _ _, h.rip, rfl⟩
  intro r hr
  simp only [calleeSaved, List.mem_cons, List.not_mem_nil, or_false] at hr
  rcases hr with rfl | rfl | rfl | rfl | rfl | rfl
  · exact h.saved (.rbx, 40) (by simp [savedOffsets])
  · exact h.saved (.rbp, 32) (by simp [savedOffsets])
  · exact h.saved (.r12, 24) (by simp [savedOffsets])
  · exact h.saved (.r13, 16) (by simp [savedOffsets])
  · exact h.saved (.r14, 8) (by simp [savedOffsets])
  · exact h.saved (.r15, 0) (by simp [savedOffsets])

/-! ## `SyscallEntry` -/

/-- What `InitializeSyscall` writes to `STAR`. -/
def star : Word := 8 <<< 32 ||| (16 ||| 3) <<< 48

def aligned (a : Word) : Word := a &&& 0xfffffffffffffff0

theorem and_not_add_and (a b : Word) : (a &&& ~~~b) + (a &&& b) = a := by
  rw [BitVec.add_eq_or_of_and_eq_zero]
  · ext i hi
    cases h : b[i] <;> simp [h]
  · ext i hi
    cases h : b[i] <;> simp [h]

/-- Less than 16 bytes are left out. -/
theorem aligned_eq (a : Word) : ∃ d ≤ 15, aligned a = a - BitVec.ofNat 64 d := by
  refine ⟨(a &&& 15).toNat, ?_, ?_⟩
  · rw [BitVec.toNat_and]
    exact Nat.and_le_right
  · have hmask : (0xfffffffffffffff0 : Word) = ~~~15 := by decide
    rw [aligned, BitVec.ofNat_toNat, BitVec.setWidth_eq, hmask]
    exact eq_sub_of_add_eq (and_not_add_and a 15)

/-- Where `SyscallEntry` leaves what it needs at the end, on the stack of the program. -/
def entryFrame (s : State) : Word := s.reg .rsp - 32

/-- Where it leaves what it needs for the call. -/
def entryArgs (s : State) : Word := aligned (entryFrame s) - 16

/-- The registers at the call of `GetCurrentTaskOSStackPointer`, but for the stack pointer. -/
def entryReg (s : State) : Reg → Word
  | .rax => s.reg .rax &&& 0x7fffffff
  | .rcx => s.reg .r10
  | .r11 => s.rflags
  | .rbp => entryFrame s
  | r => s.reg r

/-- What `SyscallEntry` pushes for the end. -/
def entryFields (s : State) : List (Nat × Word) :=
  [(24, s.reg .rbp), (16, s.rip), (8, s.rflags), (0, s.reg .rax)]

/-- The memory at the call of `GetCurrentTaskOSStackPointer`. -/
def entryMem (s : State) : Memory :=
  (s.mem.setFields (entryFrame s) (entryFields s)).setFields (entryArgs s)
    [(8, s.reg .rax &&& 0x7fffffff), (0, s.reg .rdx)]

/-- `SyscallEntry`, where it calls `GetCurrentTaskOSStackPointer`. -/
def syscallEntered (entry : Word) (s : State) : State := (s.syscall star entry 0).run syscallSave

theorem run_syscallSave (entry : Word) (s : State) :
    let s' := syscallEntered entry s
    s'.mem = entryMem s ∧ s'.reg = Function.update (entryReg s) .rsp (entryArgs s) := by
  intro s'
  have hsave : (s.syscall star entry 0).run (([Reg.rbp, .rcx, .r11, .rax].map .reg).map .push) =
      (s.syscall star entry 0).stacked (entryFrame s)
        (s.mem.setFields (entryFrame s) (entryFields s)) := by
    rw [State.run_pushRegs (a := entryFrame s) (n := 0) (s.syscall star entry 0)
      [.rbp, .rcx, .r11, .rax] (by decide) (sub_add_cancel (s.reg .rsp) 32).symm, BitVec.add_zero]
    rfl
  have hregs : ((s.syscall star entry 0).stacked (entryFrame s)
      (s.mem.setFields (entryFrame s) (entryFields s))).run
        [.mov .rcx .r10, .and .rax 0x7fffffff, .mov .rbp .rsp, .and .rsp 0xfffffffffffffff0] =
      State.stacked { s.syscall star entry 0 with reg := entryReg s } (aligned (entryFrame s))
        (s.mem.setFields (entryFrame s) (entryFields s)) := by
    refine State.ext ?_ rfl rfl rfl rfl rfl rfl
    funext r
    cases r <;> rfl
  have hargs : (State.stacked { s.syscall star entry 0 with reg := entryReg s }
      (aligned (entryFrame s)) (s.mem.setFields (entryFrame s) (entryFields s))).run
        (([Reg.rax, .rdx].map .reg).map .push) =
      State.stacked { s.syscall star entry 0 with reg := entryReg s } (entryArgs s) (entryMem s) := by
    rw [State.stacked_pushRegs (a := entryArgs s) (d := aligned (entryFrame s)) (n := 0) _ [.rax, .rdx]
      (by decide) _ (sub_add_cancel _ 16).symm, BitVec.add_zero]
    rfl
  have hrun : s' = (State.stacked { s.syscall star entry 0 with reg := entryReg s } (entryArgs s)
      (entryMem s)).exec .cli := by
    rw [← hargs, ← hregs, ← hsave]
    simp only [s', syscallEntered, syscallSave, State.run_append, State.run_cons, State.run_nil,
      List.map]
  rw [hrun]
  exact ⟨rfl, rfl⟩

/-- **The stack of the kernel**: what was pushed is moved below what `CallApp` left. -/
theorem run_syscallStack (hos : s.reg .rax = os) (hsp : s.reg .rsp = a)
    (hapart : Apart (os - 16) 16 a 16) :
    let s' := s.run syscallStack
    s'.mem = s.mem.setFields (os - 16) [(0, s.mem.field a 0), (8, s.mem.field a 8)] ∧
      s'.reg .rsp = aligned os ∧ s'.reg .rdx = s.mem.field a 0 ∧ s'.reg .rax = s.mem.field a 8 ∧
      ∀ r, r ≠ .rsp → r ≠ .rdx → r ≠ .rax → s'.reg r = s.reg r := by
  intro s'
  have hlow : os + BitVec.ofNat 64 (2 ^ 64 - 16) = os - 16 + BitVec.ofNat 64 0 := by bv_omega
  have hhigh : os + BitVec.ofNat 64 (2 ^ 64 - 8) = os - 16 + BitVec.ofNat 64 8 := by bv_omega
  -- the second word is read after the first has been stored
  have hsecond : (s.mem.setFields (os - 16) [(0, s.mem.field a 0)]).field a 8 = s.mem.field a 8 := by
    refine congrArg word (Memory.get_setFields_of_apart (n := 16) ?_ (by decide) ?_)
    · have hpart := hapart.mono (i := 0) (j := 8) (p := 16) (q := 8) (by decide) (by decide) (by decide)
        (by decide)
      rwa [BitVec.add_zero] at hpart
    · simp only [List.map]
      decide
  have hstores : s.run [.sti, .load .rdx .rsp 0, .store .rax (2 ^ 64 - 16) .rdx, .load .rdx .rsp 8,
      .store .rax (2 ^ 64 - 8) .rdx] =
      { (s.set .rdx (s.mem.field a 8)).exec .sti with
        mem := s.mem.setFields (os - 16) [(0, s.mem.field a 0), (8, s.mem.field a 8)] } := by
    have hmem : s.mem.setFields (os - 16) [(0, s.mem.field a 0), (8, s.mem.field a 8)] =
        (s.mem.setFields (os - 16) [(0, s.mem.field a 0)]).setFields (os - 16)
          [(8, (s.mem.setFields (os - 16) [(0, s.mem.field a 0)]).field a 8)] := by
      rw [hsecond, ← Memory.setFields_append]
      rfl
    rw [hmem]
    simp only [State.run_cons, State.run_nil, State.exec, State.set, State.addr, Function.update_apply,
      reduceCtorEq, if_false, if_true, hos, hsp, hlow, hhigh, Function.update_idem]
    exact State.ext (congrArg (Function.update s.reg .rdx) hsecond) rfl rfl rfl rfl rfl rfl
  have hfield : ∀ i v, (i, v) ∈ [(0, s.mem.field a 0), (8, s.mem.field a 8)] →
      (s.mem.setFields (os - 16) [(0, s.mem.field a 0), (8, s.mem.field a 8)]).field (os - 16) i =
        v := by
    intro i v hi
    refine Memory.field_setFields ?_ hi
    simp only [List.map]
    decide
  have hlea : { (s.set .rdx (s.mem.field a 8)).exec .sti with
      mem := s.mem.setFields (os - 16) [(0, s.mem.field a 0), (8, s.mem.field a 8)] }.exec
        (.lea .rsp .rax (2 ^ 64 - 16)) =
      State.stacked ((s.set .rdx (s.mem.field a 8)).exec .sti) (os - 16 + BitVec.ofNat 64 0)
        (s.mem.setFields (os - 16) [(0, s.mem.field a 0), (8, s.mem.field a 8)]) := by
    rw [← hlow, ← hos]
    rfl
  have hpops := State.run_pops (a := os - 16) (n := 0)
    (State.stacked ((s.set .rdx (s.mem.field a 8)).exec .sti) (os - 16 + BitVec.ofNat 64 0)
      (s.mem.setFields (os - 16) [(0, s.mem.field a 0), (8, s.mem.field a 8)])) [.rdx, .rax]
    (State.stacked_rsp _ _ _) (by decide)
  have hrun : s' = ((State.stacked ((s.set .rdx (s.mem.field a 8)).exec .sti)
      (os - 16 + BitVec.ofNat 64 0)
      (s.mem.setFields (os - 16) [(0, s.mem.field a 0), (8, s.mem.field a 8)])).run
        ([Reg.rdx, .rax].map .pop)).exec (.and .rsp 0xfffffffffffffff0) := by
    rw [← hlea, ← hstores]
    simp only [s', syscallStack, State.run_cons, State.run_nil, List.map]
  have htop : os - 16 + BitVec.ofNat 64 (0 + 8 * [Reg.rdx, .rax].length) = os := sub_add_cancel os 16
  rw [hrun, hpops, htop]
  simp only [State.exec, State.set, State.popped_cons, State.popped_nil, Function.update_apply,
    reduceCtorEq, if_false, if_true, State.stacked_mem]
  refine ⟨trivial, rfl, hfield 0 (s.mem.field a 0) (by simp), hfield 8 (s.mem.field a 8) (by simp), ?_⟩
  intro r h1 h2 h3
  simp only [h1, h2, h3, if_false, State.stacked_reg h1]
  exact Function.update_of_ne h2 _ _

/-- What the end of `SyscallEntry` finds on the stack of the program. -/
structure EntryHeld (m : Memory) (s : State) : Prop where
  fields : ∀ x ∈ entryFields s, m.field (entryFrame s) x.1 = x.2

theorem EntryHeld.of_get (h : EntryHeld m s)
    (hget : m'.get (entryFrame s) 32 = m.get (entryFrame s) 32) : EntryHeld m' s where
  fields x hx := by
    have hle : x.1 + 8 ≤ 32 := by
      simp only [entryFields, List.mem_cons, List.not_mem_nil, or_false] at hx
      rcases hx with rfl | rfl | rfl | rfl <;> simp
    exact (Memory.load_eq_of_get hget hle).trans (h.fields x hx)

/-- `SyscallEntry`, where it tests for `Exit`: the number is in `rsi`. -/
theorem run_syscallEnd {t : State} (h : EntryHeld t.mem s) (hbp : t.reg .rbp = entryFrame s) :
    t.run syscallEnd = (t.set .rsi (s.reg .rax)).stacked (entryFrame s + BitVec.ofNat 64 8) t.mem := by
  have hnumber : t.mem.load (entryFrame s) = s.reg .rax := by
    have hfield := h.fields (0, s.reg .rax) (by simp [entryFields])
    rwa [Memory.field, BitVec.add_zero] at hfield
  rw [← hnumber, ← hbp]
  refine State.ext ?_ rfl rfl rfl rfl rfl rfl
  funext r
  cases r <;> rfl

/-- **`sysret`** goes on behind the system call. -/
theorem run_syscallReturn {t : State} (h : EntryHeld t.mem s) (hbp : t.reg .rbp = entryFrame s) :
    let s' := ((t.run syscallEnd).run syscallReturn).sysret star
    s'.rip = s.rip ∧ s'.rflags = State.sysretFlags s.rflags ∧ s'.reg .rbp = s.reg .rbp ∧
      s'.reg .rsp = s.reg .rsp ∧ s'.mem = t.mem ∧
      ∀ r ∈ [Reg.rax, .rdx, .rbx, .r12, .r13, .r14, .r15], s'.reg r = t.reg r := by
  intro s'
  have hpops := State.run_pops (a := entryFrame s) (n := 8)
    ((t.set .rsi (s.reg .rax)).stacked (entryFrame s + BitVec.ofNat 64 8) t.mem) [.r11, .rcx, .rbp]
    (State.stacked_rsp _ _ _) (by decide)
  have htop : entryFrame s + BitVec.ofNat 64 (8 + 8 * [Reg.r11, .rcx, .rbp].length) = s.reg .rsp :=
    sub_add_cancel (s.reg .rsp) 32
  have hrun : s' = (((t.set .rsi (s.reg .rax)).stacked (entryFrame s + BitVec.ofNat 64 8) t.mem).run
      ([Reg.r11, .rcx, .rbp].map .pop)).sysret star := by
    rw [← run_syscallEnd h hbp]
    rfl
  rw [hrun, hpops, htop]
  simp only [State.sysret, State.set, State.popped_cons, State.popped_nil, Function.update_apply,
    reduceCtorEq, if_false, if_true, State.stacked_mem]
  refine ⟨h.fields (16, s.rip) (by simp [entryFields]),
    congrArg _ (h.fields (8, s.rflags) (by simp [entryFields])),
    h.fields (24, s.reg .rbp) (by simp [entryFields]), trivial, trivial, ?_⟩
  intro r hr
  simp only [List.mem_cons, List.not_mem_nil, or_false] at hr
  rcases hr with rfl | rfl | rfl | rfl | rfl | rfl | rfl <;> rfl

/-! ## The run of a program -/

/-- The program runs, or `CallApp` has returned. -/
inductive Phase where
  | program (s : State)
  | back (s : State) (exitCode : BitVec 32)

/-- What happens while a program runs; a state is one that code leaves.

- `syscall`: the program makes a system call; `GetCurrentTaskOSStackPointer` leaves the memory, and
  the function of `syscall_table` the state.
- `kill`: `KillApp`, which goes on from the state. -/
inductive ProgramEvent where
  | compute (state : State)
  | syscall (m : Memory) (state : State)
  | kill (state : State)

/-- `SyscallEntry`, where it calls the function of `syscall_table`. -/
def syscallCalled (entry p : Word) (m : Memory) (s : State) : State :=
  State.run (State.set { syscallEntered entry s with mem := m } .rax (m.load p)) syscallStack

/-- `ExitApp(task.OSStackPointer(), 128 + SIGSEGV)`. -/
def killed (p : Word) (s : State) : State :=
  ((s.set .rdi (s.mem.load p)).set .rsi (128 + 11)).run exitApp

namespace Phase

def step (p : Word) : Phase → ProgramEvent → Phase
  | .program _, .compute state => .program state
  | .program s, .syscall _ state =>
      let t := state.run syscallEnd
      if (t.reg .rsi).setWidth 32 = (0x80000002 : BitVec 32) then
        .back (t.run syscallExit) ((s.reg .rdi).setWidth 32)
      else .program ((t.run syscallReturn).sysret star)
  | .program _, .kill state => .back (killed p state) (128 + 11)
  | .back s exitCode, _ => .back s exitCode

/-- `os_stack_ptr_` and what it points to are left alone. -/
def Keeps (p os : Word) (m m' : Memory) : Prop :=
  m'.get p 8 = m.get p 8 ∧ m'.get os 56 = m.get os 56

/-- A program has its own memory, also for its stack; a function gives back what its caller relies
on, and that of number 2 is `Exit`. -/
def Admits (entry p os : Word) : Phase → ProgramEvent → Prop
  | .program s, .compute state | .program s, .kill state => Keeps p os s.mem state.mem
  | .program s, .syscall m state =>
      let t := syscallCalled entry p m s
      Apart (s.reg .rsp - 64) 64 p 8 ∧ Apart (s.reg .rsp - 64) 64 (os - 16) 72 ∧
      m.get (entryArgs s) 16 = (entryMem s).get (entryArgs s) 16 ∧
      m.get (entryFrame s) 32 = (entryMem s).get (entryFrame s) 32 ∧
      Keeps p os (entryMem s) m ∧
      state.mem.get (entryFrame s) 32 = t.mem.get (entryFrame s) 32 ∧
      Keeps p os t.mem state.mem ∧
      (∀ r ∈ calleeSaved, state.reg r = t.reg r) ∧
      (t.reg .rax = 2 → state.reg .rax = os ∧
        (state.reg .rdx).setWidth 32 = (s.reg .rdi).setWidth 32)
  | .back _ _, _ => True

/-- What is left on the stack is there, or has been given back. -/
def Inv (p os : Word) (c : Cpu) : Phase → Prop
  | .program s => Held s.mem p os c
  | .back s exitCode => (∀ r ∈ calleeSaved, s.reg r = c.reg r) ∧
      s.reg .rsp = os + BitVec.ofNat 64 56 ∧ s.rip = c.rip ∧ s.reg .rax = exitCode.setWidth 64

end Phase

/-- The stack of the program, as far down as `SyscallEntry` writes to it. -/
theorem apart_entry {k : Nat} (h : Apart (s.reg .rsp - 64) 64 b k) (hk : 0 < k) :
    Apart (entryFrame s) 32 b k ∧ Apart (entryArgs s) 16 b k := by
  obtain ⟨d, hd, haligned⟩ := aligned_eq (entryFrame s)
  have hframe : entryFrame s = s.reg .rsp - 64 + BitVec.ofNat 64 32 := by
    rw [entryFrame]
    bv_omega
  have hargs : entryArgs s = s.reg .rsp - 64 + BitVec.ofNat 64 (16 - d) := by
    rw [entryArgs, haligned, entryFrame]
    bv_omega
  constructor
  · have hpart := h.mono (i := 32) (j := 0) (p := 32) (q := k) (by omega) (by omega) (by omega) hk
    rwa [BitVec.add_zero, ← hframe] at hpart
  · have hpart := h.mono (i := 16 - d) (j := 0) (p := 16) (q := k) (by omega) (by omega) (by omega) hk
    rwa [BitVec.add_zero, ← hargs] at hpart

/-- The arguments lie below the frame. -/
theorem apart_entryArgs (s : State) : Apart (entryArgs s) 16 (entryFrame s) 32 := by
  obtain ⟨d, hd, haligned⟩ := aligned_eq (entryFrame s)
  rw [entryArgs, haligned]
  constructor
  · bv_omega
  · bv_omega

/-- `SyscallEntry` writes to the stack of the program only. -/
theorem get_entryMem {k : Nat} (h : Apart (s.reg .rsp - 64) 64 b k) (hk : 0 < k) :
    (entryMem s).get b k = s.mem.get b k := by
  obtain ⟨hframe, hargs⟩ := apart_entry h hk
  rw [entryMem, Memory.get_setFields_of_apart hargs hk, Memory.get_setFields_of_apart hframe hk]
  · simp only [entryFields, List.map]
    decide
  · simp only [List.map]
    decide

theorem entryHeld_entryMem (s : State) : EntryHeld (entryMem s) s where
  fields x hx := by
    have hle : x.1 + 8 ≤ 32 := by
      simp only [entryFields, List.mem_cons, List.not_mem_nil, or_false] at hx
      rcases hx with rfl | rfl | rfl | rfl <;> simp
    have hargs : (entryMem s).get (entryFrame s) 32 =
        (s.mem.setFields (entryFrame s) (entryFields s)).get (entryFrame s) 32 := by
      refine Memory.get_setFields_of_apart (apart_entryArgs s) (by decide) ?_
      simp only [List.map]
      decide
    refine (Memory.load_eq_of_get hargs hle).trans (Memory.field_setFields ?_ hx)
    simp only [entryFields, List.map]
    decide

/-- What a function of `syscall_table` is called with. -/
structure SyscallCalled (os : Word) (s t : State) : Prop where
  stack : t.reg .rsp = aligned os
  number : t.reg .rax = s.reg .rax &&& 0x7fffffff
  args : t.reg .rdi = s.reg .rdi ∧ t.reg .rsi = s.reg .rsi ∧ t.reg .rdx = s.reg .rdx ∧
    t.reg .rcx = s.reg .r10 ∧ t.reg .r8 = s.reg .r8 ∧ t.reg .r9 = s.reg .r9
  rbp : t.reg .rbp = entryFrame s
  saved : ∀ r ∈ [Reg.rbx, .r12, .r13, .r14, .r15], t.reg r = s.reg r

section syscall

variable {entry : Word} {state : State}

/-- **The way to a system call**: the function is called on the stack of the kernel, and both stacks
keep what is left on them. -/
theorem run_syscallCalled (h : Held s.mem p os c) (hos : Apart (os - 16) 16 p 8)
    (he : Phase.Admits entry p os (.program s) (.syscall m state)) :
    SyscallCalled os s (syscallCalled entry p m s) ∧ EntryHeld state.mem s ∧ Held state.mem p os c := by
  obtain ⟨hp, hbelow, hargs, hframe, hkeeps, hframe', hkeeps', -, -⟩ := he
  obtain ⟨hmem, hreg⟩ := run_syscallSave entry s
  obtain ⟨hframeOs, hargsOs⟩ := apart_entry hbelow (by decide)
  have hheld : Held m p os c := by
    refine h.of_get (hkeeps.1.trans (get_entryMem hp (by decide))) (hkeeps.2.trans ?_)
    have hpart := hbelow.mono (i := 0) (j := 16) (p := 64) (q := 56) (by decide) (by decide)
      (by decide) (by decide)
    have hos : os - 16 + BitVec.ofNat 64 16 = os := sub_add_cancel os 16
    rw [BitVec.add_zero, hos] at hpart
    exact get_entryMem hpart (by decide)
  have hslot : ∀ {b : Word} {k : Nat}, 0 < k → Apart b k (os - 16) 72 → Apart (os - 16) 16 b k := by
    intro b k hk hb
    have hpart := hb.mono (i := 0) (j := 0) (p := k) (q := 16) (by omega) (by decide) hk (by decide)
    rw [BitVec.add_zero, BitVec.add_zero] at hpart
    exact hpart.symm
  obtain ⟨htmem, htsp, htdx, htax, hrest⟩ := run_syscallStack (a := entryArgs s)
    (s := State.set { syscallEntered entry s with mem := m } .rax (m.load p))
    (show _ = os by simp only [State.set, Function.update_self, hheld.pointer])
    (by
      simp only [State.set, hreg, Function.update_apply, reduceCtorEq, if_false, if_true])
    (hslot (by decide) hargsOs)
  -- what was pushed last
  have hfield : ∀ i v, (i, v) ∈ [(8, s.reg .rax &&& 0x7fffffff), (0, s.reg .rdx)] → i + 8 ≤ 16 →
      m.field (entryArgs s) i = v := by
    intro i v hi hle
    refine (Memory.load_eq_of_get hargs hle).trans (Memory.field_setFields ?_ hi)
    simp only [List.map]
    decide
  have hother : ∀ r, r ≠ .rsp → r ≠ .rdx → r ≠ .rax →
      (syscallCalled entry p m s).reg r = entryReg s r := by
    intro r h1 h2 h3
    refine (hrest r h1 h2 h3).trans ?_
    simp only [State.set, hreg, Function.update_of_ne h3, Function.update_of_ne h1]
  have hget : ∀ {b : Word} {k : Nat}, 0 < k → Apart (os - 16) 16 b k →
      (syscallCalled entry p m s).mem.get b k = m.get b k := by
    intro b k hk hb
    rw [syscallCalled, htmem]
    refine Memory.get_setFields_of_apart hb hk ?_
    simp only [List.map]
    decide
  have habove : Apart (os - 16) 16 os 56 := by
    have hpart := apart_add (os - 16) (i := 0) (j := 16) (p := 16) (q := 56) (.inl (by decide))
      (by decide) (by decide) (by decide) (by decide)
    have hos : os - 16 + BitVec.ofNat 64 16 = os := sub_add_cancel os 16
    rwa [BitVec.add_zero, hos] at hpart
  refine ⟨⟨htsp, htax.trans (hfield 8 _ (by simp) (by decide)), ?_, ?_, ?_⟩, ?_, ?_⟩
  · refine ⟨hother .rdi ?_ ?_ ?_, hother .rsi ?_ ?_ ?_, htdx.trans (hfield 0 _ (by simp) (by decide)),
      hother .rcx ?_ ?_ ?_, hother .r8 ?_ ?_ ?_, hother .r9 ?_ ?_ ?_⟩ <;> decide
  · exact hother .rbp (by decide) (by decide) (by decide)
  · intro r hr
    simp only [List.mem_cons, List.not_mem_nil, or_false] at hr
    rcases hr with rfl | rfl | rfl | rfl | rfl <;>
      exact hother _ (by decide) (by decide) (by decide)
  · refine (((entryHeld_entryMem s).of_get hframe).of_get ?_).of_get hframe'
    exact hget (by decide) (hslot (by decide) hframeOs)
  · refine (hheld.of_get (hget (by decide) hos) (hget (by decide) habove)).of_get hkeeps'.1 hkeeps'.2

/-- The lower half of a word. -/
theorem and_setWidth (v : Word) (x : BitVec 32) :
    v &&& x.setWidth 64 = (v.setWidth 32 &&& x).setWidth 64 := by
  refine BitVec.eq_of_getLsbD_eq fun i hi => ?_
  by_cases hlow : i < 32
  · simp [hi, hlow]
  · simp [BitVec.getLsbD_of_ge x i (by omega), BitVec.getLsbD_of_ge _ i (Nat.le_of_not_lt hlow)]

/-- The number of `Exit`. -/
theorem number_exit {v : Word} (h : v.setWidth 32 = (0x80000002 : BitVec 32)) :
    v &&& 0x7fffffff = 2 := by
  have hmask : (0x7fffffff : Word) = (0x7fffffff : BitVec 32).setWidth 64 := by decide
  rw [hmask, and_setWidth, h]
  decide

/-- **What is left on the stack is given back once**, whatever the program does. -/
theorem Phase.inv_step {phase : Phase} (hos : Apart (os - 16) 16 p 8) (h : phase.Inv p os c)
    {e : ProgramEvent} (he : phase.Admits entry p os e) : (phase.step p e).Inv p os c := by
  cases phase with
  | back s exitCode => exact h
  | program s =>
      have hheld : Held s.mem p os c := h
      cases e with
      | compute state => exact hheld.of_get he.1 he.2
      | kill state =>
          have hstate : Held state.mem p os c := hheld.of_get he.1 he.2
          exact run_exitApp (s := (state.set .rdi (state.mem.load p)).set .rsi (128 + 11)) hstate
            hstate.pointer
      | syscall m state =>
          obtain ⟨hcalled, hentry, hstate⟩ := run_syscallCalled hheld hos he
          have hexit := he.2.2.2.2.2.2.2.2
          have hbp : state.reg .rbp = entryFrame s :=
            (he.2.2.2.2.2.2.2.1 .rbp (by decide)).trans hcalled.rbp
          have hend := run_syscallEnd hentry hbp
          simp only [Phase.step]
          split
          · rename_i hnumber
            have hsi : (state.run syscallEnd).reg .rsi = s.reg .rax := by
              rw [hend, State.stacked_reg (by decide), State.set]
              simp only [Function.update_self]
            rw [hsi] at hnumber
            obtain ⟨hax, hdx⟩ := hexit (hcalled.number.trans (number_exit hnumber))
            obtain ⟨hsaved, hsp, hrip, hcode⟩ := run_exitApp (s := (state.run syscallEnd).run
              [.mov .rdi .rax, .mov32 .rsi .rdx]) (show Held _ _ os _ by rw [hend]; exact hstate)
              (by rw [hend, ← hax]; rfl)
            rw [← State.run_append] at hsaved hsp hrip hcode
            refine ⟨hsaved, hsp, hrip, hcode.trans ?_⟩
            have hsi' : ((state.run syscallEnd).run [.mov .rdi .rax, .mov32 .rsi .rdx]).reg .rsi =
                ((state.reg .rdx).setWidth 32).setWidth 64 := by
              rw [hend]
              rfl
            rw [hsi', hdx]
            exact congrArg (BitVec.setWidth 64)
              ((BitVec.setWidth_setWidth_of_le _ (by decide)).trans (BitVec.setWidth_eq _))
          · have hmem := (run_syscallReturn hentry hbp).2.2.2.2.1
            rw [← hmem] at hstate
            exact hstate

end syscall

/-- **A program is called like a function.**  However often it comes back to the kernel, by system
calls or by the fault that kills it, `CallApp` returns once to its caller, with the registers that a
function gives back and the exit code.  Each system call runs on the stack of the kernel, below what
`CallApp` left, with the arguments of the program; and `sysret` goes on behind it, with the registers
that a function gives back, the flags and the stack as they were, and the result. -/
theorem call_app (entry : Word) (s : State) (es : List ProgramEvent)
    (hp : Apart (s.reg .rsp - 80) 88 (s.reg .r9) 8)
    (hes : Guarded (Phase.step (s.reg .r9)) (Phase.Admits entry (s.reg .r9) (s.reg .rsp - 48))
      (.program (s.run callApp)) es) :
    let after := run (Phase.step (s.reg .r9)) (.program (s.run callApp))
    ((s.run callApp).rip = s.reg .rcx ∧ (s.run callApp).reg .rsp = s.reg .r8 ∧
      ∀ r, r ≠ .rsp → r ≠ .rdx → (s.run callApp).reg r = s.reg r) ∧
    (∀ s' exitCode, after es = .back s' exitCode → (∀ r ∈ calleeSaved, s'.reg r = s.reg r) ∧
      s'.reg .rsp = s.reg .rsp + 8 ∧ s'.rip = s.top ∧ s'.reg .rax = exitCode.setWidth 64) ∧
    (∀ before m state away t, es = before ++ .syscall m state :: away → after before = .program t →
      SyscallCalled (s.reg .rsp - 48) t (syscallCalled entry (s.reg .r9) m t) ∧
      ∀ t', after (before ++ [.syscall m state]) = .program t' →
        (∀ r ∈ .rsp :: calleeSaved, t'.reg r = t.reg r) ∧ t'.rip = t.rip ∧
        t'.rflags = State.sysretFlags t.rflags ∧ t'.reg .rax = state.reg .rax ∧
        t'.reg .rdx = state.reg .rdx ∧ t'.mem = state.mem) := by
  intro after
  have hsp : s.reg .rsp = s.reg .rsp - 80 + BitVec.ofNat 64 80 := (sub_add_cancel _ _).symm
  obtain ⟨hmem, hrip, hstack, hregs, -⟩ := run_callApp hsp
  have hplace : s.reg .rsp - 80 + 32 = s.reg .rsp - 48 := by bv_omega
  have hheld : Held (s.run callApp).mem (s.reg .r9) (s.reg .rsp - 48) (returned s) := by
    have hcall := held_callMem hsp hp
    rwa [hplace, ← hmem] at hcall
  have hos : Apart (s.reg .rsp - 48 - 16) 16 (s.reg .r9) 8 := by
    have hpart := hp.mono (i := 16) (j := 0) (p := 16) (q := 8) (by decide) (by decide) (by decide)
      (by decide)
    have hlow : s.reg .rsp - 80 + BitVec.ofNat 64 16 = s.reg .rsp - 48 - 16 := by bv_omega
    rwa [BitVec.add_zero, hlow] at hpart
  have hinv : ∀ es, Guarded (Phase.step (s.reg .r9))
      (Phase.Admits entry (s.reg .r9) (s.reg .rsp - 48)) (.program (s.run callApp)) es →
      (after es).Inv (s.reg .r9) (s.reg .rsp - 48) (returned s) := fun es hes =>
    inv_run (Phase.Inv (s.reg .r9) (s.reg .rsp - 48) (returned s))
      (fun (_ : Phase) (_ : ProgramEvent) h he => Phase.inv_step hos h he) hheld hes
  refine ⟨⟨hrip, hstack, hregs⟩, ?_, ?_⟩
  · intro s' exitCode hback
    have hall := hinv es hes
    rw [hback] at hall
    obtain ⟨hsaved, hsp', hrip', hcode⟩ := hall
    refine ⟨fun r hr => (hsaved r hr).trans ?_, ?_, hrip', hcode⟩
    · have hne : r ≠ .rsp := by
        rintro rfl
        exact absurd hr (by decide)
      exact Function.update_of_ne hne _ _
    · rw [hsp']
      bv_omega
  · rintro before m state away t rfl hbefore
    obtain ⟨hgbefore, hgaway⟩ := guarded_append.mp hes
    have hprogram := hinv before hgbefore
    have he : Phase.Admits entry (s.reg .r9) (s.reg .rsp - 48) (after before) (.syscall m state) :=
      hgaway.1
    rw [hbefore] at hprogram he
    obtain ⟨hcalled, hentry, -⟩ := run_syscallCalled hprogram hos he
    refine ⟨hcalled, fun t' ht' => ?_⟩
    have hsaved := he.2.2.2.2.2.2.2.1
    have hbp : state.reg .rbp = entryFrame t := (hsaved .rbp (by decide)).trans hcalled.rbp
    obtain ⟨hrip', hflags, hbp', hsp', hmem', hreturn⟩ := run_syscallReturn hentry hbp
    have hstep : after (before ++ [.syscall m state]) =
        Phase.step (s.reg .r9) (.program t) (.syscall m state) := by
      rw [← hbefore]
      exact run_append _ _ before _
    rw [hstep, Phase.step] at ht'
    split at ht'
    · cases ht'
    · obtain rfl := Phase.program.inj ht'
      refine ⟨?_, hrip', hflags, hreturn .rax (by decide), hreturn .rdx (by decide), hmem'⟩
      have hkept : ∀ r ∈ [Reg.rbx, .r12, .r13, .r14, .r15],
          (((state.run syscallEnd).run syscallReturn).sysret star).reg r = t.reg r := by
        intro r hr
        have hr' : r ∈ [Reg.rax, .rdx, .rbx, .r12, .r13, .r14, .r15] ∧ r ∈ calleeSaved := by
          revert r
          decide
        exact (hreturn r hr'.1).trans ((hsaved r hr'.2).trans (hcalled.saved r hr))
      intro r hr
      simp only [calleeSaved, List.mem_cons, List.not_mem_nil, or_false] at hr
      rcases hr with rfl | rfl | rfl | rfl | rfl | rfl | rfl
      · exact hsp'
      · exact hkept .rbx (by decide)
      · exact hbp'
      · exact hkept .r12 (by decide)
      · exact hkept .r13 (by decide)
      · exact hkept .r14 (by decide)
      · exact hkept .r15 (by decide)

section short

/-- A call of `CallApp`. -/
def shortCaller : State where
  reg
    | .rdx => 3 <<< 3 ||| 3
    | .rcx => 0x400000
    | .r8 => 0x700000
    | .r9 => 0x2000
    | _ => 0x90000
  rip := 0x5000
  rflags := 0x202
  cr3 := 0x1000
  seg _ := 8
  fx _ := 0
  mem _ := 0

/-- The program exits. -/
def shortProgram : State :=
  { shortCaller.run callApp with
    reg
      | .rax => 0x80000002
      | .rdi => 7
      | _ => 0x6ffff8 }

/-- `Exit` returns, and has changed nothing else. -/
def exits (os exitCode : Word) (t : State) : State := (t.set .rax os).set .rdx exitCode

theorem mem_exits (os exitCode : Word) (t : State) : (exits os exitCode t).mem = t.mem := rfl

theorem admits_exits {entry p os : Word} {s : State} (hp : Apart (s.reg .rsp - 64) 64 p 8)
    (hbelow : Apart (s.reg .rsp - 64) 64 (os - 16) 72) :
    Phase.Admits entry p os (.program s) (.syscall (entryMem s)
      (exits os (s.reg .rdi) (syscallCalled entry p (entryMem s) s))) := by
  have hmem := mem_exits os (s.reg .rdi) (syscallCalled entry p (entryMem s) s)
  refine ⟨hp, hbelow, rfl, rfl, ⟨rfl, rfl⟩, by rw [hmem], ⟨by rw [hmem], by rw [hmem]⟩, ?_,
    fun _ => ⟨?_, ?_⟩⟩
  · intro r hr
    have hne : r ≠ .rdx ∧ r ≠ .rax := by
      revert r
      decide
    simp only [exits, State.set, Function.update_of_ne hne.1, Function.update_of_ne hne.2]
  · simp only [exits, State.set, Function.update_apply, reduceCtorEq, if_false, if_true]
  · simp only [exits, State.set, Function.update_self]

def shortProgramRun : List ProgramEvent :=
  [.compute shortProgram, .syscall (entryMem shortProgram)
    (exits (shortCaller.reg .rsp - 48) (shortProgram.reg .rdi)
      (syscallCalled 0x6000 (shortCaller.reg .r9) (entryMem shortProgram) shortProgram))]

theorem guarded_shortProgram :
    Guarded (Phase.step (shortCaller.reg .r9))
      (Phase.Admits 0x6000 (shortCaller.reg .r9) (shortCaller.reg .rsp - 48))
      (.program (shortCaller.run callApp)) shortProgramRun := by
  have hp : Apart (shortProgram.reg .rsp - 64) 64 (shortCaller.reg .r9) 8 := by decide
  have hbelow : Apart (shortProgram.reg .rsp - 64) 64 (shortCaller.reg .rsp - 48 - 16) 72 := by decide
  rw [shortProgramRun, guarded_cons, guarded_cons]
  refine ⟨⟨rfl, rfl⟩, ?_, guarded_nil _ _ _⟩
  exact admits_exits hp hbelow

theorem call_app_short :
    let after := run (Phase.step (shortCaller.reg .r9)) (.program (shortCaller.run callApp))
    ((shortCaller.run callApp).rip = shortCaller.reg .rcx ∧
      (shortCaller.run callApp).reg .rsp = shortCaller.reg .r8 ∧
      ∀ r, r ≠ .rsp → r ≠ .rdx → (shortCaller.run callApp).reg r = shortCaller.reg r) ∧
    (∀ s' exitCode, after shortProgramRun = .back s' exitCode →
      (∀ r ∈ calleeSaved, s'.reg r = shortCaller.reg r) ∧
      s'.reg .rsp = shortCaller.reg .rsp + 8 ∧ s'.rip = shortCaller.top ∧
      s'.reg .rax = exitCode.setWidth 64) ∧
    (∀ before m state away t, shortProgramRun = before ++ .syscall m state :: away →
      after before = .program t →
      SyscallCalled (shortCaller.reg .rsp - 48) t (syscallCalled 0x6000 (shortCaller.reg .r9) m t) ∧
      ∀ t', after (before ++ [.syscall m state]) = .program t' →
        (∀ r ∈ .rsp :: calleeSaved, t'.reg r = t.reg r) ∧ t'.rip = t.rip ∧
        t'.rflags = State.sysretFlags t.rflags ∧ t'.reg .rax = state.reg .rax ∧
        t'.reg .rdx = state.reg .rdx ∧ t'.mem = state.mem) :=
  call_app 0x6000 shortCaller shortProgramRun (by decide) guarded_shortProgram

end short

end Laplus.Tasks
