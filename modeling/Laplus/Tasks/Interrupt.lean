/-
# `Laplus.Tasks.Interrupt` — the timer interrupt (`asmfunc.asm`)

`IntHandlerLAPICTimer` builds a `TaskContext` on its stack, calls `LAPICTimerOnInterrupt`, and
takes the context off again.  The stack is one of its own, so what the processor pushes and what
the handler pushes lie side by side, from the context at `a` up to the top at `a + 752`.
-/
import Laplus.Tasks.Context

namespace Laplus.Tasks

open Lib.Amd64

/-! ## The code -/

/-- The processor takes an interrupt: `rip` and `cs` are those of the gate, and `top` is the end of
the stack, which is that of a page.  A change of the privilege level clears `ss`. -/
def interrupted (s : State) (top rip : Word) (cs : BitVec 16) : State :=
  { s with
    rip
    rflags := s.rflags &&& ~~~0x200
    reg := Function.update s.reg .rsp (top - 40)
    seg := Function.update (Function.update s.seg .ss
      (if s.seg .cs &&& 3 = cs &&& 3 then s.seg .ss else 0)) .cs cs
    mem := s.mem.setFields (top - 40)
      [(32, (s.seg .ss).setWidth 64), (24, s.reg .rsp), (16, s.rflags),
        (8, (s.seg .cs).setWidth 64), (0, s.rip)] }

/-- `IntHandlerLAPICTimer`, up to the registers. -/
def timerFrame : List Instr :=
  [.push (.reg .rbp), .mov .rbp .rsp, .add .rsp (-512), .fxsave .rsp 0]

def timerRegs : List Src :=
  [.reg .r15, .reg .r14, .reg .r13, .reg .r12, .reg .r11, .reg .r10, .reg .r9, .reg .r8,
    .mem .rbp 0, .mem .rbp 0x20,
    .reg .rsi, .reg .rdi, .reg .rdx, .reg .rcx, .reg .rbx, .reg .rax]

def timerSegs : List Instr := [.movFromSeg .rax .fs, .movFromSeg .rbx .gs, .movFromCr3 .rcx]

def timerRest : List Src :=
  [.reg .rbx, .reg .rax, .mem .rbp 0x28, .mem .rbp 0x10, .reg .rbp, .mem .rbp 0x18, .mem .rbp 0x08,
    .reg .rcx]

/-- `IntHandlerLAPICTimer`, up to the call. -/
def timerEntry : List Instr :=
  timerFrame ++ timerRegs.map .push ++ timerSegs ++ timerRest.map .push

def timerLow : List Reg := [.rax, .rbx, .rcx, .rdx, .rdi, .rsi]

def timerHigh : List Reg := [.r8, .r9, .r10, .r11, .r12, .r13, .r14, .r15]

/-- `IntHandlerLAPICTimer`, from the call on. -/
def timerExit : List Instr :=
  [.add .rsp 64] ++ timerLow.map .pop ++ [.add .rsp 16] ++ timerHigh.map .pop ++
    [.fxrstor .rsp 0, .mov .rsp .rbp, .pop .rbp, .iretq]

/-! ## The context on the stack -/

variable {m : Memory} {a b : Word} {c : Cpu} {s : State}

/-- From the context up to the top of the stack. -/
def timerSize : Nat := 752

/-- The memory where the registers are pushed. -/
def fxMem (s : State) (a : Word) : Memory :=
  (s.mem.setFields a [(704, s.reg .rbp)]).put (a + 0xc0) s.fx

/-- The fields that `timerRegs` pushes. -/
def timerFields (s : State) (m : Memory) (a : Word) : List (Nat × Word) :=
  [(184, s.reg .r15), (176, s.reg .r14), (168, s.reg .r13), (160, s.reg .r12), (152, s.reg .r11),
    (144, s.reg .r10), (136, s.reg .r9), (128, s.reg .r8), (120, m.field a 704),
    (112, m.field a 736), (104, s.reg .rsi), (96, s.reg .rdi), (88, s.reg .rdx), (80, s.reg .rcx),
    (72, s.reg .rbx), (64, s.reg .rax)]

theorem run_timerFrame (hsp : s.reg .rsp = a + BitVec.ofNat 64 712) :
    s.run timerFrame =
      { s with
        reg := Function.update (Function.update s.reg .rbp (a + BitVec.ofNat 64 704)) .rsp
          (a + BitVec.ofNat 64 192)
        mem := fxMem s a } := by
  have hdown : s.reg .rsp - 8 = a + BitVec.ofNat 64 704 := by rw [hsp]; bv_omega
  have hfx : a + BitVec.ofNat 64 704 + -512 = a + BitVec.ofNat 64 192 := by bv_omega
  simp only [timerFrame, State.run_cons, State.run_nil, State.exec, State.pushWord, State.set,
    State.value, State.addr, Function.update_self, hdown, BitVec.add_zero,
    Function.update_of_ne (show Reg.rsp ≠ Reg.rbp by decide), hfx]
  rw [Function.update_comm (show Reg.rsp ≠ Reg.rbp by decide), Function.update_idem]
  rfl

/-- The fields that `timerRest` pushes. -/
def timerTop (s : State) (m : Memory) (a : Word) : List (Nat × Word) :=
  [(56, (s.reg .rbx).extractLsb' 16 48 ++ s.seg .gs),
    (48, (s.reg .rax).extractLsb' 16 48 ++ s.seg .fs),
    (40, m.field a 744), (32, m.field a 720), (24, a + BitVec.ofNat 64 704), (16, m.field a 728),
    (8, m.field a 712), (0, s.cr3)]

/-- The memory where the segment registers are pushed. -/
def regsMem (s : State) (a : Word) : Memory :=
  (fxMem s a).setFields a (timerFields s (fxMem s a) a)

/-- The memory at the call. -/
def timerMem (s : State) (a : Word) : Memory :=
  (regsMem s a).setFields a (timerTop s (regsMem s a) a)

/-- What the handler reads above its frame. -/
theorem value_rbp (hrbp : s.reg .rbp = a + BitVec.ofNat 64 704) (i : Nat) :
    s.value (.mem .rbp i) = s.mem.field a (704 + i) := by
  rw [State.value, State.addr, hrbp, Memory.field, BitVec.ofNat_add, add_assoc]

theorem reads_rbp (hrbp : s.reg .rbp = a + BitVec.ofNat 64 704) {n k i : Nat}
    (hk : 0 < k) (hn : n + k ≤ 704) (hi : i ≤ 0x28) : s.Reads a n k (.mem .rbp i) := by
  refine ⟨by decide, ?_⟩
  rw [State.addr, hrbp]
  constructor
  · bv_omega
  · bv_omega

theorem run_timerRegs (hsp : s.reg .rsp = a + BitVec.ofNat 64 192)
    (hrbp : s.reg .rbp = a + BitVec.ofNat 64 704) :
    s.run (timerRegs.map .push) =
      { s with
        reg := Function.update s.reg .rsp (a + BitVec.ofNat 64 64)
        mem := s.mem.setFields a (timerFields s s.mem a) } := by
  have hreads : ∀ x ∈ timerRegs, s.Reads a 64 (8 * timerRegs.length) x := by
    intro x hx
    have hreg : ∀ r, r ≠ .rsp → s.Reads a 64 128 (.reg r) := fun r hr => hr
    have hmem : ∀ i, i ≤ 0x28 → s.Reads a 64 128 (.mem .rbp i) := fun i =>
      reads_rbp hrbp (by decide) (by decide)
    simp only [timerRegs, List.mem_cons, List.not_mem_nil, or_false] at hx
    rcases hx with rfl | rfl | rfl | rfl | rfl | rfl | rfl | rfl | rfl | rfl | rfl | rfl | rfl |
      rfl | rfl | rfl <;>
      first | exact hreg _ (by decide) | exact hmem _ (by decide)
  have hrun := State.run_pushes (n := 64) s timerRegs hsp hreads
  rw [hrun]
  simp only [timerRegs, List.map_cons, List.map_nil, value_rbp hrbp]
  rfl

theorem run_timerSegs (s : State) :
    s.run timerSegs = ((s.set .rax ((s.reg .rax).extractLsb' 16 48 ++ s.seg .fs)).set .rbx
      ((s.reg .rbx).extractLsb' 16 48 ++ s.seg .gs)).set .rcx s.cr3 := rfl

theorem run_timerRest (hsp : s.reg .rsp = a + BitVec.ofNat 64 64)
    (hrbp : s.reg .rbp = a + BitVec.ofNat 64 704) :
    s.run (timerRest.map .push) =
      { s with
        reg := Function.update s.reg .rsp a
        mem := s.mem.setFields a
          [(56, s.reg .rbx), (48, s.reg .rax), (40, s.mem.field a 744), (32, s.mem.field a 720),
            (24, s.reg .rbp), (16, s.mem.field a 728), (8, s.mem.field a 712), (0, s.reg .rcx)] } := by
  have hreads : ∀ x ∈ timerRest, s.Reads a 0 (8 * timerRest.length) x := by
    intro x hx
    have hreg : ∀ r, r ≠ .rsp → s.Reads a 0 64 (.reg r) := fun r hr => hr
    have hmem : ∀ i, i ≤ 0x28 → s.Reads a 0 64 (.mem .rbp i) := fun i =>
      reads_rbp hrbp (by decide) (by decide)
    simp only [timerRest, List.mem_cons, List.not_mem_nil, or_false] at hx
    rcases hx with rfl | rfl | rfl | rfl | rfl | rfl | rfl | rfl <;>
      first | exact hreg _ (by decide) | exact hmem _ (by decide)
  have hrun := State.run_pushes (n := 0) s timerRest hsp hreads
  rw [hrun, BitVec.add_zero]
  simp only [timerRest, List.map_cons, List.map_nil, value_rbp hrbp]
  rfl

/-- **The frame of the handler.** -/
theorem run_timerEntry (hsp : s.reg .rsp = a + BitVec.ofNat 64 712) :
    let s' := s.run timerEntry
    s'.mem = timerMem s a ∧ s'.reg .rsp = a ∧ s'.reg .rbp = a + BitVec.ofNat 64 704 ∧
      s'.seg = s.seg ∧ s'.cr3 = s.cr3 := by
  intro s'
  have hframe := run_timerFrame hsp
  have hregs := run_timerRegs (s := s.run timerFrame) (a := a) (by rw [hframe]; rfl)
    (by rw [hframe]; rfl)
  have hsegs := run_timerSegs ((s.run timerFrame).run (timerRegs.map .push))
  have hrest := run_timerRest (s := ((s.run timerFrame).run (timerRegs.map .push)).run timerSegs)
    (a := a) (by rw [hsegs, hregs]; rfl) (by rw [hsegs, hregs, hframe]; rfl)
  have hrun : s' = (((s.run timerFrame).run (timerRegs.map .push)).run timerSegs).run
      (timerRest.map .push) := by
    simp only [s', timerEntry, State.run_append]
  rw [hrun, hrest, hsegs, hregs, hframe]
  exact ⟨rfl, rfl, rfl, rfl, rfl⟩

/-- What the handler takes off its stack. -/
structure OnStack (m : Memory) (a : Word) (c : Cpu) : Prop where
  context : Context m a c
  rbp : m.field a 704 = c.reg .rbp
  frame : Frame m (a + BitVec.ofNat 64 712) c

theorem Frame.of_fields {m' : Memory} (h : Frame m b c)
    (hfield : ∀ i, i ≤ 32 → m'.field a i = m.field b i) : Frame m' a c where
  rip := (hfield 0 (by decide)).trans h.rip
  cs := (congrArg _ (hfield 8 (by decide))).trans h.cs
  rflags := (hfield 16 (by decide)).trans h.rflags
  rsp := (hfield 24 (by decide)).trans h.rsp
  ss := (congrArg _ (hfield 32 (by decide))).trans h.ss

/-- It is read from the stack up to the top. -/
theorem OnStack.of_get {m' : Memory} (h : OnStack m a c)
    (hget : m'.get a timerSize = m.get a timerSize) : OnStack m' a c := by
  have hfield : ∀ i, i + 8 ≤ timerSize → m'.field a i = m.field a i := fun i hi =>
    Memory.load_eq_of_get hget hi
  refine ⟨h.context.of_get ?_, (hfield 704 (by decide)).trans h.rbp, h.frame.of_fields ?_⟩
  · have hpart := Memory.get_sub hget (i := 0) (k := contextSize) (by decide)
    rwa [BitVec.add_zero] at hpart
  · intro i hi
    rw [Memory.field_add, Memory.field_add]
    refine hfield _ ?_
    rw [timerSize]
    omega

/-- The handler is entered: `c` was interrupted. -/
structure Entered (s : State) (a : Word) (c : Cpu) : Prop where
  rsp : s.reg .rsp = a + BitVec.ofNat 64 712
  reg : ∀ r, r ≠ .rsp → s.reg r = c.reg r
  fs : s.seg .fs = c.seg .fs
  gs : s.seg .gs = c.seg .gs
  cr3 : s.cr3 = c.cr3
  fx : s.fx = c.fx
  frame : Frame s.mem (a + BitVec.ofNat 64 712) c

/-- **The handler is entered at an interrupt.** -/
theorem entered_interrupted (s : State) (a rip : Word) (cs : BitVec 16) :
    Entered (interrupted s (a + BitVec.ofNat 64 timerSize) rip cs) a s.toCpu := by
  have hsp : a + BitVec.ofNat 64 timerSize - 40 = a + BitVec.ofNat 64 712 := by
    rw [timerSize]
    bv_omega
  have hfield : ∀ i v, (i, v) ∈ [(32, (s.seg .ss).setWidth 64), (24, s.reg .rsp), (16, s.rflags),
      (8, (s.seg .cs).setWidth 64), (0, s.rip)] →
      (interrupted s (a + BitVec.ofNat 64 timerSize) rip cs).mem.field (a + BitVec.ofNat 64 712) i =
        v := by
    intro i v hmem
    rw [interrupted, hsp]
    refine Memory.field_setFields ?_ hmem
    simp only [List.map]
    decide
  have hseg : ∀ g, ((s.seg g).setWidth 64).setWidth 16 = s.seg g := fun g =>
    (BitVec.setWidth_setWidth_of_le _ (by decide)).trans (BitVec.setWidth_eq _)
  constructor
  case rsp =>
    have hreg : (interrupted s (a + BitVec.ofNat 64 timerSize) rip cs).reg =
        Function.update s.reg .rsp (a + BitVec.ofNat 64 timerSize - 40) := rfl
    rw [hreg, Function.update_self, hsp]
  case reg => exact fun r hr => Function.update_of_ne hr _ _
  case fs => rfl
  case gs => rfl
  case cr3 => rfl
  case fx => rfl
  case frame =>
    constructor
    case rip => exact hfield 0 _ (by simp)
    case cs =>
      rw [hfield 8 ((s.seg .cs).setWidth 64) (by simp)]
      exact hseg .cs
    case rflags => exact hfield 16 _ (by simp)
    case rsp => exact hfield 24 _ (by simp)
    case ss =>
      rw [hfield 32 ((s.seg .ss).setWidth 64) (by simp)]
      exact hseg .ss

/-- What is above the context. -/
theorem field_fxMem {i : Nat} (hi : 704 ≤ i) (hi' : i < timerSize) :
    (fxMem s a).field a i = (s.mem.setFields a [(704, s.reg .rbp)]).field a i := by
  rw [timerSize] at hi'
  exact Memory.field_put (.inr hi) (by decide) (by omega) (by decide)

theorem field_regsMem {i : Nat} (hi : 704 ≤ i) (hi' : i < timerSize) :
    (regsMem s a).field a i = (fxMem s a).field a i := by
  rw [timerSize] at hi'
  refine Memory.field_setFields_of_ne ?_
  simp only [timerFields, List.map, List.mem_cons, List.not_mem_nil, or_false, Memory.Beside]
  omega

theorem field_timerMem {i : Nat} (hi : 64 ≤ i) (hi' : i < timerSize) :
    (timerMem s a).field a i = (regsMem s a).field a i := by
  rw [timerSize] at hi'
  refine Memory.field_setFields_of_ne ?_
  simp only [timerTop, List.map, List.mem_cons, List.not_mem_nil, or_false, Memory.Beside]
  omega

theorem field_above {i : Nat} (hi : 712 ≤ i) (hi' : i < timerSize) :
    (s.mem.setFields a [(704, s.reg .rbp)]).field a i = s.mem.field a i := by
  rw [timerSize] at hi'
  refine Memory.field_setFields_of_ne ?_
  simp only [List.map, List.mem_cons, List.not_mem_nil, or_false, Memory.Beside]
  omega

/-- What the handler finds above its frame. -/
theorem field_frame {i : Nat} (hi : i ≤ 32) :
    (fxMem s a).field a (712 + i) = s.mem.field (a + BitVec.ofNat 64 712) i := by
  have htop : 712 + i < timerSize := by
    rw [timerSize]
    omega
  rw [Memory.field_add, field_fxMem (by omega) htop, field_above (by omega) htop]

theorem field_rbp : (fxMem s a).field a 704 = s.reg .rbp := by
  rw [field_fxMem (by decide) (by decide)]
  exact Memory.field_setFields (List.pairwise_singleton _ _) (List.mem_singleton.mpr rfl)

theorem field_timerFields {i : Nat} {v : Word} (hi : (i, v) ∈ timerFields s (fxMem s a) a) :
    (regsMem s a).field a i = v := by
  refine Memory.field_setFields ?_ hi
  simp only [timerFields, List.map]
  decide

/-- The state of the coprocessor is not written again. -/
theorem get_fx : (timerMem s a).get (a + 0xc0) 512 = s.fx := by
  have hapart : Apart a 192 (a + 0xc0) 512 := by
    have hpart := apart_add a (i := 0) (j := 0xc0) (p := 192) (q := 512) (.inl (by decide))
      (by decide) (by decide) (by decide) (by decide)
    rwa [BitVec.add_zero] at hpart
  have hfields : ∀ i ∈ (timerFields s (fxMem s a) a).map Prod.fst, i + 8 ≤ 192 := by
    simp only [timerFields, List.map]
    decide
  have htop : ∀ i ∈ (timerTop s (regsMem s a) a).map Prod.fst, i + 8 ≤ 192 := by
    simp only [timerTop, List.map]
    decide
  rw [timerMem, Memory.get_setFields_of_apart hapart (by decide) htop, regsMem,
    Memory.get_setFields_of_apart hapart (by decide) hfields]
  exact Memory.get_put_self (by decide)

theorem field_timerTop {i : Nat} {v : Word} (hi : (i, v) ∈ timerTop s (regsMem s a) a) :
    (timerMem s a).field a i = v := by
  refine Memory.field_setFields ?_ hi
  simp only [timerTop, List.map]
  decide

/-- What the handler pushes of the registers. -/
theorem field_reg (h : Entered s a c) (r : Reg) :
    (timerMem s a).field a (regOffset r) = c.reg r := by
  have hoffset : 64 ≤ regOffset r ∧ regOffset r < timerSize := by cases r <;> decide
  rw [field_timerMem hoffset.1 hoffset.2]
  by_cases hr : r = .rsp
  · subst hr
    rw [field_timerFields (v := (fxMem s a).field a 736) (by simp [timerFields, regOffset])]
    exact (field_frame (i := 24) (by decide)).trans h.frame.rsp
  · rw [← h.reg r hr]
    by_cases hr' : r = .rbp
    · subst hr'
      rw [field_timerFields (v := (fxMem s a).field a 704) (by simp [timerFields, regOffset]),
        field_rbp]
    · refine field_timerFields ?_
      cases r <;> first | exact absurd rfl hr | exact absurd rfl hr' | simp [timerFields, regOffset]

/-- What the handler pushes of the segment registers. -/
theorem field_seg (h : Entered s a c) (g : Seg) :
    ((timerMem s a).field a (segOffset g)).setWidth 16 = c.seg g := by
  have hframe : ∀ i, i ≤ 32 → (regsMem s a).field a (712 + i) =
      s.mem.field (a + BitVec.ofNat 64 712) i := fun i hi =>
    (field_regsMem (by omega) (by rw [timerSize]; omega)).trans (field_frame hi)
  cases g
  case cs =>
    rw [field_timerTop (v := (regsMem s a).field a 720) (by simp [timerTop, segOffset])]
    exact (congrArg _ (hframe 8 (by decide))).trans h.frame.cs
  case ss =>
    rw [field_timerTop (v := (regsMem s a).field a 744) (by simp [timerTop, segOffset])]
    exact (congrArg _ (hframe 32 (by decide))).trans h.frame.ss
  case fs =>
    rw [field_timerTop (v := (s.reg .rax).extractLsb' 16 48 ++ s.seg .fs)
      (by simp [timerTop, segOffset])]
    exact BitVec.setWidth_append_eq_right.trans h.fs
  case gs =>
    rw [field_timerTop (v := (s.reg .rbx).extractLsb' 16 48 ++ s.seg .gs)
      (by simp [timerTop, segOffset])]
    exact BitVec.setWidth_append_eq_right.trans h.gs

/-- **The handler builds the context of what was interrupted.** -/
theorem onStack_timerMem (h : Entered s a c) : OnStack (timerMem s a) a c := by
  have hframe : ∀ i, i ≤ 32 → (regsMem s a).field a (712 + i) =
      s.mem.field (a + BitVec.ofNat 64 712) i := fun i hi =>
    (field_regsMem (by omega) (by rw [timerSize]; omega)).trans (field_frame hi)
  constructor
  case rbp =>
    rw [field_timerMem (by decide) (by decide), field_regsMem (by decide) (by decide), field_rbp]
    exact h.reg .rbp (by decide)
  case frame =>
    refine h.frame.of_fields fun i hi => ?_
    rw [Memory.field_add]
    exact (field_timerMem (by omega) (by rw [timerSize]; omega)).trans (hframe i hi)
  case context =>
    constructor
    case cr3 =>
      rw [field_timerTop (v := s.cr3) (by simp [timerTop])]
      exact h.cr3
    case rip =>
      rw [field_timerTop (v := (regsMem s a).field a 712) (by simp [timerTop])]
      exact (hframe 0 (by decide)).trans h.frame.rip
    case rflags =>
      rw [field_timerTop (v := (regsMem s a).field a 728) (by simp [timerTop])]
      exact (hframe 16 (by decide)).trans h.frame.rflags
    case seg => exact field_seg h
    case reg => exact field_reg h
    case fx => exact get_fx.trans h.fx

/-- The handler writes to its stack only. -/
theorem get_timerMem_of_apart {k : Nat} (h : Apart a timerSize b k) (hk : 0 < k) :
    (timerMem s a).get b k = s.mem.get b k := by
  have hfx : Apart (a + 0xc0) 512 b k := by
    have hpart := h.mono (i := 0xc0) (j := 0) (p := 512) (q := k) (by decide) (by omega)
      (by decide) hk
    rwa [BitVec.add_zero] at hpart
  rw [timerMem, Memory.get_setFields_of_apart h hk, regsMem, Memory.get_setFields_of_apart h hk,
    fxMem, Memory.get_put_of_apart hfx, Memory.get_setFields_of_apart h hk]
  · simp only [List.map]
    decide
  · simp only [timerFields, List.map]
    decide
  · simp only [timerTop, List.map]
    decide

theorem get_interrupted_of_apart {rip : Word} {cs : BitVec 16} {k : Nat}
    (h : Apart a timerSize b k) (hk : 0 < k) :
    (interrupted s (a + BitVec.ofNat 64 timerSize) rip cs).mem.get b k = s.mem.get b k := by
  have hsp : a + BitVec.ofNat 64 timerSize - 40 = a + BitVec.ofNat 64 712 := by
    rw [timerSize]
    bv_omega
  have hframe : Apart (a + BitVec.ofNat 64 712) 40 b k := by
    have hpart := h.mono (i := 712) (j := 0) (p := 40) (q := k) (by decide) (by omega) (by decide) hk
    rwa [BitVec.add_zero] at hpart
  rw [interrupted, hsp]
  refine Memory.get_setFields_of_apart hframe hk ?_
  simp only [List.map]
  decide

/-- **The handler takes its frame off**, and goes on with what was interrupted. -/
theorem run_timerExit (h : OnStack s.mem a c) (hsp : s.reg .rsp = a)
    (hbp : s.reg .rbp = a + BitVec.ofNat 64 704) (hfs : s.seg .fs = c.seg .fs)
    (hgs : s.seg .gs = c.seg .gs) (hcr3 : s.cr3 = c.cr3) :
    s.run timerExit = { c with mem := s.mem } := by
  have hlow := State.run_pops (a := a) (n := 64) (s.exec (.add .rsp 64)) timerLow
    (by rw [← hsp]; rfl) (by decide)
  have hhigh := State.run_pops (a := a) (n := 128)
    (((s.exec (.add .rsp 64)).run (timerLow.map .pop)).exec (.add .rsp 16)) timerHigh
    (by rw [hlow]; exact add_assoc a _ _) (by decide)
  have hrun : s.run timerExit =
      (((((s.exec (.add .rsp 64)).run (timerLow.map .pop)).exec (.add .rsp 16)).run
        (timerHigh.map .pop)).run [.fxrstor .rsp 0, .mov .rsp .rbp, .pop .rbp, .iretq]) := by
    simp only [timerExit, State.run_append, State.run_cons, State.run_nil]
  rw [hrun, hhigh, hlow]
  have hup : a + BitVec.ofNat 64 704 + 8 = a + BitVec.ofNat 64 712 := add_assoc a _ _
  simp only [State.popped_cons, State.popped_nil, timerLow, timerHigh, State.run_cons, State.run_nil,
    State.exec, State.set, State.addr, State.popWord, State.top, Function.update_apply,
    reduceCtorEq, if_false, if_true, hbp, hup, BitVec.add_zero]
  refine State.ext ?_ ?_ h.frame.rflags hcr3 ?_ h.context.fx rfl
  · funext r
    by_cases hr : r = .rsp
    · subst hr
      exact h.frame.rsp
    · by_cases hr' : r = .rbp
      · subst hr'
        exact h.rbp
      · rw [← h.context.reg r]
        cases r <;> first | exact absurd rfl hr | exact absurd rfl hr' | rfl
  · exact (congrArg s.mem.load (add_zero _)).symm.trans h.frame.rip
  · funext g
    cases g
    case cs => exact h.frame.cs
    case ss => exact h.frame.ss
    case fs => exact hfs
    case gs => exact hgs

end Laplus.Tasks
