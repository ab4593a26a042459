/-
# `Laplus.Lib.Amd64` — straight-line code of an AMD64 processor

The instructions that the entry code of a kernel is made of: words go between the registers, the
memory and the stack, and `iretq` takes a whole context from it.  Memory is a byte at each
address, addresses wrap, and two ranges are `Apart` when they have no byte in common.

A block that pushes comes to `storeAll` (`run_pushes`), and what was stored is read again where the
places are apart (`load_storeAll`); `run_pops` is the rule of a block that pops.
-/
import Mathlib.Data.BitVec
import Mathlib.Logic.Function.Basic

namespace Laplus.Lib.Amd64

/-! ## Memory -/

abbrev Word := BitVec 64

abbrev Byte := BitVec 8

/-- A byte at each address. -/
abbrev Memory := Word → Byte

/-- The `n` bytes from `a` on, and the `m` bytes from `b` on. -/
def Apart (a : Word) (n : Nat) (b : Word) (m : Nat) : Prop :=
  n ≤ (b - a).toNat ∧ m ≤ (a - b).toNat

instance (a : Word) (n : Nat) (b : Word) (m : Nat) : Decidable (Apart a n b m) :=
  inferInstanceAs (Decidable (_ ∧ _))

/-- The bytes of a word, the lowest one first. -/
def bytes (v : Word) : Fin 8 → Byte := fun i => v.extractLsb' (8 * i) 8

/-- The word of eight bytes. -/
def word (f : Fin 8 → Byte) : Word := f 7 ++ f 6 ++ f 5 ++ f 4 ++ f 3 ++ f 2 ++ f 1 ++ f 0

namespace Memory

/-- The `n` bytes from `a` on. -/
def get (m : Memory) (a : Word) (n : Nat) : Fin n → Byte := fun i => m (a + BitVec.ofNat 64 i)

/-- `n` bytes are written from `a` on. -/
def put (m : Memory) (a : Word) {n : Nat} (f : Fin n → Byte) : Memory := fun b =>
  if h : (b - a).toNat < n then f ⟨(b - a).toNat, h⟩ else m b

def load (m : Memory) (a : Word) : Word := word (m.get a 8)

def store (m : Memory) (a v : Word) : Memory := m.put a (bytes v)

/-- Words are stored one after the other. -/
def storeAll (m : Memory) (l : List (Word × Word)) : Memory :=
  l.foldl (fun m x => m.store x.1 x.2) m

end Memory

variable {a b c d v : Word} {n k l : Nat} {m m' : Memory}

@[simp] theorem word_bytes (v : Word) : word (bytes v) = v := by
  have hjoin : ∀ i k n : Nat, v.extractLsb' (i + k) n ++ v.extractLsb' i k =
      v.extractLsb' i (n + k) := fun _ _ _ =>
    BitVec.extractLsb'_append_extractLsb'_eq_extractLsb' rfl
  have hword : word (bytes v) = v.extractLsb' 56 8 ++ v.extractLsb' 48 8 ++ v.extractLsb' 40 8 ++
      v.extractLsb' 32 8 ++ v.extractLsb' 24 8 ++ v.extractLsb' 16 8 ++ v.extractLsb' 8 8 ++
      v.extractLsb' 0 8 := rfl
  rw [hword, hjoin 48 8, hjoin 40 8, hjoin 32 8, hjoin 24 8, hjoin 16 8, hjoin 8 8, hjoin 0 8]
  exact BitVec.extractLsb'_eq_self

theorem Apart.symm (h : Apart a n b k) : Apart b k a n := ⟨h.2, h.1⟩

/-- Parts of ranges that are apart. -/
theorem Apart.mono (h : Apart a n b k) {i j p q : Nat} (hp : i + p ≤ n) (hq : j + q ≤ k)
    (hp0 : 0 < p) (hq0 : 0 < q) :
    Apart (a + BitVec.ofNat 64 i) p (b + BitVec.ofNat 64 j) q := by
  obtain ⟨hab, hba⟩ := h
  have hn := (b - a).isLt
  have hk := (a - b).isLt
  constructor
  · bv_omega
  · bv_omega

theorem le_sub_ofNat {i j : Nat} (h : i + k ≤ j ∨ j < i) (hi : i < 2 ^ 63) (hj : j < 2 ^ 63)
    (hk : k < 2 ^ 63) : k ≤ (BitVec.ofNat 64 j - BitVec.ofNat 64 i).toNat := by
  have hi' : i % 2 ^ 64 = i := Nat.mod_eq_of_lt (by omega)
  have hj' : j % 2 ^ 64 = j := Nat.mod_eq_of_lt (by omega)
  rw [BitVec.toNat_sub, BitVec.toNat_ofNat, BitVec.toNat_ofNat, hi', hj']
  omega

/-- Parts of a range that does not fill half the memory. -/
theorem apart_add {i j p q : Nat} (a : Word) (h : i + p ≤ j ∨ j + q ≤ i) (hp0 : 0 < p)
    (hq0 : 0 < q) (hi : i + p < 2 ^ 63) (hj : j + q < 2 ^ 63) :
    Apart (a + BitVec.ofNat 64 i) p (a + BitVec.ofNat 64 j) q := by
  constructor
  · rw [add_sub_add_left_eq_sub]
    exact le_sub_ofNat (by omega) (by omega) (by omega) (by omega)
  · rw [add_sub_add_left_eq_sub]
    exact le_sub_ofNat (by omega) (by omega) (by omega) (by omega)

namespace Memory

theorem put_of_le {f : Fin n → Byte} (h : n ≤ (b - a).toNat) : m.put a f b = m b :=
  dif_neg (Nat.not_lt.mpr h)

theorem get_put_self {f : Fin n → Byte} (hn : n ≤ 2 ^ 64) : (m.put a f).get a n = f := by
  funext i
  have hi : (a + BitVec.ofNat 64 i - a).toNat = i := by
    rw [add_sub_cancel_left, BitVec.toNat_ofNat, Nat.mod_eq_of_lt (by omega)]
  simp only [get, put]
  rw [dif_pos (by omega)]
  exact congrArg f (Fin.ext hi)

theorem get_put_of_apart {f : Fin n → Byte} (h : Apart a n b k) : (m.put a f).get b k = m.get b k := by
  obtain ⟨hab, hba⟩ := h
  funext i
  refine put_of_le ?_
  have hi := i.isLt
  bv_omega

/-- A write inside a range. -/
theorem get_put_inside {i : Nat} {f : Fin k → Byte} (hi : i < 2 ^ 63) (hk : k < 2 ^ 63)
    (hn : n < 2 ^ 63) (j : Fin n) :
    (m.put (a + BitVec.ofNat 64 i) f).get a n j =
      if h : i ≤ j.val ∧ j.val < i + k then f ⟨j.val - i, by omega⟩ else m.get a n j := by
  have hj := j.isLt
  have hsub : (a + BitVec.ofNat 64 j.val - (a + BitVec.ofNat 64 i)).toNat =
      (2 ^ 64 - i + j.val) % 2 ^ 64 := by
    rw [add_sub_add_left_eq_sub, BitVec.toNat_sub, BitVec.toNat_ofNat, BitVec.toNat_ofNat,
      Nat.mod_eq_of_lt (show i < 2 ^ 64 by omega), Nat.mod_eq_of_lt (show j.val < 2 ^ 64 by omega)]
  simp only [get, put]
  by_cases h : i ≤ j.val ∧ j.val < i + k
  · have hdiff : (a + BitVec.ofNat 64 j.val - (a + BitVec.ofNat 64 i)).toNat = j.val - i := by
      omega
    rw [dif_pos h, dif_pos (by omega)]
    exact congrArg f (Fin.ext hdiff)
  · rw [dif_neg h, dif_neg (by omega)]

/-- A part of ranges that hold the same. -/
theorem get_sub (h : m'.get b n = m.get a n) {i : Nat} (hk : i + k ≤ n) :
    m'.get (b + BitVec.ofNat 64 i) k = m.get (a + BitVec.ofNat 64 i) k := by
  funext j
  have hj := congrFun h ⟨i + j, by omega⟩
  simp only [get] at hj ⊢
  rwa [add_assoc, add_assoc, ← BitVec.ofNat_add]

theorem load_eq_of_get (h : m'.get b n = m.get a n) {i : Nat} (hi : i + 8 ≤ n) :
    m'.load (b + BitVec.ofNat 64 i) = m.load (a + BitVec.ofNat 64 i) :=
  congrArg word (get_sub h hi)

theorem load_store_self : (m.store a v).load a = v := by
  rw [load, store, get_put_self (by decide), word_bytes]

theorem get_store_of_apart (h : Apart a 8 b k) : (m.store a v).get b k = m.get b k :=
  get_put_of_apart h

theorem load_store_of_apart (h : Apart a 8 b 8) : (m.store a v).load b = m.load b :=
  congrArg word (get_store_of_apart h)

theorem storeAll_cons (x : Word × Word) (ws : List (Word × Word)) :
    m.storeAll (x :: ws) = (m.store x.1 x.2).storeAll ws := rfl

theorem storeAll_append (ws ws' : List (Word × Word)) :
    m.storeAll (ws ++ ws') = (m.storeAll ws).storeAll ws' := List.foldl_append

theorem get_storeAll_of_apart {ws : List (Word × Word)} (h : ∀ x ∈ ws, Apart x.1 8 b k) :
    (m.storeAll ws).get b k = m.get b k := by
  induction ws generalizing m with
  | nil => rfl
  | cons x ws ih =>
      rw [storeAll_cons, ih fun y hy => h y (List.mem_cons_of_mem x hy),
        get_store_of_apart (h x List.mem_cons_self)]

/-- **What was stored is read again**, where all places are apart. -/
theorem load_storeAll {ws : List (Word × Word)} (h : ws.Pairwise fun x y => Apart x.1 8 y.1 8)
    (hmem : (a, v) ∈ ws) : (m.storeAll ws).load a = v := by
  induction ws generalizing m with
  | nil => cases hmem
  | cons x ws ih =>
      obtain ⟨hx, hws⟩ := List.pairwise_cons.mp h
      rcases List.mem_cons.mp hmem with rfl | hmem
      · have hrest : ∀ y ∈ ws, Apart y.1 8 a 8 := fun y hy => (hx y hy).symm
        rw [storeAll_cons, load, get_storeAll_of_apart hrest, ← load, load_store_self]
      · exact ih hws hmem

/-- The fields of a record at `a` are set. -/
def setFields (m : Memory) (a : Word) (l : List (Nat × Word)) : Memory :=
  m.storeAll (l.map fun x => (a + BitVec.ofNat 64 x.1, x.2))

/-- A field of the record at `a`. -/
def field (m : Memory) (a : Word) (i : Nat) : Word := m.load (a + BitVec.ofNat 64 i)

/-- A field of a part of the record. -/
theorem field_add (i j : Nat) : m.field (a + BitVec.ofNat 64 i) j = m.field a (i + j) := by
  rw [field, field, BitVec.ofNat_add, add_assoc]

/-- Two fields without a byte in common, in a record that does not fill half the memory. -/
def Beside (i j : Nat) : Prop := (i + 8 ≤ j ∨ j + 8 ≤ i) ∧ i + 8 < 2 ^ 63 ∧ j + 8 < 2 ^ 63

instance (i j : Nat) : Decidable (Beside i j) := inferInstanceAs (Decidable (_ ∧ _))

theorem Beside.apart {i j : Nat} (h : Beside i j) (a : Word) :
    Apart (a + BitVec.ofNat 64 i) 8 (a + BitVec.ofNat 64 j) 8 :=
  apart_add a h.1 (by decide) (by decide) h.2.1 h.2.2

theorem setFields_append (l l' : List (Nat × Word)) :
    m.setFields a (l ++ l') = (m.setFields a l).setFields a l' := by
  rw [setFields, List.map_append, storeAll_append]
  rfl

theorem field_setFields {l : List (Nat × Word)} (h : (l.map Prod.fst).Pairwise Beside) {i : Nat}
    (hmem : (i, v) ∈ l) : (m.setFields a l).field a i = v := by
  refine load_storeAll ?_ (List.mem_map.mpr ⟨(i, v), hmem, rfl⟩)
  exact List.pairwise_map.mpr ((List.pairwise_map.mp h).imp fun hxy => hxy.apart a)

theorem field_setFields_of_ne {l : List (Nat × Word)} {i : Nat}
    (h : ∀ j ∈ l.map Prod.fst, Beside j i) : (m.setFields a l).field a i = m.field a i := by
  refine congrArg word (get_storeAll_of_apart fun x hx => ?_)
  obtain ⟨y, hy, rfl⟩ := List.mem_map.mp hx
  exact (h y.1 (List.mem_map_of_mem hy)).apart a

theorem get_setFields_of_apart {l : List (Nat × Word)} (h : Apart a n b k) (hk : 0 < k)
    (hl : ∀ i ∈ l.map Prod.fst, i + 8 ≤ n) : (m.setFields a l).get b k = m.get b k := by
  refine get_storeAll_of_apart fun x hx => ?_
  obtain ⟨y, hy, rfl⟩ := List.mem_map.mp hx
  have hpart := h.mono (j := 0) (q := k) (hl y.1 (List.mem_map_of_mem hy)) (by omega) (by decide) hk
  simpa using hpart

/-- A write beside a field. -/
theorem field_put {f : Fin n → Byte} {i j : Nat} (h : i + 8 ≤ j ∨ j + n ≤ i) (hn : 0 < n)
    (hi : i + 8 < 2 ^ 63) (hj : j + n < 2 ^ 63) :
    (m.put (a + BitVec.ofNat 64 j) f).field a i = m.field a i :=
  congrArg word (get_put_of_apart (apart_add a h.symm hn (by decide) hj hi))

/-- A write apart from the record. -/
theorem field_store (h : Apart a n b 8) {i : Nat} (hi : i + 8 ≤ n) :
    (m.store b v).field a i = m.field a i := by
  have hpart := h.mono (j := 0) (q := 8) hi (by decide) (by decide) (by decide)
  rw [BitVec.add_zero] at hpart
  exact load_store_of_apart hpart.symm

end Memory

/-! ## Instructions -/

inductive Reg where
  | rax | rbx | rcx | rdx | rdi | rsi | rsp | rbp
  | r8 | r9 | r10 | r11 | r12 | r13 | r14 | r15
deriving DecidableEq

inductive Seg where
  | cs | ss | fs | gs
deriving DecidableEq

/-- What a processor holds; `fx` is what `fxsave` writes. -/
@[ext] structure Cpu where
  reg : Reg → Word
  rip : Word
  rflags : Word
  cr3 : Word
  seg : Seg → BitVec 16
  fx : Fin 512 → Byte

@[ext] structure State extends Cpu where
  mem : Memory

/-- What is pushed. -/
inductive Src where
  | reg (r : Reg)
  | mem (base : Reg) (disp : Nat)

inductive Instr where
  | mov (dst src : Reg)
  | mov32 (dst src : Reg)
  | store (base : Reg) (disp : Nat) (src : Reg)
  | load (dst base : Reg) (disp : Nat)
  | lea (dst base : Reg) (disp : Nat)
  | add (dst : Reg) (imm : Word)
  | and (dst : Reg) (imm : Word)
  | push (src : Src)
  | pushfq
  | pop (dst : Reg)
  | popMem (base : Reg) (disp : Nat)
  | movFromSeg (dst : Reg) (src : Seg)
  | movToSeg (dst : Seg) (src : Reg)
  | movFromCr3 (dst : Reg)
  | movToCr3 (src : Reg)
  | fxsave (base : Reg) (disp : Nat)
  | fxrstor (base : Reg) (disp : Nat)
  | cli
  | sti
  | ret
  | retf
  | iretq

namespace State

def set (s : State) (r : Reg) (v : Word) : State := { s with reg := Function.update s.reg r v }

/-- The address of an operand in memory. -/
def addr (s : State) (base : Reg) (disp : Nat) : Word := s.reg base + BitVec.ofNat 64 disp

/-- What a push reads. -/
def value (s : State) : Src → Word
  | .reg r => s.reg r
  | .mem base disp => s.mem.load (s.addr base disp)

def pushWord (s : State) (v : Word) : State :=
  { s.set .rsp (s.reg .rsp - 8) with mem := s.mem.store (s.reg .rsp - 8) v }

/-- The word on top of the stack. -/
def top (s : State) : Word := s.mem.load (s.reg .rsp)

def popWord (s : State) : State := s.set .rsp (s.reg .rsp + 8)

/-- One instruction. -/
def exec (s : State) : Instr → State
  | .mov dst src => s.set dst (s.reg src)
  -- the upper half is cleared
  | .mov32 dst src => s.set dst (((s.reg src).setWidth 32).setWidth 64)
  | .store base disp src => { s with mem := s.mem.store (s.addr base disp) (s.reg src) }
  | .load dst base disp => s.set dst (s.mem.load (s.addr base disp))
  | .lea dst base disp => s.set dst (s.addr base disp)
  | .add dst imm => s.set dst (s.reg dst + imm)
  | .and dst imm => s.set dst (s.reg dst &&& imm)
  | .push src => s.pushWord (s.value src)
  | .pushfq => s.pushWord s.rflags
  | .pop dst => s.popWord.set dst s.top
  | .popMem base disp => { s.popWord with mem := s.mem.store (s.addr base disp) s.top }
  -- the upper bits of the register stay
  | .movFromSeg dst src =>
      s.set dst ((s.reg dst).extractLsb' 16 48 ++ s.seg src)
  | .movToSeg dst src => { s with seg := Function.update s.seg dst ((s.reg src).setWidth 16) }
  | .movFromCr3 dst => s.set dst s.cr3
  | .movToCr3 src => { s with cr3 := s.reg src }
  | .fxsave base disp => { s with mem := s.mem.put (s.addr base disp) s.fx }
  | .fxrstor base disp => { s with fx := s.mem.get (s.addr base disp) 512 }
  | .cli => { s with rflags := s.rflags &&& ~~~0x200 }
  | .sti => { s with rflags := s.rflags ||| 0x200 }
  | .ret => { s.popWord with rip := s.top }
  -- to an outer privilege level
  | .retf =>
      let sp := s.reg .rsp
      { s with
        rip := s.mem.load sp
        reg := Function.update s.reg .rsp (s.mem.load (sp + 16))
        seg := Function.update (Function.update s.seg .cs ((s.mem.load (sp + 8)).setWidth 16))
          .ss ((s.mem.load (sp + 24)).setWidth 16) }
  | .iretq =>
      let sp := s.reg .rsp
      { s with
        rip := s.mem.load sp
        rflags := s.mem.load (sp + 16)
        reg := Function.update s.reg .rsp (s.mem.load (sp + 24))
        seg := Function.update (Function.update s.seg .cs ((s.mem.load (sp + 8)).setWidth 16))
          .ss ((s.mem.load (sp + 32)).setWidth 16) }

/-- `syscall`, with the registers `STAR`, `LSTAR` and `FMASK`. -/
def syscall (s : State) (star lstar fmask : Word) : State :=
  { s with
    rip := lstar
    rflags := s.rflags &&& ~~~fmask
    reg := Function.update (Function.update s.reg .rcx s.rip) .r11 s.rflags
    seg := Function.update (Function.update s.seg .cs (star.extractLsb' 32 16 &&& 0xfffc)) .ss
      (star.extractLsb' 32 16 + 8) }

/-- The flags that `sysret` takes over; one that is reserved is always set. -/
def sysretFlags (v : Word) : Word := v &&& 0x3c7fd7 ||| 2

/-- `sysret`, to 64-bit code. -/
def sysret (s : State) (star : Word) : State :=
  { s with
    rip := s.reg .rcx
    rflags := sysretFlags (s.reg .r11)
    seg := Function.update (Function.update s.seg .cs ((star.extractLsb' 48 16 + 16) ||| 3)) .ss
      ((star.extractLsb' 48 16 + 8) ||| 3) }

/-- A block of code. -/
def run (s : State) (code : List Instr) : State := code.foldl exec s

theorem run_nil (s : State) : s.run [] = s := rfl

theorem run_cons (s : State) (i : Instr) (code : List Instr) :
    s.run (i :: code) = (s.exec i).run code := rfl

theorem run_append (s : State) (code code' : List Instr) :
    s.run (code ++ code') = (s.run code).run code' := List.foldl_append

theorem exec_retf {s : State} (hsp : s.reg .rsp = a) :
    s.exec .retf =
      { s with
        rip := s.mem.field a 0
        reg := Function.update s.reg .rsp (s.mem.field a 16)
        seg := Function.update (Function.update s.seg .cs ((s.mem.field a 8).setWidth 16)) .ss
          ((s.mem.field a 24).setWidth 16) } := by
  have hzero : s.mem.field a 0 = s.mem.load a := by rw [Memory.field, BitVec.add_zero]
  subst hsp
  rw [hzero]
  rfl

/-! ## Blocks -/

/-- The places of a block of pushes that goes down to `a`, and what it pushes. -/
def slots (a : Word) (n : Nat) : List Word → List (Word × Word)
  | [] => []
  | v :: vs => (a + BitVec.ofNat 64 (n + 8 * vs.length), v) :: slots a n vs

/-- A push that reads neither the stack pointer nor what the block has pushed. -/
def Reads (s : State) (a : Word) (n k : Nat) : Src → Prop
  | .reg r => r ≠ .rsp
  | .mem base disp => base ≠ .rsp ∧ Apart (a + BitVec.ofNat 64 n) k (s.addr base disp) 8

theorem Reads.mono {s : State} {k k' : Nat} {x : Src} (h : s.Reads a n k x) (hk : k' ≤ k) :
    s.Reads a n k' x := by
  cases x with
  | reg r => exact h
  | mem base disp => exact ⟨h.1, hk.trans h.2.1, h.2.2⟩

/-- A push leaves what the next ones read. -/
theorem value_pushWord {s : State} {x : Src} (hx : s.Reads a n (8 * k + 8) x)
    (hsp : s.reg .rsp - 8 = a + BitVec.ofNat 64 (n + 8 * k)) :
    (s.pushWord v).value x = s.value x := by
  cases x with
  | reg r => exact Function.update_of_ne hx _ _
  | mem base disp =>
      obtain ⟨hbase, hapart⟩ := hx
      have haddr : (s.pushWord v).addr base disp = s.addr base disp := by
        simp only [addr, pushWord, set, Function.update_of_ne hbase]
      have hslot : Apart (s.reg .rsp - 8) 8 (s.addr base disp) 8 := by
        have hmono := hapart.mono (i := 8 * k) (j := 0) (p := 8) (q := 8) (by omega) (by omega)
          (by omega) (by omega)
        rw [add_assoc, ← BitVec.ofNat_add, ← hsp] at hmono
        simpa using hmono
      rw [value, haddr]
      exact Memory.load_store_of_apart hslot

theorem reads_pushWord {s : State} {x : Src} (h : s.Reads a n k x) :
    (s.pushWord v).Reads a n k x := by
  cases x with
  | reg r => exact h
  | mem base disp =>
      refine ⟨h.1, ?_⟩
      simp only [addr, pushWord, set, Function.update_of_ne h.1]
      exact h.2

/-- **A block of pushes.** -/
theorem run_pushes (s : State) (l : List Src)
    (hsp : s.reg .rsp = a + BitVec.ofNat 64 (n + 8 * l.length))
    (hreads : ∀ x ∈ l, s.Reads a n (8 * l.length) x) :
    s.run (l.map .push) =
      { s with
        reg := Function.update s.reg .rsp (a + BitVec.ofNat 64 n)
        mem := s.mem.storeAll (slots a n (l.map s.value)) } := by
  induction l generalizing s with
  | nil =>
      rw [List.length_nil, Nat.mul_zero, Nat.add_zero] at hsp
      rw [List.map_nil, run_nil, ← hsp, Function.update_eq_self]
      rfl
  | cons x l ih =>
      have hdown : s.reg .rsp - 8 = a + BitVec.ofNat 64 (n + 8 * l.length) := by
        rw [hsp, List.length_cons]
        bv_omega
      have hkeep : ∀ y ∈ l, s.Reads a n (8 * l.length + 8) y := fun y hy =>
        hreads y (List.mem_cons_of_mem x hy)
      have hvals : l.map (s.pushWord (s.value x)).value = l.map s.value :=
        List.map_congr_left fun y hy => value_pushWord (hkeep y hy) hdown
      have hsp' : (s.pushWord (s.value x)).reg .rsp = a + BitVec.ofNat 64 (n + 8 * l.length) := by
        rw [← hdown]
        exact Function.update_self Reg.rsp (s.reg .rsp - 8) s.reg
      have hnext := ih (s.pushWord (s.value x)) hsp' fun y hy =>
        reads_pushWord ((hkeep y hy).mono (Nat.le_add_right _ _))
      rw [List.map_cons, run_cons, exec, hnext, hvals]
      simp only [pushWord, set, hdown, Function.update_idem, List.map_cons, slots,
        Memory.storeAll_cons, List.length_map]

/-- The stack pointer and the memory, where the rest stays. -/
def stacked (s : State) (sp : Word) (m : Memory) : State :=
  { s with reg := Function.update s.reg .rsp sp, mem := m }

@[simp] theorem stacked_rsp (s : State) (sp : Word) (m : Memory) : (s.stacked sp m).reg .rsp = sp := by
  simp only [stacked, Function.update_self]

theorem stacked_reg {s : State} {r : Reg} (hr : r ≠ .rsp) (sp : Word) (m : Memory) :
    (s.stacked sp m).reg r = s.reg r := Function.update_of_ne hr _ _

@[simp] theorem stacked_mem (s : State) (sp : Word) (m : Memory) : (s.stacked sp m).mem = m := rfl

@[simp] theorem stacked_stacked (s : State) (sp sp' : Word) (m m' : Memory) :
    (s.stacked sp m).stacked sp' m' = s.stacked sp' m' := by
  simp only [stacked, Function.update_idem]

/-- A register is set beside the stack pointer. -/
theorem stacked_set {s : State} {r : Reg} (hr : r ≠ .rsp) (sp : Word) (m : Memory) :
    (s.stacked sp m).set r v = (s.set r v).stacked sp m := by
  simp only [stacked, set, Function.update_comm hr]

/-- **A block that pushes registers.** -/
theorem run_pushRegs (s : State) (l : List Reg) (hl : .rsp ∉ l)
    (hsp : s.reg .rsp = a + BitVec.ofNat 64 (n + 8 * l.length)) :
    s.run ((l.map .reg).map .push) =
      s.stacked (a + BitVec.ofNat 64 n) (s.mem.storeAll (slots a n (l.map s.reg))) := by
  have hreads : ∀ x ∈ l.map .reg, s.Reads a n (8 * (l.map Src.reg).length) x := by
    intro x hx
    obtain ⟨r, hr, rfl⟩ := List.mem_map.mp hx
    exact fun heq => hl (heq ▸ hr)
  have hvalues : (l.map Src.reg).map s.value = l.map s.reg := List.map_map
  rw [run_pushes s (l.map .reg) (by rwa [List.length_map]) hreads, hvalues]
  rfl

theorem stacked_pushRegs (s : State) (l : List Reg) (hl : .rsp ∉ l) (m : Memory)
    (hsp : d = a + BitVec.ofNat 64 (n + 8 * l.length)) :
    (s.stacked d m).run ((l.map .reg).map .push) =
      s.stacked (a + BitVec.ofNat 64 n) (m.storeAll (slots a n (l.map s.reg))) := by
  have hvalues : l.map (s.stacked d m).reg = l.map s.reg :=
    List.map_congr_left fun r hr => stacked_reg (fun heq => hl (heq ▸ hr)) d m
  rw [run_pushRegs (s.stacked d m) l hl ((stacked_rsp s d m).trans hsp), stacked_stacked, hvalues]
  rfl

/-- The registers after a block of pops. -/
def popped (mem : Memory) : Word → List Reg → (Reg → Word) → Reg → Word
  | _, [], reg => reg
  | sp, r :: l, reg => popped mem (sp + 8) l (Function.update reg r (mem.load sp))

theorem popped_nil (mem : Memory) (sp : Word) (reg : Reg → Word) : popped mem sp [] reg = reg := rfl

/-- A pop takes a field off a record on the stack. -/
theorem popped_cons (mem : Memory) (r : Reg) (l : List Reg) (reg : Reg → Word) :
    popped mem (a + BitVec.ofNat 64 n) (r :: l) reg =
      popped mem (a + BitVec.ofNat 64 (n + 8)) l (Function.update reg r (mem.field a n)) := by
  rw [popped, BitVec.ofNat_add, ← add_assoc]
  rfl

theorem popped_update (mem : Memory) {r : Reg} {l : List Reg} (hr : r ∉ l) (sp : Word)
    (reg : Reg → Word) :
    popped mem sp l (Function.update reg r v) = Function.update (popped mem sp l reg) r v := by
  induction l generalizing sp reg with
  | nil => rfl
  | cons x l ih =>
      obtain ⟨hx, hl⟩ := not_or.mp fun h => hr (List.mem_cons.mpr h)
      rw [popped, Function.update_comm hx, ih hl]
      rfl

/-- **A block of pops.** -/
theorem run_pops (s : State) (l : List Reg) (hsp : s.reg .rsp = a + BitVec.ofNat 64 n)
    (hl : .rsp ∉ l) :
    s.run (l.map .pop) =
      { s with
        reg := Function.update (popped s.mem (a + BitVec.ofNat 64 n) l s.reg) .rsp
          (a + BitVec.ofNat 64 (n + 8 * l.length)) } := by
  induction l generalizing s n with
  | nil =>
      rw [List.length_nil, Nat.mul_zero, Nat.add_zero, popped, ← hsp, Function.update_eq_self]
      rfl
  | cons x l ih =>
      obtain ⟨hx, hl⟩ := not_or.mp fun h => hl (List.mem_cons.mpr h)
      have hup : a + BitVec.ofNat 64 n + 8 = a + BitVec.ofNat 64 (n + 8) := by
        rw [BitVec.ofNat_add, ← add_assoc]
        rfl
      have hsp' : (s.exec (.pop x)).reg .rsp = a + BitVec.ofNat 64 (n + 8) := by
        simp only [exec, popWord, set, Function.update_of_ne hx, Function.update_self, hsp, hup]
      have hlen : n + 8 + 8 * l.length = n + 8 * (x :: l).length := by
        rw [List.length_cons]
        omega
      rw [List.map_cons, run_cons, ih _ hsp' hl, hlen, popped_cons]
      simp only [exec, popWord, set, top, hsp, Memory.field]
      rw [Function.update_comm hx, popped_update s.mem hl, Function.update_idem]

end State

end Laplus.Lib.Amd64
