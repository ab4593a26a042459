/-
# `Laplus.Lib.Transfer` — blocks of memory, moved one after the other

A memory has a cell at some addresses and nothing at the others, where an access
traps.  A transfer reads all of its source before it writes.  When no transfer of a
list reads or writes what one before it has written, the list moves everything at
once.
-/
import Mathlib.Data.List.Basic
import Mathlib.Logic.Function.Basic

namespace Laplus.Lib

/-- What is at each address. -/
abbrev Store (α : Type*) := Int → Option α

/-- Why there is no memory after an access. -/
inductive Trap where
  /-- There is nothing at an address. -/
  | unmapped
  /-- `memcpy` between blocks that overlap: undefined. -/
  | overlap
deriving DecidableEq

/-- A cell is stored. -/
def Store.put {α : Type*} (m : Store α) (a : Int) (x : α) : Except Trap (Store α) :=
  if (m a).isSome then .ok (Function.update m a (some x)) else .error .unmapped

theorem Store.put_ok {α : Type*} {m : Store α} {a : Int} {x : α} (h : (m a).isSome) :
    m.put a x = .ok (Function.update m a (some x)) := if_pos h

/-- A block to be moved. -/
structure Transfer where
  dst : Int
  src : Int
  len : Nat

namespace Transfer

variable {α : Type*}

/-- The addresses that are read are mapped, and so are those that are written. -/
def Mapped (t : Transfer) (m : Store α) : Prop :=
  ∀ i < t.len, (m (t.src + (i : Nat))).isSome ∧ (m (t.dst + (i : Nat))).isSome

instance (t : Transfer) (m : Store α) : Decidable (t.Mapped m) := Nat.decidableBallLT _ _

/-- The memory with the block moved. -/
def apply (t : Transfer) (m : Store α) : Store α := fun a =>
  if t.dst ≤ a ∧ a < t.dst + t.len then m (t.src + (a - t.dst)) else m a

/-- The two blocks have an address in common. -/
def Overlaps (t : Transfer) : Prop := t.dst < t.src + t.len ∧ t.src < t.dst + t.len

instance (t : Transfer) : Decidable t.Overlaps := inferInstanceAs (Decidable (_ ∧ _))

/-- `memmove`. -/
def memmove (m : Store α) (t : Transfer) : Except Trap (Store α) :=
  if t.Mapped m then .ok (t.apply m) else .error .unmapped

/-- `memcpy`. -/
def memcpy (m : Store α) (t : Transfer) : Except Trap (Store α) :=
  if t.Overlaps then .error .overlap else memmove m t

/-- Nothing that `t` writes is read or written by `u`. -/
structure Before (t u : Transfer) : Prop where
  read : ∀ i < t.len, ∀ j < u.len, t.dst + (i : Nat) ≠ u.src + (j : Nat)
  write : ∀ i < t.len, ∀ j < u.len, t.dst + (i : Nat) ≠ u.dst + (j : Nat)

/-- The memory after all the transfers of a list at once. -/
structure AtOnce (ts : List Transfer) (m m' : Store α) : Prop where
  moved : ∀ t ∈ ts, ∀ i < t.len, m' (t.dst + (i : Nat)) = m (t.src + (i : Nat))
  kept : ∀ a, (∀ t ∈ ts, ∀ i < t.len, a ≠ t.dst + (i : Nat)) → m' a = m a

variable {t u : Transfer} {ts : List Transfer} {m m' : Store α} {a : Int}

theorem apply_moved {i : Nat} (hi : i < t.len) : t.apply m (t.dst + i) = m (t.src + i) := by
  rw [apply, if_pos (by omega)]
  congr 1
  omega

theorem apply_kept (ha : ∀ i < t.len, a ≠ t.dst + (i : Nat)) : t.apply m a = m a := by
  refine if_neg fun hin => ha (a - t.dst).toNat (by omega) (by omega)

/-- A transfer maps nothing and unmaps nothing. -/
theorem Mapped.isSome (h : t.Mapped m) (a : Int) : (t.apply m a).isSome = (m a).isSome := by
  by_cases ha : t.dst ≤ a ∧ a < t.dst + t.len
  · obtain ⟨i, hi, rfl⟩ : ∃ i < t.len, a = t.dst + (i : Nat) :=
      ⟨(a - t.dst).toNat, by omega, by omega⟩
    rw [apply_moved hi, (h i hi).1, (h i hi).2]
  · rw [apply, if_neg ha]

theorem Mapped.apply (h : t.Mapped m) (hu : u.Mapped m) : u.Mapped (t.apply m) := by
  intro i hi
  rw [h.isSome, h.isSome]
  exact hu i hi

/-- **One after the other is at once**, when no transfer undoes or reads what another wrote. -/
theorem foldlM_atOnce {move : Store α → Transfer → Except Trap (Store α)}
    (hmove : ∀ t ∈ ts, ∀ m : Store α, t.Mapped m → move m t = .ok (t.apply m))
    (hmapped : ∀ t ∈ ts, t.Mapped m) (hbefore : ts.Pairwise Before) :
    ∃ m', ts.foldlM move m = .ok m' ∧ AtOnce ts m m' := by
  induction ts generalizing m with
  | nil => exact ⟨m, rfl, fun t ht => (List.not_mem_nil ht).elim, fun _ _ => rfl⟩
  | cons t ts ih =>
    obtain ⟨hhead, htail⟩ := List.pairwise_cons.mp hbefore
    have ht := hmapped t List.mem_cons_self
    obtain ⟨m', hm', hmoved, hkept⟩ := ih (m := t.apply m)
      (fun u hu => hmove u (List.mem_cons_of_mem t hu))
      (fun u hu => ht.apply (hmapped u (List.mem_cons_of_mem t hu))) htail
    refine ⟨m', ?_, ?_, fun a ha => ?_⟩
    · rw [List.foldlM_cons, hmove t List.mem_cons_self m ht]
      exact hm'
    · intro u hu i hi
      rcases List.mem_cons.mp hu with rfl | hu
      · -- what the first one wrote stays
        rw [hkept, apply_moved hi]
        exact fun v hv j hj => (hhead v hv).write i hi j hj
      · -- and is not what a later one reads
        rw [hmoved u hu i hi, apply_kept]
        exact fun j hj heq => (hhead u hu).read j hj i hi heq.symm
    · rw [hkept a fun u hu => ha u (List.mem_cons_of_mem t hu),
        apply_kept (ha t List.mem_cons_self)]

/-- Blocks that overlap have a cell in common. -/
theorem Overlaps.common (h : t.Overlaps) :
    ∃ i < t.len, ∃ j < t.len, t.dst + (i : Nat) = t.src + (j : Nat) := by
  obtain ⟨h₁, h₂⟩ := h
  rcases Int.le_total t.dst t.src with hle | hle
  · exact ⟨(t.src - t.dst).toNat, by omega, 0, by omega, by omega⟩
  · exact ⟨0, by omega, (t.dst - t.src).toNat, by omega, by omega⟩

theorem memmove_ok (h : t.Mapped m) : memmove m t = .ok (t.apply m) := if_pos h

theorem memcpy_ok (h : ¬ t.Overlaps) (hm : t.Mapped m) : memcpy m t = .ok (t.apply m) :=
  (if_neg h).trans (memmove_ok hm)

theorem memmove_empty (h : t.len = 0) : memmove m t = .ok m := by
  have hsame : t.apply m = m := funext fun a => apply_kept fun i hi => by omega
  rw [memmove_ok fun i hi => by omega, hsame]

theorem memcpy_empty (h : t.len = 0) : memcpy m t = .ok m := by
  refine (if_neg fun hover => ?_).trans (memmove_empty h)
  rw [Overlaps, h] at hover
  omega

end Transfer

end Laplus.Lib
