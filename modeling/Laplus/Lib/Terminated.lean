/-
# `Laplus.Lib.Terminated` — strings in memory

Memory from a pointer on is the list of its bytes.  The functions of `string.h`
run through it until they meet a NUL, and there is none where the list is at its
end before.  Beside each of them stands how many bytes it reads.
-/
import Mathlib.Data.List.Basic

namespace Laplus.Lib

/-- The memory begins with the characters of a string, a NUL behind them. -/
structure IsString (mem s : List UInt8) : Prop where
  eq : ∃ rest, mem = s ++ 0 :: rest
  plain : 0 ∉ s

/-! ## `string.h` -/

/-- `strchr`: how far the character is. -/
def strchr (c : UInt8) : List UInt8 → Option (Option Nat)
  | [] => none
  | x :: mem =>
      if x = c then some (some 0)
      else if x = 0 then some none
      else (strchr c mem).map fun r => r.map (· + 1)

def strchrReads (c : UInt8) : List UInt8 → Nat
  | [] => 0
  | x :: mem => if x = c ∨ x = 0 then 1 else strchrReads c mem + 1

/-- `strcpy`: what it writes.  It reads as many bytes. -/
def strcpy : List UInt8 → Option (List UInt8)
  | [] => none
  | x :: mem => if x = 0 then some [0] else (strcpy mem).map (x :: ·)

/-- `strncpy`: what it writes. -/
def strncpy : Nat → List UInt8 → Option (List UInt8)
  | 0, _ => some []
  | _ + 1, [] => none
  | n + 1, x :: mem =>
      if x = 0 then some (List.replicate (n + 1) 0) else (strncpy n mem).map (x :: ·)

def strncpyReads : Nat → List UInt8 → Nat
  | 0, _ => 0
  | _ + 1, [] => 0
  | n + 1, x :: mem => if x = 0 then 1 else strncpyReads n mem + 1

/-! ## What they do to strings -/

section
variable {c : UInt8} {mem s : List UInt8}

theorem IsString.of_append {a : List UInt8} (h : IsString mem (a ++ s)) :
    IsString (mem.drop a.length) s := by
  obtain ⟨⟨rest, rfl⟩, hplain⟩ := h
  refine ⟨⟨rest, ?_⟩, fun h0 => hplain (List.mem_append_right a h0)⟩
  rw [List.append_assoc, List.drop_left]

/-- The first byte, that of the NUL for the empty string. -/
theorem IsString.getElem {p : Nat} (h : IsString (mem.drop p) s) : mem[p]? = some (s.headD 0) := by
  obtain ⟨⟨rest, hmem⟩, -⟩ := h
  rw [← List.head?_drop, hmem]
  cases s <;> rfl

theorem IsString.getElem_iff {p : Nat} (h : IsString (mem.drop p) s) (hc : c ≠ 0) :
    mem[p]? = some c ↔ s.head? = some c := by
  rw [h.getElem]
  cases s with
  | nil => exact iff_of_false (fun h0 => hc (Option.some.inj h0).symm) fun h0 => by cases h0
  | cons x s => exact Iff.rfl

theorem IsString.getElem_zero {p : Nat} (h : IsString (mem.drop p) s) :
    mem[p]? = some 0 ↔ s = [] := by
  rw [h.getElem]
  cases s with
  | nil => exact iff_of_true rfl rfl
  | cons x s =>
      refine iff_of_false (fun h0 => ?_) (List.cons_ne_nil x s)
      exact h.plain (Option.some.inj h0 ▸ List.mem_cons_self)

/-- No such character. -/
theorem strchr_none (h : IsString mem s) (h0 : c ≠ 0) (hc : c ∉ s) :
    strchr c mem = some none ∧ strchrReads c mem = s.length + 1 := by
  obtain ⟨⟨rest, rfl⟩, hplain⟩ := h
  induction s with
  | nil => exact ⟨by rw [List.nil_append, strchr, if_neg h0.symm, if_pos rfl],
      by rw [List.nil_append, strchrReads, if_pos (.inr rfl), List.length_nil]⟩
  | cons x s ih =>
      have hx : x ≠ c := fun he => hc (he ▸ List.mem_cons_self)
      have hx0 : x ≠ 0 := fun he => hplain (he ▸ List.mem_cons_self)
      obtain ⟨hchr, hreads⟩ := ih (fun hm => hc (List.mem_cons_of_mem x hm)) fun hm =>
        hplain (List.mem_cons_of_mem x hm)
      rw [List.cons_append, strchr, strchrReads, if_neg hx, if_neg hx0, hchr, hreads,
        if_neg (not_or.mpr ⟨hx, hx0⟩), List.length_cons]
      exact ⟨rfl, rfl⟩

/-- The first one. -/
theorem strchr_some (h : 0 ∉ s) (hc : c ∉ s) (rest : List UInt8) :
    strchr c (s ++ c :: rest) = some (some s.length) ∧
      strchrReads c (s ++ c :: rest) = s.length + 1 := by
  induction s with
  | nil => exact ⟨by rw [List.nil_append, strchr, if_pos rfl, List.length_nil],
      by rw [List.nil_append, strchrReads, if_pos (.inl rfl), List.length_nil]⟩
  | cons x s ih =>
      have hx : x ≠ c := fun he => hc (he ▸ List.mem_cons_self)
      have hx0 : x ≠ 0 := fun he => h (he ▸ List.mem_cons_self)
      obtain ⟨hchr, hreads⟩ := ih (fun hm => h (List.mem_cons_of_mem x hm)) fun hm =>
        hc (List.mem_cons_of_mem x hm)
      rw [List.cons_append, strchr, strchrReads, if_neg hx, if_neg hx0, hchr, hreads,
        if_neg (not_or.mpr ⟨hx, hx0⟩), List.length_cons]
      exact ⟨rfl, rfl⟩

theorem strcpy_eq (h : IsString mem s) : strcpy mem = some (s ++ [0]) := by
  obtain ⟨⟨rest, rfl⟩, hplain⟩ := h
  induction s with
  | nil => rfl
  | cons x s ih =>
      have hx0 : x ≠ 0 := fun he => hplain (he ▸ List.mem_cons_self)
      rw [List.cons_append, strcpy, if_neg hx0, ih fun hm => hplain (List.mem_cons_of_mem x hm)]
      rfl

/-- A part of a string. -/
theorem strncpy_eq (h : 0 ∉ s) (rest : List UInt8) :
    strncpy s.length (s ++ rest) = some s ∧ strncpyReads s.length (s ++ rest) = s.length := by
  induction s with
  | nil => exact ⟨by rw [List.length_nil, strncpy], by rw [List.length_nil, strncpyReads]⟩
  | cons x s ih =>
      have hx0 : x ≠ 0 := fun he => h (he ▸ List.mem_cons_self)
      obtain ⟨hcpy, hreads⟩ := ih fun hm => h (List.mem_cons_of_mem x hm)
      rw [List.length_cons, List.cons_append, strncpy, strncpyReads, if_neg hx0, if_neg hx0, hcpy,
        hreads]
      exact ⟨rfl, rfl⟩

end

end Laplus.Lib
