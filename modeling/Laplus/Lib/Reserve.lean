/-
# `Laplus.Lib.Reserve` — blocks of a block

Blocks are cut off a range from a pointer on, which only goes up.  One who gets them cuts up the
last one himself, from a break on; what is left of it when it is too short is lost.  His blocks and
those of the others are apart: none goes into what is left from the break on, and that lies below
the pointer.
-/
import Mathlib.Data.List.Perm.Basic
import Mathlib.Order.CompletePartialOrder
import Mathlib.Order.Interval.Set.Disjoint

namespace Laplus.Lib

variable {α : Type*} [Preorder α] {lo ptr ptr' brk brk' lim : α} {x y : α × α}
  {out out' : List (α × α)}

/-- One block, from one place up to another, ends before the other begins. -/
def Off (x y : α × α) : Prop := x.2 ≤ y.1 ∨ y.2 ≤ x.1

theorem Off.symm (h : Off x y) : Off y x := Or.symm h

theorem Off.disjoint (h : Off x y) : Disjoint (Set.Ico x.1 x.2) (Set.Ico y.1 y.2) := by
  rw [Set.disjoint_left]
  rintro a ⟨hlox, hltx⟩ ⟨hloy, hlty⟩
  rcases h with h | h
  · exact lt_irrefl a (hltx.trans_le (h.trans hloy))
  · exact lt_irrefl a (hlty.trans_le (h.trans hlox))

/-- The blocks lie between `lo` and `ptr`, apart, and none goes into what is left from `brk` up to
`lim`. -/
structure Reserve (lo ptr brk lim : α) (out : List (α × α)) : Prop where
  lower : lo ≤ ptr
  room : brk ≤ lim
  below : lim ≤ ptr
  inside : ∀ x ∈ out, lo ≤ x.1 ∧ x.2 ≤ ptr
  clear : ∀ x ∈ out, x.2 ≤ brk ∨ lim ≤ x.1
  apart : out.Pairwise Off

theorem reserve_nil (hlower : lo ≤ ptr) (hroom : brk ≤ lim) (hbelow : lim ≤ ptr) :
    Reserve lo ptr brk lim [] where
  lower := hlower
  room := hroom
  below := hbelow
  inside := nofun
  clear := nofun
  apart := List.Pairwise.nil

namespace Reserve

/-- The order of the blocks does not matter. -/
theorem perm (h : Reserve lo ptr brk lim out) (hp : out.Perm out') :
    Reserve lo ptr brk lim out' where
  lower := h.lower
  room := h.room
  below := h.below
  inside x hx := h.inside x (hp.mem_iff.mpr hx)
  clear x hx := h.clear x (hp.mem_iff.mpr hx)
  apart := (hp.pairwise_iff fun hoff => hoff.symm).mp h.apart

/-- Another gets a block. -/
theorem grant (h : Reserve lo ptr brk lim out) (hle : ptr ≤ ptr') :
    Reserve lo ptr' brk lim ((ptr, ptr') :: out) where
  lower := h.lower.trans hle
  room := h.room
  below := h.below.trans hle
  inside := List.forall_mem_cons.mpr
    ⟨⟨h.lower, le_refl ptr'⟩, fun x hx => ⟨(h.inside x hx).1, (h.inside x hx).2.trans hle⟩⟩
  clear := List.forall_mem_cons.mpr ⟨.inr h.below, h.clear⟩
  apart := List.pairwise_cons.mpr ⟨fun x hx => .inr (h.inside x hx).2, h.apart⟩

/-- What is left is lost, and a block is got to be cut up. -/
theorem renew (h : Reserve lo ptr brk lim out) (hle : ptr ≤ ptr') :
    Reserve lo ptr' ptr ptr' out where
  lower := h.lower.trans hle
  room := hle
  below := le_refl ptr'
  inside x hx := ⟨(h.inside x hx).1, (h.inside x hx).2.trans hle⟩
  clear x hx := .inl (h.inside x hx).2
  apart := h.apart

/-- A block is cut off, from the break on. -/
theorem cut (h : Reserve lo ptr brk lim out) (hlo : lo ≤ brk) (hle : brk ≤ brk')
    (hlim : brk' ≤ lim) : Reserve lo ptr brk' lim ((brk, brk') :: out) where
  lower := h.lower
  room := hlim
  below := h.below
  inside := List.forall_mem_cons.mpr ⟨⟨hlo, hlim.trans h.below⟩, h.inside⟩
  clear := List.forall_mem_cons.mpr
    ⟨.inl (le_refl brk'), fun x hx => (h.clear x hx).imp_left fun hx => hx.trans hle⟩
  apart := by
    refine List.pairwise_cons.mpr ⟨fun x hx => ?_, h.apart⟩
    rcases h.clear x hx with hx | hx
    · exact .inr hx
    · exact .inl (hlim.trans hx)

end Reserve

end Laplus.Lib
