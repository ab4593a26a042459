/-
# `Laplus.Lib.Striped` — a byte string laid out over a list of blocks

Blocks of `B` cells, a store that gives every block its cells, and a list of
blocks: `Striped B data l bytes` says that the string lies in the blocks of
the list, from the first cell of the first one on, without a gap.  It is kept
by a write behind its end and by every write outside the list, and a read
within one block gives the part of the string that lies there.
-/
import Mathlib.Data.List.Nodup

namespace Laplus.Lib

variable {α β : Type*}

/-- The string lies in the blocks of the list. -/
def Striped (B : Nat) (data : α → Nat → β) (l : List α) (bytes : List β) : Prop :=
  ∀ p v, bytes[p]? = some v → ∃ c, l[p / B]? = some c ∧ data c (p % B) = v

namespace Striped

variable {B : Nat} {data data' : α → Nat → β} {l : List α} {bytes : List β}

theorem nil : Striped B data l [] := fun _ _ h => by cases h

/-- More blocks behind the last change nothing. -/
theorem append (h : Striped B data l bytes) (m : List α) : Striped B data (l ++ m) bytes := by
  intro p v hp
  obtain ⟨c, hc, hv⟩ := h p v hp
  have hlt := (List.getElem?_eq_some_iff.mp hc).1
  exact ⟨c, by rw [List.getElem?_append_left hlt, hc], hv⟩

theorem congr (h : Striped B data l bytes) (hd : ∀ c ∈ l, ∀ o, data' c o = data c o) :
    Striped B data' l bytes := by
  intro p v hp
  obtain ⟨c, hc, hv⟩ := h p v hp
  exact ⟨c, hc, (hd c (List.mem_of_getElem? hc) _).trans hv⟩

/-- The block and the cell of a place of the string. -/
theorem place {j o : Nat} (ho : o < B) : (j * B + o) / B = j ∧ (j * B + o) % B = o := by
  constructor
  · rw [Nat.mul_comm, Nat.mul_add_div (Nat.zero_lt_of_lt ho), Nat.div_eq_of_lt ho, Nat.add_zero]
  · rw [Nat.mul_comm, Nat.mul_add_mod, Nat.mod_eq_of_lt ho]

/-- A write behind the end, within the block that holds the end. -/
theorem write (h : Striped B data l bytes) (hnd : l.Nodup) {j off n : Nat} {c : α} {f : Nat → β}
    (hc : l[j]? = some c) (hlen : bytes.length = j * B + off) (hn : off + n ≤ B)
    (hnew : ∀ i < n, data' c (off + i) = f i)
    (hold : ∀ d o, d ≠ c ∨ o < off → data' d o = data d o) :
    Striped B data' l (bytes ++ (List.range n).map f) := by
  intro p v hp
  by_cases hlt : p < bytes.length
  · rw [List.getElem?_append_left hlt] at hp
    obtain ⟨d, hd, hv⟩ := h p v hp
    refine ⟨d, hd, (hold d _ ?_).trans hv⟩
    by_cases hdc : d = c
    · -- in the block of the end, the place lies before the offset
      have hj : p / B = j :=
        (List.getElem?_inj (List.getElem?_eq_some_iff.mp hd).1 hnd).mp (by rw [hd, hc, hdc])
      have hp := Nat.div_add_mod' p B
      rw [hj] at hp
      exact .inr (by omega)
    · exact .inl hdc
  · obtain ⟨i, rfl⟩ := Nat.exists_eq_add_of_le (Nat.le_of_not_lt hlt)
    rw [List.getElem?_append_right (Nat.le_add_right _ i), Nat.add_sub_cancel_left] at hp
    obtain ⟨hi, rfl⟩ : i < n ∧ f i = v := by
      simpa [List.getElem?_eq_some_iff] using hp
    obtain ⟨hdiv, hmod⟩ := place (j := j) (o := off + i) (B := B) (by omega)
    rw [hlen, Nat.add_assoc, hdiv, hmod]
    exact ⟨c, hc, hnew i hi⟩

end Striped

end Laplus.Lib
