/-
# `Laplus.Lib.Census` — a machine word that counts a set

A 64-bit counter goes up when somebody enters a set and down when somebody
leaves it.  Modulo `2^64` it always counts the set; it counts it exactly when
the members carry 64-bit names of which one is never given out.
-/
import Mathlib.Data.Set.Card
import Mathlib.Order.Interval.Finset.Nat

namespace Laplus.Lib

variable {α : Type*} {S : Set α} {n : UInt64} {a : α}

/-- The counter `n` counts the set `S`. -/
def Census (S : Set α) (n : UInt64) : Prop := n = UInt64.ofNat S.ncard

theorem census_empty : Census (∅ : Set α) 0 := by
  simp [Census]

/-- Somebody enters. -/
theorem Census.enter [Finite α] (h : Census S n) (ha : a ∉ S) : Census (insert a S) (n + 1) := by
  rw [Census, Set.ncard_insert_of_notMem ha (Set.toFinite S), UInt64.ofNat_add, ← h]
  rfl

/-- Somebody leaves. -/
theorem Census.leave [Finite α] (h : Census S n) (ha : a ∈ S) : Census (S \ {a}) (n - 1) := by
  have hc : (S \ {a}).ncard + 1 = S.ncard := Set.ncard_sdiff_singleton_add_one ha (Set.toFinite S)
  rw [Census, h, ← hc, UInt64.ofNat_add]
  exact UInt64.add_sub_cancel _ _

/-- As long as fewer than `2^64` are in, the counter is exact. -/
theorem Census.toNat (h : Census S n) (hlt : S.ncard < 2 ^ 64) : n.toNat = S.ncard := by
  rw [h, UInt64.toNat_ofNat']
  exact Nat.mod_eq_of_lt hlt

instance finiteUInt64 : Finite UInt64 :=
  Finite.of_injective UInt64.toFin fun _ _ h => UInt64.toFin_inj.mp h

/-- With one name never given out there are fewer than `2^64`. -/
theorem ncard_lt {S : Set UInt64} (h0 : 0 ∉ S) : S.ncard < 2 ^ 64 := by
  have hinj : Function.Injective UInt64.toNat := fun _ _ h => UInt64.toNat_inj.mp h
  have hsub : UInt64.toNat '' S ⊆ (Finset.Ioo 0 (2 ^ 64) : Finset ℕ) := by
    rintro _ ⟨a, ha, rfl⟩
    have hne : a.toNat ≠ 0 := fun h => by
      have hzero : a = 0 := UInt64.toNat_inj.mp h
      exact h0 (hzero ▸ ha)
    have hlt := a.toNat_lt
    simp only [Finset.coe_Ioo, Set.mem_Ioo]
    omega
  calc S.ncard = (UInt64.toNat '' S).ncard := (Set.ncard_image_of_injective S hinj).symm
    _ ≤ ((Finset.Ioo 0 (2 ^ 64) : Finset ℕ) : Set ℕ).ncard :=
        Set.ncard_le_ncard hsub (Finset.finite_toSet _)
    _ = 2 ^ 64 - 0 - 1 := by rw [Set.ncard_coe_finset, Nat.card_Ioo]
    _ < 2 ^ 64 := by omega

end Laplus.Lib
