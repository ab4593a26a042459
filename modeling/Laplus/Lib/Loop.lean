/-
# `Laplus.Lib.Loop` — loops that may end, fault or go on for ever

The body of a loop takes a state to what a round comes to: the loop is left with
a result, an access faults, or there is another round.  A loop that neither
yields nor faults is one that hangs.
-/
import Mathlib.Data.Nat.Init

namespace Laplus.Lib

/-- What a round of a loop comes to. -/
inductive Round (σ α : Type*) where
  | done (r : α)
  | fault
  | again (s : σ)

variable {σ α : Type*} {round : σ → Round σ α} {s t : σ} {r r' : α}

/-- So many rounds, or as many as there are. -/
def rounds (round : σ → Round σ α) : Nat → σ → Round σ α
  | 0, s => .again s
  | n + 1, s =>
      match round s with
      | .again t => rounds round n t
      | .done r => .done r
      | .fault => .fault

/-- The loop is left, with a result. -/
def Yields (round : σ → Round σ α) (s : σ) (r : α) : Prop := ∃ n, rounds round n s = .done r

/-- The loop comes to an access that faults. -/
def Faults (round : σ → Round σ α) (s : σ) : Prop := ∃ n, rounds round n s = .fault

/-- The loop is left. -/
def Ends (round : σ → Round σ α) (s : σ) : Prop := ∃ r, Yields round s r

/-! ## One round -/

theorem rounds_done (h : round s = .done r) (n : Nat) : rounds round (n + 1) s = .done r := by
  rw [rounds, h]

theorem rounds_fault (h : round s = .fault) (n : Nat) : rounds round (n + 1) s = .fault := by
  rw [rounds, h]

theorem rounds_again (h : round s = .again t) (n : Nat) :
    rounds round (n + 1) s = rounds round n t := by
  rw [rounds, h]

theorem Yields.of_done (h : round s = .done r) : Yields round s r := ⟨1, rounds_done h 0⟩

theorem Faults.of_fault (h : round s = .fault) : Faults round s := ⟨1, rounds_fault h 0⟩

/-- A loop that goes on yields what the next round yields. -/
theorem yields_again (h : round s = .again t) : Yields round s r ↔ Yields round t r := by
  constructor
  · rintro ⟨_ | n, hn⟩
    · cases hn
    · exact ⟨n, rounds_again h n ▸ hn⟩
  · rintro ⟨n, hn⟩
    exact ⟨n + 1, (rounds_again h n).trans hn⟩

theorem faults_again (h : round s = .again t) : Faults round s ↔ Faults round t := by
  constructor
  · rintro ⟨_ | n, hn⟩
    · cases hn
    · exact ⟨n, rounds_again h n ▸ hn⟩
  · rintro ⟨n, hn⟩
    exact ⟨n + 1, (rounds_again h n).trans hn⟩

theorem ends_again (h : round s = .again t) : Ends round s ↔ Ends round t :=
  exists_congr fun _ => yields_again h

theorem not_faults_of_done (h : round s = .done r) : ¬ Faults round s := by
  rintro ⟨_ | n, hn⟩
  · cases hn
  · rw [rounds_done h] at hn
    cases hn

theorem not_ends_of_fault (h : round s = .fault) : ¬ Ends round s := by
  rintro ⟨r, _ | n, hn⟩
  · cases hn
  · rw [rounds_fault h] at hn
    cases hn

theorem Yields.eq_of_done (h : Yields round s r) (hd : round s = .done r') : r = r' := by
  obtain ⟨_ | n, hn⟩ := h
  · cases hn
  · rw [rounds_done hd] at hn
    cases hn
    rfl

/-! ## Whole runs -/

/-- **One result.** -/
theorem Yields.unique (h : Yields round s r) (h' : Yields round s r') : r = r' := by
  obtain ⟨n, hn⟩ := h
  induction n generalizing s with
  | zero => cases hn
  | succ n ih =>
      cases hs : round s with
      | done r₀ => rw [Yields.eq_of_done ⟨n + 1, hn⟩ hs, h'.eq_of_done hs]
      | fault => exact absurd ⟨r', h'⟩ (not_ends_of_fault hs)
      | again t => exact ih ((yields_again hs).mp h') (rounds_again hs n ▸ hn)

/-- A loop that faults is not left. -/
theorem Faults.not_ends (h : Faults round s) : ¬ Ends round s := by
  obtain ⟨n, hn⟩ := h
  induction n generalizing s with
  | zero => cases hn
  | succ n ih =>
      cases hs : round s with
      | done r => exact absurd ⟨n + 1, hn⟩ (not_faults_of_done hs)
      | fault => exact not_ends_of_fault hs
      | again t => exact fun h => ih (rounds_again hs n ▸ hn) ((ends_again hs).mp h)

/-- **The invariant rule.** -/
theorem Yields.inv (I : σ → Prop) (hstep : ∀ s t, I s → round s = .again t → I t) {Q : α → Prop}
    (hdone : ∀ s r, I s → round s = .done r → Q r) (h : Yields round s r) (hs : I s) : Q r := by
  obtain ⟨n, hn⟩ := h
  induction n generalizing s with
  | zero => cases hn
  | succ n ih =>
      cases hr : round s with
      | done r₀ =>
          rw [rounds_done hr] at hn
          cases hn
          exact hdone s r hs hr
      | fault =>
          rw [rounds_fault hr] at hn
          cases hn
      | again t => exact ih (hstep s t hs hr) (rounds_again hr n ▸ hn)

/-- More rounds do not change the result. -/
theorem rounds_mono {n m : Nat} (h : rounds round n s = .done r) (hnm : n ≤ m) :
    rounds round m s = .done r := by
  induction n generalizing s m with
  | zero => cases h
  | succ n ih =>
      obtain ⟨m, rfl⟩ : ∃ k, m = k + 1 := ⟨m - 1, by omega⟩
      cases hr : round s with
      | done r₀ => rwa [rounds_done hr] at h ⊢
      | fault => rw [rounds_fault hr] at h; cases h
      | again t =>
          rw [rounds_again hr] at h ⊢
          exact ih h (Nat.le_of_succ_le_succ hnm)

/-- **The hang rule.**  Rounds that stay among states of which none is the last go on for ever. -/
theorem hangs (I : σ → Prop) (h : ∀ s, I s → ∃ t, I t ∧ round s = .again t) (hs : I s) :
    ¬ Ends round s ∧ ¬ Faults round s := by
  have hgo : ∀ n s, I s → ∃ t, rounds round n s = .again t := fun n => by
    induction n with
    | zero => exact fun s _ => ⟨s, rfl⟩
    | succ n ih =>
        intro s hs
        obtain ⟨t, ht, hr⟩ := h s hs
        rw [rounds_again hr]
        exact ih t ht
  constructor
  · rintro ⟨r, n, hn⟩
    obtain ⟨t, ht⟩ := hgo n s hs
    rw [ht] at hn
    cases hn
  · rintro ⟨n, hn⟩
    obtain ⟨t, ht⟩ := hgo n s hs
    rw [ht] at hn
    cases hn

/-- A round that changes nothing. -/
theorem hangs_self (h : round s = .again s) : ¬ Ends round s ∧ ¬ Faults round s :=
  hangs (· = s) (fun _ ht => ⟨s, rfl, ht ▸ h⟩) rfl

end Laplus.Lib
