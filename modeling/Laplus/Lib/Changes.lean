/-
# `Laplus.Lib.Changes` — changes between snapshots

A set of keys is seen now and then, and what is told of it is which keys have changed.  The
changes say as much as the snapshots: played from the start they end at the last one, and each of
them turns its key over, so that for one key they alternate.
-/
import Mathlib.Data.List.Basic
import Mathlib.Data.List.Nodup
import Mathlib.Logic.Function.Basic

namespace Laplus.Lib

variable {κ : Type*}

/-- The keys that are not as they were, each with its new state. -/
def changes (keys : List κ) (s s' : κ → Bool) : List (κ × Bool) :=
  (keys.filter fun k => s k != s' k).map fun k => (k, s' k)

/-- The changes from one snapshot to the next. -/
def changesAll (keys : List κ) : (κ → Bool) → List (κ → Bool) → List (κ × Bool)
  | _, [] => []
  | s, s' :: rest => changes keys s s' ++ changesAll keys s' rest

variable {keys : List κ} {s s' t : κ → Bool} {cs cs' : List (κ × Bool)} {k : κ}

theorem changes_cons :
    changes (k :: keys) s s' =
      if s k = s' k then changes keys s s' else (k, s' k) :: changes keys s s' := by
  by_cases h : s k = s' k <;> simp [changes, h]

/-- Other keys do not matter. -/
theorem changes_congr {t t' : κ → Bool} (h : ∀ k ∈ keys, s k = t k ∧ s' k = t' k) :
    changes keys s s' = changes keys t t' := by
  induction keys with
  | nil => rfl
  | cons k keys ih =>
      obtain ⟨hs, hs'⟩ := h k List.mem_cons_self
      rw [changes_cons, changes_cons, ih fun k' hk' => h k' (List.mem_cons_of_mem k hk'), hs, hs']

theorem changesAll_concat {rest : List (κ → Bool)} :
    changesAll keys s (rest ++ [s']) =
      changesAll keys s rest ++ changes keys (rest.getLastD s) s' := by
  induction rest generalizing s with
  | nil => simp [changesAll]
  | cons t rest ih =>
      rw [List.cons_append, changesAll, ih, changesAll, List.append_assoc, List.getLastD_cons]

variable [DecidableEq κ]

/-- One key has changed. -/
def turn (s : κ → Bool) (c : κ × Bool) : κ → Bool := Function.update s c.1 c.2

/-- After the changes, in order. -/
def replay (s : κ → Bool) (cs : List (κ × Bool)) : κ → Bool := cs.foldl turn s

/-- Each change finds its key in the other state. -/
def Flips : (κ → Bool) → List (κ × Bool) → Prop
  | _, [] => True
  | s, c :: cs => s c.1 ≠ c.2 ∧ Flips (turn s c) cs

/-- What was told of one key. -/
def toldOf (k : κ) (cs : List (κ × Bool)) : List Bool :=
  (cs.filter fun c => c.1 = k).map Prod.snd

theorem replay_append : replay s (cs ++ cs') = replay (replay s cs) cs' := List.foldl_append

theorem flips_append : Flips s (cs ++ cs') ↔ Flips s cs ∧ Flips (replay s cs) cs' := by
  induction cs generalizing s with
  | nil => exact (iff_of_eq (true_and _)).symm
  | cons c cs ih =>
      rw [List.cons_append, Flips, Flips, ih, and_assoc]
      rfl

/-- The changes of `keys`, played in a state that has these keys as they were. -/
theorem changes_spec (hn : keys.Nodup) (ht : ∀ k ∈ keys, t k = s k) :
    Flips t (changes keys s s') ∧
      ∀ k, replay t (changes keys s s') k = if k ∈ keys then s' k else t k := by
  induction keys generalizing t with
  | nil => exact ⟨trivial, fun _ => rfl⟩
  | cons k keys ih =>
      obtain ⟨hk, hn⟩ := List.nodup_cons.mp hn
      have hkeys : ∀ k' ∈ keys, t k' = s k' := fun k' hk' => ht k' (List.mem_cons_of_mem k hk')
      have hhead : t k = s k := ht k List.mem_cons_self
      rw [changes_cons]
      split
      next hsame =>
        obtain ⟨hflips, hend⟩ := ih hn hkeys
        refine ⟨hflips, fun k' => ?_⟩
        rw [hend k']
        by_cases heq : k' = k
        · subst heq
          rw [if_neg hk, if_pos List.mem_cons_self, hhead, hsame]
        · simp [heq]
      next hother =>
        have hturned : ∀ k' ∈ keys, turn t (k, s' k) k' = s k' := fun k' hk' => by
          have hne : k' ≠ k := fun heq => hk (heq ▸ hk')
          rw [turn, Function.update_of_ne hne]
          exact hkeys k' hk'
        obtain ⟨hflips, hend⟩ := ih hn hturned
        refine ⟨⟨hhead ▸ hother, hflips⟩, fun k' => ?_⟩
        show replay (turn t (k, s' k)) (changes keys s s') k' = _
        rw [hend k']
        by_cases heq : k' = k
        · subst heq
          rw [if_neg hk, if_pos List.mem_cons_self]
          exact Function.update_self k' (s' k') t
        · rw [turn, Function.update_of_ne heq]
          simp [heq]

/-- Snapshots in which only these keys may be set. -/
def Among (keys : List κ) (s : κ → Bool) : Prop := ∀ k, s k = true → k ∈ keys

theorem replay_changes (hn : keys.Nodup) (hs : Among keys s) (hs' : Among keys s') :
    replay s (changes keys s s') = s' := by
  funext k
  rw [(changes_spec hn fun _ _ => rfl).2 k]
  split
  next => rfl
  next hk =>
    have hoff (t : κ → Bool) (ht : Among keys t) : t k = false :=
      Bool.eq_false_iff.mpr fun htrue => hk (ht k htrue)
    rw [hoff s hs, hoff s' hs']

/-- **The changes say where the keys are**, and none is told twice. -/
theorem changesAll_spec (hn : keys.Nodup) {rest : List (κ → Bool)} (hs : Among keys s)
    (hrest : ∀ s' ∈ rest, Among keys s') :
    Flips s (changesAll keys s rest) ∧ replay s (changesAll keys s rest) = rest.getLastD s := by
  induction rest generalizing s with
  | nil => exact ⟨trivial, rfl⟩
  | cons s' rest ih =>
      have hs' : Among keys s' := hrest s' List.mem_cons_self
      obtain ⟨hflips, hend⟩ := ih hs' fun t ht => hrest t (List.mem_cons_of_mem s' ht)
      have hplayed := replay_changes hn hs hs'
      rw [changesAll, flips_append, replay_append, hplayed, hend]
      exact ⟨⟨(changes_spec hn fun _ _ => rfl).1, hflips⟩, (List.getLastD_cons ..).symm⟩

/-- For one key the changes alternate. -/
theorem Flips.alternate (h : Flips s cs) (k : κ) :
    List.IsChain (· ≠ ·) (s k :: toldOf k cs) := by
  induction cs generalizing s with
  | nil => simp [toldOf]
  | cons c cs ih =>
      have hrest := ih h.2
      by_cases hk : c.1 = k
      · have htold : toldOf k (c :: cs) = c.2 :: toldOf k cs := by simp [toldOf, hk]
        have hturned : turn s c k = c.2 := by rw [turn, hk]; exact Function.update_self ..
        rw [hturned] at hrest
        rw [htold]
        exact List.isChain_cons_cons.mpr ⟨hk ▸ h.1, hrest⟩
      · have htold : toldOf k (c :: cs) = toldOf k cs := by simp [toldOf, hk]
        have hturned : turn s c k = s k := Function.update_of_ne (Ne.symm hk) ..
        rw [hturned] at hrest
        rwa [htold]

end Laplus.Lib
