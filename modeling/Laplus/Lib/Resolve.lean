/-
# `Laplus.Lib.Resolve` — walking a path through directories

The first name of a path is looked up in the directory where the walk starts, each
further one in the directory that the entry before it leads to; a walk ends with the
entry of its last name, with an entry that leads nowhere, or without one.  How many
separators stand between two names may matter to a walker: `next` says where it goes
on.  `agrees_iff` says when two of them come to the same entry.
-/
import Mathlib.Data.Set.Basic

namespace Laplus.Lib

/-- The entries that a directory has for a name, and the directories that they lead to. -/
structure Directories (δ ν σ : Type*) where
  named : δ → ν → σ → Prop
  enter : σ → Option δ

namespace Directories

variable {δ ν σ : Type*}

/-- Where a path leads, from a directory on: a name, and further names with the number of the
separators before each of them, but for one. -/
inductive Resolves (D : Directories δ ν σ) (next : Nat → δ → Option δ) :
    ν → List (Nat × ν) → δ → Option σ → Prop
  | missing {c : ν} {cs : List (Nat × ν)} {d : δ} (h : ∀ s, ¬D.named d c s) :
      Resolves D next c cs d none
  | last {c : ν} {d : δ} {s : σ} (h : D.named d c s) : Resolves D next c [] d (some s)
  | file {c : ν} {cs : List (Nat × ν)} {d : δ} {s : σ} (h : D.named d c s)
      (hfile : D.enter s = none) : Resolves D next c cs d (some s)
  | down {c c' : ν} {n : Nat} {cs : List (Nat × ν)} {d d₁ d₂ : δ} {s : σ} {r : Option σ}
      (h : D.named d c s) (henter : D.enter s = some d₁) (hnext : next n d₁ = some d₂)
      (hrest : Resolves D next c' cs d₂ r) : Resolves D next c ((n, c') :: cs) d r
  | lost {c c' : ν} {n : Nat} {cs : List (Nat × ν)} {d d₁ : δ} {s : σ} (h : D.named d c s)
      (henter : D.enter s = some d₁) (hnext : next n d₁ = none) :
      Resolves D next c ((n, c') :: cs) d none

/-- Where the rest of a path leads, behind the directory that was entered. -/
inductive Leads (D : Directories δ ν σ) (next : Nat → δ → Option δ) (n : Nat) (c : ν)
    (cs : List (Nat × ν)) (d : δ) : Option σ → Prop
  | on {d' : δ} {r : Option σ} (hnext : next n d = some d') (hrest : D.Resolves next c cs d' r) :
      Leads D next n c cs d r
  | lost (hnext : next n d = none) : Leads D next n c cs d none

/-- Two walkers come to the same entry: wherever one of them is led elsewhere than the other by
the separators, the rest of the path has the same meaning there. -/
def Agrees (D : Directories δ ν σ) (next next' : Nat → δ → Option δ) :
    ν → List (Nat × ν) → δ → Prop
  | _, [], _ => True
  | c, (n, c') :: cs, d => ∀ s d₁, D.named d c s → D.enter s = some d₁ →
      (next n d₁ = next' n d₁ → ∀ d₂, next n d₁ = some d₂ → Agrees D next next' c' cs d₂) ∧
      (next n d₁ ≠ next' n d₁ → ∃ r, D.Leads next n c' cs d₁ r ∧ D.Leads next' n c' cs d₁ r)

/-- In the directories of a set a name is that of one entry, and the way down stays in the set. -/
structure Proper (D : Directories δ ν σ) (S : Set δ) : Prop where
  once : ∀ d ∈ S, ∀ c s t, D.named d c s → D.named d c t → s = t
  down : ∀ d ∈ S, ∀ c s d₁, D.named d c s → D.enter s = some d₁ → d₁ ∈ S

variable {D : Directories δ ν σ} {S : Set δ} {next next' : Nat → δ → Option δ} {c c' : ν}
  {cs : List (Nat × ν)} {d d₁ : δ} {s : σ} {r r' : Option σ} {n : Nat}

/-! ## One step -/

theorem Leads.resolves (h : D.Leads next n c' cs d₁ r) (hs : D.named d c s)
    (henter : D.enter s = some d₁) : D.Resolves next c ((n, c') :: cs) d r := by
  cases h with
  | on hnext hrest => exact .down hs henter hnext hrest
  | lost hnext => exact .lost hs henter hnext

/-- Behind an entry that leads to a directory. -/
theorem Resolves.leads (h : D.Resolves next c ((n, c') :: cs) d r)
    (honce : ∀ t, D.named d c t → t = s) (hs : D.named d c s) (henter : D.enter s = some d₁) :
    D.Leads next n c' cs d₁ r := by
  cases h with
  | missing h => exact absurd hs (h s)
  | file ht hfile =>
      rw [honce _ ht, henter] at hfile
      cases hfile
  | down ht htenter hnext hrest =>
      rw [honce _ ht, henter] at htenter
      cases htenter
      exact .on hnext hrest
  | lost ht htenter hnext =>
      rw [honce _ ht, henter] at htenter
      cases htenter
      exact .lost hnext

/-! ## Whole walks -/

/-- **A path leads to one entry.** -/
theorem Resolves.unique (hD : D.Proper S) (hnext : ∀ n, ∀ d ∈ S, ∀ d', next n d = some d' → d' ∈ S)
    (hd : d ∈ S) (h : D.Resolves next c cs d r) (h' : D.Resolves next c cs d r') : r = r' := by
  induction h generalizing r' with
  | missing h =>
      cases h' with
      | missing => rfl
      | last ht => exact absurd ht (h _)
      | file ht _ => exact absurd ht (h _)
      | down ht => exact absurd ht (h _)
      | lost => rfl
  | last hs =>
      cases h' with
      | missing h => exact absurd hs (h _)
      | last ht => rw [hD.once _ hd _ _ _ hs ht]
      | file ht _ => rw [hD.once _ hd _ _ _ hs ht]
  | file hs hfile =>
      cases h' with
      | missing h => exact absurd hs (h _)
      | last ht => rw [hD.once _ hd _ _ _ hs ht]
      | file ht _ => rw [hD.once _ hd _ _ _ hs ht]
      | down ht henter =>
          rw [hD.once _ hd _ _ _ ht hs, hfile] at henter
          cases henter
      | lost ht henter =>
          rw [hD.once _ hd _ _ _ ht hs, hfile] at henter
          cases henter
  | down hs henter hgo hrest ih =>
      have hd₁ := hD.down _ hd _ _ _ hs henter
      cases h'.leads (fun t ht => hD.once _ hd _ _ _ ht hs) hs henter with
      | on hgo' hrest' =>
          rw [hgo] at hgo'
          cases hgo'
          exact ih (hnext _ _ hd₁ _ hgo) hrest'
      | lost hgo' =>
          rw [hgo] at hgo'
          cases hgo'
  | lost hs henter hgo =>
      cases h'.leads (fun t ht => hD.once _ hd _ _ _ ht hs) hs henter with
      | on hgo' =>
          rw [hgo] at hgo'
          cases hgo'
      | lost => rfl

/-- **Two walkers come to the same entry** exactly when they agree. -/
theorem agrees_iff (hD : D.Proper S) (hnext : ∀ n, ∀ d ∈ S, ∀ d', next n d = some d' → d' ∈ S)
    (hd : d ∈ S) :
    D.Agrees next next' c cs d ↔ ∃ r, D.Resolves next c cs d r ∧ D.Resolves next' c cs d r := by
  induction cs generalizing c d with
  | nil =>
      refine iff_of_true trivial ?_
      by_cases h : ∃ s, D.named d c s
      · obtain ⟨s, hs⟩ := h
        exact ⟨some s, .last hs, .last hs⟩
      · have hno : ∀ s, ¬D.named d c s := fun s hs => h ⟨s, hs⟩
        exact ⟨none, .missing hno, .missing hno⟩
  | cons e cs ih =>
      obtain ⟨n, c'⟩ := e
      by_cases h : ∃ s, D.named d c s
      · obtain ⟨s, hs⟩ := h
        have honce : ∀ t, D.named d c t → t = s := fun t ht => hD.once d hd c t s ht hs
        cases henter : D.enter s with
        | none =>
            refine iff_of_true (fun t d₁ ht htenter => ?_) ⟨some s, .file hs henter, .file hs henter⟩
            rw [honce t ht, henter] at htenter
            cases htenter
        | some d₁ =>
            -- both walks are those behind the directory
            have hleads : (∃ r, D.Resolves next c ((n, c') :: cs) d r ∧
                D.Resolves next' c ((n, c') :: cs) d r) ↔
                  ∃ r, D.Leads next n c' cs d₁ r ∧ D.Leads next' n c' cs d₁ r := by
              constructor
              · rintro ⟨r, h, h'⟩
                exact ⟨r, h.leads honce hs henter, h'.leads honce hs henter⟩
              · rintro ⟨r, h, h'⟩
                exact ⟨r, h.resolves hs henter, h'.resolves hs henter⟩
            rw [hleads, Agrees]
            by_cases heq : next n d₁ = next' n d₁
            · cases hgo : next n d₁ with
              | none =>
                  rw [hgo] at heq
                  refine iff_of_true (fun t d₂ ht htenter => ?_) ⟨none, .lost hgo, .lost heq.symm⟩
                  rw [honce t ht, henter] at htenter
                  cases htenter
                  rw [hgo]
                  exact ⟨fun _ d₃ h => (by cases h), fun hne => absurd heq hne⟩
              | some d₂ =>
                  have hd₂ := hnext n d₁ (hD.down d hd c s d₁ hs henter) d₂ hgo
                  have hgo' := heq.symm.trans hgo
                  constructor
                  · intro hall
                    obtain ⟨r, h, h'⟩ := (ih hd₂).mp ((hall s d₁ hs henter).1 heq d₂ hgo)
                    exact ⟨r, .on hgo h, .on hgo' h'⟩
                  · rintro ⟨r, h, h'⟩ t d₃ ht htenter
                    rw [honce t ht, henter] at htenter
                    cases htenter
                    refine ⟨fun _ d₃ hd₃ => ?_, fun hne => absurd heq hne⟩
                    rw [hgo] at hd₃
                    cases hd₃
                    refine (ih hd₂).mpr ⟨r, ?_, ?_⟩
                    · cases h with
                      | on hnext hrest =>
                          rw [hgo] at hnext
                          cases hnext
                          exact hrest
                      | lost hnext =>
                          rw [hgo] at hnext
                          cases hnext
                    · cases h' with
                      | on hnext hrest =>
                          rw [hgo'] at hnext
                          cases hnext
                          exact hrest
                      | lost hnext =>
                          rw [hgo'] at hnext
                          cases hnext
            · constructor
              · intro hall
                exact (hall s d₁ hs henter).2 heq
              · rintro hboth t d₃ ht htenter
                rw [honce t ht, henter] at htenter
                cases htenter
                exact ⟨fun he => absurd he heq, fun _ => hboth⟩
      · have hno : ∀ s, ¬D.named d c s := fun s hs => h ⟨s, hs⟩
        exact iff_of_true (fun s d₁ hs => absurd hs (hno s)) ⟨none, .missing hno, .missing hno⟩

/-- Walkers that the separators lead to the same places. -/
theorem agrees_of_eq (h : ∀ e ∈ cs, ∀ d, next e.1 d = next' e.1 d) :
    D.Agrees next next' c cs d := by
  induction cs generalizing c d with
  | nil => trivial
  | cons e cs ih =>
      obtain ⟨n, c'⟩ := e
      intro s d₁ _ _
      refine ⟨fun _ d₂ _ => ih fun e he => h e (List.mem_cons_of_mem _ he), fun hne => ?_⟩
      exact absurd (h (n, c') List.mem_cons_self d₁) hne

end Directories

end Laplus.Lib
