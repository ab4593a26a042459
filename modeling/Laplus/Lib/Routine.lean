/-
# `Laplus.Lib.Routine` — routines that may fail on the way

A routine works on a state, and returns an answer or an error; what it has done before an error
stays.  There is no outcome where the program it models has none.
-/
import Mathlib.Init

namespace Laplus.Lib

universe u

variable {σ ε α β : Type u} {s t : σ} {a : α} {b : β} {e : ε} {r : Except ε β}

/-- A routine. -/
abbrev Routine (σ ε α : Type u) : Type u := ExceptT ε (StateT σ Option) α

namespace Routine

/-- What a routine comes to in a state. -/
def exec (x : Routine σ ε α) (s : σ) : Option (Except ε α × σ) := StateT.run (ExceptT.run x) s

/-- A step that is given by what it comes to. -/
def of (f : σ → Option (Except ε α × σ)) : Routine σ ε α := ExceptT.mk f

variable {x : Routine σ ε α} {f : α → Routine σ ε β}

@[simp] theorem exec_of (f : σ → Option (Except ε α × σ)) (s : σ) : (of f).exec s = f s := rfl

@[simp] theorem exec_pure (a : α) (s : σ) : (pure a : Routine σ ε α).exec s = some (.ok a, s) := rfl

@[simp] theorem exec_throw (e : ε) (s : σ) :
    (throw e : Routine σ ε α).exec s = some (.error e, s) := rfl

@[simp] theorem exec_get (s : σ) : (get : Routine σ ε σ).exec s = some (.ok s, s) := rfl

@[simp] theorem exec_modify (g : σ → σ) (s : σ) :
    (modify g : Routine σ ε PUnit).exec s = some (.ok ⟨⟩, g s) := rfl

/-- A routine that ends is followed by the next; after an error there is none. -/
theorem exec_bind (x : Routine σ ε α) (f : α → Routine σ ε β) (s : σ) :
    (x >>= f).exec s = match x.exec s with
      | none => none
      | some (.error e, t) => some (.error e, t)
      | some (.ok a, t) => (f a).exec t := by
  have hrun : (x >>= f).exec s = (x.exec s).bind fun p =>
      exec (ExceptT.mk (ExceptT.bindCont f p.1)) p.2 := rfl
  rw [hrun]
  rcases x.exec s with _ | ⟨_ | a, t⟩ <;> rfl

theorem exec_bind_ok (h : x.exec s = some (.ok a, t)) : (x >>= f).exec s = (f a).exec t := by
  rw [exec_bind, h]

theorem exec_bind_error (h : x.exec s = some (.error e, t)) :
    (x >>= f).exec s = some (.error e, t) := by
  rw [exec_bind, h]

/-- **The bind rule.** -/
theorem exec_bind_iff : (x >>= f).exec s = some (r, t) ↔
    (∃ e, r = .error e ∧ x.exec s = some (.error e, t)) ∨
      ∃ a u, x.exec s = some (.ok a, u) ∧ (f a).exec u = some (r, t) := by
  rw [exec_bind]
  rcases x.exec s with _ | ⟨e | a, u⟩
  · simp
  · constructor
    · rintro h
      cases h
      exact .inl ⟨e, rfl, rfl⟩
    · rintro (⟨e', rfl, h⟩ | ⟨a, u', h, -⟩)
      · cases h
        rfl
      · cases h
  · constructor
    · exact fun h => .inr ⟨a, u, rfl, h⟩
    · rintro (⟨e', -, h⟩ | ⟨a', u', h, h'⟩)
      · cases h
      · cases h
        exact h'

theorem exec_bind_ok_iff : (x >>= f).exec s = some (.ok b, t) ↔
    ∃ a u, x.exec s = some (.ok a, u) ∧ (f a).exec u = some (.ok b, t) := by
  rw [exec_bind_iff]
  exact or_iff_right fun ⟨_, h, _⟩ => by cases h

/-! ## What a routine preserves -/

/-- What holds before holds after, also after an error. -/
def Preserves (P : σ → Prop) (x : Routine σ ε α) : Prop :=
  ∀ s r t, P s → x.exec s = some (r, t) → P t

variable {P : σ → Prop}

theorem Preserves.pure (a : α) : Preserves P (pure a : Routine σ ε α) := by
  rintro s r t hs h
  cases h
  exact hs

theorem Preserves.throw (e : ε) : Preserves P (throw e : Routine σ ε α) := by
  rintro s r t hs h
  cases h
  exact hs

theorem Preserves.modify {g : σ → σ} (h : ∀ s, P s → P (g s)) :
    Preserves P (modify g : Routine σ ε PUnit) := by
  rintro s r t hs hr
  cases hr
  exact h s hs

theorem Preserves.get : Preserves P (get : Routine σ ε σ) := by
  rintro s r t hs h
  cases h
  exact hs

/-- **Steps one after the other.** -/
theorem Preserves.bind (hx : Preserves P x) (hf : ∀ a, Preserves P (f a)) :
    Preserves P (x >>= f) := by
  intro s r t hs h
  rcases exec_bind_iff.mp h with ⟨e, -, he⟩ | ⟨a, u, ha, hr⟩
  · exact hx s _ t hs he
  · exact hf a u r t (hx s _ u hs ha) hr

/-- **A step for each element of a list.** -/
theorem Preserves.forM {γ : Type*} {l : List γ} {g : γ → Routine σ ε PUnit}
    (h : ∀ c ∈ l, Preserves P (g c)) : Preserves P (forM l g) := by
  induction l with
  | nil => exact .pure _
  | cons c l ih =>
      rw [List.forM_cons]
      exact (h c List.mem_cons_self).bind fun _ => ih fun d hd => h d (List.mem_cons_of_mem c hd)

end Routine

end Laplus.Lib
