/-
# `Laplus.Lib.Since` — what a run remembers

A statement about a state and the events that led to it is carried from the
front of a run to its end.  `Since` is the past operator of temporal logic:
there was an event that told something, no later one tells it anew, and a
condition has held in every state from that event on.
-/
import Laplus.Lib.Run
import Mathlib.Data.List.Induction

namespace Laplus.Lib

variable {σ ε : Type*} {step : σ → ε → σ} {s : σ}

theorem run_concat (step : σ → ε → σ) (s : σ) (es : List ε) (e : ε) :
    run step s (es ++ [e]) = step (run step s es) e :=
  run_append step s es [e]

/-- **Trace rule.**  A relation between the events and the state that every step keeps. -/
theorem inv_trace (I : List ε → σ → Prop)
    (hstep : ∀ es e, I es (run step s es) → I (es ++ [e]) (step (run step s es) e))
    (h : I [] s) (es : List ε) : I es (run step s es) := by
  induction es using List.reverseRecOn with
  | nil => exact h
  | append_singleton es e ih =>
      rw [run_concat]
      exact hstep es e ih

/-- An event that `tells`, none after it that tells again, and `holds` ever since. -/
def Since (step : σ → ε → σ) (s : σ) (tells again : ε → Prop) (holds : σ → Prop)
    (es : List ε) : Prop :=
  ∃ before e after, es = before ++ e :: after ∧ tells e ∧ (∀ e' ∈ after, ¬ again e') ∧
    ∀ es', es' <+: after → holds (run step s (before ++ e :: es'))

namespace Since
variable {tells again : ε → Prop} {holds : σ → Prop} {es : List ε} {e : ε}

/-- The event that tells. -/
theorem now (h : tells e) (hs : holds (step (run step s es) e)) :
    Since step s tells again holds (es ++ [e]) := by
  refine ⟨es, e, [], rfl, h, fun _ hm => (List.not_mem_nil hm).elim, fun es' hp => ?_⟩
  rw [List.prefix_nil.mp hp, run_concat]
  exact hs

/-- An event after it. -/
theorem later (h : Since step s tells again holds es) (hq : ¬ again e)
    (hs : holds (step (run step s es) e)) : Since step s tells again holds (es ++ [e]) := by
  obtain ⟨before, e₀, after, rfl, htells, hquiet, hholds⟩ := h
  refine ⟨before, e₀, after ++ [e], by simp, htells, fun e' hm => ?_, fun es' hp => ?_⟩
  · rcases List.mem_append.mp hm with hm | hm
    · exact hquiet e' hm
    · rw [List.mem_singleton.mp hm]
      exact hq
  · rcases List.prefix_concat_iff.mp hp with rfl | hp
    · rw [← run_concat step s, List.append_assoc, List.cons_append] at hs
      exact hs
    · exact hholds es' hp

end Since

end Laplus.Lib
