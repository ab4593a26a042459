/-
# `Laplus.Lib.Run` — guarded runs of a deterministic machine

A machine is a step function `σ → ε → σ`; what the environment chooses is
part of the event.  `run` folds a list of events, `Guarded ok` says that
every event of the list meets a condition on the state it finds.  Every
prefix of a guarded list is guarded, so a statement about `run step s es`
for all guarded `es` is a statement about every state a guarded run
reaches.
-/
import Mathlib.Data.List.Basic
import Mathlib.Tactic.Tauto

namespace Laplus.Lib

variable {σ ε : Type*}

/-- The state after the events, in order. -/
def run (step : σ → ε → σ) (s : σ) (es : List ε) : σ :=
  es.foldl step s

@[simp] theorem run_nil (step : σ → ε → σ) (s : σ) : run step s [] = s := rfl

@[simp] theorem run_cons (step : σ → ε → σ) (s : σ) (e : ε) (es : List ε) :
    run step s (e :: es) = run step (step s e) es := rfl

theorem run_append (step : σ → ε → σ) (s : σ) (es es' : List ε) :
    run step s (es ++ es') = run step (run step s es) es' :=
  List.foldl_append

/-- Every event meets `ok` in the state in which it happens. -/
def Guarded (step : σ → ε → σ) (ok : σ → ε → Prop) : σ → List ε → Prop
  | _, [] => True
  | s, e :: es => ok s e ∧ Guarded step ok (step s e) es

@[simp] theorem guarded_nil (step : σ → ε → σ) (ok : σ → ε → Prop) (s : σ) :
    Guarded step ok s [] := trivial

@[simp] theorem guarded_cons (step : σ → ε → σ) (ok : σ → ε → Prop) (s : σ) (e : ε)
    (es : List ε) :
    Guarded step ok s (e :: es) ↔ ok s e ∧ Guarded step ok (step s e) es := Iff.rfl

theorem guarded_append {step : σ → ε → σ} {ok : σ → ε → Prop} {s : σ} {es es' : List ε} :
    Guarded step ok s (es ++ es') ↔
      Guarded step ok s es ∧ Guarded step ok (run step s es) es' := by
  induction es generalizing s with
  | nil => simp
  | cons e es ih => simp [ih, and_assoc]

/-- Without a condition every list is guarded. -/
theorem guarded_true (step : σ → ε → σ) (s : σ) (es : List ε) :
    Guarded step (fun _ _ => True) s es := by
  induction es generalizing s with
  | nil => trivial
  | cons e es ih => exact ⟨trivial, ih (step s e)⟩

/-- A condition on the events alone. -/
theorem guarded_of_forall (step : σ → ε → σ) (s : σ) {ok : ε → Prop} {es : List ε}
    (h : ∀ e ∈ es, ok e) : Guarded step (fun _ e => ok e) s es := by
  induction es generalizing s with
  | nil => trivial
  | cons e es ih =>
      exact ⟨h e List.mem_cons_self, ih (step s e) fun e' he' => h e' (List.mem_cons_of_mem e he')⟩

/-- Two conditions at once. -/
theorem guarded_and {step : σ → ε → σ} {ok ok' : σ → ε → Prop} {s : σ} {es : List ε} :
    Guarded step (fun s e => ok s e ∧ ok' s e) s es ↔
      Guarded step ok s es ∧ Guarded step ok' s es := by
  induction es generalizing s with
  | nil => simp
  | cons e es ih => simp only [guarded_cons, ih]; tauto

instance decGuarded (step : σ → ε → σ) (ok : σ → ε → Prop) [∀ s e, Decidable (ok s e)] :
    ∀ (s : σ) (es : List ε), Decidable (Guarded step ok s es)
  | _, [] => isTrue trivial
  | s, e :: es =>
      have := decGuarded step ok (step s e) es
      inferInstanceAs (Decidable (ok s e ∧ Guarded step ok (step s e) es))

/-- **Invariant rule.**  What holds at the start and is kept by every
admitted step holds after every guarded run. -/
theorem inv_run (I : σ → Prop) {step : σ → ε → σ} {ok : σ → ε → Prop}
    (hstep : ∀ s e, I s → ok s e → I (step s e)) {s : σ} {es : List ε}
    (h : I s) (hg : Guarded step ok s es) : I (run step s es) := by
  induction es generalizing s with
  | nil => exact h
  | cons e es ih => exact ih (hstep s e h hg.1) hg.2

/-- **Simulation rule.**  Two machines that make related steps for the same events are related
after every guarded run. -/
theorem sim_run {τ : Type*} (R : σ → τ → Prop) {step : σ → ε → σ} {step' : τ → ε → τ}
    {ok : σ → ε → Prop} (hstep : ∀ s t e, R s t → ok s e → R (step s e) (step' t e)) {s : σ} {t : τ}
    {es : List ε} (h : R s t) (hg : Guarded step ok s es) : R (run step s es) (run step' t es) := by
  induction es generalizing s t with
  | nil => exact h
  | cons e es ih => exact ih (hstep s t e h hg.1) hg.2

/-- Two conditions that say the same of the states that meet `J`. -/
theorem guarded_iff (J : σ → Prop) {step : σ → ε → σ} {ok ok' : σ → ε → Prop}
    (hJ : ∀ s e, J s → ok s e → J (step s e)) (hiff : ∀ s e, J s → (ok s e ↔ ok' s e)) {s : σ}
    {es : List ε} (h : J s) : Guarded step ok s es ↔ Guarded step ok' s es := by
  induction es generalizing s with
  | nil => exact Iff.rfl
  | cons e es ih =>
      rw [guarded_cons, guarded_cons, ← hiff s e h]
      exact and_congr_right fun hok => ih (hJ s e h hok)

/-- **Exact guard.**  If in the states that meet `J` a step keeps `I` exactly when
it meets the condition, the runs on which `I` holds throughout are the guarded
ones. -/
theorem prefix_iff_guarded (J I : σ → Prop) {step : σ → ε → σ} {ok : σ → ε → Prop}
    (hJ : ∀ s e, J s → J (step s e))
    (hstep : ∀ s e, J s → I s → (I (step s e) ↔ ok s e)) {s : σ} {es : List ε} (hj : J s)
    (h : I s) : (∀ es', es' <+: es → I (run step s es')) ↔ Guarded step ok s es := by
  induction es generalizing s with
  | nil =>
      refine ⟨fun _ => trivial, fun _ es' hp => ?_⟩
      rw [List.prefix_nil.mp hp]
      exact h
  | cons e es ih =>
      have hj' := hJ s e hj
      constructor
      · intro hall
        have hnext : I (step s e) := hall [e] (List.prefix_append [e] es)
        refine ⟨(hstep s e hj h).mp hnext, (ih hj' hnext).mp fun es' hp => ?_⟩
        exact hall (e :: es') (List.cons_prefix_cons.mpr ⟨rfl, hp⟩)
      · rintro ⟨hok, hg⟩ es' hp
        have hnext : I (step s e) := (hstep s e hj h).mpr hok
        cases es' with
        | nil => exact h
        | cons e' es' =>
            obtain ⟨rfl, hp'⟩ := List.cons_prefix_cons.mp hp
            exact (ih hj' hnext).mpr hg es' hp'

/-- **Exact guard of admitted runs.**  As `prefix_iff_guarded`, when `J` is kept on the way by what
keeps `I`, and every event meets `base`. -/
theorem admitted_prefix_iff (J I : σ → Prop) {step : σ → ε → σ} {base ok : σ → ε → Prop}
    (hJ : ∀ s e, J s → I s → base s e → I (step s e) → J (step s e))
    (hstep : ∀ s e, J s → I s → base s e → (I (step s e) ↔ ok s e)) {s : σ} {es : List ε}
    (hj : J s) (h : I s) (hbase : Guarded step base s es) :
    (∀ es', es' <+: es → I (run step s es')) ↔ Guarded step ok s es := by
  induction es generalizing s with
  | nil =>
      refine ⟨fun _ => trivial, fun _ es' hp => ?_⟩
      rw [List.prefix_nil.mp hp]
      exact h
  | cons e es ih =>
      obtain ⟨hadmitted, hbase'⟩ := hbase
      constructor
      · intro hall
        have hnext : I (step s e) := hall [e] (List.prefix_append [e] es)
        have hj' := hJ s e hj h hadmitted hnext
        refine ⟨(hstep s e hj h hadmitted).mp hnext, (ih hj' hnext hbase').mp fun es' hp => ?_⟩
        exact hall (e :: es') (List.cons_prefix_cons.mpr ⟨rfl, hp⟩)
      · rintro ⟨hok, hg⟩ es' hp
        have hnext : I (step s e) := (hstep s e hj h hadmitted).mpr hok
        cases es' with
        | nil => exact h
        | cons e' es' =>
            obtain ⟨rfl, hp'⟩ := List.cons_prefix_cons.mp hp
            exact (ih (hJ s e' hj h hadmitted hnext) hnext hbase').mpr hg es' hp'

end Laplus.Lib
