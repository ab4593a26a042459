/-
# `Laplus.Lib.Network` — two parties and a network that forges nothing

Each party is a deterministic machine that emits messages as it steps.  What
a party has ever emitted stays in its outbox, and an event may deliver any of
it to the other party: messages are lost, repeated and reordered at will, but
none is made up.

`Contract` is the assume–guarantee rule.  A party keeps an invariant about
itself in view of the other, and every message in an outbox is vouched for in
view of both states; one step of either party, given a message vouched for by
the other, has to keep both.
-/
import Laplus.Lib.Run
import Mathlib.Logic.Function.Basic

namespace Laplus.Lib

variable {σ ε μ : Type*}

/-- A party: its step, what the step emits, and the message an event delivers. -/
structure Party (σ ε μ : Type*) where
  step : σ → ε → σ
  emits : σ → ε → List μ
  delivers : ε → Option μ

/-- Two parties and all they have emitted so far. -/
structure Duplex (σ μ : Type*) where
  party : Bool → σ
  out : Bool → List μ

namespace Party

/-- One event at the party `x.1`. -/
def duplexStep (m : Party σ ε μ) (d : Duplex σ μ) (x : Bool × ε) : Duplex σ μ where
  party := Function.update d.party x.1 (m.step (d.party x.1) x.2)
  out := Function.update d.out x.1 (d.out x.1 ++ m.emits (d.party x.1) x.2)

/-- What the event delivers the other party has emitted. -/
def Carried (m : Party σ ε μ) (d : Duplex σ μ) (x : Bool × ε) : Prop :=
  ∀ s ∈ m.delivers x.2, s ∈ d.out (!x.1)

instance [DecidableEq μ] (m : Party σ ε μ) (d : Duplex σ μ) (x : Bool × ε) :
    Decidable (m.Carried d x) :=
  match h : m.delivers x.2 with
  | none => isTrue fun s hs => by rw [h] at hs; cases hs
  | some s => decidable_of_iff (s ∈ d.out (!x.1)) (by simp [Carried, h])

/-- What a step of a party has to keep, `I own peer` about the parties and
`G own peer s` about a message `s` of the party `own`. -/
structure Contract (m : Party σ ε μ) (ok : ε → Prop) (I : σ → σ → Prop)
    (G : σ → σ → μ → Prop) : Prop where
  own : ∀ s p e, I s p → I p s → (∀ a ∈ m.delivers e, G p s a) → ok e → I (m.step s e) p
  peer : ∀ s p e, I s p → I p s → (∀ a ∈ m.delivers e, G p s a) → ok e → I p (m.step s e)
  emitted : ∀ s p e, I s p → I p s → (∀ a ∈ m.delivers e, G p s a) → ok e →
    ∀ a ∈ m.emits s e, G (m.step s e) p a
  sent : ∀ s p e, I s p → I p s → (∀ a ∈ m.delivers e, G p s a) → ok e →
    ∀ a, G s p a → G (m.step s e) p a
  heard : ∀ s p e, I s p → I p s → (∀ a ∈ m.delivers e, G p s a) → ok e →
    ∀ a, G p s a → G p (m.step s e) a

/-- The invariant holds at both parties and every message is vouched for. -/
structure Vouched (I : σ → σ → Prop) (G : σ → σ → μ → Prop) (d : Duplex σ μ) : Prop where
  inv : ∀ k, I (d.party k) (d.party !k)
  out : ∀ k, ∀ a ∈ d.out k, G (d.party k) (d.party !k) a

variable {m : Party σ ε μ} {ok : ε → Prop} {I : σ → σ → Prop} {G : σ → σ → μ → Prop}

theorem Contract.step (h : Contract m ok I G) (d : Duplex σ μ) (x : Bool × ε)
    (hd : Vouched I G d) (hx : m.Carried d x ∧ ok x.2) : Vouched I G (m.duplexStep d x) := by
  obtain ⟨k, e⟩ := x
  obtain ⟨hcar, hok⟩ := hx
  have hne : (!k) ≠ k := by cases k <;> simp
  have hin : I (d.party !k) (d.party k) := by
    have := hd.inv !k
    rwa [Bool.not_not] at this
  have hgot : ∀ a ∈ m.delivers e, G (d.party !k) (d.party k) a := by
    intro a ha
    have := hd.out (!k) a (hcar a ha)
    rwa [Bool.not_not] at this
  -- the two sides of the new state, the one that stepped and the other
  have hparty : (m.duplexStep d (k, e)).party k = m.step (d.party k) e := Function.update_self ..
  have hother : (m.duplexStep d (k, e)).party (!k) = d.party !k := Function.update_of_ne hne ..
  have hout : (m.duplexStep d (k, e)).out k = d.out k ++ m.emits (d.party k) e :=
    Function.update_self ..
  have hout' : (m.duplexStep d (k, e)).out (!k) = d.out !k := Function.update_of_ne hne ..
  have sides {P : Bool → Prop} (h₁ : P k) (h₂ : P !k) : ∀ j, P j := by
    intro j
    by_cases hj : j = k
    · exact hj ▸ h₁
    · have : j = !k := by cases j <;> cases k <;> simp_all
      exact this ▸ h₂
  constructor
  · refine sides ?_ ?_
    · rw [hparty, hother]
      exact h.own _ _ e (hd.inv k) hin hgot hok
    · rw [hother, Bool.not_not, hparty]
      exact h.peer _ _ e (hd.inv k) hin hgot hok
  · refine sides ?_ ?_
    · rw [hparty, hother, hout]
      intro a ha
      rcases List.mem_append.mp ha with ha | ha
      · exact h.sent _ _ e (hd.inv k) hin hgot hok a (hd.out k a ha)
      · exact h.emitted _ _ e (hd.inv k) hin hgot hok a ha
    · rw [hother, Bool.not_not, hparty, hout']
      intro a ha
      have hold := hd.out (!k) a ha
      rw [Bool.not_not] at hold
      exact h.heard _ _ e (hd.inv k) hin hgot hok a hold

/-- **Assume–guarantee rule.**  Whatever the network loses, repeats and
reorders, the invariant holds and every message is vouched for. -/
theorem Contract.run (h : Contract m ok I G) {d : Duplex σ μ} {es : List (Bool × ε)}
    (hd : Vouched I G d)
    (hg : Guarded m.duplexStep (fun d x => m.Carried d x ∧ ok x.2) d es) :
    Vouched I G (Lib.run m.duplexStep d es) :=
  inv_run (Vouched I G) h.step hd hg

end Party

end Laplus.Lib
