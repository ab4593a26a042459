/-
# `Laplus.Lib.Ahead` — records that tell where the next one is

Every record has a place, and `next` gives the place of the one behind it, which is not
lower; a record that is its own next is one that a walk does not get past.  A walk that
looks for so many records of a kind finds those, and sees what lies before the last of
them (`counted_iff`).
-/
import Laplus.Lib.Chain
import Mathlib.Data.List.Sort
import Mathlib.Logic.Relation

namespace Laplus.Lib

open Relation

variable {next : Nat → Option Nat} {P T W : Nat → Prop} {p q n e h i k : Nat} {es ds : List Nat}

/-- From one place to another, over such places. -/
def Leads (next : Nat → Option Nat) (P : Nat → Prop) : Nat → Nat → Prop :=
  ReflTransGen fun p q => next p = some q ∧ P q

/-- And it is farther on. -/
def Ahead (next : Nat → Option Nat) (P : Nat → Prop) (p q : Nat) : Prop :=
  p < q ∧ Leads next P p q

/-- From a place on, the next so many of a kind; whatever is passed is looked at. -/
inductive Counted (next : Nat → Option Nat) (T W : Nat → Prop) : Nat → Nat → List Nat → Prop
  | zero (p : Nat) : Counted next T W p 0 []
  | hit {p n k : Nat} {es : List Nat} (hn : next p = some n) (hw : W n) (ht : T n)
      (h : Counted next T W n k es) : Counted next T W p (k + 1) (n :: es)
  | pass {p n k : Nat} {es : List Nat} (hn : next p = some n) (hw : W n) (ht : ¬ T n)
      (h : Counted next T W n (k + 1) es) : Counted next T W p (k + 1) es

theorem Leads.refl (p : Nat) : Leads next P p p := ReflTransGen.refl

theorem Leads.head (hn : next p = some n) (hP : P n) (h : Leads next P n q) : Leads next P p q :=
  ReflTransGen.head ⟨hn, hP⟩ h

theorem Leads.tail (h : Leads next P p q) (hn : next q = some n) (hP : P n) : Leads next P p n :=
  ReflTransGen.tail h ⟨hn, hP⟩

/-! ## No way back -/

/-- The next record is not lower. -/
def Onward (next : Nat → Option Nat) : Prop := ∀ p n, next p = some n → p ≤ n

theorem Leads.le (hnext : Onward next) (h : Leads next P p q) : p ≤ q := by
  induction h with
  | refl => exact Nat.le_refl p
  | tail _ hs ih => exact ih.trans (hnext _ _ hs.1)

/-- A record that is its own next is the last that is seen. -/
theorem Leads.eq_of_self (hn : next p = some p) (h : Leads next P p q) : q = p := by
  induction h with
  | refl => rfl
  | tail _ hs ih =>
      rw [ih, hn] at hs
      exact (Option.some.inj hs.1).symm

theorem Ahead.leads (h : Ahead next P p e) (hn : next p = some n) : P n ∧ Leads next P n e := by
  rcases ReflTransGen.cases_head h.2 with rfl | ⟨m, ⟨hm, hP⟩, hl⟩
  · exact absurd h.1 (Nat.lt_irrefl _)
  · cases hn.symm.trans hm
    exact ⟨hP, hl⟩

/-- **The next record is on the way.** -/
theorem Ahead.exists_next (hnext : Onward next) (h : Ahead next P p e) :
    ∃ n, next p = some n ∧ P n ∧ p < n ∧ n ≤ e := by
  rcases ReflTransGen.cases_head h.2 with rfl | ⟨n, ⟨hn, hP⟩, hl⟩
  · exact absurd h.1 (Nat.lt_irrefl _)
  · refine ⟨n, hn, hP, Nat.lt_of_le_of_ne (hnext p n hn) ?_, Leads.le hnext hl⟩
    rintro rfl
    exact absurd (h.2.eq_of_self hn) h.1.ne'

theorem Ahead.of_next (hn : next p = some n) (hP : P n) (hlt : p < n) : Ahead next P p n :=
  ⟨hlt, .head hn hP (.refl n)⟩

theorem ahead_iff (hnext : Onward next) (hn : next p = some n) (hP : P n) (hne : e ≠ n) :
    Ahead next P p e ↔ Ahead next P n e := by
  constructor
  · intro h
    obtain ⟨-, hl⟩ := h.leads hn
    exact ⟨Nat.lt_of_le_of_ne (hl.le hnext) hne.symm, hl⟩
  · exact fun h => ⟨Nat.lt_of_le_of_lt (hnext p n hn) h.1, h.2.head hn hP⟩

/-- What holds up to a place that is ahead holds of the next record and behind it. -/
theorem forall_ahead (hnext : Onward next) (hn : next p = some n) (hP : P n) (hlt : p < n)
    (hle : n ≤ e) {Q : Nat → Prop} :
    (∀ h, Ahead next P p h → h ≤ e → Q h) ↔ Q n ∧ ∀ h, Ahead next P n h → h ≤ e → Q h := by
  constructor
  · refine fun h => ⟨h n (.of_next hn hP hlt) hle, fun m hm hme => h m ?_ hme⟩
    exact (ahead_iff hnext hn hP hm.1.ne').mpr hm
  · rintro ⟨hq, h⟩ m hm hme
    by_cases hmn : m = n
    · rwa [hmn]
    · exact h m ((ahead_iff hnext hn hP hmn).mp hm) hme

/-- What is ahead of the head of a chain is the rest of it. -/
theorem mem_chain_iff (hnext : Onward next) (h : Chain next p (p :: ds)) :
    q ∈ ds ↔ Ahead next (fun _ => True) p q := by
  induction ds generalizing p with
  | nil =>
      cases h with
      | last hn =>
          refine iff_of_false List.not_mem_nil fun ha => ?_
          obtain ⟨n, hn', -⟩ := ha.exists_next hnext
          cases hn.symm.trans hn'
      | cons _ h => exact absurd rfl h.ne_nil
  | cons n ds ih =>
      have hnodup := h.nodup
      cases h with
      | cons hn h =>
          obtain ⟨t, heq⟩ := h.head
          cases heq
          have hlt : p < n := Nat.lt_of_le_of_ne (hnext p n hn) fun he =>
            (List.nodup_cons.mp hnodup).1 (he ▸ List.mem_cons_self)
          rw [List.mem_cons, ih h]
          by_cases hqn : q = n
          · exact iff_of_true (.inl hqn) (hqn ▸ .of_next hn trivial hlt)
          · rw [ahead_iff hnext hn trivial hqn]
            exact or_iff_right hqn

/-- A chain goes up. -/
theorem chain_sorted (hnext : Onward next) (h : Chain next p ds) : ds.Pairwise (· < ·) := by
  induction h with
  | last _ => exact List.pairwise_singleton _ _
  | cons hn h ih =>
      obtain ⟨t, rfl⟩ := h.head
      exact List.pairwise_cons.mpr
        ⟨fun q hq => ((mem_chain_iff hnext (.cons hn h)).mp hq).1, ih⟩

/-! ## Counting -/

theorem counted_zero : Counted next T W p 0 es ↔ es = [] := by
  constructor
  · rintro ⟨⟩
    rfl
  · rintro rfl
    exact .zero p

theorem counted_hit (hn : next p = some n) (ht : T n) :
    Counted next T W p (k + 1) es ↔ W n ∧ ∃ ds, es = n :: ds ∧ Counted next T W n k ds := by
  constructor
  · intro h
    cases h with
    | hit hn' hw _ h =>
        cases hn.symm.trans hn'
        exact ⟨hw, _, rfl, h⟩
    | pass hn' _ ht' _ =>
        cases hn.symm.trans hn'
        exact absurd ht ht'
  · rintro ⟨hw, ds, rfl, h⟩
    exact .hit hn hw ht h

theorem counted_pass (hn : next p = some n) (ht : ¬ T n) :
    Counted next T W p (k + 1) es ↔ W n ∧ Counted next T W n (k + 1) es := by
  constructor
  · intro h
    cases h with
    | hit hn' _ ht' _ =>
        cases hn.symm.trans hn'
        exact absurd ht' ht
    | pass hn' hw _ h =>
        cases hn.symm.trans hn'
        exact ⟨hw, h⟩
  · exact fun h => .pass hn h.1 ht h.2

theorem Counted.length_eq (h : Counted next T W p k es) : es.length = k := by
  induction h with
  | zero => rfl
  | hit _ _ _ _ ih => rw [List.length_cons, ih]
  | pass _ _ _ _ ih => exact ih

/-- **All of them.**  If the records of the kind that are ahead are so many, they are counted, and
what lies before the last of them is looked at. -/
theorem counted_iff (hnext : Onward next) (hsorted : es.Pairwise (· < ·))
    (hmem : ∀ e, e ∈ es ↔ T e ∧ Ahead next P p e) :
    Counted next T W p es.length ds ↔
      ds = es ∧ ∀ e ∈ es, ∀ h, Ahead next P p h → h ≤ e → W h := by
  induction es generalizing p ds with
  | nil =>
      rw [List.length_nil, counted_zero]
      exact (and_iff_left fun e he => absurd he List.not_mem_nil).symm
  | cons e es ih =>
      -- on the way to the first of them
      induction hd : e - p using Nat.strong_induction_on generalizing p with
      | _ d ihd =>
          obtain ⟨he, hahead⟩ := (hmem e).mp List.mem_cons_self
          obtain ⟨n, hn, hP, hlt, hle⟩ := hahead.exists_next hnext
          obtain ⟨hfirst, hsorted'⟩ := List.pairwise_cons.mp hsorted
          by_cases hne : n = e
          · subst hne
            have hmem' : ∀ x, x ∈ es ↔ T x ∧ Ahead next P n x := by
              intro x
              constructor
              · intro hx
                obtain ⟨hT, hA⟩ := (hmem x).mp (List.mem_cons_of_mem n hx)
                exact ⟨hT, (ahead_iff hnext hn hP (hfirst x hx).ne').mp hA⟩
              · rintro ⟨hT, hA⟩
                have hx := (hmem x).mpr ⟨hT, (ahead_iff hnext hn hP hA.1.ne').mpr hA⟩
                exact (List.mem_cons.mp hx).resolve_left hA.1.ne'
            rw [List.length_cons, counted_hit hn he]
            simp only [ih hsorted' hmem', List.forall_mem_cons]
            rw [forall_ahead hnext hn hP hlt (Nat.le_refl n)]
            constructor
            · rintro ⟨hw, ds, rfl, rfl, hall⟩
              refine ⟨rfl, ⟨hw, fun h hh hhn => absurd hh.1 (Nat.not_lt.mpr hhn)⟩, fun x hx => ?_⟩
              exact (forall_ahead hnext hn hP hlt (hfirst x hx).le).mpr ⟨hw, hall x hx⟩
            · rintro ⟨rfl, ⟨hw, -⟩, hall⟩
              exact ⟨hw, es, rfl, rfl, fun x hx =>
                ((forall_ahead hnext hn hP hlt (hfirst x hx).le).mp (hall x hx)).2⟩
          · have hT : ¬ T n := fun hT => by
              rcases List.mem_cons.mp ((hmem n).mpr ⟨hT, .of_next hn hP hlt⟩) with heq | hx
              · exact hne heq
              · exact absurd (hfirst n hx) (Nat.not_lt.mpr hle)
            have hmem' : ∀ x, x ∈ e :: es ↔ T x ∧ Ahead next P n x := fun x => by
              rw [hmem]
              refine and_congr_right fun hx => ahead_iff hnext hn hP ?_
              rintro rfl
              exact hT hx
            rw [List.length_cons, counted_pass hn hT, ← List.length_cons (a := e),
              ihd (e - n) (by omega) hmem' rfl]
            have hlast : ∀ x ∈ e :: es, n ≤ x := List.forall_mem_cons.mpr
              ⟨hle, fun x hx => hle.trans (hfirst x hx).le⟩
            constructor
            · rintro ⟨hw, rfl, hall⟩
              exact ⟨rfl, fun x hx => (forall_ahead hnext hn hP hlt (hlast x hx)).mpr ⟨hw, hall x hx⟩⟩
            · rintro ⟨rfl, hall⟩
              refine ⟨?_, rfl, fun x hx => ?_⟩
              · exact ((forall_ahead hnext hn hP hlt hle).mp (hall e List.mem_cons_self)).1
              · exact ((forall_ahead hnext hn hP hlt (hlast x hx)).mp (hall x hx)).2

/-- **The first of them.** -/
theorem counted_one (hnext : Onward next) (hp : ¬ T p) :
    Counted next T W p 1 [i] ↔ T i ∧ Ahead next (fun _ => True) p i ∧
      ∀ j, Ahead next (fun _ => True) p j → j ≤ i → W j ∧ (T j → j = i) := by
  constructor
  · intro h
    generalize hk : 1 = k at h
    generalize hes : [i] = es at h
    induction h with
    | zero => cases hk
    | @hit p n k es hn hw ht h ih =>
        cases hk
        cases hes
        have hlt : p < i := Nat.lt_of_le_of_ne (hnext p i hn) fun he => hp (he ▸ ht)
        refine ⟨ht, .of_next hn trivial hlt, ?_⟩
        exact (forall_ahead hnext hn trivial hlt (Nat.le_refl i)).mpr
          ⟨⟨hw, fun _ => rfl⟩, fun j hj hle => absurd hj.1 (Nat.not_lt.mpr hle)⟩
    | @pass p n k es hn hw ht h ih =>
        obtain ⟨hT, hA, hall⟩ := ih ht hk hes
        have hA' := (ahead_iff hnext hn trivial hA.1.ne').mpr hA
        obtain ⟨m, hm, -, hlt, -⟩ := hA'.exists_next hnext
        cases hn.symm.trans hm
        exact ⟨hT, hA', (forall_ahead hnext hn trivial hlt hA.1.le).mpr
          ⟨⟨hw, fun h => absurd h ht⟩, hall⟩⟩
  · rintro ⟨hT, hA, hall⟩
    induction hd : i - p using Nat.strong_induction_on generalizing p with
    | _ d ih =>
        obtain ⟨n, hn, -, hlt, hle⟩ := hA.exists_next hnext
        obtain ⟨⟨hw, hTn⟩, hall'⟩ := (forall_ahead hnext hn trivial hlt hle).mp hall
        by_cases ht : T n
        · cases hTn ht
          exact .hit hn hw ht (.zero i)
        · have hne : i ≠ n := fun he => ht (he ▸ hT)
          exact .pass hn hw ht
            (ih (i - n) (by omega) ht ((ahead_iff hnext hn trivial hne).mp hA) hall' rfl)

end Laplus.Lib
