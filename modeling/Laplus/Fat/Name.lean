/-
# `Laplus.Fat.Name` — the two encoders of an 8.3 name

`SetFileName` cuts a name at its last dot and writes eight characters of the
base and three of the extension.  `NameIsEqual` runs through the name and
jumps to the extension at a dot; a base of more than eight characters runs
into the extension.  `encode_eq_iff` says for which names the two agree.
-/
import Mathlib.Data.List.GetD
import Mathlib.Logic.Function.Basic

namespace Laplus.Fat

/-! ## Characters -/

def slash : UInt8 := 0x2f
def dot : UInt8 := 0x2e
def blank : UInt8 := 0x20

/-- `toupper` of the C locale. -/
def toupper (c : UInt8) : UInt8 := if 0x61 ≤ c ∧ c ≤ 0x7a then c - 0x20 else c

theorem toupper_toNat (c : UInt8) :
    (toupper c).toNat = if 97 ≤ c.toNat ∧ c.toNat ≤ 122 then c.toNat - 32 else c.toNat := by
  rw [toupper]
  simp only [UInt8.le_iff_toNat_le, UInt8.reduceToNat]
  split
  next h =>
    rw [UInt8.toNat_sub_of_le]
    · rfl
    · exact UInt8.le_iff_toNat_le.mpr (Nat.le_trans (by decide) h.1)
  next => rfl

theorem toupper_eq_blank {c : UInt8} : toupper c = blank ↔ c = blank := by
  have h := toupper_toNat c
  rw [← UInt8.toNat_inj, ← UInt8.toNat_inj, h]
  simp only [blank, UInt8.reduceToNat]
  split <;> omega

theorem toupper_eq_dot {c : UInt8} : toupper c = dot ↔ c = dot := by
  have h := toupper_toNat c
  rw [← UInt8.toNat_inj, ← UInt8.toNat_inj, h]
  simp only [dot, UInt8.reduceToNat]
  split <;> omega

/-- `strrchr`: what stands before the last occurrence of a character, and what after. -/
def strrchr (c : UInt8) : List UInt8 → Option (List UInt8 × List UInt8)
  | [] => none
  | x :: xs =>
      match strrchr c xs with
      | some (before, after) => some (x :: before, after)
      | none => if x = c then some ([], xs) else none

/-! ## The encoders -/

/-- The loop of `NameIsEqual`. -/
def name83Loop : List UInt8 → Nat → (Nat → UInt8) → Nat → UInt8
  | [], _, name83 => name83
  | c :: name, i83, name83 =>
      if i83 < 11 then
        if c = dot then name83Loop name 8 name83
        else name83Loop name (i83 + 1) (Function.update name83 i83 (toupper c))
      else name83

/-- The bytes that `NameIsEqual` compares the entry with. -/
def name83 (name : List UInt8) : Nat → UInt8 := name83Loop name 0 fun _ => blank

/-- The bytes that `SetFileName` writes. -/
def encodeName (name : List UInt8) (i : Nat) : UInt8 :=
  match strrchr dot name with
  | some (base, ext) =>
      if i < 8 then (base.map toupper).getD i blank else (ext.map toupper).getD (i - 8) blank
  | none => if i < 8 then (name.map toupper).getD i blank else blank

/-- The eleven bytes of a name. -/
def elevenOf (f : Nat → UInt8) : List UInt8 := (List.range 11).map f

theorem elevenOf_inj {f g : Nat → UInt8} : elevenOf f = elevenOf g ↔ ∀ k < 11, f k = g k := by
  simp [elevenOf, List.map_inj_left]

theorem strrchr_none {c : UInt8} {l : List UInt8} : strrchr c l = none ↔ c ∉ l := by
  induction l with
  | nil => simp [strrchr]
  | cons x xs ih =>
      rw [strrchr]
      cases h : strrchr c xs with
      | some r =>
          have hmem : c ∈ xs := by
            by_contra hc
            rw [ih.mpr hc] at h
            cases h
          simp [hmem]
      | none =>
          by_cases hx : x = c
          · simp [hx]
          · simp [hx, ih.mp h, Ne.symm hx]

theorem strrchr_some {c : UInt8} {l before after : List UInt8}
    (h : strrchr c l = some (before, after)) : l = before ++ c :: after ∧ c ∉ after := by
  induction l generalizing before with
  | nil => cases h
  | cons x xs ih =>
      rw [strrchr] at h
      cases hr : strrchr c xs with
      | some r =>
          rw [hr] at h
          cases h
          obtain ⟨rfl, hc⟩ := ih hr
          exact ⟨rfl, hc⟩
      | none =>
          rw [hr] at h
          simp only at h
          split at h
          next hx =>
            cases h
            exact ⟨by rw [hx, List.nil_append], strrchr_none.mp hr⟩
          next => cases h

/-- A character that does not occur behind it is the last. -/
theorem strrchr_append {c : UInt8} (before : List UInt8) {after : List UInt8} (h : c ∉ after) :
    strrchr c (before ++ c :: after) = some (before, after) := by
  induction before with
  | nil => rw [List.nil_append, strrchr, strrchr_none.mpr h]; simp
  | cons x xs ih => rw [List.cons_append, strrchr, ih]

/-! ## What the loop leaves -/

theorem name83Loop_full (name : List UInt8) {i : Nat} (hi : 11 ≤ i) (f : Nat → UInt8) :
    name83Loop name i f = f := by
  cases name with
  | nil => rfl
  | cons c name => rw [name83Loop, if_neg (by omega)]

theorem name83Loop_append {base : List UInt8} (hb : dot ∉ base) (rest : List UInt8) (i : Nat)
    (f : Nat → UInt8) :
    name83Loop (base ++ rest) i f = name83Loop rest (i + base.length) (name83Loop base i f) := by
  induction base generalizing i f with
  | nil => rfl
  | cons c base ih =>
      obtain ⟨hc, hb⟩ : dot ≠ c ∧ dot ∉ base := by simpa using hb
      by_cases hi : i < 11
      · rw [List.cons_append, name83Loop, if_pos hi, if_neg (Ne.symm hc), ih hb, name83Loop,
          if_pos hi, if_neg (Ne.symm hc), List.length_cons, Nat.add_right_comm, Nat.add_assoc]
      · rw [name83Loop_full _ (by omega), name83Loop_full _ (by omega),
          name83Loop_full _ (by omega)]

/-- A part without a dot is copied, as far as the eleven bytes go. -/
theorem name83Loop_base {base : List UInt8} (hb : dot ∉ base) (i : Nat) (f : Nat → UInt8)
    (k : Nat) :
    name83Loop base i f k =
      if i ≤ k ∧ k < 11 then (base.map toupper).getD (k - i) (f k) else f k := by
  induction base generalizing i f with
  | nil => simp [name83Loop]
  | cons c base ih =>
      obtain ⟨hc, hb⟩ : dot ≠ c ∧ dot ∉ base := by simpa using hb
      by_cases hi : i < 11
      · rw [name83Loop, if_pos hi, if_neg (Ne.symm hc), ih hb]
        rcases Nat.lt_trichotomy k i with hk | rfl | hk
        · rw [if_neg (by omega), if_neg (by omega), Function.update_of_ne (by omega)]
        · rw [if_neg (by omega), if_pos ⟨Nat.le_refl k, hi⟩, Function.update_self, Nat.sub_self]
          rfl
        · have hsub : k - i = k - (i + 1) + 1 := by omega
          rw [Function.update_of_ne (by omega), hsub]
          by_cases h11 : k < 11
          · rw [if_pos ⟨hk, h11⟩, if_pos ⟨by omega, h11⟩]
            rfl
          · rw [if_neg (by omega), if_neg (by omega)]
      · rw [name83Loop_full _ (by omega), if_neg (by omega)]

/-- The bytes compared, for a name without a dot. -/
theorem name83_base {base : List UInt8} (hb : dot ∉ base) {k : Nat} (hk : k < 11) :
    name83 base k = (base.map toupper).getD k blank := by
  rw [name83, name83Loop_base hb, if_pos ⟨Nat.zero_le k, hk⟩, Nat.sub_zero]

/-- The bytes compared, for a base and an extension. -/
theorem name83_ext {base ext : List UInt8} (hb : dot ∉ base) (he : dot ∉ ext) {k : Nat}
    (hk : k < 11) :
    name83 (base ++ dot :: ext) k =
      if 8 ≤ k ∧ base.length < 11 then
        (ext.map toupper).getD (k - 8) ((base.map toupper).getD k blank)
      else (base.map toupper).getD k blank := by
  have hbase := name83_base hb hk
  rw [name83] at hbase
  rw [name83, name83Loop_append hb, Nat.zero_add]
  by_cases hlen : base.length < 11
  · rw [name83Loop, if_pos hlen, if_pos rfl, name83Loop_base he, hbase]
    by_cases h8 : 8 ≤ k
    · rw [if_pos ⟨h8, hk⟩, if_pos ⟨h8, hlen⟩]
    · rw [if_neg (by omega), if_neg (by omega)]
  · rw [name83Loop_full _ (by omega), hbase, if_neg (by omega)]

/-- Every byte compared is a blank or a character of the name. -/
theorem name83_mem (name : List UInt8) (k : Nat) :
    name83 name k = blank ∨ ∃ c ∈ name, c ≠ dot ∧ name83 name k = toupper c := by
  have hloop : ∀ (l : List UInt8) (i : Nat) (f : Nat → UInt8),
      name83Loop l i f k = f k ∨ ∃ c ∈ l, c ≠ dot ∧ name83Loop l i f k = toupper c := by
    intro l
    induction l with
    | nil => exact fun i f => .inl rfl
    | cons c l ih =>
        intro i f
        have hrest : ∀ i f, (∃ d ∈ l, d ≠ dot ∧ name83Loop l i f k = toupper d) →
            ∃ d ∈ c :: l, d ≠ dot ∧ name83Loop l i f k = toupper d := fun i f ⟨d, hd, h⟩ =>
          ⟨d, List.mem_cons_of_mem c hd, h⟩
        rw [name83Loop]
        split
        next =>
          split
          next => exact (ih 8 f).imp id (hrest _ _)
          next hc =>
            rcases ih (i + 1) (Function.update f i (toupper c)) with h | h
            · by_cases hk : k = i
              · subst hk
                exact .inr ⟨c, List.mem_cons_self, hc, h.trans (Function.update_self ..)⟩
              · exact .inl (h.trans (Function.update_of_ne hk _ _))
            · exact .inr (hrest _ _ h)
        next => exact .inl rfl
  exact hloop name 0 _

/-! ## Names on which the encoders agree -/

/-- The characters of the base that run into the extension are blanks, or the
extension covers them. -/
def Fits83 (name : List UInt8) : Prop :=
  match strrchr dot name with
  | some (base, ext) => ∀ k < 11, 8 + ext.length ≤ k → base.getD k blank = blank
  | none => ∀ k < 11, 8 ≤ k → name.getD k blank = blank

theorem getD_toupper {l : List UInt8} {k : Nat} :
    (l.map toupper).getD k blank = blank ↔ l.getD k blank = blank := by
  by_cases hk : k < l.length
  · simp [List.getD, hk, toupper_eq_blank]
  · simp [List.getD, Nat.le_of_not_lt hk]

/-- **The 8.3 mapping.**  The encoders agree on a name of at most twelve characters and
one dot exactly when nothing of its base shows in the extension. -/
theorem encode_eq_iff {name : List UInt8} (hlen : name.length ≤ 12) (hdots : name.count dot ≤ 1) :
    elevenOf (encodeName name) = elevenOf (name83 name) ↔ Fits83 name := by
  rw [elevenOf_inj, Fits83]
  cases h : strrchr dot name with
  | none =>
      have hno := strrchr_none.mp h
      refine forall₂_congr fun k hk => ?_
      simp only [encodeName, h, name83_base hno hk]
      by_cases h8 : k < 8
      · simp [h8, Nat.not_le.mpr h8]
      · rw [if_neg h8, eq_comm, getD_toupper]
        simp [Nat.le_of_not_lt h8]
  | some r =>
      obtain ⟨base, ext⟩ := r
      obtain ⟨rfl, he⟩ := strrchr_some h
      have hb : dot ∉ base := by
        rw [List.count_append, List.count_cons_self] at hdots
        exact List.count_eq_zero.mp (by omega)
      rw [List.length_append, List.length_cons] at hlen
      refine forall₂_congr fun k hk => ?_
      simp only [encodeName, h, name83_ext hb he hk]
      by_cases h8 : k < 8
      · have hk' : ¬8 + ext.length ≤ k := by omega
        simp [h8, Nat.not_le.mpr h8, hk']
      · rw [if_neg h8]
        by_cases hcov : 8 + ext.length ≤ k
        · -- the extension does not reach the place
          have hext : ∀ d, (ext.map toupper).getD (k - 8) d = d := fun d =>
            List.getD_eq_default _ _ (by rw [List.length_map]; omega)
          simp only [hext, ite_self, hcov, forall_const]
          rw [eq_comm, getD_toupper]
        · have hbase : base.length < 11 := by omega
          have hlt : k - 8 < (ext.map toupper).length := by rw [List.length_map]; omega
          rw [if_pos ⟨Nat.le_of_not_lt h8, hbase⟩, List.getD_eq_getElem _ _ hlt,
            List.getD_eq_getElem _ _ hlt]
          simp [hcov]

/-! ## Blanks behind a name -/

theorem getD_blanks (l : List UInt8) (n k : Nat) :
    ((l ++ List.replicate n blank).map toupper).getD k blank = (l.map toupper).getD k blank := by
  have hblank : toupper blank = blank := by decide
  rw [List.map_append, List.map_replicate, hblank]
  rcases Nat.lt_or_ge k (l.map toupper).length with hlt | hge
  · rw [List.getD_append _ _ _ _ hlt]
  · rw [List.getD_append_right _ _ _ _ hge, List.getD_eq_default _ _ hge,
      List.getD_eq_getElem?_getD, List.getElem?_replicate]
    split <;> rfl

/-- `SetFileName` does not see them. -/
theorem encodeName_blanks (name : List UInt8) (n : Nat) :
    encodeName (name ++ List.replicate n blank) = encodeName name := by
  have hdot : dot ∉ List.replicate n blank := fun h =>
    absurd (List.eq_of_mem_replicate h) (by decide)
  funext i
  cases h : strrchr dot name with
  | none =>
      have hno : strrchr dot (name ++ List.replicate n blank) = none :=
        strrchr_none.mpr fun hm => (List.mem_append.mp hm).elim (strrchr_none.mp h) hdot
      simp only [encodeName, h, hno, getD_blanks]
  | some r =>
      obtain ⟨base, ext⟩ := r
      obtain ⟨rfl, he⟩ := strrchr_some h
      have hlast : strrchr dot (base ++ dot :: ext ++ List.replicate n blank) =
          some (base, ext ++ List.replicate n blank) := by
        rw [List.append_assoc, List.cons_append]
        exact strrchr_append base fun hm => (List.mem_append.mp hm).elim he hdot
      simp only [encodeName, h, hlast, getD_blanks]

/-- `NameIsEqual` does not see them behind a name of one base and one extension. -/
theorem name83_blanks {name : List UInt8} (hdots : name.count dot ≤ 1) (hfits : Fits83 name)
    (n : Nat) :
    elevenOf (name83 (name ++ List.replicate n blank)) = elevenOf (name83 name) := by
  have hdot : dot ∉ List.replicate n blank := fun h =>
    absurd (List.eq_of_mem_replicate h) (by decide)
  rw [elevenOf_inj]
  intro k hk
  rw [Fits83] at hfits
  cases h : strrchr dot name with
  | none =>
      have hno := strrchr_none.mp h
      rw [name83_base hno hk,
        name83_base (fun hm => (List.mem_append.mp hm).elim hno hdot) hk, getD_blanks]
  | some r =>
      obtain ⟨base, ext⟩ := r
      obtain ⟨rfl, he⟩ := strrchr_some h
      have hb : dot ∉ base := by
        rw [List.count_append, List.count_cons_self] at hdots
        exact List.count_eq_zero.mp (by omega)
      rw [h] at hfits
      rw [List.append_assoc, List.cons_append, name83_ext hb he hk,
        name83_ext hb (fun hm => (List.mem_append.mp hm).elim he hdot) hk]
      split
      next h8 =>
          rcases Nat.lt_or_ge (k - 8) ext.length with hlt | hge
          · rw [List.map_append, List.getD_append _ _ _ _ (by rwa [List.length_map])]
          · have hbase : (base.map toupper).getD k blank = blank :=
              getD_toupper.mpr (hfits k hk (by omega))
            rw [hbase, getD_blanks]
      next => rfl

/-! ## The characters of a name -/

/-- Characters as in a path: ASCII, and no end of string. -/
def Plain (name : List UInt8) : Prop := ∀ c ∈ name, c ≠ 0 ∧ c < 0x80

instance plainDecidable (name : List UInt8) : Decidable (Plain name) :=
  List.decidableBAll (fun c => c ≠ 0 ∧ c < 0x80) name

/-- Every byte written is a blank or a character of the name. -/
theorem encodeName_mem (name : List UInt8) (k : Nat) :
    encodeName name k = blank ∨ ∃ c ∈ name, encodeName name k = toupper c := by
  have hget : ∀ (l : List UInt8) (i : Nat), (l.map toupper).getD i blank = blank ∨
      ∃ c ∈ l, (l.map toupper).getD i blank = toupper c := fun l i => by
    by_cases hi : i < (l.map toupper).length
    · rw [List.getD_eq_getElem _ _ hi, List.getElem_map]
      exact .inr ⟨_, List.getElem_mem _, rfl⟩
    · exact .inl (List.getD_eq_default _ _ (Nat.le_of_not_lt hi))
  rw [encodeName]
  split
  next base ext h =>
    obtain ⟨rfl, -⟩ := strrchr_some h
    split
    · exact (hget base k).imp id fun ⟨c, hc, hk⟩ => ⟨c, List.mem_append_left _ hc, hk⟩
    · exact (hget ext (k - 8)).imp id fun ⟨c, hc, hk⟩ =>
        ⟨c, List.mem_append_right base (List.mem_cons_of_mem dot hc), hk⟩
  next =>
    split
    · exact hget name k
    · exact .inl rfl

/-- `toupper` stays in ASCII. -/
theorem toupper_plain {c : UInt8} (h : c ≠ 0 ∧ c < 0x80) : toupper c ≠ 0 ∧ toupper c < 0x80 := by
  have hc := toupper_toNat c
  simp only [ne_eq, ← UInt8.toNat_inj, UInt8.lt_iff_toNat_lt, UInt8.reduceToNat] at h ⊢
  split at hc <;> omega

theorem encodeName_plain {name : List UInt8} (h : Plain name) (k : Nat) :
    encodeName name k ≠ 0 ∧ encodeName name k < 0x80 := by
  rcases encodeName_mem name k with hk | ⟨c, hc, hk⟩
  · rw [hk]
    decide
  · rw [hk]
    exact toupper_plain (h c hc)

theorem name83_plain {name : List UInt8} (h : Plain name) (k : Nat) :
    name83 name k ≠ 0 ∧ name83 name k < 0x80 := by
  rcases name83_mem name k with hk | ⟨c, hc, -, hk⟩
  · rw [hk]
    decide
  · rw [hk]
    exact toupper_plain (h c hc)

/-- No byte compared is a dot. -/
theorem name83_ne_dot (name : List UInt8) (k : Nat) : name83 name k ≠ dot := by
  rcases name83_mem name k with hk | ⟨c, -, hc, hk⟩
  · rw [hk]
    decide
  · rw [hk]
    exact fun h => hc (toupper_eq_dot.mp h)

end Laplus.Fat
