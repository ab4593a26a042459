/-
# `Laplus.Lib.CString` — numerals in C strings

A C string is the list of its characters, without the NUL behind them.
`strtol` skips white space, takes a sign and, for base 16, a `0x`, and then the
longest run of digits; it answers the value, limited to a `long`, and how many
characters it took.  `showNat` prints with at least so many places, as `%d` and
`%02x` do.  `strtol_show` says that the one reads what the other prints, up to
the first character that is neither a digit nor a letter.
-/
import Mathlib.Data.Nat.Digits.Lemmas

namespace Laplus.Lib

/-! ## Characters -/

/-- `isspace` of the C locale. -/
def isspace (c : UInt8) : Bool := c = 32 || (9 ≤ c && c ≤ 13)

/-- The character of a digit, in lower case. -/
def digitChar (d : Nat) : UInt8 := UInt8.ofNat (if d < 10 then 48 + d else 87 + d)

/-- The value of a digit or a letter. -/
def digitVal (c : UInt8) : Option Nat :=
  if 48 ≤ c.toNat ∧ c.toNat ≤ 57 then some (c.toNat - 48)
  else if 97 ≤ c.toNat ∧ c.toNat ≤ 122 then some (c.toNat - 87)
  else if 65 ≤ c.toNat ∧ c.toNat ≤ 90 then some (c.toNat - 55)
  else none

/-- The value of a digit of the base. -/
def digitIn (base : Nat) (c : UInt8) : Option Nat := (digitVal c).filter (· < base)

/-! ## `snprintf` and `strtol` -/

/-- The string that `snprintf` leaves in a buffer of so many bytes. -/
def snprintf (size : Nat) (text : List UInt8) : List UInt8 := text.take (size - 1)

/-- The digits of a number, with at least `width` places. -/
def numeral (base width n : Nat) : List Nat :=
  List.replicate (width - (Nat.digits base n).length) 0 ++ (Nat.digits base n).reverse

/-- `%d` and `%x`, padded with zeros. -/
def showNat (base width n : Nat) : List UInt8 := (numeral base width n).map digitChar

/-- The digits of `strtol`: the value, and how many there are. -/
def strtolDigits (base : Nat) : Nat → List UInt8 → Nat × Nat
  | acc, [] => (acc, 0)
  | acc, c :: s =>
      match digitIn base c with
      | none => (acc, 0)
      | some d =>
          let r := strtolDigits base (acc * base + d) s
          (r.1, r.2 + 1)

/-- The length of a sign, and whether it is a minus. -/
def strtolSign : List UInt8 → Nat × Bool
  | 45 :: _ => (1, true)
  | 43 :: _ => (1, false)
  | _ => (0, false)

/-- The length of a `0x` with a digit behind it. -/
def strtolPrefix (base : Nat) : List UInt8 → Nat
  | 48 :: x :: c :: _ => if base = 16 ∧ (x = 120 ∨ x = 88) ∧ (digitIn 16 c).isSome then 2 else 0
  | _ => 0

/-- `strtol`: the value, and how far `*endptr` is behind the start. -/
def strtol (s : List UInt8) (base : Nat) : Int × Nat :=
  let blanks := (s.takeWhile isspace).length
  let s := s.drop blanks
  let sign := strtolSign s
  let s := s.drop sign.1
  let pre := strtolPrefix base s
  let r := strtolDigits base 0 (s.drop pre)
  if r.2 = 0 then (0, 0)
  else
    (if sign.2 then max (-(r.1 : Int)) (-2 ^ 63) else min (r.1 : Int) (2 ^ 63 - 1),
      blanks + sign.1 + pre + r.2)

/-! ## Digits -/

section Digits
variable {base : Nat}

/-- The character of a digit below 36. -/
theorem digitChar_toNat {d : Nat} (hd : d < 36) :
    (digitChar d).toNat = if d < 10 then 48 + d else 87 + d := by
  rw [digitChar, UInt8.toNat_ofNat']
  split <;> omega

theorem digitIn_char {d : Nat} (hd : d < base) (hb : base ≤ 36) :
    digitIn base (digitChar d) = some d := by
  have hval : digitVal (digitChar d) = some d := by
    have hc := digitChar_toNat (hd.trans_le hb)
    unfold digitVal
    split at hc
    · rw [if_pos (by omega), hc, Nat.add_sub_cancel_left]
    · rw [if_neg (by omega), if_pos (by omega), hc, Nat.add_sub_cancel_left]
  rw [digitIn, hval]
  simp [hd]

theorem digitIn_none {c : UInt8} (h : digitVal c = none) : digitIn base c = none := by
  rw [digitIn, h]
  rfl

/-- A digit is no white space, no sign and no `x`. -/
theorem digitChar_plain {d : Nat} (hd : d < 36) :
    isspace (digitChar d) = false ∧ digitChar d ≠ 45 ∧ digitChar d ≠ 43 := by
  have hc := digitChar_toNat hd
  refine ⟨?_, fun h => ?_, fun h => ?_⟩
  · simp only [isspace, Bool.or_eq_false_iff, Bool.and_eq_false_iff, decide_eq_false_iff_not,
      ← UInt8.toNat_inj, UInt8.le_iff_toNat_le, UInt8.reduceToNat]
    split at hc <;> omega
  · rw [h] at hc
    simp only [UInt8.reduceToNat] at hc
    split at hc <;> omega
  · rw [h] at hc
    simp only [UInt8.reduceToNat] at hc
    split at hc <;> omega

/-- `strtol` reads digits up to a character that is none. -/
theorem strtolDigits_append (hb : base ≤ 36) {l : List Nat} (hl : ∀ d ∈ l, d < base)
    {rest : List UInt8} (hrest : ∀ c ∈ rest.head?, digitVal c = none) (acc : Nat) :
    strtolDigits base acc (l.map digitChar ++ rest) =
      (l.foldl (fun a d => a * base + d) acc, l.length) := by
  induction l generalizing acc with
  | nil =>
      cases rest with
      | nil => rfl
      | cons c rest => simp [strtolDigits, digitIn_none (hrest c rfl)]
  | cons d l ih =>
      obtain ⟨hd, hl⟩ := List.forall_mem_cons.mp hl
      rw [List.map_cons, List.cons_append, strtolDigits, digitIn_char hd hb]
      simp only [ih hl, List.foldl_cons, List.length_cons]

/-- No `0x` stands in front of digits. -/
theorem strtolPrefix_append {l : List Nat} (hl : ∀ d ∈ l, d < base)
    (hpos : 0 < l.length) {rest : List UInt8} (hrest : ∀ c ∈ rest.head?, digitVal c = none) :
    strtolPrefix base (l.map digitChar ++ rest) = 0 := by
  -- the character behind the first one is a digit of the base, or neither digit nor letter
  have hsecond : ∀ x ∈ (l.tail.map digitChar ++ rest).head?, base = 16 → ¬ (x = 120 ∨ x = 88) := by
    intro x hx h16 hxs
    have hsome : (digitIn 16 x).isSome ∨ digitVal x = none := by
      cases htail : l.tail with
      | nil =>
          rw [htail] at hx
          exact .inr (hrest x hx)
      | cons d l' =>
          rw [htail] at hx
          cases hx
          have hd : d < 16 := h16 ▸ hl d (List.mem_of_mem_tail (htail ▸ List.mem_cons_self))
          exact .inl (by rw [digitIn_char hd (by decide)]; rfl)
    rcases hxs with rfl | rfl
    · exact absurd hsome (by decide)
    · exact absurd hsome (by decide)
  obtain ⟨d, l, rfl⟩ := List.exists_cons_of_length_pos hpos
  rw [List.map_cons, List.cons_append]
  rw [List.tail_cons] at hsecond
  generalize l.map digitChar ++ rest = s at hsecond ⊢
  unfold strtolPrefix
  split
  · rename_i x c s hs
    obtain ⟨-, rfl⟩ := List.cons.inj hs
    exact if_neg fun h => hsecond x rfl h.1 h.2.1
  · rfl

/-- `strtol` reads a run of digits. -/
theorem strtol_append (hb : base ≤ 36) {l : List Nat} (hl : ∀ d ∈ l, d < base)
    (hpos : 0 < l.length) {rest : List UInt8} (hrest : ∀ c ∈ rest.head?, digitVal c = none)
    (hmax : l.foldl (fun a d => a * base + d) 0 < 2 ^ 63) :
    strtol (l.map digitChar ++ rest) base =
      (((l.foldl (fun a d => a * base + d) 0 : Nat) : Int), l.length) := by
  have hpre := strtolPrefix_append hl hpos hrest
  have hdigits := strtolDigits_append hb hl hrest 0
  have hblanks : (l.map digitChar ++ rest).takeWhile isspace = [] ∧
      strtolSign (l.map digitChar ++ rest) = (0, false) := by
    obtain ⟨d, l, rfl⟩ := List.exists_cons_of_length_pos hpos
    have hd : d < 36 := (hl d List.mem_cons_self).trans_le hb
    obtain ⟨hspace, hminus, hplus⟩ := digitChar_plain hd
    rw [List.map_cons, List.cons_append]
    refine ⟨List.takeWhile_cons_of_neg (by simp [hspace]), ?_⟩
    unfold strtolSign
    split
    · rename_i s hs
      exact absurd (List.cons.inj hs).1 hminus
    · rename_i s hs
      exact absurd (List.cons.inj hs).1 hplus
    · rfl
  obtain ⟨hblanks, hsign⟩ := hblanks
  simp only [strtol, hblanks, List.length_nil, List.drop_zero, hsign, hpre, hdigits]
  rw [if_neg (by omega)]
  simp only [Bool.false_eq_true, if_false, Nat.zero_add, Prod.mk.injEq, and_true]
  omega

end Digits

/-! ## Numerals -/

section Numeral
variable {base width n : Nat}

theorem numeral_lt (hb : 1 < base) : ∀ d ∈ numeral base width n, d < base := by
  intro d hd
  rcases List.mem_append.mp hd with hd | hd
  · rw [List.eq_of_mem_replicate hd]
    omega
  · exact Nat.digits_lt_base hb (List.mem_reverse.mp hd)

/-- A number below `base ^ k` has at most `k` places. -/
theorem numeral_length_le (hb : 1 < base) {k : Nat} (hw : width ≤ k) (hn : n < base ^ k) :
    (numeral base width n).length ≤ k := by
  have hlen := (Nat.digits_length_le_iff hb n).mpr hn
  simp only [numeral, List.length_append, List.length_replicate, List.length_reverse]
  omega

theorem numeral_length_pos (hw : 0 < width) : 0 < (numeral base width n).length := by
  simp only [numeral, List.length_append, List.length_replicate, List.length_reverse]
  omega

/-- The value of a numeral. -/
theorem numeral_value (base width n : Nat) :
    (numeral base width n).foldl (fun a d => a * base + d) 0 = n := by
  have hzeros : ∀ k, (List.replicate k 0).foldl (fun a d => a * base + d) 0 = 0 := by
    intro k
    induction k with
    | zero => rfl
    | succ k ih => simpa [List.replicate_succ] using ih
  have hdigits : (Nat.digits base n).foldr (fun d a => a * base + d) 0 = n := by
    have hof := Nat.ofDigits_eq_foldr base (Nat.digits base n)
    rw [Nat.ofDigits_digits] at hof
    calc (Nat.digits base n).foldr (fun d a => a * base + d) 0
        = (Nat.digits base n).foldr (fun d a => d + base * a) 0 := by
          simp only [Nat.mul_comm base, Nat.add_comm]
      _ = n := by simpa using hof.symm
  rw [numeral, List.foldl_append, hzeros, List.foldl_reverse, hdigits]

/-- **Round trip.**  `strtol` reads what `snprintf` has printed. -/
theorem strtol_show (hb : 1 < base) (hb' : base ≤ 36) (hw : 0 < width) (hn : n < 2 ^ 63)
    {rest : List UInt8} (hrest : ∀ c ∈ rest.head?, digitVal c = none) :
    strtol (showNat base width n ++ rest) base = ((n : Int), (showNat base width n).length) := by
  have hval := numeral_value base width n
  rw [showNat, strtol_append hb' (numeral_lt hb) (numeral_length_pos hw) hrest (by rwa [hval]),
    hval, List.length_map]

/-- What is printed has no other characters than digits. -/
theorem digitVal_of_mem_show (hb : 1 < base) (hb' : base ≤ 36) {c : UInt8}
    (hc : c ∈ showNat base width n) : digitVal c ≠ none := by
  obtain ⟨d, hd, rfl⟩ := List.mem_map.mp hc
  intro hnone
  have hsome := digitIn_char (numeral_lt hb d hd) hb'
  rw [digitIn_none hnone] at hsome
  cases hsome

end Numeral

end Laplus.Lib
