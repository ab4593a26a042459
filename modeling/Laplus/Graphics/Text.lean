/-
# `Laplus.Graphics.Text` — the loops over UTF-8 text

`WriteString` and `Terminal::Print` decode a string from a pointer on, and go on
by the number of bytes that the first byte of a character announces.  Memory is
the list of its bytes; a read behind its end faults.

A first byte of no size keeps the loop where it is, and one that announces too
much takes it over the terminator.  On the encoding of a text neither happens
(`textRound_encode`).
-/
import Laplus.Graphics.Window
import Laplus.Lib.Loop
import Mathlib.Algebra.GroupWithZero.Nat

namespace Laplus.Graphics

open Lib

variable {σ : Type*} {more : Nat → Bool} {emit : σ → UInt32 → σ} {mem s : List UInt8} {i k : Nat}
  {a : σ} {c : UInt8}

/-- `static_cast<char32_t>` of a `char`, which has a sign. -/
def char32 (c : UInt8) : UInt32 := c.toInt8.toInt32.toUInt32

/-- `ConvertUTF8To32`, from the signed characters. -/
def convertSigned (u8 : List UInt8) : UInt32 × Nat :=
  let at' (i : Nat) : UInt32 := char32 (u8.getD i 0)
  match countUTF8Size (u8.getD 0 0) with
  | 1 => (at' 0, 1)
  | 2 => ((at' 0 &&& 0x1f) <<< 6 ||| (at' 1 &&& 0x3f), 2)
  | 3 => ((at' 0 &&& 0x0f) <<< 12 ||| (at' 1 &&& 0x3f) <<< 6 ||| (at' 2 &&& 0x3f), 3)
  | 4 => ((at' 0 &&& 0x07) <<< 18 ||| (at' 1 &&& 0x3f) <<< 12 ||| (at' 2 &&& 0x3f) <<< 6 |||
      (at' 3 &&& 0x3f), 4)
  | _ => (0, 0)

/-- `ConvertUTF8To32` on memory, from the pointer on. -/
def readUTF8 (u8 : List UInt8) : Option (UInt32 × Nat) :=
  u8.head?.bind fun c => if countUTF8Size c ≤ u8.length then some (convertSigned u8) else none

/-- A round of a loop over text: where it is, and what has become of the characters before.  The
byte there is read first; `more` is what the condition of the loop asks besides. -/
def textRound (more : Nat → Bool) (emit : σ → UInt32 → σ) (mem : List UInt8) (p : Nat × σ) :
    Round (Nat × σ) (Nat × σ) :=
  match mem[p.1]? with
  | none => .fault
  | some c =>
      if c = 0 ∨ more p.1 = false then .done p
      else
        match readUTF8 (mem.drop p.1) with
        | none => .fault
        | some (u32, bytes) => .again (p.1 + bytes, emit p.2 u32)

/-- A column and the writes so far, after a character of `WriteString`. -/
def emitGlyph (font : Font) (pos : Vector2D) (color : PixelColor) (p : Int × List Write)
    (u32 : UInt32) : Int × List Write :=
  (p.1 + if isHankaku u32 then 1 else 2,
    p.2 ++ writeUnicode font (pos + ⟨8 * p.1, 0⟩) u32 color)

/-- A round of the loop of `WriteString`. -/
def writeStringRound (font : Font) (pos : Vector2D) (color : PixelColor) :
    List UInt8 → Nat × Int × List Write → Round (Nat × Int × List Write) (Nat × Int × List Write) :=
  textRound (fun _ => true) (emitGlyph font pos color)

/-! ## Where the characters begin -/

/-- From a place on, `k` bytes of a character still to come, every character of the string is whole,
up to where the loop is left. -/
def Whole (more : Nat → Bool) : Nat → Nat → List UInt8 → Prop
  | _, 0, [] => True
  | _, _ + 1, [] => False
  | i, 0, c :: s =>
      more i = false ∨ countUTF8Size c ≠ 0 ∧ Whole more (i + 1) (countUTF8Size c - 1) s
  | i, k + 1, _ :: s => Whole more (i + 1) k s

/-- Among these bytes is one that the loop does not get past: a NUL, or a first byte of no size,
where a character begins. -/
def Stopped : Nat → List UInt8 → Prop
  | _, [] => False
  | 0, c :: s => c = 0 ∨ countUTF8Size c = 0 ∨ Stopped (countUTF8Size c - 1) s
  | k + 1, _ :: s => Stopped k s

instance decWhole (more : Nat → Bool) : ∀ i k s, Decidable (Whole more i k s)
  | _, 0, [] => isTrue trivial
  | _, _ + 1, [] => isFalse id
  | i, 0, c :: s =>
      have := decWhole more (i + 1) (countUTF8Size c - 1) s
      inferInstanceAs (Decidable (_ ∨ _ ∧ _))
  | i, k + 1, _ :: s => decWhole more (i + 1) k s

instance decStopped : ∀ k s, Decidable (Stopped k s)
  | _, [] => isFalse id
  | 0, c :: s =>
      have := decStopped (countUTF8Size c - 1) s
      inferInstanceAs (Decidable (_ ∨ _ ∨ _))
  | k + 1, _ :: s => decStopped k s

theorem whole_drop (h : k ≤ s.length) : Whole more i k s ↔ Whole more (i + k) 0 (s.drop k) := by
  induction k generalizing i s with
  | zero => rw [List.drop_zero, Nat.add_zero]
  | succ k ih =>
      cases s with
      | nil => exact absurd h (Nat.not_succ_le_zero k)
      | cons c s =>
          have ih := ih (i := i + 1) (Nat.le_of_succ_le_succ h)
          rw [Nat.add_assoc, Nat.add_comm 1 k] at ih
          exact ih

theorem not_whole (h : s.length < k) : ¬ Whole more i k s := by
  induction k generalizing i s with
  | zero => exact absurd h (Nat.not_lt_zero _)
  | succ k ih =>
      cases s with
      | nil => exact id
      | cons c s => exact ih (Nat.lt_of_succ_lt_succ h)

theorem stopped_drop (h : k ≤ s.length) : Stopped k s ↔ Stopped 0 (s.drop k) := by
  induction k generalizing s with
  | zero => rw [List.drop_zero]
  | succ k ih =>
      cases s with
      | nil => exact absurd h (Nat.not_succ_le_zero k)
      | cons c s => exact ih (Nat.le_of_succ_le_succ h)

theorem not_stopped (h : s.length < k) : ¬ Stopped k s := by
  induction k generalizing s with
  | zero => exact absurd h (Nat.not_lt_zero _)
  | succ k ih =>
      cases s with
      | nil => exact id
      | cons c s => exact ih (Nat.lt_of_succ_lt_succ h)

/-! ## Signed characters -/

theorem char32_and {m : UInt32} (hm : m.toNat < 2 ^ 8) (c : UInt8) :
    char32 c &&& m = c.toUInt32 &&& m := by
  refine UInt32.toBitVec_inj.mp (BitVec.eq_of_getLsbD_eq fun i hi => ?_)
  rw [UInt32.toBitVec_and, UInt32.toBitVec_and, BitVec.getLsbD_and, BitVec.getLsbD_and]
  by_cases h8 : i < 8
  · have hsigned : (char32 c).toBitVec = c.toBitVec.signExtend 32 := rfl
    have hplain : c.toUInt32.toBitVec = c.toBitVec.setWidth 32 := rfl
    rw [hsigned, hplain, BitVec.getLsbD_signExtend, BitVec.getLsbD_setWidth]
    simp [hi, h8]
  · have hzero : m.toBitVec.getLsbD i = false :=
      Nat.testBit_lt_two_pow (Nat.lt_of_lt_of_le hm (Nat.pow_le_pow_right Nat.two_pos (by omega)))
    rw [hzero, Bool.and_false, Bool.and_false]

theorem char32_of_lt (hc : c < 0x80) : char32 c = c.toUInt32 := by
  have hmsb : c.toBitVec.msb = false := by
    rw [BitVec.msb_eq_false_iff_two_mul_lt]
    have hlt := UInt8.lt_iff_toNat_lt.mp hc
    have hval : c.toBitVec.toNat = c.toNat := rfl
    have hmax : (0x80 : UInt8).toNat = 128 := rfl
    omega
  refine UInt32.toBitVec_inj.mp ?_
  have hsigned : (char32 c).toBitVec = c.toBitVec.signExtend 32 := rfl
  rw [hsigned, BitVec.signExtend_eq_setWidth_of_msb_false hmsb]
  rfl

/-- The sign of a character does not matter. -/
theorem convertSigned_eq (u8 : List UInt8) : convertSigned u8 = convertUTF8To32 u8 := by
  have hmask := fun c => And.intro (char32_and (m := 0x1f) (by decide) c)
    (And.intro (char32_and (m := 0x0f) (by decide) c)
      (And.intro (char32_and (m := 0x07) (by decide) c) (char32_and (m := 0x3f) (by decide) c)))
  by_cases hlt : u8.getD 0 0 < 0x80
  · have h1 : countUTF8Size (u8.getD 0 0) = 1 := if_pos hlt
    simp only [convertSigned, convertUTF8To32, h1, char32_of_lt hlt]
  · have hsize : countUTF8Size (u8.getD 0 0) = 2 ∨ countUTF8Size (u8.getD 0 0) = 3 ∨
        countUTF8Size (u8.getD 0 0) = 4 ∨ countUTF8Size (u8.getD 0 0) = 0 := by
      rw [countUTF8Size, if_neg hlt]
      split_ifs <;> simp
    rcases hsize with h | h | h | h <;> simp only [convertSigned, convertUTF8To32, h, hmask]

/-! ## One round -/

/-- As many bytes as the first one announces. -/
theorem convertUTF8To32_bytes (u8 : List UInt8) :
    (convertUTF8To32 u8).2 = countUTF8Size (u8.getD 0 0) := by
  unfold convertUTF8To32 countUTF8Size
  split_ifs <;> rfl

theorem readUTF8_cons : readUTF8 (c :: s) =
    if countUTF8Size c ≤ s.length + 1 then some (convertUTF8To32 (c :: s)) else none := by
  rw [← convertSigned_eq]
  rfl

/-- The loop is left at a terminator. -/
theorem textRound_zero (h : mem.drop i = 0 :: s) : textRound more emit mem (i, a) = .done (i, a) := by
  have hi : mem[i]? = some 0 := by rw [← List.head?_drop, h]; rfl
  simp [textRound, hi]

theorem textRound_end (h : mem.drop i = []) : textRound more emit mem (i, a) = .fault := by
  have hi : mem[i]? = none := by rw [← List.head?_drop, h]; rfl
  simp [textRound, hi]

/-- The loop is left where its condition fails. -/
theorem textRound_stop (h : mem.drop i = c :: s) (hm : more i = false) :
    textRound more emit mem (i, a) = .done (i, a) := by
  have hi : mem[i]? = some c := by rw [← List.head?_drop, h]; rfl
  simp [textRound, hi, hm]

variable (emit a) in
/-- A character is read. -/
theorem textRound_cons (h : mem.drop i = c :: s) (hc : c ≠ 0) (hm : more i = true) :
    textRound more emit mem (i, a) =
      if countUTF8Size c ≤ s.length + 1 then
        .again (i + countUTF8Size c, emit a (convertUTF8To32 (c :: s)).1)
      else .fault := by
  have hi : mem[i]? = some c := by rw [← List.head?_drop, h]; rfl
  have hbytes : (convertUTF8To32 (c :: s)).2 = countUTF8Size c := convertUTF8To32_bytes _
  simp only [textRound, hi, hc, hm, h, readUTF8_cons, Bool.true_eq_false, or_self, if_false]
  by_cases hle : countUTF8Size c ≤ s.length + 1
  · simp only [if_pos hle, hbytes]
  · simp only [if_neg hle]

/-- Behind a character. -/
theorem drop_size (h : mem.drop i = c :: s) (h0 : countUTF8Size c ≠ 0) :
    mem.drop (i + countUTF8Size c) = s.drop (countUTF8Size c - 1) := by
  obtain ⟨n, hn⟩ := Nat.exists_eq_succ_of_ne_zero h0
  rw [← List.drop_drop, h, hn, List.drop_succ_cons, Nat.succ_sub_one]

/-! ## When the loops end -/

/-- **The loop on a string** is left, and reads nothing behind the terminator, iff its characters
are whole. -/
theorem text_ends_iff_whole (hs : 0 ∉ s) (hmem : mem.drop i = s ++ [0]) :
    Ends (textRound more emit mem) (i, a) ↔ Whole more i 0 s := by
  induction hn : s.length using Nat.strong_induction_on generalizing s i a with
  | _ n ih =>
      cases s with
      | nil => exact iff_of_true ⟨_, .of_done (textRound_zero hmem)⟩ trivial
      | cons c s =>
          have hc : c ≠ 0 := fun h => hs (h ▸ List.mem_cons_self)
          rw [List.cons_append] at hmem
          cases hm : more i with
          | false => exact iff_of_true ⟨_, .of_done (textRound_stop hmem hm)⟩ (.inl hm)
          | true =>
              have hround := textRound_cons emit a hmem hc hm
              have hwhole : Whole more i 0 (c :: s) ↔
                  countUTF8Size c ≠ 0 ∧ Whole more (i + 1) (countUTF8Size c - 1) s :=
                or_iff_right fun h => by rw [hm] at h; cases h
              rw [hwhole]
              rw [List.length_append, List.length_singleton] at hround
              by_cases h0 : countUTF8Size c = 0
              · -- the loop stays where it is
                have hhang : ¬ Ends (textRound more emit mem) (i, a) :=
                  (hangs (fun p => p.1 = i) (fun p hp => ?_) rfl).1
                · exact iff_of_false hhang fun h => h.1 h0
                · obtain ⟨j, b⟩ := p
                  obtain rfl : j = i := hp
                  refine ⟨_, ?_, (textRound_cons _ _ hmem hc hm).trans (if_pos (h0 ▸ Nat.zero_le _))⟩
                  rw [h0, Nat.add_zero]
              · by_cases hle : countUTF8Size c ≤ s.length + 1
                · have hle' : countUTF8Size c - 1 ≤ s.length := by omega
                  rw [if_pos (by omega)] at hround
                  have hdrop := drop_size hmem h0
                  rw [List.drop_append_of_le_length hle'] at hdrop
                  rw [ends_again hround, ih _ (by rw [← hn, List.length_drop, List.length_cons]; omega)
                    (fun h => hs (List.mem_cons_of_mem c (List.mem_of_mem_drop h))) hdrop rfl,
                    whole_drop hle', Nat.add_assoc, Nat.add_sub_cancel' (Nat.pos_of_ne_zero h0)]
                  exact (and_iff_right h0).symm
                · refine iff_of_false (fun hends => ?_) fun h => not_whole (by omega) h.2
                  by_cases hlast : countUTF8Size c ≤ s.length + 1 + 1
                  · -- the terminator was taken for a part of the character
                    rw [if_pos hlast] at hround
                    rw [ends_again hround] at hends
                    refine not_ends_of_fault (textRound_end ?_) hends
                    rw [drop_size hmem h0, List.drop_eq_nil_iff, List.length_append,
                      List.length_singleton]
                    omega
                  · rw [if_neg hlast] at hround
                    exact not_ends_of_fault hround hends

/-- A string whose characters are whole takes no more rounds than it has bytes, and the last; what
every character keeps is kept. -/
theorem text_rounds (J : Nat → σ → Prop)
    (hJ : ∀ {i a c s}, mem.drop i = c :: s → countUTF8Size c ≠ 0 → countUTF8Size c ≤ s.length + 1 →
      J i a → J (i + countUTF8Size c) (emit a (convertUTF8To32 (c :: s)).1))
    (hs : 0 ∉ s) (hmem : mem.drop i = s ++ [0]) (h : Whole more i 0 s) (ha : J i a) :
    ∃ r, rounds (textRound more emit mem) (s.length + 1) (i, a) = .done r ∧ J r.1 r.2 := by
  induction hn : s.length using Nat.strong_induction_on generalizing s i a with
  | _ n ih =>
      cases s with
      | nil => exact ⟨_, rounds_done (textRound_zero hmem) n, ha⟩
      | cons c s =>
          have hc : c ≠ 0 := fun h => hs (h ▸ List.mem_cons_self)
          rw [List.cons_append] at hmem
          cases hm : more i with
          | false => exact ⟨_, rounds_done (textRound_stop hmem hm) n, ha⟩
          | true =>
              obtain ⟨h0, hwhole⟩ := h.resolve_left fun h => by rw [hm] at h; cases h
              have hle : countUTF8Size c - 1 ≤ s.length := by
                by_contra hgt
                exact not_whole (by omega) hwhole
              have hsize : countUTF8Size c ≤ (s ++ [0]).length + 1 := by
                rw [List.length_append, List.length_singleton]
                omega
              have hround := textRound_cons emit a hmem hc hm
              rw [if_pos hsize] at hround
              have hnext := hJ hmem h0 hsize ha
              have hdrop := drop_size hmem h0
              rw [List.drop_append_of_le_length hle] at hdrop
              rw [whole_drop hle, Nat.add_assoc, Nat.add_sub_cancel' (Nat.pos_of_ne_zero h0)] at hwhole
              have hlen : (s.drop (countUTF8Size c - 1)).length < n := by
                rw [← hn, List.length_drop, List.length_cons]
                omega
              obtain ⟨r, hr, hJr⟩ := ih _ hlen (fun h =>
                hs (List.mem_cons_of_mem c (List.mem_of_mem_drop h))) hdrop hwhole hnext rfl
              exact ⟨r, (rounds_again hround n).trans (rounds_mono hr hlen), hJr⟩

/-- What a round does that is not the last. -/
theorem textRound_again {p q : Nat × σ} (h : textRound more emit mem p = .again q) :
    ∃ u32, q.2 = emit p.2 u32 := by
  unfold textRound at h
  split at h
  · cases h
  · split_ifs at h
    split at h
    · cases h
    · cases h
      exact ⟨_, rfl⟩

theorem textRound_done {p q : Nat × σ} (h : textRound more emit mem p = .done q) : q = p := by
  unfold textRound at h
  split at h
  · cases h
  · split_ifs at h
    · cases h
      rfl
    · split at h <;> cases h

/-- **The loop on bytes without a terminator** does not read behind them iff it does not get past
one of them. -/
theorem text_within_iff (hmore : ∀ j < mem.length, more j = true) (hi : i ≤ mem.length) :
    ¬ Faults (textRound more emit mem) (i, a) ↔ Stopped 0 (mem.drop i) := by
  induction hn : mem.length - i using Nat.strong_induction_on generalizing i a with
  | _ n ih =>
      cases hmem : mem.drop i with
      | nil => exact iff_of_false (fun h => h (.of_fault (textRound_end hmem))) id
      | cons c s =>
          have hlt : i < mem.length := by
            by_contra hge
            rw [List.drop_of_length_le (by omega)] at hmem
            cases hmem
          have hlen : s.length + 1 = mem.length - i := by
            rw [← List.length_drop, hmem, List.length_cons]
          by_cases hc : c = 0
          · subst hc
            exact iff_of_true (not_faults_of_done (textRound_zero hmem)) (.inl rfl)
          · have hround := textRound_cons emit a hmem hc (hmore i hlt)
            have hstopped : Stopped 0 (c :: s) ↔
                countUTF8Size c = 0 ∨ Stopped (countUTF8Size c - 1) s := or_iff_right hc
            rw [hstopped]
            by_cases h0 : countUTF8Size c = 0
            · have hhang : ¬ Faults (textRound more emit mem) (i, a) :=
                (hangs (fun p => p.1 = i) (fun p hp => ?_) rfl).2
              · exact iff_of_true hhang (.inl h0)
              · obtain ⟨j, b⟩ := p
                obtain rfl : j = i := hp
                refine ⟨_, ?_, (textRound_cons _ _ hmem hc (hmore j hlt)).trans
                  (if_pos (h0 ▸ Nat.zero_le _))⟩
                rw [h0, Nat.add_zero]
            · rw [or_iff_right h0]
              by_cases hle : countUTF8Size c ≤ s.length + 1
              · rw [if_pos hle] at hround
                rw [faults_again hround, ih _ (by omega) (by omega) rfl, drop_size hmem h0,
                  ← stopped_drop (by omega)]
              · rw [if_neg hle] at hround
                exact iff_of_false (fun h => h (.of_fault hround)) (not_stopped (by omega))

/-- A character takes no more columns than bytes. -/
theorem columns_le (h : countUTF8Size c ≠ 0) :
    (if isHankaku (convertUTF8To32 (c :: s)).1 then 1 else 2) ≤ countUTF8Size c := by
  by_cases hc : c < 0x80
  · have h1 : countUTF8Size c = 1 := if_pos hc
    have hval : (convertUTF8To32 (c :: s)).1 = c.toUInt32 := by simp [convertUTF8To32, h1]
    have hle : c.toUInt32 ≤ 0x7f := by
      rw [UInt32.le_iff_toNat_le, UInt8.toNat_toUInt32]
      exact Nat.le_of_lt_succ (UInt8.lt_iff_toNat_lt.mp hc)
    rw [hval, h1, isHankaku]
    exact Nat.le_of_eq (if_pos (decide_eq_true hle))
  · rw [countUTF8Size, if_neg hc] at h ⊢
    split_ifs at h ⊢ <;> omega

/-! ## Encoded text -/

/-- The encoding of a text. -/
def utf8 (l : List Char) : List UInt8 := l.flatMap String.utf8EncodeChar

/-- Bits beside bits. -/
theorem toNat_shift_or {x y n : UInt32} {j k : Nat} (hj : n.toNat = j) (hj' : j < 32)
    (hk : 2 ^ j = k) (hx : x.toNat * k < 2 ^ 32) (hy : y.toNat < k) :
    (x <<< n ||| y).toNat = x.toNat * k + y.toNat := by
  subst hk
  rw [UInt32.toNat_or, UInt32.toNat_shiftLeft, hj, Nat.mod_eq_of_lt hj', Nat.shiftLeft_eq,
    Nat.mod_eq_of_lt hx, ← Nat.shiftLeft_eq, ← Nat.shiftLeft_add_eq_or_of_lt hy]

/-- The low bits of a byte. -/
theorem toNat_and_mask {m : UInt32} {j : Nat} (hm : m.toNat = 2 ^ j - 1) (c : UInt8) :
    (c.toUInt32 &&& m).toNat = c.toNat % 2 ^ j := by
  rw [UInt32.toNat_and, UInt8.toNat_toUInt32, hm, Nat.and_two_pow_sub_one_eq_mod]

theorem convertUTF8To32_one {s : List UInt8} (hc : countUTF8Size c = 1) :
    convertUTF8To32 (c :: s) = (c.toUInt32, 1) := by
  simp [convertUTF8To32, hc]

theorem convertUTF8To32_two {d : UInt8} (hc : countUTF8Size c = 2) :
    (convertUTF8To32 (c :: d :: s)).1.toNat = c.toNat % 32 * 64 + d.toNat % 64 := by
  have hx : (c.toUInt32 &&& 0x1f).toNat = c.toNat % 32 := toNat_and_mask (j := 5) rfl c
  have hy : (d.toUInt32 &&& 0x3f).toNat = d.toNat % 64 := toNat_and_mask (j := 6) rfl d
  have hval : (convertUTF8To32 (c :: d :: s)).1 =
      (c.toUInt32 &&& 0x1f) <<< 6 ||| (d.toUInt32 &&& 0x3f) := by
    simp [convertUTF8To32, hc]
  rw [hval, toNat_shift_or (k := 64) rfl (by decide) rfl (by omega) (by omega), hx, hy]

theorem convertUTF8To32_three {d e : UInt8} (hc : countUTF8Size c = 3) :
    (convertUTF8To32 (c :: d :: e :: s)).1.toNat =
      c.toNat % 16 * 4096 + (d.toNat % 64 * 64 + e.toNat % 64) := by
  have hx : (c.toUInt32 &&& 0x0f).toNat = c.toNat % 16 := toNat_and_mask (j := 4) rfl c
  have hy : (d.toUInt32 &&& 0x3f).toNat = d.toNat % 64 := toNat_and_mask (j := 6) rfl d
  have hz : (e.toUInt32 &&& 0x3f).toNat = e.toNat % 64 := toNat_and_mask (j := 6) rfl e
  have hval : (convertUTF8To32 (c :: d :: e :: s)).1 =
      (c.toUInt32 &&& 0x0f) <<< 12 ||| ((d.toUInt32 &&& 0x3f) <<< 6 ||| (e.toUInt32 &&& 0x3f)) := by
    simp [convertUTF8To32, hc, UInt32.or_assoc]
  have hlow := toNat_shift_or (x := d.toUInt32 &&& 0x3f) (y := e.toUInt32 &&& 0x3f) (n := 6) (k := 64)
    rfl (by decide) rfl (by omega) (by omega)
  rw [hval, toNat_shift_or (k := 4096) rfl (by decide) rfl (by omega) (by omega), hlow, hx, hy, hz]

theorem convertUTF8To32_four {d e g : UInt8} (hc : countUTF8Size c = 4) :
    (convertUTF8To32 (c :: d :: e :: g :: s)).1.toNat =
      c.toNat % 8 * 262144 + (d.toNat % 64 * 4096 + (e.toNat % 64 * 64 + g.toNat % 64)) := by
  have hx : (c.toUInt32 &&& 0x07).toNat = c.toNat % 8 := toNat_and_mask (j := 3) rfl c
  have hy : (d.toUInt32 &&& 0x3f).toNat = d.toNat % 64 := toNat_and_mask (j := 6) rfl d
  have hz : (e.toUInt32 &&& 0x3f).toNat = e.toNat % 64 := toNat_and_mask (j := 6) rfl e
  have hw : (g.toUInt32 &&& 0x3f).toNat = g.toNat % 64 := toNat_and_mask (j := 6) rfl g
  have hval : (convertUTF8To32 (c :: d :: e :: g :: s)).1 =
      (c.toUInt32 &&& 0x07) <<< 18 ||| ((d.toUInt32 &&& 0x3f) <<< 12 |||
        ((e.toUInt32 &&& 0x3f) <<< 6 ||| (g.toUInt32 &&& 0x3f))) := by
    simp [convertUTF8To32, hc, UInt32.or_assoc]
  have hlow := toNat_shift_or (x := e.toUInt32 &&& 0x3f) (y := g.toUInt32 &&& 0x3f) (n := 6) (k := 64)
    rfl (by decide) rfl (by omega) (by omega)
  have hmid := toNat_shift_or (x := d.toUInt32 &&& 0x3f)
    (y := (e.toUInt32 &&& 0x3f) <<< 6 ||| (g.toUInt32 &&& 0x3f)) (n := 12) (k := 4096)
    rfl (by decide) rfl (by omega) (by omega)
  rw [hval, toNat_shift_or (k := 262144) rfl (by decide) rfl (by omega) (by omega), hmid, hlow, hx,
    hy, hz, hw]

theorem countUTF8Size_toNat (c : UInt8) : countUTF8Size c =
    if c.toNat < 128 then 1
    else if 192 ≤ c.toNat ∧ c.toNat < 224 then 2
    else if 224 ≤ c.toNat ∧ c.toNat < 240 then 3
    else if 240 ≤ c.toNat ∧ c.toNat < 248 then 4
    else 0 := by
  simp [countUTF8Size, UInt8.lt_iff_toNat_lt, UInt8.le_iff_toNat_le]

/-- **One character.**  `ConvertUTF8To32` reads what the encoding of a character says, and its
length. -/
theorem convert_encode (c : Char) (hc : c ≠ '\x00') (s : List UInt8) :
    ∃ b t, String.utf8EncodeChar c = b :: t ∧ b ≠ 0 ∧ countUTF8Size b = t.length + 1 ∧
      (convertUTF8To32 (b :: (t ++ s))).1 = c.val := by
  have hpos : c.val.toNat ≠ 0 := fun h => hc (Char.ext (UInt32.toNat_inj.mp h))
  have hmax : c.val.toNat < 0x110000 := by
    rcases c.valid with h | h
    · omega
    · omega
  have hne : ∀ {n : Nat}, n ≠ 0 → n < 256 → UInt8.ofNat n ≠ 0 := fun {n} h0 hlt h => by
    have hn := congrArg UInt8.toNat h
    rw [UInt8.toNat_ofNat', Nat.mod_eq_of_lt hlt] at hn
    exact h0 hn
  unfold String.utf8EncodeChar
  dsimp only
  split_ifs with h1 h2 h3
  · refine ⟨_, [], rfl, hne hpos (by omega), ?_, ?_⟩
    · rw [countUTF8Size_toNat, UInt8.toNat_ofNat', if_pos (by omega), List.length_nil]
    · rw [convertUTF8To32_one]
      · refine UInt32.toNat_inj.mp ?_
        rw [UInt8.toNat_toUInt32, UInt8.toNat_ofNat']
        omega
      · rw [countUTF8Size_toNat, UInt8.toNat_ofNat', if_pos (by omega)]
  · have hsize : countUTF8Size (UInt8.ofNat (c.val.toNat / 64 % 0x20 + 0xc0)) = 2 := by
      rw [countUTF8Size_toNat, UInt8.toNat_ofNat', if_neg (by omega), if_pos (by omega)]
    refine ⟨_, [_], rfl, hne (by omega) (by omega), hsize, UInt32.toNat_inj.mp ?_⟩
    rw [List.singleton_append, convertUTF8To32_two hsize, UInt8.toNat_ofNat', UInt8.toNat_ofNat']
    omega
  · have hsize : countUTF8Size (UInt8.ofNat (c.val.toNat / 4096 % 0x10 + 0xe0)) = 3 := by
      rw [countUTF8Size_toNat, UInt8.toNat_ofNat', if_neg (by omega), if_neg (by omega),
        if_pos (by omega)]
    refine ⟨_, [_, _], rfl, hne (by omega) (by omega), hsize, UInt32.toNat_inj.mp ?_⟩
    rw [List.cons_append, List.singleton_append, convertUTF8To32_three hsize, UInt8.toNat_ofNat',
      UInt8.toNat_ofNat', UInt8.toNat_ofNat']
    omega
  · have hsize : countUTF8Size (UInt8.ofNat (c.val.toNat / 262144 % 0x08 + 0xf0)) = 4 := by
      rw [countUTF8Size_toNat, UInt8.toNat_ofNat', if_neg (by omega), if_neg (by omega),
        if_neg (by omega), if_pos (by omega)]
    refine ⟨_, [_, _, _], rfl, hne (by omega) (by omega), hsize, UInt32.toNat_inj.mp ?_⟩
    rw [List.cons_append, List.cons_append, List.singleton_append, convertUTF8To32_four hsize,
      UInt8.toNat_ofNat', UInt8.toNat_ofNat', UInt8.toNat_ofNat', UInt8.toNat_ofNat']
    omega

variable (emit a) in
/-- **The loop on encoded text** comes to the terminator, with the characters in order. -/
theorem textRound_encode (hmore : ∀ j, more j = true) {l : List Char} (hl : '\x00' ∉ l)
    {rest : List UInt8} (hmem : mem.drop i = utf8 l ++ 0 :: rest) :
    Yields (textRound more emit mem) (i, a) (i + (utf8 l).length, (l.map Char.val).foldl emit a) := by
  induction l generalizing i a with
  | nil => exact .of_done (textRound_zero hmem)
  | cons c l ih =>
      have hutf8 : utf8 (c :: l) = String.utf8EncodeChar c ++ utf8 l := List.flatMap_cons
      rw [hutf8, List.append_assoc] at hmem
      obtain ⟨b, t, hc, hb, hsize, hval⟩ := convert_encode c
        (fun h => hl (h ▸ List.mem_cons_self)) (utf8 l ++ 0 :: rest)
      rw [hc, List.cons_append] at hmem
      have hround := textRound_cons emit a hmem hb (hmore i)
      rw [hval, if_pos (by rw [hsize, List.length_append]; omega)] at hround
      have hdrop := drop_size hmem (hsize ▸ Nat.succ_ne_zero _)
      rw [hsize, Nat.add_sub_cancel, List.drop_left, ← hsize] at hdrop
      have ih := ih (a := emit a c.val) (fun h => hl (List.mem_cons_of_mem c h)) hdrop
      rw [yields_again hround, hutf8, List.length_append, hc, List.length_cons, ← hsize,
        ← Nat.add_assoc, List.map_cons, List.foldl_cons]
      exact ih

end Laplus.Graphics
