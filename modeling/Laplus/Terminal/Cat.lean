/-
# `Laplus.Terminal.Cat` — a file copied line by line (`terminal.cpp`, `file.cpp`)

`cat` reads up to a newline with `ReadDelim`, at most 1023 bytes, and prints what it has
read with `PrintToFD`, whose buffer is for 128.  The format call between the two does not
know of the end of either.
-/
import Laplus.Fat.Read
import Laplus.Lib.Loop
import Laplus.Lib.Terminated
import Laplus.Lib.Words

namespace Laplus.Terminal

open Lib

section
variable {φ : Type*} (read : φ → Nat → Option (φ × List UInt8))

/-- `ReadDelim` with room for so many bytes before the NUL: the string it leaves. -/
def readDelim (delim : UInt8) : Nat → φ → Option (φ × List UInt8)
  | 0, fd => some (fd, [])
  | n + 1, fd =>
      match read fd 1 with
      | none => none
      | some (fd, []) => some (fd, [])
      | some (fd, c :: _) =>
          if c = delim then some (fd, [c])
          else (readDelim delim n fd).map fun r => (r.1, c :: r.2)

/-- The size of `s` in `PrintToFD`. -/
def kPrintSize : Nat := 128

/-- `PrintToFD(fd, "%s", buf)`: what it writes; there is no answer when `vsprintf` goes over the end
of `s`. -/
def printToFD (buf : List UInt8) : Option (List UInt8) :=
  match strcpy buf with
  | none => none
  | some s => if s.length > kPrintSize then none else some (s.take (s.length - 1))

/-- The size of `u8buf`. -/
def kU8BufSize : Nat := 1024

/-- A round of `cat`, with what has been written so far. -/
def catRound : φ × List UInt8 → Round (φ × List UInt8) (List UInt8)
  | (fd, out) =>
      match readDelim read 10 (kU8BufSize - 1) fd with
      | none => .fault
      | some (fd, u8buf) =>
          if u8buf.length = 0 then .done out
          else
            match printToFD (u8buf ++ [0]) with
            | none => .fault
            | some bytes => .again (fd, out ++ bytes)

/-- A descriptor gives the bytes of a text, one after the other, and then none. -/
structure Stream (R : φ → List UInt8 → Prop) : Prop where
  cons : ∀ fd c s, R fd (c :: s) → ∃ fd', read fd 1 = some (fd', [c]) ∧ R fd' s
  nil : ∀ fd, R fd [] → ∃ fd', read fd 1 = some (fd', []) ∧ R fd' []

end

variable {φ : Type*} {read : φ → Nat → Option (φ × List UInt8)} {R : φ → List UInt8 → Prop} {fd : φ}
  {s w rest out r : List UInt8} {b delim : UInt8} {n : Nat}

/-! ## A piece of the file -/

/-- A line, as far as there is room. -/
theorem readDelim_line (hr : Stream read R) (hw : delim ∉ w) (h : R fd (w ++ delim :: rest)) :
    ∃ fd', readDelim read delim n fd = some (fd', (w ++ [delim]).take n) ∧
      (w.length < n → R fd' rest) := by
  induction n generalizing fd w with
  | zero => exact ⟨fd, rfl, fun hn => absurd hn (Nat.not_lt_zero _)⟩
  | succ n ih =>
      cases w with
      | nil =>
          obtain ⟨fd', hread, hrest⟩ := hr.cons fd delim rest h
          refine ⟨fd', ?_, fun _ => hrest⟩
          simp only [readDelim, hread, if_true]
          rw [List.nil_append, List.take_of_length_le (Nat.succ_le_succ (Nat.zero_le n))]
      | cons c w =>
          obtain ⟨hc, hw⟩ := not_or.mp (List.mem_cons.not.mp hw)
          obtain ⟨fd', hread, hrest⟩ := hr.cons fd c _ h
          obtain ⟨fd'', hdelim, hend⟩ := ih hw hrest
          refine ⟨fd'', ?_, fun hn => hend (Nat.lt_of_succ_lt_succ hn)⟩
          simp only [readDelim, hread, if_neg (Ne.symm hc), hdelim]
          rfl

/-- The last one, which may have no newline. -/
theorem readDelim_last (hr : Stream read R) (hw : delim ∉ w) (h : R fd w) :
    ∃ fd', readDelim read delim n fd = some (fd', w.take n) ∧ (w.length ≤ n → R fd' []) := by
  induction n generalizing fd w with
  | zero =>
      refine ⟨fd, by rw [readDelim, List.take_zero], fun hn => ?_⟩
      rwa [List.length_eq_zero_iff.mp (Nat.le_zero.mp hn)] at h
  | succ n ih =>
      cases w with
      | nil =>
          obtain ⟨fd', hread, hrest⟩ := hr.nil fd h
          exact ⟨fd', by rw [readDelim, hread]; rfl, fun _ => hrest⟩
      | cons c w =>
          obtain ⟨hc, hw⟩ := not_or.mp (List.mem_cons.not.mp hw)
          obtain ⟨fd', hread, hrest⟩ := hr.cons fd c _ h
          obtain ⟨fd'', hdelim, hend⟩ := ih hw hrest
          refine ⟨fd'', ?_, fun hn => hend (Nat.le_of_succ_le_succ hn)⟩
          simp only [readDelim, hread, if_neg (Ne.symm hc), hdelim]
          rfl

theorem printToFD_eq (h0 : 0 ∉ s) :
    printToFD (s ++ [0]) = if s.length < kPrintSize then some s else none := by
  have hlen : (s ++ [(0 : UInt8)]).length = s.length + 1 := List.length_append
  rw [printToFD, strcpy_eq ⟨⟨[], rfl⟩, h0⟩]
  simp only [hlen, Nat.add_sub_cancel, List.take_left']
  by_cases hs : s.length < kPrintSize
  · rw [if_pos hs, if_neg (by omega)]
  · rw [if_neg hs, if_pos (by omega)]

/-! ## A line of the file -/

variable (out) in
/-- What a round does with what it has read. -/
theorem catRound_read {fd' : φ} (hread : readDelim read 10 (kU8BufSize - 1) fd = some (fd', s))
    (hs : s ≠ []) (h0 : 0 ∉ s) :
    catRound read (fd, out) = if s.length < kPrintSize then .again (fd', out ++ s) else .fault := by
  simp only [catRound, hread]
  rw [if_neg fun h => hs (List.length_eq_zero_iff.mp h), printToFD_eq h0]
  by_cases hlt : s.length < kPrintSize
  · rw [if_pos hlt, if_pos hlt]
  · rw [if_neg hlt, if_neg hlt]

variable (out) in
theorem catRound_end (hr : Stream read R) (h : R fd []) : catRound read (fd, out) = .done out := by
  obtain ⟨fd', hread, -⟩ := readDelim_last (n := kU8BufSize - 1) hr
    (show 10 ∉ [] from List.not_mem_nil) h
  simp only [catRound, hread, List.take_nil, List.length_nil, if_true]

variable (rest out) in
/-- **A line is copied, if it is short.** -/
theorem catRound_line {line : List UInt8} (hline : line ≠ []) (h0 : 0 ∉ line)
    (hread : ∃ fd', readDelim read 10 (kU8BufSize - 1) fd = some (fd', line.take (kU8BufSize - 1)) ∧
      (line.length ≤ kU8BufSize - 1 → R fd' rest)) :
    if line.length < kPrintSize then ∃ fd', catRound read (fd, out) = .again (fd', out ++ line) ∧
      R fd' rest else catRound read (fd, out) = .fault := by
  obtain ⟨fd', hread, hrest⟩ := hread
  have hround := catRound_read out hread
    (by rw [Ne, List.take_eq_nil_iff]; exact not_or.mpr ⟨by decide, hline⟩)
    fun hm => h0 (List.mem_of_mem_take hm)
  rw [List.length_take] at hround
  have hsizes : kPrintSize = 128 ∧ kU8BufSize = 1024 := ⟨rfl, rfl⟩
  split
  next hlt =>
      rw [if_pos (by omega), List.take_of_length_le (by omega)] at hround
      exact ⟨fd', hround, hrest (by omega)⟩
  next hge => rwa [if_neg (by omega)] at hround

variable (out) in
/-- **`cat` copies what has short lines**, and goes over the end of a buffer otherwise. -/
theorem cat_yields_iff (hr : Stream read R) (h : R fd s) (h0 : 0 ∉ s) :
    Yields (catRound read) (fd, out) r ↔
      (∀ line ∈ lines (fun c => c = 10) s, line.length < kPrintSize) ∧ r = out ++ s := by
  -- on the text that is left
  induction hn : s.length using Nat.strong_induction_on generalizing fd s out with
  | _ n ih =>
    have hstop : ∀ {w : List UInt8}, (∀ c ∈ w, decide (c = 10) = false) → (10 : UInt8) ∉ w :=
      fun hw hm => absurd (hw 10 hm) (by decide)
    rcases exists_line (fun c => decide (c = 10)) s with hs | ⟨w, b, rest, rfl, hw, hb⟩
    · by_cases hne : s = []
      · subst hne
        have hdone := catRound_end out hr h
        rw [lines_nil, List.append_nil]
        constructor
        · intro hy
          exact ⟨fun line hline => absurd hline List.not_mem_nil, hy.eq_of_done hdone⟩
        · rintro ⟨-, rfl⟩
          exact .of_done hdone
      · have hline := catRound_line [] out hne h0
          (readDelim_last hr (hstop hs) h)
        rw [lines_last hne hs, List.forall_mem_singleton]
        split at hline
        next hlt =>
            obtain ⟨fd', hround, hend⟩ := hline
            rw [yields_again hround, ih 0 (by rw [← hn]; exact List.length_pos_of_ne_nil hne) _ hend
              List.not_mem_nil rfl, lines_nil, List.append_nil]
            exact and_congr_left fun _ =>
              iff_of_true (fun line hm => absurd hm List.not_mem_nil) hlt
        next hge =>
            exact iff_of_false (fun hy => not_ends_of_fault hline ⟨r, hy⟩) fun hlt => hge hlt.1
    · obtain rfl : b = 10 := of_decide_eq_true hb
      have hlen : (w ++ [(10 : UInt8)]).length = w.length + 1 := List.length_append
      rw [List.append_cons] at h0
      have hline := catRound_line rest out
        (List.append_ne_nil_of_right_ne_nil w (List.cons_ne_nil _ _))
        (fun hm => h0 (List.mem_append_left rest hm))
        (by
          obtain ⟨fd', hread, hend⟩ := readDelim_line (n := kU8BufSize - 1) hr (hstop hw) h
          exact ⟨fd', hread, fun hle => hend (by omega)⟩)
      rw [lines_cons hw hb, List.forall_mem_cons]
      split at hline
      next hlt =>
          obtain ⟨fd', hround, hend⟩ := hline
          rw [List.length_append, List.length_cons] at hn
          rw [yields_again hround, ih rest.length (by omega) _ hend
            (fun hm => h0 (List.mem_append_right _ hm)) rfl, List.append_cons w 10 rest,
            ← List.append_assoc out (w ++ [10])]
          exact and_congr_left fun _ => (and_iff_right hlt).symm
      next hge =>
          exact iff_of_false (fun hy => not_ends_of_fault hline ⟨r, hy⟩) fun hlt => hge hlt.1.1

/-! ## A file of the volume -/

/-- `fat::FileDescriptor` gives the bytes of its file. -/
theorem stream_file {v : Fat.Volume} {entry : Fat.Slot} {l : List Nat} (h : v.Covers entry l) :
    Stream v.read fun fd s => ∃ pos, v.ReaderAt entry l fd pos ∧
      pos ≤ (v.fileSize entry).toNat ∧ s = (v.fileBytes entry l).drop pos := by
  have hlen : (v.fileBytes entry l).length = (v.fileSize entry).toNat := Fat.Volume.span_length ..
  constructor
  · rintro fd c s ⟨pos, hr, hpos, hs⟩
    have hlt : pos < (v.fileSize entry).toNat := by
      refine Nat.lt_of_le_of_ne hpos fun he => ?_
      rw [List.drop_eq_nil_of_le (by omega)] at hs
      cases hs
    obtain ⟨⟨fd', hread, hr'⟩, -⟩ := Fat.Volume.read_place h hr hpos 1
    rw [Nat.min_eq_left (by omega)] at hread hr'
    have hspan := Fat.Volume.span_slice v l (v.fileSize entry).toNat pos 1
    rw [Nat.min_eq_left (by omega)] at hspan
    refine ⟨fd', ?_, pos + 1, hr', hlt, ?_⟩
    · rw [hread, ← hspan]
      exact congrArg (fun x => some (fd', x.take 1)) hs.symm
    · rw [← List.drop_drop, ← hs]
      rfl
  · rintro fd ⟨pos, hr, hpos, hs⟩
    have heq : (v.fileSize entry).toNat - pos = 0 := by
      have hnil := congrArg List.length hs
      rw [List.length_drop, hlen, List.length_nil] at hnil
      exact hnil.symm
    obtain ⟨⟨fd', hread, hr'⟩, -⟩ := Fat.Volume.read_place h hr hpos 1
    rw [heq, Nat.min_zero] at hread hr'
    exact ⟨fd', hread, pos, hr', hpos, hs⟩

/-- **`cat` of a file.**  Without NUL bytes it is copied, with no buffer gone over, exactly when no
line is longer than 127 bytes, its newline included. -/
theorem cat_copies_iff {v : Fat.Volume} {entry : Fat.Slot} {l : List Nat} (h : v.Covers entry l)
    (h0 : 0 ∉ v.fileBytes entry l) :
    Yields (catRound v.read) (.new entry, []) (v.fileBytes entry l) ↔
      ∀ line ∈ lines (fun c => c = 10) (v.fileBytes entry l), line.length < 128 := by
  have hstart := (cat_yields_iff [] (r := v.fileBytes entry l)
    (stream_file h) ⟨0, Fat.Volume.new_readerAt v entry l, Nat.zero_le _, rfl⟩ h0)
  rw [hstart]
  exact and_iff_left (List.nil_append _).symm

/-- A file of 300 bytes. -/
theorem put_covers (bytes : Nat → UInt8) :
    (Fat.oneFile.put 3 0 300 bytes).Covers ⟨2, 0⟩ [3] := by
  have hbyte : ∀ k, (Fat.oneFile.put 3 0 300 bytes).byte ⟨2, 0⟩ k = Fat.oneFile.byte ⟨2, 0⟩ k :=
    fun k => Fat.Volume.put_ne _ _ _ _ _ (by decide)
  have hfirst : ((Fat.oneFile.put 3 0 300 bytes).firstCluster ⟨2, 0⟩).toNat = 3 := by
    simp only [Fat.Volume.firstCluster, hbyte]
    decide
  have hsize : ((Fat.oneFile.put 3 0 300 bytes).fileSize ⟨2, 0⟩).toNat = 300 := by
    simp only [Fat.Volume.fileSize, hbyte]
    decide
  have hchain : Fat.oneFile.fat.IsChain 3 [3] := by
    have hone := Fat.oneFile_covers.chain.resolve_left fun h => List.cons_ne_nil _ _ h.2
    rwa [(by decide : (Fat.oneFile.firstCluster ⟨2, 0⟩).toNat = 3)] at hone
  refine ⟨.inr ?_, ?_⟩
  · rw [hfirst]
    exact hchain
  · rw [hsize]
    exact (by decide : 300 ≤ [3].length * Fat.oneFile.bytesPerCluster)

/-- Three lines of 100 bytes. -/
def hundreds : Fat.Volume := Fat.oneFile.put 3 0 300 fun k => if k % 100 = 99 then 10 else 97

theorem cat_copies_hundreds :
    Yields (catRound hundreds.read) (.new ⟨2, 0⟩, []) (hundreds.fileBytes ⟨2, 0⟩ [3]) :=
  (cat_copies_iff (put_covers _) (by decide +kernel)).mpr (by decide +kernel)

/-- A file that is one line of 300 bytes. -/
def longFile : Fat.Volume := Fat.oneFile.put 3 0 300 fun _ => 97

/-- The buffer of `PrintToFD` is gone over. -/
theorem cat_overruns : (0 : UInt8) ∉ longFile.fileBytes ⟨2, 0⟩ [3] ∧
    ¬ Yields (catRound longFile.read) (.new ⟨2, 0⟩, []) (longFile.fileBytes ⟨2, 0⟩ [3]) := by
  have h0 : (0 : UInt8) ∉ longFile.fileBytes ⟨2, 0⟩ [3] := by decide +kernel
  refine ⟨h0, fun hy => ?_⟩
  have hlines := (cat_yields_iff [] (stream_file (put_covers _))
    ⟨0, Fat.Volume.new_readerAt _ _ _, Nat.zero_le _, rfl⟩ h0).mp hy
  exact absurd hlines.1 (by decide +kernel)

end Laplus.Terminal
