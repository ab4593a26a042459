/-
# `Laplus.Terminal.Argv` — the arguments of a command (`terminal.cpp`)

`MakeArgVector` copies the command and the words of its argument text to a buffer,
one behind the other.  It makes strings of the words by a NUL on the blank behind
each, in the text itself.  The room in the buffer is asked for before a copy, but not
how much of it the copy takes.
-/
import Laplus.Lib.CString
import Laplus.Lib.Loop
import Laplus.Lib.Memory
import Laplus.Lib.Terminated
import Laplus.Lib.Words
import Mathlib.Data.List.TakeWhile

namespace Laplus.Terminal

open Lib

/-- The error of `push_to_argv`. -/
inductive ArgError where
  | kFull
deriving DecidableEq

/-- `argv`, as places in `argbuf`, and the text of the arguments. -/
structure ArgVector where
  argv : Nat → Nat
  argc : Nat
  argbuf : Nat → UInt8
  argbufIndex : Nat
  text : List UInt8

/-- Whether a character is part of a word. -/
def inWord (c : UInt8) : Bool := c ≠ 0 && !isspace c

namespace ArgVector

/-- What `MakeArgVector` begins with. -/
def start (argv : Nat → Nat) (argbuf : Nat → UInt8) (text : List UInt8) : ArgVector :=
  ⟨argv, 0, argbuf, 0, text⟩

section
variable (argvLen argbufLen : Nat)

/-- `push_to_argv`, of the string at a place of memory; there is no answer for a string that is not
ended, and for a copy that goes over the end of the buffer. -/
def pushToArgv (v : ArgVector) (s : List UInt8) : Option (Except ArgError ArgVector) :=
  if v.argc ≥ argvLen ∨ v.argbufIndex ≥ argbufLen then some (.error .kFull)
  else
    match strcpy s with
    | none => none
    | some copied =>
        if v.argbufIndex + copied.length > argbufLen then none
        else some (.ok { v with
          argv := Function.update v.argv v.argc v.argbufIndex
          argc := v.argc + 1
          argbuf := copyAt v.argbuf v.argbufIndex copied
          argbufIndex := v.argbufIndex + copied.length })

/-- The loop of `MakeArgVector` is left, or goes on at a place of the text. -/
def pushed (v : ArgVector) (next : Option Nat) :
    Option (Except ArgError ArgVector) →
      Round (Option Nat × ArgVector) (Option ArgError × ArgVector)
  | none => .fault
  | some (.error err) => .done (some err, v)
  | some (.ok v) => if next.isSome then .again (next, v) else .done (none, v)

/-- A round of `MakeArgVector`: the command, and then a word of the text. -/
def argRound (command : List UInt8) (firstArg : Bool) :
    Option Nat × ArgVector → Round (Option Nat × ArgVector) (Option ArgError × ArgVector)
  | (none, v) => v.pushed (if firstArg then some 0 else none) (v.pushToArgv argvLen argbufLen command)
  | (some p, v) =>
      let blanks := (v.text.drop p).takeWhile isspace
      let mem := (v.text.drop p).dropWhile isspace
      match mem.head? with
      | none => .fault
      | some c =>
          if c = 0 then .done (none, v)
          else
            let arg := p + blanks.length
            let stop := arg + (mem.takeWhile inWord).length
            match (mem.dropWhile inWord).head? with
            | none => .fault
            | some last =>
                let v := { v with text := v.text.set stop 0 }
                v.pushed (if last = 0 then none else some (stop + 1))
                  (v.pushToArgv argvLen argbufLen (v.text.drop arg))

end

/-! ## What is in the buffer -/

/-- The strings of the vector: in the buffer, each ended, one behind the other. -/
structure Holds (v : ArgVector) (ws : List (List UInt8)) : Prop where
  argc : v.argc = ws.length
  string : ∀ k w, ws[k]? = some w →
    slice (fun j => v.argbuf (v.argv k + j)) (w.length + 1) = w ++ [0]
  inside : ∀ k w, ws[k]? = some w → v.argv k + w.length + 1 ≤ v.argbufIndex
  apart : ∀ k l w, k < l → l < ws.length → ws[k]? = some w → v.argv k + w.length + 1 ≤ v.argv l

/-- What may be written: the vector, the buffer, and a NUL on a blank of the text. -/
structure Confined (argvLen argbufLen : Nat) (v v' : ArgVector) : Prop where
  argv : ∀ i, argvLen ≤ i → v'.argv i = v.argv i
  argbuf : ∀ i, argbufLen ≤ i → v'.argbuf i = v.argbuf i
  text : ∀ i : Nat, v'.text[i]? = v.text[i]? ∨
    v'.text[i]? = some 0 ∧ ∃ c, v.text[i]? = some c ∧ isspace c = true

variable {argvLen argbufLen p : Nat} {v v' v'' : ArgVector} {ws : List (List UInt8)}
  {s w rest command : List UInt8} {firstArg : Bool}

theorem Confined.refl (v : ArgVector) : Confined argvLen argbufLen v v :=
  ⟨fun _ _ => rfl, fun _ _ => rfl, fun _ => .inl rfl⟩

theorem Confined.trans (h : Confined argvLen argbufLen v v')
    (h' : Confined argvLen argbufLen v' v'') : Confined argvLen argbufLen v v'' where
  argv i hi := (h'.argv i hi).trans (h.argv i hi)
  argbuf i hi := (h'.argbuf i hi).trans (h.argbuf i hi)
  text i := by
    rcases h'.text i with heq | ⟨hzero, c, hc, hblank⟩
    · rw [heq]
      exact h.text i
    · rcases h.text i with heq | ⟨hzero', -⟩
      · exact .inr ⟨hzero, c, heq ▸ hc, hblank⟩
      · -- a blank is no NUL
        rw [hzero'] at hc
        cases hc
        cases hblank

/-- What a copy leaves below it. -/
theorem slice_copyAt_below (m : Nat → UInt8) {a n off : Nat} (h : a + n ≤ off)
    (data : List UInt8) :
    slice (fun j => copyAt m off data (a + j)) n = slice (fun j => m (a + j)) n := by
  refine List.map_congr_left fun j hj => ?_
  have hlt := List.mem_range.mp hj
  exact if_neg (by omega)

theorem slice_copyAt_self (m : Nat → UInt8) (off : Nat) (data : List UInt8) :
    slice (fun j => copyAt m off data (off + j)) data.length = data := by
  refine List.ext_getElem? fun j => ?_
  rw [slice_getElem?]
  split
  next hj =>
    rw [copyAt, if_pos (Nat.le_add_right off j), Nat.add_sub_cancel_left,
      List.getElem?_eq_getElem hj]
    rfl
  next hj => exact (List.getElem?_eq_none (by omega)).symm

/-- **A word is pushed.** -/
theorem Holds.push (h : Holds v ws) (hs : IsString s w) (hargc : v.argc < argvLen)
    (hroom : v.argbufIndex + w.length + 1 ≤ argbufLen) :
    ∃ v', v.pushToArgv argvLen argbufLen s = some (.ok v') ∧ Holds v' (ws ++ [w]) ∧
      v'.argbufIndex = v.argbufIndex + w.length + 1 ∧ v'.text = v.text ∧
      Confined argvLen argbufLen v v' := by
  have hcopied : (w ++ [(0 : UInt8)]).length = w.length + 1 := by
    rw [List.length_append, List.length_singleton]
  have hpush : v.pushToArgv argvLen argbufLen s = some (.ok { v with
      argv := Function.update v.argv v.argc v.argbufIndex
      argc := v.argc + 1
      argbuf := copyAt v.argbuf v.argbufIndex (w ++ [0])
      argbufIndex := v.argbufIndex + (w ++ [(0 : UInt8)]).length }) := by
    rw [pushToArgv, if_neg (by omega), strcpy_eq hs]
    exact if_neg (by rw [hcopied]; omega)
  have hlast : ∀ k w', (ws ++ [w])[k]? = some w' → ws[k]? = some w' ∧ k < v.argc ∨ k = v.argc ∧ w' = w := by
    intro k w' hk
    rw [h.argc]
    rcases Nat.lt_trichotomy k ws.length with hlt | rfl | hgt
    · rw [List.getElem?_append_left hlt] at hk
      exact .inl ⟨hk, hlt⟩
    · rw [List.getElem?_concat_length] at hk
      cases hk
      exact .inr ⟨rfl, rfl⟩
    · rw [List.getElem?_eq_none (by rw [List.length_append, List.length_singleton]; omega)] at hk
      cases hk
  refine ⟨_, hpush, ⟨?_, ?_, ?_, ?_⟩, by rw [hcopied]; rfl, rfl, ⟨?_, ?_, fun _ => .inl rfl⟩⟩
  · exact (congrArg (· + 1) h.argc).trans (@List.length_append _ ws [w]).symm
  · intro k w' hk
    rcases hlast k w' hk with ⟨hk, hlt⟩ | ⟨rfl, rfl⟩
    · simp only [Function.update_of_ne hlt.ne]
      rw [slice_copyAt_below (n := w'.length + 1) _ (h.inside k w' hk), h.string k w' hk]
    · simp only [Function.update_self]
      rw [← hcopied, slice_copyAt_self]
  · intro k w' hk
    rw [hcopied]
    rcases hlast k w' hk with ⟨hk, hlt⟩ | ⟨rfl, rfl⟩
    · simp only [Function.update_of_ne hlt.ne]
      have hin := h.inside k w' hk
      omega
    · simp only [Function.update_self]
      omega
  · intro k l w' hkl hl hk
    rw [List.length_append, List.length_singleton, ← h.argc] at hl
    rcases hlast k w' hk with ⟨hk, hlt⟩ | ⟨rfl, rfl⟩
    · simp only [Function.update_of_ne hlt.ne]
      by_cases hl' : l = v.argc
      · subst hl'
        rw [Function.update_self]
        exact h.inside k w' hk
      · rw [Function.update_of_ne hl']
        exact h.apart k l w' hkl (by rw [← h.argc]; omega) hk
    · omega
  · intro i hi
    exact Function.update_of_ne (by omega) _ _
  · intro i hi
    have hnone : (w ++ [(0 : UInt8)])[i - v.argbufIndex]? = none :=
      List.getElem?_eq_none (by rw [hcopied]; omega)
    simp only [copyAt, hnone, Option.getD_none, ite_self]

/-! ## One round -/

/-- No word is left. -/
theorem argRound_end {bs : List UInt8} (hmem : v.text.drop p = bs ++ 0 :: rest)
    (hbs : ∀ c ∈ bs, isspace c = true) :
    argRound argvLen argbufLen command firstArg (some p, v) = .done (none, v) := by
  have hzero : isspace 0 = false := by decide
  have hdrop : (v.text.drop p).dropWhile isspace = 0 :: rest := by
    rw [hmem, List.dropWhile_append_of_pos hbs, List.dropWhile_cons_of_neg (by rw [hzero]; decide)]
  simp only [argRound, hdrop, List.head?_cons, if_true]

variable (argvLen argbufLen command firstArg) in
/-- A word is cut off and pushed. -/
theorem argRound_word {bs : List UInt8} {last : UInt8}
    (hmem : v.text.drop p = bs ++ (w ++ last :: rest)) (hbs : ∀ c ∈ bs, isspace c = true)
    (hne : w ≠ []) (hw : ∀ c ∈ w, inWord c = true) (hlast : inWord last = false) :
    let stop := p + bs.length + w.length
    let v' := { v with text := v.text.set stop 0 }
    argRound argvLen argbufLen command firstArg (some p, v) =
        v'.pushed (if last = 0 then none else some (stop + 1))
          (v'.pushToArgv argvLen argbufLen (w ++ 0 :: rest)) ∧
      v'.text.drop (stop + 1) = rest := by
  intro stop v'
  obtain ⟨c, w', rfl⟩ := List.exists_cons_of_ne_nil hne
  have hc := hw c List.mem_cons_self
  obtain ⟨hc0, hcs⟩ : c ≠ 0 ∧ isspace c = false := by
    rw [inWord, Bool.and_eq_true, decide_eq_true_eq, Bool.not_eq_true'] at hc
    exact hc
  have htake : (v.text.drop p).takeWhile isspace = bs := by
    rw [hmem, List.takeWhile_append_of_pos hbs, List.cons_append,
      List.takeWhile_cons_of_neg (by rw [hcs]; decide), List.append_nil]
  have hdrop : (v.text.drop p).dropWhile isspace = c :: w' ++ last :: rest := by
    rw [hmem, List.dropWhile_append_of_pos hbs, List.cons_append,
      List.dropWhile_cons_of_neg (by rw [hcs]; decide)]
  have hword : (c :: w' ++ last :: rest).takeWhile inWord = c :: w' := by
    rw [List.takeWhile_append_of_pos hw, List.takeWhile_cons_of_neg (by rw [hlast]; decide),
      List.append_nil]
  have hrest : (c :: w' ++ last :: rest).dropWhile inWord = last :: rest := by
    rw [List.dropWhile_append_of_pos hw, List.dropWhile_cons_of_neg (by rw [hlast]; decide)]
  have harg : v.text.drop (p + bs.length) = c :: w' ++ last :: rest := by
    rw [← List.drop_drop, hmem, List.drop_left]
  have hcut : v'.text.drop (p + bs.length) = c :: w' ++ 0 :: rest := by
    rw [List.drop_set, if_neg (by omega), harg, Nat.add_sub_cancel_left,
      List.set_append_right _ _ (Nat.le_refl _), Nat.sub_self, List.set_cons_zero]
  refine ⟨?_, ?_⟩
  · simp only [argRound, htake, hdrop, List.cons_append, List.head?_cons, if_neg hc0]
    rw [← List.cons_append, hword, hrest]
    simp only [List.head?_cons]
    rw [hcut]
    rfl
  · have hstop : stop + 1 = p + bs.length + ((c :: w').length + 1) := Nat.add_assoc _ _ _
    rw [hstop, ← List.drop_drop, hcut, List.drop_length_add_append]
    rfl

/-- What a text without a NUL begins with: blanks, and a word with the end or a blank behind it. -/
theorem exists_word (s : List UInt8) : (∀ c ∈ s, isspace c = true) ∨ ∃ bs w rest,
    s = bs ++ (w ++ rest) ∧ (∀ c ∈ bs, isspace c = true) ∧ w ≠ [] ∧ (∀ c ∈ w, isspace c = false) ∧
      (rest = [] ∨ ∃ b rest', rest = b :: rest' ∧ isspace b = true) := by
  cases hs : s.dropWhile isspace with
  | nil => exact .inl (List.dropWhile_eq_nil_iff.mp hs)
  | cons c s' =>
      have hc : isspace c = false := by
        have hhead := List.head?_dropWhile_not isspace s
        rw [hs] at hhead
        simpa using hhead
      refine .inr ⟨s.takeWhile isspace, (c :: s').takeWhile (fun c => !isspace c),
        (c :: s').dropWhile (fun c => !isspace c), ?_, fun c hc => List.mem_takeWhile_imp hc, ?_,
        fun c hc => ?_, ?_⟩
      · rw [List.takeWhile_append_dropWhile, ← hs, List.takeWhile_append_dropWhile]
      · rw [List.takeWhile_cons_of_pos (by rw [hc]; rfl)]
        exact List.cons_ne_nil _ _
      · have hmem := List.mem_takeWhile_imp hc
        simpa using hmem
      · cases hrest : (c :: s').dropWhile (fun c => !isspace c) with
        | nil => exact .inl rfl
        | cons b rest' =>
            have hhead := List.head?_dropWhile_not (fun c => !isspace c) (c :: s')
            rw [hrest] at hhead
            exact .inr ⟨b, rest', rfl, by simpa using hhead⟩

/-! ## All rounds -/

/-- What a pushed word leaves is not looked at by a change of the text. -/
theorem Holds.setText (h : Holds v ws) (text : List UInt8) : Holds { v with text := text } ws :=
  ⟨h.argc, h.string, h.inside, h.apart⟩

variable (argvLen argbufLen) in
theorem Confined.cut {stop : Nat} {last : UInt8} (h : v.text[stop]? = some last)
    (hlast : last = 0 ∨ isspace last = true) :
    Confined argvLen argbufLen v { v with text := v.text.set stop 0 } where
  argv _ _ := rfl
  argbuf _ _ := rfl
  text i := by
    by_cases hi : i = stop
    · subst hi
      have hset : (v.text.set i 0)[i]? = some 0 :=
        List.getElem?_set_self (List.getElem?_eq_some_iff.mp h).1
      rcases hlast with rfl | hblank
      · exact .inl (hset.trans h.symm)
      · exact .inr ⟨hset, last, h, hblank⟩
    · exact .inl (List.getElem?_set_ne (Ne.symm hi))

/-- What `MakeArgVector` comes to, with these words pushed and those to come. -/
structure Made (argvLen argbufLen : Nat) (v : ArgVector) (ws ws' : List (List UInt8))
    (r : Option ArgError × ArgVector) : Prop where
  confined : Confined argvLen argbufLen v r.2
  full : r.1 = some .kFull ↔ argvLen < ws.length + ws'.length
  holds : r.1 = none → Holds r.2 (ws ++ ws') ∧ r.2.argbufIndex ≤ argbufLen

/-- A word more is pushed before the rest. -/
theorem Made.cons {ws' : List (List UInt8)} {r : Option ArgError × ArgVector}
    (hc : Confined argvLen argbufLen v v') (h : Made argvLen argbufLen v' (ws ++ [w]) ws' r) :
    Made argvLen argbufLen v ws (w :: ws') r where
  confined := hc.trans h.confined
  full := by
    rw [h.full, List.length_append, List.length_singleton, List.length_cons, Nat.add_assoc,
      Nat.add_comm 1]
  holds hnone := by
    rw [List.append_cons]
    exact h.holds hnone

/-- Nothing is left to push. -/
theorem Made.last (h : Holds v ws) (hargc : ws.length ≤ argvLen)
    (hroom : v.argbufIndex ≤ argbufLen) : Made argvLen argbufLen v ws [] (none, v) where
  confined := .refl v
  full := iff_of_false (fun h => by cases h) (by rw [List.length_nil]; omega)
  holds _ := ⟨by rwa [List.append_nil], hroom⟩

variable (argvLen command firstArg) in
/-- **A word is cut off and pushed, or the vector is full.** -/
theorem Holds.word {bs : List UInt8} {last : UInt8} (h : Holds v ws)
    (hmem : v.text.drop p = bs ++ (w ++ last :: rest)) (hbs : ∀ c ∈ bs, isspace c = true)
    (hne : w ≠ []) (hw : ∀ c ∈ w, inWord c = true) (hlast : last = 0 ∨ isspace last = true)
    (hroom : v.argbufIndex + w.length + 1 ≤ argbufLen) :
    (argvLen ≤ ws.length ∧ ∃ v', Confined argvLen argbufLen v v' ∧
        argRound argvLen argbufLen command firstArg (some p, v) = .done (some .kFull, v')) ∨
      ws.length < argvLen ∧ ∃ v' p', Confined argvLen argbufLen v v' ∧ Holds v' (ws ++ [w]) ∧
        v'.argbufIndex = v.argbufIndex + w.length + 1 ∧ v'.text.drop p' = rest ∧
        argRound argvLen argbufLen command firstArg (some p, v) =
          if last = 0 then .done (none, v') else .again (some p', v') := by
  have hnot : inWord last = false := by
    rcases hlast with rfl | hblank
    · rfl
    · rw [inWord, hblank]
      exact Bool.and_false _
  obtain ⟨hround, hrest⟩ := argRound_word argvLen argbufLen command firstArg hmem hbs hne hw
    hnot
  have hstop : v.text[p + bs.length + w.length]? = some last := by
    rw [← List.head?_drop, ← List.drop_drop, ← List.drop_drop, hmem, List.drop_left, List.drop_left,
      List.head?_cons]
  have hcut := Confined.cut argvLen argbufLen hstop hlast
  rcases Nat.lt_or_ge ws.length argvLen with hlt | hge
  · have hs : IsString (w ++ 0 :: rest) w := by
      refine ⟨⟨rest, rfl⟩, fun h0 => ?_⟩
      cases hw 0 h0
    obtain ⟨v', hpush, hholds, hindex, htext, hconf⟩ :=
      (h.setText (v.text.set (p + bs.length + w.length) 0)).push hs (h.argc ▸ hlt) hroom
    refine .inr ⟨hlt, v', _, hcut.trans hconf, hholds, hindex, htext ▸ hrest, ?_⟩
    rw [hround, hpush]
    by_cases h0 : last = 0
    · rw [if_pos h0, if_pos h0]
      rfl
    · rw [if_neg h0, if_neg h0]
      rfl
  · refine .inl ⟨hge, _, hcut, ?_⟩
    have hfull : ∀ text s, ({ v with text := text } : ArgVector).pushToArgv argvLen argbufLen s =
        some (.error .kFull) := fun text s => if_pos (Or.inl (h.argc ▸ hge))
    rw [hround, hfull]
    rfl

variable (command firstArg) in
/-- **The loop.** -/
theorem Holds.yields (h : Holds v ws) (hmem : v.text.drop p = s ++ [0]) (h0 : 0 ∉ s)
    (hargc : ws.length ≤ argvLen) (hroom : v.argbufIndex + s.length + 1 ≤ argbufLen) :
    ∃ r, Yields (argRound argvLen argbufLen command firstArg) (some p, v) r ∧
      Made argvLen argbufLen v ws (words isspace s) r := by
  -- on the text that is left
  induction hn : s.length using Nat.strong_induction_on generalizing v ws p s with
  | _ n ih =>
    rcases exists_word s with hblank | ⟨bs, w, rest, rfl, hbs, hne, hw, hrest⟩
    · refine ⟨_, .of_done (argRound_end hmem hblank), ?_⟩
      have hwords := words_blanks hblank []
      rw [List.append_nil, words_nil] at hwords
      rw [hwords]
      exact .last h hargc (by omega)
    · have hin : ∀ c ∈ w, inWord c = true := by
        intro c hc
        have hc0 : c ≠ 0 := fun he =>
          h0 (he ▸ List.mem_append_right _ (List.mem_append_left _ hc))
        rw [inWord, hw c hc, decide_eq_true hc0]
        rfl
      simp only [List.length_append] at hroom hn
      rcases hrest with rfl | ⟨b, rest, rfl, hb⟩
      · -- the word is the last one
        rw [List.append_nil, words_blanks hbs, words_last hne hw]
        rcases h.word argvLen command firstArg (by rw [hmem, List.append_nil, List.append_assoc])
            hbs hne hin (.inl rfl) (show _ ≤ argbufLen by omega) with
          ⟨hge, v', hconf, hround⟩ | ⟨hlt, v', p', hconf, hholds, hindex, -, hround⟩
        · exact ⟨_, .of_done hround, hconf,
            iff_of_true rfl (by rw [List.length_singleton]; omega), fun hnone => by cases hnone⟩
        · refine ⟨_, .of_done (hround.trans (if_pos rfl)), .cons hconf (.last hholds ?_ ?_)⟩
          · rw [List.length_append, List.length_singleton]
            exact hlt
          · rw [List.length_nil] at hroom
            omega
      · rw [List.length_cons] at hroom hn
        have hb0 : b ≠ 0 := fun he => by
          subst he
          cases hb
        rw [words_blanks hbs, words_cons hne hw hb]
        rcases h.word argvLen command firstArg
            (show _ = bs ++ (w ++ b :: (rest ++ [0])) by
              rw [hmem, List.append_assoc, List.append_assoc, List.cons_append])
            hbs hne hin (.inr hb) (show _ ≤ argbufLen by omega) with
          ⟨hge, v', hconf, hround⟩ | ⟨hlt, v', p', hconf, hholds, hindex, hleft, hround⟩
        · exact ⟨_, .of_done hround, hconf,
            iff_of_true rfl (by rw [List.length_cons]; omega), fun hnone => by cases hnone⟩
        · obtain ⟨r, hr, hmade⟩ := ih rest.length (by omega) hholds hleft
            (fun hm => h0 (List.mem_append_right _ (List.mem_append_right _
              (List.mem_cons_of_mem b hm))))
            (by rw [List.length_append, List.length_singleton]; exact hlt) (by omega) rfl
          exact ⟨r, (yields_again (hround.trans (if_neg hb0))).mpr hr, .cons hconf hmade⟩

variable (firstArg) in
/-- **The vector of a command.** -/
theorem yields_made (argv : Nat → Nat) (argbuf : Nat → UInt8) {text : List UInt8}
    (hcommand : 0 ∉ command) (htext : 0 ∉ text) (hargv : 1 ≤ argvLen)
    (hroom : command.length + text.length + 2 ≤ argbufLen) :
    ∃ r, Yields (argRound argvLen argbufLen (command ++ [0]) firstArg)
        (none, start argv argbuf (text ++ [0])) r ∧
      Made argvLen argbufLen (start argv argbuf (text ++ [0])) []
        (command :: if firstArg then words isspace text else []) r := by
  have hstart : Holds (start argv argbuf (text ++ [0])) [] :=
    ⟨rfl, fun _ _ hk => (by cases hk), fun _ _ hk => (by cases hk), fun _ _ _ _ hl => (by cases hl)⟩
  have hzero : (start argv argbuf (text ++ [0])).argbufIndex = 0 := rfl
  obtain ⟨v, hpush, hholds, hindex, hkeep, hconf⟩ := hstart.push
    (s := command ++ [0]) (w := command) ⟨⟨[], rfl⟩, hcommand⟩ hargv (show _ ≤ argbufLen by omega)
  rw [hzero, Nat.zero_add] at hindex
  cases firstArg with
  | false =>
      refine ⟨(none, v), .of_done ?_, .cons hconf (.last hholds hargv (by omega))⟩
      rw [argRound, hpush]
      rfl
  | true =>
      obtain ⟨r, hr, hmade⟩ := hholds.yields (command ++ [0]) true (p := 0) (by rw [hkeep]; rfl) htext
        hargv (show _ ≤ argbufLen by omega)
      refine ⟨r, (yields_again ?_).mpr hr, .cons hconf hmade⟩
      rw [argRound, hpush]
      rfl

/-- **`MakeArgVector`.**  With 32 places and a page less those, for a command and a text of one
line. -/
theorem argVector_made (command text : List UInt8) (firstArg : Bool) (argv : Nat → Nat)
    (argbuf : Nat → UInt8) (hcommand : 0 ∉ command) (htext : 0 ∉ text)
    (hlen : command.length + text.length ≤ 127) :
    let start := start argv argbuf (text ++ [0])
    let ws := command :: if firstArg then words isspace text else []
    ∃ err v, Yields (argRound 32 3840 (command ++ [0]) firstArg) (none, start) (err, v) ∧
      Confined 32 3840 start v ∧ (err = some .kFull ↔ 32 < ws.length) ∧
      (err = none → v.argc = ws.length ∧ ∀ k w, ws[k]? = some w →
        slice (fun j => v.argbuf (v.argv k + j)) (w.length + 1) = w ++ [0] ∧
        v.argv k + w.length + 1 ≤ 3840 ∧
        ∀ l, k < l → l < ws.length → v.argv k + w.length + 1 ≤ v.argv l) := by
  intro start ws
  obtain ⟨⟨err, v⟩, hr, hmade⟩ := yields_made firstArg argv argbuf hcommand htext
    (show 1 ≤ 32 by omega) (show _ ≤ 3840 by omega)
  refine ⟨err, v, hr, hmade.confined, ?_, fun hnone => ?_⟩
  · rw [hmade.full, List.length_nil, Nat.zero_add]
  · obtain ⟨hholds, hindex⟩ := hmade.holds hnone
    refine ⟨hholds.argc, fun k w hk => ⟨hholds.string k w hk, ?_, fun l hkl hl => ?_⟩⟩
    · exact (hholds.inside k w hk).trans hindex
    · exact hholds.apart k l w hkl hl hk

theorem argVector_made_echo : ∃ err v, Yields (argRound 32 3840 ([101, 99] ++ [0]) true)
    (none, start (fun _ => 0) (fun _ => 0) ([97, 32, 98] ++ [0])) (err, v) ∧ err = none ∧
      v.argc = 3 := by
  obtain ⟨err, v, hr, -, herr, hok⟩ := argVector_made [101, 99] [97, 32, 98] true (fun _ => 0)
    (fun _ => 0) (by decide) (by decide) (by decide)
  have hwords : words isspace ([97, 32, 98] : List UInt8) = [[97], [98]] := by
    have hword : ∀ b : UInt8, isspace b = false → ∀ c ∈ [b], isspace c = false :=
      fun b hb => List.forall_mem_singleton.mpr hb
    rw [show ([97, 32, 98] : List UInt8) = [97] ++ 32 :: [98] from rfl,
      words_cons (List.cons_ne_nil _ _) (hword 97 rfl) rfl,
      words_last (List.cons_ne_nil _ _) (hword 98 rfl)]
  have hnone : err = none := by
    cases err with
    | none => rfl
    | some e =>
        cases e
        rw [hwords] at herr
        exact absurd (herr.mp rfl) (by decide)
  refine ⟨err, v, hr, hnone, (hok hnone).1.trans ?_⟩
  rw [hwords]
  rfl

/-- The blank behind a word is written to: it is in neither of the two. -/
theorem argVector_cuts_text : ¬ ∃ r, Yields (argRound 32 3840 ([101, 99] ++ [0]) true)
    (none, start (fun _ => 0) (fun _ => 0) ([97, 32, 98] ++ [0])) r ∧
      r.2.text = [97, 32, 98] ++ [0] := by
  rintro ⟨r, hr, htext⟩
  have hrun : Yields (argRound 32 3840 ([101, 99] ++ [0]) true)
      (none, start (fun _ => 0) (fun _ => 0) ([97, 32, 98] ++ [0])) _ := ⟨3, rfl⟩
  rw [hr.unique hrun] at htext
  exact absurd htext (by decide)

end ArgVector

end Laplus.Terminal
