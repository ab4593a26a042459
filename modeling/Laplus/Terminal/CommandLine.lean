/-
# `Laplus.Terminal.CommandLine` — the parts of a command line (`terminal.cpp`)

`ExecuteLine` looks for the first blank, the first `>` and the first `|` of the line, each
for itself, and then writes a NUL on each.  With a blank before the operator the NULs
cut the line into the command, its arguments and what is behind the operator.  Without
one, the first blank is behind the operator, and cuts that.
-/
import Laplus.Fat.Create
import Laplus.Terminal.Argv

namespace Laplus.Terminal

open Lib

/-- The first of the characters of `ExecuteLine`. -/
def spaceChar : UInt8 := 0x20

def redirChar : UInt8 := 0x3e

def pipeChar : UInt8 := 0x7c

/-! ## The source -/

/-- The string at the begin of memory. -/
def cstring (mem : List UInt8) : Option (List UInt8) := (strcpy mem).map List.dropLast

/-- `while(isspace(*p)) ++p` -/
def skipBlanks (mem : List UInt8) (p : Nat) : Nat := p + ((mem.drop p).takeWhile isspace).length

/-- `*p = 0`, if there is such a place. -/
def cut (mem : List UInt8) : Option Nat → List UInt8
  | none => mem
  | some p => mem.set p 0

@[simp] theorem cut_none (mem : List UInt8) : cut mem none = mem := rfl

@[simp] theorem cut_some (mem : List UInt8) (p : Nat) : cut mem (some p) = mem.set p 0 := rfl

/-- What `ExecuteLine` goes on with: the command, `first_arg`, and what is behind an operator. -/
structure Split where
  command : List UInt8
  first_arg : Option (List UInt8)
  redir_dest : Option (List UInt8)
  subcommand : Option (List UInt8)
deriving DecidableEq

/-- `ExecuteLine` up to the commands; there is no answer where a string has no end.  The file behind
`>` is looked up before the NUL on `|`. -/
def splitLine (linebuf : List UInt8) : Option Split := do
  let first_arg ← strchr spaceChar linebuf
  let redir_char ← strchr redirChar linebuf
  let pipe_char ← strchr pipeChar linebuf
  let linebuf := cut linebuf first_arg
  let first_arg := first_arg.map fun p => skipBlanks linebuf (p + 1)
  let linebuf := cut linebuf redir_char
  let redir_dest ← redir_char.mapM fun p => cstring (linebuf.drop (skipBlanks linebuf (p + 1)))
  let linebuf := cut linebuf pipe_char
  let subcommand ← pipe_char.mapM fun p => cstring (linebuf.drop (skipBlanks linebuf (p + 1)))
  let command ← cstring linebuf
  let first_arg ← first_arg.mapM fun p => cstring (linebuf.drop p)
  return ⟨command, first_arg, redir_dest, subcommand⟩

/-! ## Lines -/

/-- A character of a word. -/
def isWordChar (c : UInt8) : Bool := c ≠ 0 && !isspace c && c ≠ redirChar && c ≠ pipeChar

/-- Blanks. -/
def blanks (n : Nat) : List UInt8 := List.replicate n spaceChar

/-- A text of these words, with blanks between them, and perhaps behind them. -/
inductive Spaced : List (List UInt8) → List UInt8 → Prop
  | last (w : List UInt8) (n : Nat) (hne : w ≠ []) (hw : ∀ c ∈ w, isWordChar c = true) :
      Spaced [w] (w ++ blanks n)
  | cons (w : List UInt8) (n : Nat) {ws : List (List UInt8)} {s : List UInt8} (hne : w ≠ [])
      (hw : ∀ c ∈ w, isWordChar c = true) (hs : Spaced ws s) :
      Spaced (w :: ws) (w ++ blanks (n + 1) ++ s)

variable {mem s t w left right rest : List UInt8} {ws vs : List (List UInt8)} {c op : UInt8}
  {n p q b : Nat}

theorem isWordChar_iff : isWordChar c = true ↔
    c ≠ 0 ∧ isspace c = false ∧ c ≠ redirChar ∧ c ≠ pipeChar := by
  rw [isWordChar, Bool.and_eq_true, Bool.and_eq_true, Bool.and_eq_true, decide_eq_true_eq,
    Bool.not_eq_true', decide_eq_true_eq, decide_eq_true_eq, and_assoc, and_assoc]

theorem mem_blanks (h : c ∈ blanks n) : c = spaceChar := List.eq_of_mem_replicate h

theorem isspace_blanks (h : c ∈ blanks n) : isspace c = true := by
  rw [mem_blanks h]
  rfl

theorem blanks_succ (n : Nat) : blanks (n + 1) = spaceChar :: blanks n := rfl

/-- What is in such a text. -/
theorem Spaced.of_mem (h : Spaced ws s) (hc : c ∈ s) : c = spaceChar ∨ isWordChar c = true := by
  induction h with
  | last w n hne hw =>
      rcases List.mem_append.mp hc with hc | hc
      · exact .inr (hw c hc)
      · exact .inl (mem_blanks hc)
  | cons w n hne hw hs ih =>
      rcases List.mem_append.mp hc with hc | hc
      · rcases List.mem_append.mp hc with hc | hc
        · exact .inr (hw c hc)
        · exact .inl (mem_blanks hc)
      · exact ih hc

theorem Spaced.not_mem (h : Spaced ws s) (hc : c ≠ spaceChar) (hword : isWordChar c = false) :
    c ∉ s := by
  intro hm
  rcases h.of_mem hm with rfl | hw
  · exact hc rfl
  · rw [hword] at hw
    cases hw

theorem Spaced.nul (h : Spaced ws s) : 0 ∉ s := h.not_mem (by decide) rfl

theorem Spaced.redir (h : Spaced ws s) : redirChar ∉ s := h.not_mem (by decide) rfl

theorem Spaced.pipe (h : Spaced ws s) : pipeChar ∉ s := h.not_mem (by decide) rfl

theorem isspace_word (hw : ∀ c ∈ w, isWordChar c = true) : ∀ c ∈ w, isspace c = false :=
  fun c hc => (isWordChar_iff.mp (hw c hc)).2.1

theorem space_not_mem (hw : ∀ c ∈ w, isWordChar c = true) : spaceChar ∉ w := fun hm => by
  cases isspace_word hw _ hm

/-- Its words. -/
theorem Spaced.words_eq (h : Spaced ws s) : words isspace s = ws := by
  induction h with
  | last w n hne hw =>
      cases n with
      | zero => rw [blanks, List.replicate_zero, List.append_nil, words_last hne (isspace_word hw)]
      | succ n =>
          have hblanks := words_blanks (fun _ h => isspace_blanks (n := n) h) []
          rw [List.append_nil, words_nil] at hblanks
          rw [blanks_succ, words_cons hne (isspace_word hw) rfl, hblanks]
  | cons w n hne hw hs ih =>
      rw [blanks_succ, List.append_assoc, List.cons_append, words_cons hne (isspace_word hw) rfl,
        words_blanks (fun _ h => isspace_blanks h), ih]

/-- The first word, and what is behind it. -/
theorem Spaced.first (h : Spaced ws s) : ∃ w ws', ws = w :: ws' ∧ w ≠ [] ∧
    (∀ c ∈ w, isWordChar c = true) ∧ (ws' = [] ∧ s = w ∨
      ∃ t, s = w ++ spaceChar :: t ∧ words isspace t = ws') := by
  have hwords := h.words_eq
  cases h with
  | last w n hne hw =>
      refine ⟨w, [], rfl, hne, hw, ?_⟩
      cases n with
      | zero => exact .inl ⟨rfl, List.append_nil w⟩
      | succ n =>
          rw [blanks_succ, words_cons hne (isspace_word hw) rfl] at hwords
          exact .inr ⟨blanks n, rfl, (List.cons.inj hwords).2⟩
  | cons w n hne hw hs =>
      rw [blanks_succ, List.append_assoc, List.cons_append] at hwords ⊢
      rw [words_cons hne (isspace_word hw) rfl] at hwords
      exact ⟨w, _, rfl, hne, hw, .inr ⟨_, rfl, (List.cons.inj hwords).2⟩⟩

/-- Blanks before it are skipped. -/
theorem Spaced.skip (h : Spaced ws s) (b : Nat) : (blanks b ++ s).dropWhile isspace = s := by
  obtain ⟨w, ws', -, hne, hw, hs⟩ := h.first
  obtain ⟨c, w', rfl⟩ := List.exists_cons_of_ne_nil hne
  have hc : isspace c = false := isspace_word hw c List.mem_cons_self
  have hhead : ∃ s', s = c :: s' := by
    rcases hs with ⟨-, rfl⟩ | ⟨t, rfl, -⟩
    · exact ⟨w', rfl⟩
    · exact ⟨_, rfl⟩
  obtain ⟨s', rfl⟩ := hhead
  rw [List.dropWhile_append_of_pos fun _ h => isspace_blanks h,
    List.dropWhile_cons_of_neg (by rw [hc]; decide)]

/-! ## Cuts -/

theorem cstring_eq (h : 0 ∉ s) (rest : List UInt8) : cstring (s ++ 0 :: rest) = some s := by
  rw [cstring, strcpy_eq ⟨⟨rest, rfl⟩, h⟩, Option.map_some, List.dropLast_concat]

theorem set_at (s : List UInt8) (c : UInt8) (rest : List UInt8) :
    (s ++ c :: rest).set s.length 0 = s ++ 0 :: rest := by
  rw [List.set_append_right _ _ (Nat.le_refl _), Nat.sub_self, List.set_cons_zero]

theorem drop_behind (s : List UInt8) (c : UInt8) (rest : List UInt8) :
    (s ++ c :: rest).drop (s.length + 1) = rest := by
  rw [List.drop_length_add_append]
  rfl

/-- A string read behind the blanks that were skipped before its end was cut. -/
theorem cstring_skip {mem mem' r r' : List UInt8} (hc : isspace c = false) (h0 : 0 ∉ s)
    (h : mem.drop p = s ++ c :: r) (h' : mem'.drop p = s ++ 0 :: r') :
    cstring (mem'.drop (skipBlanks mem p)) = some (s.dropWhile isspace) := by
  have htake : (mem.drop p).takeWhile isspace = s.takeWhile isspace := by
    rw [h, List.takeWhile_append]
    split
    next hlen =>
        rw [List.takeWhile_cons_of_neg (by rw [hc]; decide), List.append_nil]
        exact (List.takeWhile_prefix isspace).eq_of_length hlen |>.symm
    next => rfl
  have hdrop : mem'.drop (skipBlanks mem p) = s.dropWhile isspace ++ 0 :: r' := by
    rw [skipBlanks, htake, ← List.drop_drop, h', ← List.takeWhile_append_dropWhile (p := isspace)
      (l := s), List.append_assoc]
    rw [List.takeWhile_append_dropWhile, List.drop_left]
  rw [hdrop]
  exact cstring_eq (fun hm => h0 ((List.dropWhile_suffix isspace).subset hm)) r'

/-- What is behind the operator goes to the sub-command or names the file. -/
def Split.of (op : UInt8) (command : List UInt8) (first_arg : Option (List UInt8))
    (out : List UInt8) : Split :=
  if op = pipeChar then ⟨command, first_arg, none, some out⟩
  else ⟨command, first_arg, some out, none⟩

@[simp] theorem Split.of_command (op : UInt8) (command : List UInt8) (a : Option (List UInt8))
    (out : List UInt8) : (Split.of op command a out).command = command := by
  rw [Split.of]
  split <;> rfl

@[simp] theorem Split.of_first_arg (op : UInt8) (command : List UInt8) (a : Option (List UInt8))
    (out : List UInt8) : (Split.of op command a out).first_arg = a := by
  rw [Split.of]
  split <;> rfl

/-- **A line with one operator.** -/
theorem splitLine_eq {f : Option Nat} {command out : List UInt8} {a : Option (List UInt8)}
    (hop : op = redirChar ∨ op = pipeChar) (hspace : strchr spaceChar mem = some f)
    (hq : strchr op mem = some (some q))
    (hother : ∀ c, c = redirChar ∨ c = pipeChar → c ≠ op → strchr c mem = some none)
    (hcommand : cstring ((cut mem f).set q 0) = some command)
    (hfirst : (f.map fun p => skipBlanks (cut mem f) (p + 1)).mapM
      (fun p => cstring (((cut mem f).set q 0).drop p)) = some a)
    (hout : cstring (((cut mem f).set q 0).drop (skipBlanks ((cut mem f).set q 0) (q + 1))) =
      some out) : splitLine mem = some (.of op command a out) := by
  rcases hop with rfl | rfl
  · simp only [splitLine, hspace, hq, hother pipeChar (.inr rfl) (by decide), Option.bind_eq_bind,
      Option.bind_some, cut_none, cut_some, Option.mapM_some, hout, hcommand, hfirst, Option.mapM_none,
      Option.map_eq_map, Option.map_some, Option.pure_def]
    rfl
  · simp only [splitLine, hspace, hq, hother redirChar (.inl rfl) (by decide), Option.bind_eq_bind,
      Option.bind_some, cut_none, cut_some, Option.mapM_some, hout, hcommand, hfirst, Option.mapM_none,
      Option.map_eq_map, Option.map_some, Option.pure_def]
    rfl

/-! ## Where the blanks are -/

variable {sep : Nat}

variable (sep) in
/-- The other operator is not in the line. -/
theorem strchr_other (hop : op = redirChar ∨ op = pipeChar) (hleft : Spaced ws left)
    (hright : Spaced vs right) (hc : c = redirChar ∨ c = pipeChar) (hne : c ≠ op) :
    strchr c (left ++ op :: (blanks sep ++ (right ++ 0 :: rest))) = some none := by
  have hnot : ∀ {us s}, Spaced us s → c ∉ s := fun h => by
    rcases hc with rfl | rfl
    · exact h.redir
    · exact h.pipe
  have h0 : op ≠ 0 := by rcases hop with rfl | rfl <;> decide
  have hc0 : c ≠ 0 := by rcases hc with rfl | rfl <;> decide
  have hcs : c ≠ spaceChar := by rcases hc with rfl | rfl <;> decide
  have hline : IsString (left ++ op :: (blanks sep ++ (right ++ 0 :: rest)))
      (left ++ op :: (blanks sep ++ right)) := by
    refine ⟨⟨rest, by simp only [List.append_assoc, List.cons_append]⟩, fun hm => ?_⟩
    rcases List.mem_append.mp hm with hm | hm
    · exact hleft.nul hm
    · rcases List.mem_cons.mp hm with hm | hm
      · exact h0 hm.symm
      · rcases List.mem_append.mp hm with hm | hm
        · exact absurd (mem_blanks hm) (by decide)
        · exact hright.nul hm
  refine (strchr_none hline hc0 fun hm => ?_).1
  rcases List.mem_append.mp hm with hm | hm
  · exact hnot hleft hm
  · rcases List.mem_cons.mp hm with hm | hm
    · exact hne hm
    · rcases List.mem_append.mp hm with hm | hm
      · exact hcs (mem_blanks hm)
      · exact hnot hright hm

/-- The operator is where the words before it end. -/
theorem strchr_operator (hop : op = redirChar ∨ op = pipeChar) (hleft : Spaced ws left)
    (behind : List UInt8) : strchr op (left ++ op :: behind) = some (some left.length) := by
  refine (strchr_some hleft.nul ?_ behind).1
  rcases hop with rfl | rfl
  · exact hleft.redir
  · exact hleft.pipe

theorem nul_not_mem (hw : ∀ c ∈ w, isWordChar c = true) : 0 ∉ w :=
  fun hm => (isWordChar_iff.mp (hw 0 hm)).1 rfl

variable (sep) in
/-- What is behind the operator, when nothing cuts it. -/
theorem cstring_right (hright : Spaced vs right)
    (h : mem.drop p = blanks sep ++ (right ++ 0 :: rest)) :
    cstring (mem.drop (skipBlanks mem p)) = some right := by
  rw [← List.append_assoc] at h
  rw [cstring_skip (by rfl) ?_ h h, hright.skip]
  intro hm
  rcases List.mem_append.mp hm with hm | hm
  · exact absurd (mem_blanks hm) (by decide)
  · exact hright.nul hm

/-- **A blank before the operator**: the line is cut behind the command and at the operator. -/
theorem splitLine_spaced (hop : op = redirChar ∨ op = pipeChar) (hleft : Spaced ws left)
    (hright : Spaced vs right) (hw : ∀ c ∈ w, isWordChar c = true)
    (heq : left = w ++ spaceChar :: t) :
    splitLine (left ++ op :: (blanks sep ++ (right ++ 0 :: rest))) =
      some (.of op w (some (t.dropWhile isspace)) right) := by
  have hspace : isspace op = false := by rcases hop with rfl | rfl <;> rfl
  have htnul : 0 ∉ t := fun hm =>
    hleft.nul (heq ▸ List.mem_append_right _ (List.mem_cons_of_mem _ hm))
  have hlen : left.length = (w ++ 0 :: t).length := by
    rw [heq, List.length_append, List.length_append, List.length_cons, List.length_cons]
  have hsplit : ∀ (c : UInt8) (r : List UInt8), w ++ 0 :: (t ++ c :: r) = w ++ 0 :: t ++ c :: r :=
    fun c r => by rw [List.append_assoc, List.cons_append]
  have hcut : cut (left ++ op :: (blanks sep ++ (right ++ 0 :: rest))) (some w.length) =
      w ++ 0 :: (t ++ op :: (blanks sep ++ (right ++ 0 :: rest))) := by
    rw [cut_some, heq, List.append_assoc, List.cons_append, set_at]
  have hset : (w ++ 0 :: (t ++ op :: (blanks sep ++ (right ++ 0 :: rest)))).set left.length 0 =
      w ++ 0 :: (t ++ 0 :: (blanks sep ++ (right ++ 0 :: rest))) := by
    rw [hlen, hsplit, set_at, hsplit]
  have hbehind : (w ++ 0 :: (t ++ 0 :: (blanks sep ++ (right ++ 0 :: rest)))).drop
      (left.length + 1) = blanks sep ++ (right ++ 0 :: rest) := by
    rw [hlen, hsplit, drop_behind]
  have hfind : strchr spaceChar (left ++ op :: (blanks sep ++ (right ++ 0 :: rest))) =
      some (some w.length) := by
    rw [heq, List.append_assoc, List.cons_append]
    exact (strchr_some (nul_not_mem hw) (space_not_mem hw) _).1
  refine splitLine_eq hop hfind (strchr_operator hop hleft _)
    (fun c hc hne => strchr_other sep hop hleft hright hc hne) ?_ ?_ ?_
  · rw [hcut, hset]
    exact cstring_eq (nul_not_mem hw) _
  · rw [hcut, hset, Option.map_some, Option.mapM_some,
      cstring_skip hspace htnul (drop_behind _ _ _) (drop_behind _ _ _)]
    rfl
  · rw [hcut, hset]
    exact cstring_right sep hright hbehind

theorem dropWhile_word (hw : ∀ c ∈ w, isWordChar c = true) : w.dropWhile isspace = w := by
  cases w with
  | nil => rfl
  | cons c w => exact List.dropWhile_cons_of_neg (by rw [isspace_word hw c List.mem_cons_self]; decide)

/-- **No blank before the operator, but one behind it**: that cuts what is behind. -/
theorem splitLine_behind {v : List UInt8} (hop : op = redirChar ∨ op = pipeChar) (hne : w ≠ [])
    (hw : ∀ c ∈ w, isWordChar c = true) (hright : Spaced vs right)
    (hv : ∀ c ∈ v, isWordChar c = true) (heq : blanks sep ++ right = v ++ spaceChar :: t) :
    splitLine (w ++ op :: (blanks sep ++ (right ++ 0 :: rest))) =
      some (.of op w (some (t.dropWhile isspace)) v) := by
  have hops : op ≠ 0 ∧ spaceChar ≠ op := by rcases hop with rfl | rfl <;> decide
  have hleft : Spaced [w] w := by
    have hlast := Spaced.last w 0 hne hw
    rwa [blanks, List.replicate_zero, List.append_nil] at hlast
  have htnul : 0 ∉ t := fun hm => by
    have hline : 0 ∈ blanks sep ++ right :=
      heq ▸ List.mem_append_right _ (List.mem_cons_of_mem _ hm)
    rcases List.mem_append.mp hline with hm | hm
    · exact absurd (mem_blanks hm) (by decide)
    · exact hright.nul hm
  have hother : ∀ c, c = redirChar ∨ c = pipeChar → c ≠ op → strchr c (w ++ op :: (blanks sep ++
      (right ++ 0 :: rest))) = some none := fun c hc hne => strchr_other sep hop hleft hright hc hne
  rw [← List.append_assoc (blanks sep), heq, List.append_assoc, List.cons_append] at hother ⊢
  -- up to the blank, with the operator or the NUL on it
  have hsplit : ∀ (c d : UInt8) (r : List UInt8), w ++ c :: (v ++ d :: r) = w ++ c :: v ++ d :: r :=
    fun c d r => by rw [List.append_assoc, List.cons_append]
  have hfind : strchr spaceChar (w ++ op :: (v ++ spaceChar :: (t ++ 0 :: rest))) =
      some (some (w ++ op :: v).length) := by
    rw [hsplit]
    refine (strchr_some (fun hm => ?_) (fun hm => ?_) _).1
    · rcases List.mem_append.mp hm with hm | hm
      · exact hleft.nul hm
      · exact (List.mem_cons.mp hm).elim hops.1.symm (nul_not_mem hv)
    · rcases List.mem_append.mp hm with hm | hm
      · exact space_not_mem hw hm
      · exact (List.mem_cons.mp hm).elim hops.2 (space_not_mem hv)
  have hcut : cut (w ++ op :: (v ++ spaceChar :: (t ++ 0 :: rest))) (some (w ++ op :: v).length) =
      w ++ op :: (v ++ 0 :: (t ++ 0 :: rest)) := by
    rw [cut_some, hsplit, set_at, hsplit]
  have hbehind : ∀ c : UInt8, (w ++ c :: (v ++ 0 :: (t ++ 0 :: rest))).drop
      ((w ++ op :: v).length + 1) = t ++ 0 :: rest := fun c => by
    have hlen : (w ++ op :: v).length = (w ++ c :: v).length := by
      rw [List.length_append, List.length_append, List.length_cons, List.length_cons]
    rw [hlen, hsplit, drop_behind]
  refine splitLine_eq hop hfind (strchr_operator hop hleft _) hother ?_ ?_ ?_
  · rw [hcut, set_at]
    exact cstring_eq hleft.nul _
  · rw [hcut, set_at, Option.map_some, Option.mapM_some,
      cstring_skip (by rfl) htnul (hbehind op) (hbehind 0)]
    rfl
  · rw [hcut, set_at, cstring_skip (by rfl) (nul_not_mem hv) (drop_behind _ _ _) (drop_behind _ _ _),
      dropWhile_word hv]

/-- **No blank in the line**: it is cut at the operator alone. -/
theorem splitLine_tight {v : List UInt8} (hop : op = redirChar ∨ op = pipeChar) (hne : w ≠ [])
    (hw : ∀ c ∈ w, isWordChar c = true) (hright : Spaced [v] v)
    (hv : ∀ c ∈ v, isWordChar c = true) :
    splitLine (w ++ op :: (v ++ 0 :: rest)) = some (.of op w none v) := by
  have hops : op ≠ 0 ∧ spaceChar ≠ op := by rcases hop with rfl | rfl <;> decide
  have hleft : Spaced [w] w := by
    have hlast := Spaced.last w 0 hne hw
    rwa [blanks, List.replicate_zero, List.append_nil] at hlast
  have hnone : strchr spaceChar (w ++ op :: (v ++ 0 :: rest)) = some none := by
    have hline : IsString (w ++ op :: (v ++ 0 :: rest)) (w ++ op :: v) := by
      refine ⟨⟨rest, by rw [List.append_assoc, List.cons_append]⟩, fun hm => ?_⟩
      rcases List.mem_append.mp hm with hm | hm
      · exact hleft.nul hm
      · exact (List.mem_cons.mp hm).elim hops.1.symm (nul_not_mem hv)
    refine (strchr_none hline (by decide) fun hm => ?_).1
    rcases List.mem_append.mp hm with hm | hm
    · exact space_not_mem hw hm
    · exact (List.mem_cons.mp hm).elim hops.2 (space_not_mem hv)
  refine splitLine_eq hop hnone (strchr_operator hop hleft _)
    (fun c hc hne => strchr_other 0 hop hleft hright hc hne) ?_ ?_ ?_
  · rw [cut_none, set_at]
    exact cstring_eq hleft.nul _
  · rfl
  · rw [cut_none, set_at]
    exact cstring_right 0 hright (drop_behind _ _ _)

/-! ## The line as it was meant -/

/-- Behind the name there is room for the blanks of the text, where there is for the name. -/
def Room (name text : List UInt8) : Prop :=
  (Fat.Volume.lastElement name).length ≤ 12 → (Fat.Volume.lastElement text).length ≤ 12

/-- A text that `FindFile` and `CreateFile` take for this name: blanks behind it do not matter. -/
structure Names (path name : List UInt8) : Prop where
  behind : ∃ n, path = name ++ blanks n
  room : Room name path
  same : Fat.Volume.Name83 (Fat.Volume.lastElement name) →
    (Fat.Volume.lastElement name).length ≤ 12 → ∀ v : Fat.Volume,
      v.find path 0 = v.find name 0 ∧ v.createFile path = v.createFile name

/-- The command is run with the words before the operator, and what is behind goes to the
sub-command, or names the file. -/
structure Meets (op : UInt8) (ws vs : List (List UInt8)) (s : Split) : Prop where
  args : ∀ argv argbuf, ∃ v,
    Yields (ArgVector.argRound 32 3840 (s.command ++ [0]) s.first_arg.isSome)
      (none, ArgVector.start argv argbuf (s.first_arg.getD [] ++ [0])) (none, v) ∧ v.Holds ws
  pipe : op = pipeChar → s.redir_dest = none ∧ ∃ text, s.subcommand = some text ∧ Spaced vs text
  redir : op = redirChar → s.subcommand = none ∧ ∃ path name, s.redir_dest = some path ∧
    vs = [name] ∧ Names path name

/-- Blanks with room for them do not matter. -/
theorem Names.of_room {name : List UInt8} (hroom : Room name (name ++ blanks n)) :
    Names (name ++ blanks n) name where
  behind := ⟨n, rfl⟩
  room := hroom
  same hname hlen v := by
    have hblanks : (Fat.Volume.lastElement (name ++ blanks n)).length ≤ 12 := hroom hlen
    refine ⟨Fat.Volume.find_blanks hname ?_, Fat.Volume.createFile_blanks hname.ne_nil n⟩
    rwa [← Fat.Volume.lastElement_blanks]

section
variable {argv : Nat → Nat} {argbuf : Nat → UInt8} {a : Option (List UInt8)} {out name : List UInt8}

variable (argv argbuf) in
/-- `MakeArgVector` makes the vector of the command and the words of the text, or finds it full. -/
theorem args_yields (hw : 0 ∉ w) (ha : 0 ∉ a.getD []) (hlen : w.length + (a.getD []).length ≤ 127) :
    ∃ err v, Yields (ArgVector.argRound 32 3840 (w ++ [0]) a.isSome)
        (none, ArgVector.start argv argbuf (a.getD [] ++ [0])) (err, v) ∧
      (err = none ∧ (words isspace (a.getD [])).length < 32 ∧ v.Holds (w :: words isspace (a.getD [])) ∨
        err = some .kFull ∧ 32 ≤ (words isspace (a.getD [])).length) := by
  have hlist : (w :: if a.isSome then words isspace (a.getD []) else []) =
      w :: words isspace (a.getD []) := by
    cases a with
    | none => rw [Option.getD_none, words_nil]; rfl
    | some t => rfl
  obtain ⟨⟨err, v⟩, hr, hmade⟩ := ArgVector.yields_made a.isSome argv argbuf hw ha (Nat.le_add_left 1 31)
    (show w.length + (a.getD []).length + 2 ≤ 3840 by omega)
  have hfull := hmade.full
  rw [hlist, List.length_nil, Nat.zero_add, List.length_cons] at hfull
  refine ⟨err, v, hr, ?_⟩
  cases err with
  | none =>
      have hholds := (hmade.holds rfl).1
      rw [hlist] at hholds
      refine .inl ⟨rfl, ?_, hholds⟩
      by_contra hge
      cases hfull.mpr (by omega)
  | some e =>
      cases e
      have hlt := hfull.mp rfl
      exact .inr ⟨rfl, by omega⟩

/-- The vector has as many words as were meant. -/
theorem Meets.length (h : Meets op ws vs (.of op w a out)) (hw : 0 ∉ w) (ha : 0 ∉ a.getD [])
    (hlen : w.length + (a.getD []).length ≤ 127) :
    ws.length = (words isspace (a.getD [])).length + 1 ∧ ws.length ≤ 32 := by
  obtain ⟨v, hr, hholds⟩ := h.args (fun _ => 0) (fun _ => 0)
  rw [Split.of_command, Split.of_first_arg] at hr
  obtain ⟨err, v', hr', hmade⟩ := args_yields (fun _ => 0) (fun _ => 0) hw ha hlen
  cases hr.unique hr'
  rcases hmade with ⟨-, hlt, hholds'⟩ | ⟨hnone, -⟩
  · have hargc := hholds.argc.symm.trans hholds'.argc
    rw [List.length_cons] at hargc
    exact ⟨hargc, by omega⟩
  · cases hnone

theorem Meets.of (hw : 0 ∉ w) (ha : 0 ∉ a.getD []) (hlen : w.length + (a.getD []).length ≤ 127)
    (hws : ws = w :: words isspace (a.getD [])) (hle : ws.length ≤ 32)
    (hpipe : op = pipeChar → Spaced vs out)
    (hredir : op = redirChar → ∃ name, vs = [name] ∧ Names out name) :
    Meets op ws vs (.of op w a out) where
  args argv argbuf := by
    rw [Split.of_command, Split.of_first_arg]
    obtain ⟨err, v, hr, hmade⟩ := args_yields argv argbuf hw ha hlen
    rw [hws, List.length_cons] at hle
    rcases hmade with ⟨rfl, -, hholds⟩ | ⟨-, hge⟩
    · exact ⟨v, hr, hws ▸ hholds⟩
    · omega
  pipe he := by
    rw [Split.of, if_pos he]
    exact ⟨rfl, out, rfl, hpipe he⟩
  redir he := by
    obtain ⟨name, hvs, hnames⟩ := hredir he
    rw [Split.of, if_neg (by rw [he]; decide)]
    exact ⟨rfl, out, name, rfl, hvs, hnames⟩

end

/-- One word, and blanks. -/
theorem Spaced.one {name : List UInt8} (h : Spaced [name] s) : ∃ n, s = name ++ blanks n := by
  cases h with
  | last w n hne hw => exact ⟨n, rfl⟩
  | cons w n hne hw hs => cases hs

/-- What `splitLine` comes to is what is meant, or not. -/
theorem meets_iff {mem' : List UInt8} {s₀ : Split} (h : splitLine mem' = some s₀) :
    (∃ s, splitLine mem' = some s ∧ Meets op ws vs s) ↔ Meets op ws vs s₀ := by
  rw [h]
  exact ⟨fun ⟨s, he, hm⟩ => Option.some.inj he ▸ hm, fun hm => ⟨s₀, rfl, hm⟩⟩

/-- A blank before the operator. -/
theorem meets_spaced (hop : op = pipeChar ∨ op = redirChar ∧ vs.length = 1)
    (hleft : Spaced ws left) (hright : Spaced vs right)
    (hlen : (left ++ op :: (blanks sep ++ right)).length ≤ 127) (hspace : spaceChar ∈ left) :
    (∃ s, splitLine (left ++ op :: (blanks sep ++ (right ++ 0 :: rest))) = some s ∧
      Meets op ws vs s) ↔
      ws.length ≤ 32 ∧ ∀ name, op = redirChar → vs = [name] → Room name right := by
  have hop' : op = redirChar ∨ op = pipeChar := hop.symm.imp_left And.left
  obtain ⟨w, ws', hws, hne, hw, ⟨-, rfl⟩ | ⟨t, heq, ht⟩⟩ := hleft.first
  · exact absurd hspace (space_not_mem hw)
  · rw [meets_iff (splitLine_spaced hop' hleft hright hw heq)]
    have htnul : 0 ∉ (some (t.dropWhile isspace)).getD [] := fun hm => hleft.nul (heq ▸
      List.mem_append_right _ (List.mem_cons_of_mem _ ((List.dropWhile_suffix isspace).subset hm)))
    have hshort : w.length + ((some (t.dropWhile isspace)).getD []).length ≤ 127 := by
      have hle := (List.dropWhile_suffix (l := t) isspace).length_le
      rw [heq] at hlen
      simp only [List.length_append, List.length_cons] at hlen
      rw [Option.getD_some]
      omega
    constructor
    · intro h
      refine ⟨?_, fun name he hvs => ?_⟩
      · exact (h.length (nul_not_mem hw) htnul hshort).2
      · obtain ⟨-, path, name', hpath, hvs', hnames⟩ := h.redir he
        rw [Split.of, if_neg (by rw [he]; decide)] at hpath
        cases hpath
        cases hvs.symm.trans hvs'
        exact hnames.room
    · rintro ⟨hle, hroom⟩
      refine .of (nul_not_mem hw) htnul hshort ?_ hle (fun _ => hright) fun he => ?_
      · rw [hws, Option.getD_some, words_dropWhile, ht]
      · obtain ⟨name, rfl⟩ := List.length_eq_one_iff.mp
          (hop.resolve_left (by rw [he]; decide)).2
        obtain ⟨n, rfl⟩ := hright.one
        exact ⟨name, rfl, .of_room (hroom name he rfl)⟩

/-- No blank before the operator, but one behind it: the words behind it are the arguments. -/
theorem not_meets_behind {v : List UInt8} (hop : op = redirChar ∨ op = pipeChar) (hne : w ≠ [])
    (hw : ∀ c ∈ w, isWordChar c = true) (hright : Spaced vs right)
    (hv : ∀ c ∈ v, isWordChar c = true) (heq : blanks sep ++ right = v ++ spaceChar :: t)
    (hlen : (w ++ op :: (blanks sep ++ right)).length ≤ 127) (hwords : words isspace t ≠ []) :
    ¬ ∃ s, splitLine (w ++ op :: (blanks sep ++ (right ++ 0 :: rest))) = some s ∧
      Meets op [w] vs s := by
  rw [meets_iff (splitLine_behind hop hne hw hright hv heq)]
  intro h
  have hline : 0 ∉ blanks sep ++ right := fun hm => (List.mem_append.mp hm).elim
    (fun hm => absurd (mem_blanks hm) (by decide)) hright.nul
  have htnul : 0 ∉ (some (t.dropWhile isspace)).getD [] := fun hm => hline (heq ▸
    List.mem_append_right _ (List.mem_cons_of_mem _ ((List.dropWhile_suffix isspace).subset hm)))
  have hshort : w.length + ((some (t.dropWhile isspace)).getD []).length ≤ 127 := by
    have hle := (List.dropWhile_suffix (l := t) isspace).length_le
    rw [heq] at hlen
    simp only [List.length_append, List.length_cons] at hlen
    rw [Option.getD_some]
    omega
  have hone := (h.length (nul_not_mem hw) htnul hshort).1
  rw [Option.getD_some, words_dropWhile, List.length_singleton, eq_comm, Nat.add_eq_right,
    List.length_eq_zero_iff] at hone
  exact hwords hone

/-- The command alone, and one word behind the operator. -/
theorem meets_tight {v : List UInt8} {a : Option (List UInt8)}
    (hw : ∀ c ∈ w, isWordChar c = true) (hne : v ≠ []) (hv : ∀ c ∈ v, isWordChar c = true)
    (ha : 0 ∉ a.getD []) (hlen : w.length + (a.getD []).length ≤ 127)
    (hwords : words isspace (a.getD []) = []) : Meets op [w] [v] (.of op w a v) := by
  have hspaced : Spaced [v] (v ++ blanks 0) := .last v 0 hne hv
  have hnames : Names (v ++ blanks 0) v := .of_room fun h => by
    rwa [blanks, List.replicate_zero, List.append_nil]
  rw [blanks, List.replicate_zero, List.append_nil] at hspaced hnames
  exact .of (nul_not_mem hw) ha hlen (by rw [hwords]) (Nat.le_add_left 1 31) (fun _ => hspaced)
    fun _ => ⟨v, rfl, hnames⟩

/-- **When the operator does not depend on the blanks around it.**  There is one before it, or
none at all and one word behind it; and the vector has room for the words. -/
theorem executeLine_meets (hop : op = pipeChar ∨ op = redirChar ∧ vs.length = 1)
    (hleft : Spaced ws left) (hright : Spaced vs right)
    (hlen : (left ++ op :: (blanks sep ++ right)).length ≤ 127) :
    (∃ s, splitLine (left ++ op :: (blanks sep ++ (right ++ 0 :: rest))) = some s ∧
      Meets op ws vs s) ↔
      ws.length ≤ 32 ∧
        (spaceChar ∈ left ∧ (∀ name, op = redirChar → vs = [name] → Room name right) ∨
          spaceChar ∉ left ∧ sep = 0 ∧ vs.length = 1) := by
  have hop' : op = redirChar ∨ op = pipeChar := hop.symm.imp_left And.left
  by_cases hspace : spaceChar ∈ left
  · rw [meets_spaced hop hleft hright hlen hspace]
    simp only [hspace, true_and, not_true_eq_false, false_and, or_false]
  · obtain ⟨w, ws', rfl, hne, hw, ⟨rfl, rfl⟩ | ⟨t, rfl, -⟩⟩ := hleft.first
    · simp only [hspace, false_and, not_false_eq_true, true_and, false_or]
      obtain ⟨v, vs', rfl, hvne, hv, hcases⟩ := hright.first
      cases sep with
      | succ sep =>
          refine iff_of_false ?_ fun h => Nat.succ_ne_zero sep h.2.1
          refine not_meets_behind hop' hne hw hright (v := []) (t := blanks sep ++ right)
            (fun _ h => (List.not_mem_nil h).elim) rfl hlen ?_
          rw [words_blanks (fun _ h => isspace_blanks h), hright.words_eq]
          exact List.cons_ne_nil _ _
      | zero =>
          rcases hcases with ⟨rfl, rfl⟩ | ⟨t, rfl, ht⟩
          · refine iff_of_true ?_ ⟨Nat.le_add_left 1 31, rfl, rfl⟩
            refine (meets_iff (splitLine_tight hop' hne hw hright hv)).mpr ?_
            refine meets_tight hw hvne hv (List.not_mem_nil) ?_ words_nil
            rw [List.length_append] at hlen
            exact (Nat.le_add_right _ _).trans hlen
          · cases vs' with
            | cons v' vs' =>
                refine iff_of_false ?_ fun h => by cases h.2.2
                exact not_meets_behind hop' hne hw hright hv rfl hlen (by rw [ht]; exact List.cons_ne_nil _ _)
            | nil =>
                refine iff_of_true ?_ ⟨Nat.le_add_left 1 31, rfl, rfl⟩
                refine (meets_iff (splitLine_behind hop' hne hw hright hv rfl)).mpr ?_
                refine meets_tight hw hvne hv ?_ ?_ ?_
                · exact fun hm => hright.nul (List.mem_append_right _
                    (List.mem_cons_of_mem _ ((List.dropWhile_suffix isspace).subset hm)))
                · have hle := (List.dropWhile_suffix (l := t) isspace).length_le
                  simp only [List.length_append, List.length_cons] at hlen
                  rw [Option.getD_some]
                  omega
                · rw [Option.getD_some, words_dropWhile, ht]
    · exact absurd (List.mem_append_right _ List.mem_cons_self) hspace

/-- `ls` -/
def ls : List UInt8 := [108, 115]

/-- `cat` -/
def catWord : List UInt8 := [99, 97, 116]

/-- `foo` -/
def foo : List UInt8 := [102, 111, 111]

/-- `cat foo` -/
theorem spaced_cat_foo : Spaced [catWord, foo] (catWord ++ blanks 1 ++ (foo ++ blanks 0)) :=
  .cons catWord 0 (List.cons_ne_nil _ _) (List.all_eq_true.mp rfl)
    (.last foo 0 (List.cons_ne_nil _ _) (List.all_eq_true.mp rfl))

/-- `ls | cat foo` -/
theorem executeLine_meets_pipe : ∃ s, splitLine (ls ++ blanks 1 ++ pipeChar :: (blanks 1 ++
    (catWord ++ blanks 1 ++ (foo ++ blanks 0) ++ 0 :: []))) = some s ∧
      Meets pipeChar [ls] [catWord, foo] s :=
  (executeLine_meets (.inl rfl)
    (.last ls 1 (List.cons_ne_nil _ _) (List.all_eq_true.mp rfl)) spaced_cat_foo (by decide)).mpr
    ⟨by decide, .inl ⟨by decide, fun _ h => absurd h (by decide)⟩⟩

/-- `ls| cat foo`: the sub-command gets nothing, and `ls` the two words. -/
theorem executeLine_pipe_tight : Spaced [ls] (ls ++ blanks 0) ∧
    ¬ ∃ s, splitLine (ls ++ pipeChar :: (blanks 1 ++
      (catWord ++ blanks 1 ++ (foo ++ blanks 0) ++ 0 :: []))) = some s ∧
        Meets pipeChar [ls] [catWord, foo] s := by
  have hls : ∀ c ∈ ls, isWordChar c = true := List.all_eq_true.mp rfl
  refine ⟨.last ls 0 (List.cons_ne_nil _ _) hls, ?_⟩
  refine not_meets_behind (v := []) (t := catWord ++ blanks 1 ++ (foo ++ blanks 0)) (.inr rfl)
    (List.cons_ne_nil _ _) hls spaced_cat_foo (fun _ h => (List.not_mem_nil h).elim) rfl (by decide) ?_
  rw [spaced_cat_foo.words_eq]
  exact List.cons_ne_nil _ _

end Laplus.Terminal
