/-
# `Laplus.Fat.Resolve` — what a path means to `FindFile`

`FindFile` calls itself for what stands behind the first slash, and takes a slash there
for the start of an absolute path.  So of two slashes the second one leads back to the
root, and of three the third one makes an empty name.  `findFile_resolves` says that
otherwise it goes from directory to directory, as `find_plain_iff` makes precise.
-/
import Laplus.Fat.Path
import Laplus.Lib.Resolve

namespace Laplus.Fat

open Lib

/-! ## Paths -/

/-- A component of a path. -/
structure PathElem where
  chars : List UInt8
  ne_nil : chars ≠ []
  plain : Plain chars
  slash_not_mem : slash ∉ chars
  length_le : chars.length ≤ 12

/-- The components behind the first, each behind a slash and so many more. -/
def slashed (cs : List (Nat × PathElem)) : List UInt8 :=
  cs.flatMap fun c => List.replicate (c.1 + 1) slash ++ c.2.chars

/-- A relative path. -/
def relativePath (c : PathElem) (cs : List (Nat × PathElem)) : List UInt8 := c.chars ++ slashed cs

/-- A path, with a leading slash or without. -/
def slashPath (lead : Bool) (c : PathElem) (cs : List (Nat × PathElem)) : List UInt8 :=
  if lead then slash :: relativePath c cs else relativePath c cs

theorem relativePath_cons (c c' : PathElem) (n : Nat) (cs : List (Nat × PathElem)) :
    relativePath c ((n, c') :: cs) =
      c.chars ++ slash :: (List.replicate n slash ++ relativePath c' cs) := by
  simp only [relativePath, slashed, List.flatMap_cons, List.replicate_succ, List.append_assoc,
    List.cons_append]

theorem relativePath_ne_nil (c : PathElem) (cs : List (Nat × PathElem)) : relativePath c cs ≠ [] :=
  fun h => c.ne_nil (List.append_eq_nil_iff.mp h).1

theorem relativePath_head (c : PathElem) (cs : List (Nat × PathElem)) :
    (relativePath c cs).head? ≠ some slash := by
  obtain ⟨x, l, hx⟩ := List.exists_cons_of_ne_nil c.ne_nil
  rw [relativePath, hx]
  intro h
  exact c.slash_not_mem (hx ▸ Option.some.inj h ▸ List.mem_cons_self)

theorem elevenOf_plain {f : Nat → UInt8} (h : ∀ k, f k ≠ 0 ∧ f k < 0x80) : Plain (elevenOf f) := by
  intro c hc
  obtain ⟨k, -, rfl⟩ := List.mem_map.mp hc
  exact h k

/-! ## Trees -/

namespace Volume

variable (v : Volume)

/-- The directory that an entry leads to; for cluster 0 it is the root. -/
def dirOf (s : Slot) : Nat :=
  if (v.firstCluster s).toNat = 0 then v.rootCluster.toNat else (v.firstCluster s).toNat

/-- The entries of the directories, by the components that name them. -/
def directories : Directories Nat PathElem Slot where
  named d c s := v.Listed d s ∧ v.name s = elevenOf (name83 c.chars)
  enter s := if v.attr s = kDirectory then some (v.dirOf s) else none

/-- A tree: the chains of the directories are acyclic, an entry for a directory leads to one of
them, a directory has no name twice, and no name begins with a blank. -/
structure IsTree (dirs : List Nat) : Prop where
  root : v.rootCluster.toNat ∈ dirs
  chain : ∀ d ∈ dirs, ∃ l, v.fat.IsChain d l
  down : ∀ d ∈ dirs, ∀ s, v.Listed d s → v.attr s = kDirectory → v.byte s 0 ≠ dot → v.dirOf s ∈ dirs
  once : ∀ d ∈ dirs, ∀ s t, v.Listed d s → v.Listed d t → v.name s = v.name t →
    Plain (v.name s) → s = t
  named : ∀ d ∈ dirs, ∀ s, v.Listed d s → v.byte s 0 ≠ blank

/-- However many slashes stand between two components, the walk goes on where it is. -/
def plainNext (_ : Nat) (d : Nat) : Option Nat := some d

/-- Where `FindFile` goes on behind a slash and so many more. -/
def findNext : Nat → Nat → Option Nat
  | 0, d => some d
  | 1, _ => some v.rootCluster.toNat
  | _ + 2, _ => none

/-- Where a path starts. -/
def startDir (lead : Bool) (dir : Nat) : Nat :=
  if lead = true ∨ dir = 0 then v.rootCluster.toNat else dir

variable {v} {dirs : List Nat} {d : Nat} {c : PathElem}

theorem plainNext_mem {S : Set Nat} (n : Nat) (hd : d ∈ S) {d' : Nat}
    (hnext : plainNext n d = some d') : d' ∈ S := Option.some.inj hnext ▸ hd

theorem IsTree.ne_zero (h : v.IsTree dirs) (hd : d ∈ dirs) : d ≠ 0 := by
  obtain ⟨l, hl⟩ := h.chain d hd
  have hle := (hl.2 d hl.mem_head).1
  omega

theorem IsTree.startDir_mem (h : v.IsTree dirs) (lead : Bool) {dir : Nat}
    (hdir : dir = 0 ∨ dir ∈ dirs) : v.startDir lead dir ∈ dirs := by
  rw [startDir]
  split
  next => exact h.root
  next hn => exact hdir.resolve_left fun h0 => hn (.inr h0)

theorem IsTree.findNext_mem (h : v.IsTree dirs) (n : Nat) (hd : d ∈ dirs) {d' : Nat}
    (hnext : v.findNext n d = some d') : d' ∈ dirs := by
  rcases n with _ | _ | n
  · cases hnext
    exact hd
  · cases hnext
    exact h.root
  · cases hnext

/-- A component names one entry, and leads to a directory. -/
theorem IsTree.proper (h : v.IsTree dirs) : v.directories.Proper {d | d ∈ dirs} where
  once d hd c s t hs ht := h.once d hd s t hs.1 ht.1 (hs.2.trans ht.2.symm) (by
    rw [hs.2]
    exact elevenOf_plain (name83_plain c.plain))
  down d hd c s d₁ hs henter := by
    simp only [directories] at henter
    split at henter
    next hattr =>
      cases henter
      refine h.down d hd s hs.1 hattr fun hdot => ?_
      rw [elevenOf_inj.mp hs.2 0 (by decide)] at hdot
      exact name83_ne_dot c.chars 0 hdot
    next => cases henter

/-! ## One component -/

/-- **The loop over a directory** finds the entry that the component names. -/
theorem IsTree.search (h : v.IsTree dirs) (hd : d ∈ dirs) (c : PathElem) :
    (v.search c.chars d = some none ∧ ∀ s, ¬v.directories.named d c s) ∨
      ∃ s, v.search c.chars d = some (some s) ∧ v.directories.named d c s := by
  obtain ⟨l, hl⟩ := h.chain d hd
  cases hlook : v.lookup c.chars (v.slots l) with
  | none =>
      refine .inl ⟨by rw [search_eq hl, hlook], fun s hs => ?_⟩
      exact lookup_listed hl hs.1 hs.2 hlook
  | some s =>
      have hsearch : v.search c.chars d = some (some s) := by rw [search_eq hl, hlook]
      obtain ⟨hlisted, hname, -⟩ := search_some hl c.plain hsearch
      exact .inr ⟨s, hsearch, hlisted, hname⟩

/-- No entry has an empty name. -/
theorem IsTree.search_nil (h : v.IsTree dirs) (hd : d ∈ dirs) : v.search [] d = some none := by
  obtain ⟨l, hl⟩ := h.chain d hd
  cases hsearch : v.search [] d with
  | none =>
      rw [search_eq hl] at hsearch
      cases hsearch
  | some r =>
      cases r with
      | none => rfl
      | some s =>
          obtain ⟨hlisted, hname, -⟩ := search_some hl (fun c hc => by cases hc) hsearch
          exact absurd (elevenOf_inj.mp hname 0 (by decide)) (h.named d hd s hlisted)

/-- A slash in front of a path leads to the root. -/
theorem findFile_slash (hroot : v.rootCluster.toNat ≠ 0) {path : List UInt8}
    (hpath : path.head? ≠ some slash) (fuel : Nat) :
    v.findFile fuel (slash :: path) d = v.findFile fuel path v.rootCluster.toNat := by
  cases fuel with
  | zero => rfl
  | succ fuel =>
      have hstart : v.start (slash :: path) d = v.start path v.rootCluster.toNat := by
        rw [start, start, if_pos List.head?_cons, if_neg hpath, if_neg hroot]
        rfl
      rw [findFile, findFile, hstart]

/-- Two slashes in front of a path make an empty name. -/
theorem IsTree.findFile_slashes (h : v.IsTree dirs) (fuel : Nat) (path : List UInt8) :
    v.findFile (fuel + 1) (slash :: slash :: path) d = some (none, true) := by
  have hstart : v.start (slash :: slash :: path) d = (slash :: path, v.rootCluster.toNat) := by
    rw [start, if_pos List.head?_cons]
    rfl
  have helem : nextPathElement (slash :: path) = ([], some path) :=
    nextPathElement_cons List.not_mem_nil path
  rw [findFile, hstart]
  dsimp only
  rw [helem]
  dsimp only
  rw [h.search_nil h.root]
  rfl

/-- **The first component**: the walk goes on behind its slash if it names a directory. -/
theorem findFile_first (fuel : Nat) (c : PathElem) (hd : d ≠ 0) {path : List UInt8}
    {next : Option (List UInt8)} (hhead : path.head? ≠ some slash)
    (helem : nextPathElement path = (c.chars, next)) :
    v.findFile (fuel + 1) path d = (v.search c.chars d).bind fun r =>
      r.elim (some (none, next.isSome)) fun s =>
        if v.attr s = kDirectory ∧ next.getD [] ≠ [] then
          v.findFile fuel (next.getD []) (v.firstCluster s).toNat
        else some (some s, next.isSome) := by
  have hstart : v.start path d = (path, d) := by rw [start, if_neg hhead, if_neg hd]
  have hguard : (guard (c.chars.length ≤ 12) : Option Unit) = some () := if_pos c.length_le
  rw [findFile, hstart]
  cases hsearch : v.search c.chars d with
  | none => simp [helem, hguard, hsearch]
  | some r => cases r <;> simp [helem, hguard, hsearch]

/-- Directory 0 is the root. -/
theorem findFile_zero (hroot : v.rootCluster.toNat ≠ 0) (fuel : Nat) (path : List UInt8) :
    v.findFile fuel path 0 = v.findFile fuel path v.rootCluster.toNat := by
  cases fuel with
  | zero => rfl
  | succ fuel =>
      have hstart : v.start path 0 = v.start path v.rootCluster.toNat := by
        rw [start, start, if_pos rfl, if_neg hroot]
      rw [findFile, findFile, hstart]

theorem findFile_dirOf (hroot : v.rootCluster.toNat ≠ 0) (fuel : Nat) (path : List UInt8)
    (s : Slot) :
    v.findFile fuel path (v.firstCluster s).toNat = v.findFile fuel path (v.dirOf s) := by
  rw [dirOf]
  split
  next h0 => rw [h0, findFile_zero hroot]
  next => rfl

/-! ## Whole paths -/

/-- **`FindFile` resolves a path** from component to component; of two slashes the second leads back
to the root, and three lead nowhere. -/
theorem findFile_resolves (h : v.IsTree dirs) (cs : List (Nat × PathElem)) {fuel : Nat}
    (hfuel : (relativePath c cs).length < fuel) (hd : d ∈ dirs) :
    ∃ r post, v.findFile fuel (relativePath c cs) d = some (r, post) ∧
      v.directories.Resolves v.findNext c cs d r := by
  induction cs generalizing c d fuel with
  | nil =>
      obtain ⟨fuel, rfl⟩ := Nat.exists_eq_succ_of_ne_zero (Nat.ne_of_gt (Nat.zero_lt_of_lt hfuel))
      have helem : nextPathElement (relativePath c []) = (c.chars, none) := by
        rw [relativePath, slashed, List.flatMap_nil, List.append_nil]
        exact nextPathElement_last c.slash_not_mem
      rw [findFile_first fuel c (h.ne_zero hd) (relativePath_head c []) helem]
      rcases h.search hd c with ⟨hsearch, hno⟩ | ⟨s, hsearch, hs⟩
      · rw [hsearch]
        exact ⟨none, false, rfl, .missing hno⟩
      · rw [hsearch]
        refine ⟨some s, false, ?_, .last hs⟩
        exact if_neg fun hn => hn.2 rfl
  | cons e cs ih =>
      obtain ⟨n, c'⟩ := e
      obtain ⟨fuel, rfl⟩ := Nat.exists_eq_succ_of_ne_zero (Nat.ne_of_gt (Nat.zero_lt_of_lt hfuel))
      have hpath := relativePath_cons c c' n cs
      have helem : nextPathElement (relativePath c ((n, c') :: cs)) =
          (c.chars, some (List.replicate n slash ++ relativePath c' cs)) := by
        rw [hpath]
        exact nextPathElement_cons c.slash_not_mem _
      have hne : List.replicate n slash ++ relativePath c' cs ≠ [] := fun he =>
        relativePath_ne_nil c' cs (List.append_eq_nil_iff.mp he).2
      have hlen : n + (relativePath c' cs).length < fuel := by
        rw [hpath, List.length_append, List.length_cons, List.length_append,
          List.length_replicate] at hfuel
        omega
      rw [findFile_first fuel c (h.ne_zero hd) (relativePath_head c _) helem]
      rcases h.search hd c with ⟨hsearch, hno⟩ | ⟨s, hsearch, hs⟩
      · rw [hsearch]
        exact ⟨none, true, rfl, .missing hno⟩
      · rw [hsearch, Option.bind_some]
        dsimp only [Option.getD_some, Option.isSome_some, Option.elim_some]
        by_cases hattr : v.attr s = kDirectory
        · have henter : v.directories.enter s = some (v.dirOf s) := if_pos hattr
          have hdown := h.proper.down d hd c s _ hs henter
          have hroot := h.ne_zero h.root
          rw [if_pos ⟨hattr, hne⟩, findFile_dirOf hroot]
          -- how many slashes there are
          have hlt : (relativePath c' cs).length < fuel := by omega
          rcases n with _ | _ | n
          · obtain ⟨r, post, hfind, hrest⟩ := ih (c := c') hlt hdown
            exact ⟨r, post, hfind, .down hs henter rfl hrest⟩
          · obtain ⟨r, post, hfind, hrest⟩ := ih (c := c') hlt h.root
            refine ⟨r, post, ?_, .down hs henter rfl hrest⟩
            rw [← hfind]
            exact findFile_slash hroot (relativePath_head c' cs) fuel
          · obtain ⟨fuel, rfl⟩ := Nat.exists_eq_succ_of_ne_zero (n := fuel) (by omega)
            exact ⟨none, true, h.findFile_slashes fuel _, .lost hs henter rfl⟩
        · refine ⟨some s, true, ?_, .file hs (if_neg hattr)⟩
          exact if_neg fun hn => hattr hn.1

/-- The whole of a path, from the directory where it starts. -/
theorem find_resolves (h : v.IsTree dirs) (lead : Bool) (c : PathElem) (cs : List (Nat × PathElem))
    {dir : Nat} (hdir : dir = 0 ∨ dir ∈ dirs) :
    ∃ r post, v.find (slashPath lead c cs) dir = some (r, post) ∧
      v.directories.Resolves v.findNext c cs (v.startDir lead dir) r := by
  have hroot := h.ne_zero h.root
  have hstart := h.startDir_mem lead hdir
  cases lead with
  | true =>
      have hfuel : (relativePath c cs).length < (slashPath true c cs).length + 1 :=
        Nat.lt_succ_of_lt (Nat.lt_succ_self _)
      obtain ⟨r, post, hfind, hrest⟩ := findFile_resolves (c := c) h cs hfuel hstart
      refine ⟨r, post, ?_, hrest⟩
      rw [← hfind]
      exact findFile_slash hroot (relativePath_head c cs) _
  | false =>
      obtain ⟨r, post, hfind, hrest⟩ :=
        findFile_resolves (c := c) h cs (Nat.lt_succ_self _) hstart
      refine ⟨r, post, ?_, hrest⟩
      rw [← hfind, startDir]
      by_cases h0 : dir = 0
      · rw [if_pos (.inr h0), h0]
        exact findFile_zero hroot _ _
      · rw [if_neg fun hor => hor.elim (fun h => by cases h) h0]
        rfl

/-- The path means to `FindFile` what it says. -/
def ResolvesPlainly (v : Volume) (lead : Bool) (c : PathElem) (cs : List (Nat × PathElem))
    (dir : Nat) : Prop :=
  ∃ r, v.directories.Resolves plainNext c cs (v.startDir lead dir) r ∧
    (v.find (slashPath lead c cs) dir).map Prod.fst = some r

theorem resolvesPlainly_iff (h : v.IsTree dirs) (lead : Bool) (c : PathElem)
    (cs : List (Nat × PathElem)) {dir : Nat} (hdir : dir = 0 ∨ dir ∈ dirs) :
    v.ResolvesPlainly lead c cs dir ↔
      ∃ r, v.directories.Resolves plainNext c cs (v.startDir lead dir) r ∧
        v.directories.Resolves v.findNext c cs (v.startDir lead dir) r := by
  obtain ⟨r, post, hfind, hr⟩ := find_resolves h lead c cs hdir
  rw [ResolvesPlainly, hfind]
  constructor
  · rintro ⟨r', hr', heq⟩
    cases heq
    exact ⟨r, hr', hr⟩
  · rintro ⟨r', hr', hr''⟩
    refine ⟨r', hr', ?_⟩
    rw [hr''.unique h.proper (fun n d hd d' => h.findNext_mem n hd) (h.startDir_mem lead hdir) hr]
    rfl

/-- One slash between two components is as good as the plain walk. -/
theorem resolvesPlainly_of_single (h : v.IsTree dirs) (lead : Bool) (c : PathElem)
    {cs : List (Nat × PathElem)} {dir : Nat} (hdir : dir = 0 ∨ dir ∈ dirs)
    (hsingle : ∀ e ∈ cs, e.1 = 0) : v.ResolvesPlainly lead c cs dir := by
  have hagrees : v.directories.Agrees plainNext v.findNext c cs (v.startDir lead dir) :=
    Directories.agrees_of_eq fun e he d => by rw [hsingle e he]; rfl
  refine (resolvesPlainly_iff h lead c cs hdir).mpr ?_
  exact (Directories.agrees_iff h.proper (fun n d hd d' => plainNext_mem n hd)
    (h.startDir_mem lead hdir)).mp hagrees

/-- **Path resolution.**  `FindFile` resolves the components of a path one after the other
exactly when, wherever several slashes stand behind a directory, what is behind them leads to the
same entry from the root, or for more than two slashes to none. -/
theorem find_plain_iff (h : v.IsTree dirs) (lead : Bool) (c : PathElem)
    (cs : List (Nat × PathElem)) {dir : Nat} (hdir : dir = 0 ∨ dir ∈ dirs) :
    v.ResolvesPlainly lead c cs dir ↔
      v.directories.Agrees plainNext v.findNext c cs (v.startDir lead dir) := by
  rw [resolvesPlainly_iff h lead c cs hdir]
  exact (Directories.agrees_iff h.proper (fun n d hd d' => plainNext_mem n hd)
    (h.startDir_mem lead hdir)).symm

end Volume

/-- `a` -/
def elemA : PathElem where
  chars := [0x61]
  ne_nil := by decide
  plain := by decide
  slash_not_mem := by decide
  length_le := by decide

theorem subdir_listed {d : Nat} (hd : d ∈ [2, 3]) {s : Slot} (hs : subdir.Listed d s) :
    s = ⟨2, 0⟩ ∧ d = 2 := by
  have hslots : ∀ d ∈ [2, 3], ∀ s ∈ subdir.slots [d], subdir.byte s 0 ≠ 0 → s = ⟨2, 0⟩ ∧ d = 2 := by
    decide +kernel
  obtain ⟨l, hl, A, B, hsplit, -, hvacant⟩ := hs
  obtain rfl := hl.unique (subdir_chain d hd)
  exact hslots d hd s (hsplit ▸ List.mem_append_right A List.mem_cons_self)
    (Volume.not_zero_of_not_vacant hvacant)

theorem subdir_tree : subdir.IsTree [2, 3] where
  root := by decide
  chain d hd := ⟨[d], subdir_chain d hd⟩
  down d hd s hs _ _ := by
    obtain ⟨rfl, rfl⟩ := subdir_listed hd hs
    decide +kernel
  once d hd s t hs ht _ _ := by
    rw [(subdir_listed hd hs).1, (subdir_listed hd ht).1]
  named d hd s hs := by
    rw [(subdir_listed hd hs).1]
    decide +kernel

/-- `/a/a` -/
theorem find_plain_sample : subdir.ResolvesPlainly true elemA [(0, elemA)] 0 :=
  (Volume.find_plain_iff subdir_tree true elemA [(0, elemA)] (.inl rfl)).mpr
    (Directories.agrees_of_eq fun e he d => by rw [List.mem_singleton.mp he]; rfl)

/-- `a//a`: there is no `a` in the directory `a`, but one in the root directory. -/
theorem find_slashes : ¬subdir.ResolvesPlainly false elemA [(1, elemA)] 0 := by
  rintro ⟨r, hr, hfind⟩
  have hroot : (subdir.find (slashPath false elemA [(1, elemA)]) 0).map Prod.fst =
      some (some ⟨2, 0⟩) := by decide +kernel
  rw [hroot] at hfind
  obtain rfl := Option.some.inj hfind
  cases hr with
  | file _ hfile =>
      revert hfile
      decide +kernel
  | down hs henter hnext hrest =>
      obtain ⟨rfl, -⟩ := subdir_listed List.mem_cons_self hs.1
      have hdown : subdir.directories.enter ⟨2, 0⟩ = some 3 := by decide +kernel
      rw [hdown] at henter
      cases henter
      cases hnext
      cases hrest with
      | last ht => exact absurd (subdir_listed (by decide) ht.1).2 (by decide)
      | file ht _ => exact absurd (subdir_listed (by decide) ht.1).2 (by decide)

end Laplus.Fat
