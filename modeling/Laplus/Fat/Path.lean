/-
# `Laplus.Fat.Path` — what `FindFile` does to memory

`FindFile` has an array of thirteen characters in each of its calls, and
`NextPathElement` copies there what stands before the next slash, however much
that is.  The walk through a path is followed here in memory: the places of the
path that are read, and what is written to the array of each call.
-/
import Laplus.Fat.Directory
import Laplus.Lib.Terminated

namespace Laplus.Fat

open Lib

/-! ## The source -/

/-- `sizeof(path_elem)`. -/
def pathElemSize : Nat := 13

/-- What `NextPathElement` writes to `path_elem`, where it says that the path goes on, and the
places of the path that it reads. -/
structure PathElement where
  written : List UInt8
  next : Option Nat
  reads : List Nat

/-- `NextPathElement`, for a path that is in memory from a place on. -/
def nextElement (mem : List UInt8) (path : Nat) : Option PathElement := do
  let looked := List.range' path (strchrReads slash (mem.drop path))
  match ← strchr slash (mem.drop path) with
  | none =>
      let written ← strcpy (mem.drop path)
      return ⟨written, none, looked ++ List.range' path written.length⟩
  | some elemLen =>
      let written ← strncpy elemLen (mem.drop path)
      return ⟨written ++ [0], some (path + elemLen + 1),
        looked ++ List.range' path (strncpyReads elemLen (mem.drop path))⟩

/-- A call of `FindFile`: the places of the path that are read, what is written to the
`path_elem` of each call, and what it returns if it comes back. -/
structure Walk where
  reads : List Nat
  elems : List (List UInt8)
  found : Option (Option Slot × Bool)

/-- The path is read up to its terminator, no `path_elem` is written behind its end, and the
call comes back. -/
structure Walk.Safe (w : Walk) (terminator : Nat) : Prop where
  reads : ∀ i ∈ w.reads, i ≤ terminator
  elems : ∀ e ∈ w.elems, e.length ≤ pathElemSize
  found : w.found.isSome

namespace Volume

/-- `FindFile` in memory.  After a write behind the end of `path_elem` nothing is known. -/
def walk (v : Volume) (mem : List UInt8) : Nat → Nat → Nat → Walk
  | 0, _, _ => ⟨[], [], none⟩
  | fuel + 1, path, dir =>
      let lead := mem[path]? = some slash
      let dir := if lead ∨ dir = 0 then v.rootCluster.toNat else dir
      match nextElement mem (if lead then path + 1 else path) with
      | none => ⟨[path], [], none⟩
      | some e =>
          let here := path :: e.reads ++ e.next.toList
          if e.written.length ≤ pathElemSize then
            match v.search (e.written.takeWhile (· ≠ 0)) dir with
            | none => ⟨here, [e.written], none⟩
            | some none => ⟨here, [e.written], some (none, e.next.isSome)⟩
            | some (some s) =>
                match e.next.filter fun next => v.attr s = kDirectory ∧ mem[next]? ≠ some 0 with
                | none => ⟨here, [e.written], some (some s, e.next.isSome)⟩
                | some next =>
                    let rest := v.walk mem fuel next (v.firstCluster s).toNat
                    ⟨here ++ rest.reads, e.written :: rest.elems, rest.found⟩
          else ⟨here, [e.written], none⟩

end Volume

section
variable {here : List Nat} {elem : List UInt8} {n : Nat}

theorem Walk.safe_leaf (hhere : ∀ i ∈ here, i ≤ n) (h : elem.length ≤ 12)
    {r : Option Slot × Bool} : (⟨here, [elem ++ [0]], some r⟩ : Walk).Safe n := by
  refine ⟨hhere, fun e he => ?_, rfl⟩
  rw [List.mem_singleton.mp he, List.length_append]
  exact Nat.succ_le_succ h

/-- A call that ends with another one. -/
theorem Walk.safe_cons (hhere : ∀ i ∈ here, i ≤ n) (h : elem.length ≤ 12) {w : Walk} :
    (⟨here ++ w.reads, (elem ++ [0]) :: w.elems, w.found⟩ : Walk).Safe n ↔ w.Safe n := by
  have helem : (elem ++ [0]).length ≤ pathElemSize := by
    rw [List.length_append]
    exact Nat.succ_le_succ h
  constructor
  · rintro ⟨hreads, helems, hfound⟩
    exact ⟨fun i hi => hreads i (List.mem_append_right here hi),
      fun e he => helems e (List.mem_cons_of_mem _ he), hfound⟩
  · rintro ⟨hreads, helems, hfound⟩
    exact ⟨List.forall_mem_append.mpr ⟨hhere, hreads⟩, List.forall_mem_cons.mpr ⟨helem, helems⟩,
      hfound⟩

end

/-! ## One call -/

/-- The first element of a path, behind a leading slash, and what comes behind it. -/
def firstElement (path : List UInt8) : List UInt8 × Option (List UInt8) :=
  nextPathElement (if path.head? = some slash then path.tail else path)

theorem nextPathElement_cases (path : List UInt8) :
    slash ∉ path ∧ nextPathElement path = (path, none) ∨
      ∃ elem next, path = elem ++ slash :: next ∧ slash ∉ elem ∧
        nextPathElement path = (elem, some next) := by
  by_cases h : slash ∈ path
  · obtain ⟨elem, next, rfl, hnot⟩ := List.eq_append_cons_of_mem h
    exact .inr ⟨elem, next, rfl, hnot, nextPathElement_cons hnot next⟩
  · exact .inl ⟨h, nextPathElement_last h⟩

/-- `NextPathElement` on a string in memory: it reads up to the terminator, and says where the
rest of the string is. -/
theorem nextElement_eq {mem path : List UInt8} {p : Nat} (h : IsString (mem.drop p) path) :
    ∃ reads q, nextElement mem p =
        some ⟨(nextPathElement path).1 ++ [0], (nextPathElement path).2.map fun _ => q, reads⟩ ∧
      (∀ i ∈ reads, i ≤ p + path.length) ∧ 0 ∉ (nextPathElement path).1 ∧
      ∀ next, (nextPathElement path).2 = some next →
        IsString (mem.drop q) next ∧ q + next.length = p + path.length ∧
          next.length < path.length := by
  rcases nextPathElement_cases path with ⟨hnot, heq⟩ | ⟨elem, next, rfl, hnot, heq⟩
  · obtain ⟨hchr, hreads⟩ := strchr_none h (by decide) hnot
    have hlen : (path ++ [0]).length = path.length + 1 := List.length_append
    refine ⟨List.range' p (path.length + 1) ++ List.range' p (path.length + 1), 0, ?_,
      fun i hi => ?_, by rw [heq]; exact h.plain, fun next hnext => ?_⟩
    · rw [nextElement, hchr, hreads, strcpy_eq h, heq]
      dsimp only [Option.bind_eq_bind, Option.bind_some, Option.pure_def, Option.map_none]
      rw [hlen]
    · rw [List.mem_append, or_self, List.mem_range'_1] at hi
      omega
    · rw [heq] at hnext
      cases hnext
  · have hplain : 0 ∉ elem := fun h0 => h.plain (List.mem_append_left _ h0)
    have hbehind : IsString (mem.drop (p + elem.length + 1)) next := by
      have hassoc : elem ++ slash :: next = (elem ++ [slash]) ++ next := by simp
      have hdrop := (hassoc ▸ h).of_append
      rw [List.drop_drop, List.length_append, List.length_singleton, ← Nat.add_assoc] at hdrop
      exact hdrop
    obtain ⟨⟨rest, hmem⟩, -⟩ := h
    rw [List.append_assoc, List.cons_append] at hmem
    obtain ⟨hchr, hreads⟩ := strchr_some hplain hnot (next ++ 0 :: rest)
    obtain ⟨hcpy, hcpyReads⟩ := strncpy_eq hplain (slash :: (next ++ 0 :: rest))
    have hlen : (elem ++ slash :: next).length = elem.length + 1 + next.length := by
      rw [List.length_append, List.length_cons]
      omega
    refine ⟨List.range' p (elem.length + 1) ++ List.range' p elem.length, p + elem.length + 1, ?_,
      fun i hi => ?_, by rw [heq]; exact hplain, fun next' hnext => ?_⟩
    · rw [nextElement, hmem, hchr, hreads, heq]
      dsimp only [Option.bind_eq_bind, Option.bind_some, Option.pure_def, Option.map_some]
      rw [hcpy, hcpyReads]
      rfl
    · rw [List.mem_append, List.mem_range'_1, List.mem_range'_1] at hi
      omega
    · rw [heq] at hnext
      cases hnext
      exact ⟨hbehind, by omega, by omega⟩

namespace Volume

/-- Behind a leading slash. -/
theorem start_string (v : Volume) {mem path : List UInt8} {p : Nat} (dir : Nat)
    (h : IsString (mem.drop p) path) :
    IsString (mem.drop (if mem[p]? = some slash then p + 1 else p)) (v.start path dir).1 ∧
      (if mem[p]? = some slash then p + 1 else p) + (v.start path dir).1.length = p + path.length ∧
      (if mem[p]? = some slash ∨ dir = 0 then v.rootCluster.toNat else dir) =
        (v.start path dir).2 := by
  have hiff := h.getElem_iff (by decide : slash ≠ 0)
  by_cases hlead : path.head? = some slash
  · obtain ⟨t, rfl⟩ : ∃ t, path = slash :: t := by
      cases path with
      | nil => cases hlead
      | cons x t =>
          obtain rfl := Option.some.inj hlead
          exact ⟨t, rfl⟩
    have hdrop := IsString.of_append (a := [slash]) (s := t) h
    rw [List.drop_drop] at hdrop
    rw [start, if_pos hlead, if_pos (hiff.mpr hlead), if_pos (.inl (hiff.mpr hlead))]
    refine ⟨hdrop, ?_, rfl⟩
    dsimp only [List.tail_cons, List.length_cons]
    omega
  · rw [start, if_neg hlead, if_neg (mt hiff.mp hlead)]
    refine ⟨h, rfl, if_congr ?_ rfl rfl⟩
    exact or_iff_right (mt hiff.mp hlead)

theorem start_fst (v : Volume) (path : List UInt8) (dir : Nat) :
    nextPathElement (v.start path dir).1 = firstElement path := by
  rw [start, firstElement]
  split <;> rfl

/-- One call of `FindFile` for a string in memory. -/
theorem walk_succ (v : Volume) {mem path : List UInt8} {p : Nat} (h : IsString (mem.drop p) path)
    (fuel dir : Nat) :
    ∃ here q, (∀ i ∈ here, i ≤ p + path.length) ∧
      (∀ next, (firstElement path).2 = some next →
        IsString (mem.drop q) next ∧ q + next.length = p + path.length ∧
          next.length < path.length) ∧
      v.walk mem (fuel + 1) p dir =
        if (firstElement path).1.length ≤ 12 then
          match v.search (firstElement path).1 (v.start path dir).2 with
          | none => ⟨here, [(firstElement path).1 ++ [0]], none⟩
          | some none => ⟨here, [(firstElement path).1 ++ [0]],
              some (none, (firstElement path).2.isSome)⟩
          | some (some s) =>
              if v.attr s = kDirectory ∧ (firstElement path).2.getD [] ≠ [] then
                ⟨here ++ (v.walk mem fuel q (v.firstCluster s).toNat).reads,
                  ((firstElement path).1 ++ [0]) :: (v.walk mem fuel q (v.firstCluster s).toNat).elems,
                  (v.walk mem fuel q (v.firstCluster s).toNat).found⟩
              else ⟨here, [(firstElement path).1 ++ [0]], some (some s, (firstElement path).2.isSome)⟩
        else ⟨here, [(firstElement path).1 ++ [0]], none⟩ := by
  obtain ⟨hstr, hlen, hdir⟩ := v.start_string dir h
  obtain ⟨reads, q, helem, hreads, hplain, hnext⟩ := nextElement_eq hstr
  have hle : p ≤ if mem[p]? = some slash then p + 1 else p := by split <;> omega
  rw [v.start_fst] at helem hplain hnext
  obtain ⟨⟨elem, next⟩, he⟩ : ∃ r, firstElement path = r := ⟨_, rfl⟩
  rw [he] at helem hplain hnext ⊢
  dsimp only at helem hplain hnext ⊢
  have htake : (elem ++ [0]).takeWhile (· ≠ 0) = elem := by
    have hne : ∀ x ∈ elem, decide (x ≠ 0) = true := fun x hx =>
      decide_eq_true fun h0 : x = 0 => hplain (h0 ▸ hx)
    rw [List.takeWhile_append_of_pos hne]
    exact List.append_nil elem
  have hsize : (elem ++ [0]).length ≤ pathElemSize ↔ elem.length ≤ 12 := by
    rw [List.length_append, List.length_singleton, pathElemSize]
    omega
  refine ⟨p :: reads ++ (next.map fun _ => q).toList, q, fun i hi => ?_, fun n hn => ?_, ?_⟩
  · rw [List.cons_append, List.mem_cons, List.mem_append, Option.mem_toList, Option.map_eq_some_iff]
      at hi
    rcases hi with rfl | hi | ⟨n, hn, rfl⟩
    · omega
    · have := hreads i hi
      omega
    · have := hnext n hn
      omega
  · obtain ⟨hstr', hlen', hlt⟩ := hnext n hn
    exact ⟨hstr', by omega, by omega⟩
  · rw [walk]
    dsimp only
    rw [helem, hdir]
    dsimp only
    rw [htake, if_congr hsize rfl rfl]
    by_cases h12 : elem.length ≤ 12
    · rw [if_pos h12, if_pos h12]
      cases v.search elem (v.start path dir).2 with
      | none => rfl
      | some r =>
          cases r with
          | none => rw [Option.isSome_map]
          | some s =>
              cases next with
              | none =>
                  dsimp only [Option.map_none, Option.filter_none, Option.getD_none]
                  rw [if_neg fun hn => hn.2 rfl]
                  rfl
              | some n =>
                  have hzero := (hnext n rfl).1.getElem_zero
                  dsimp only [Option.map_some, Option.filter_some, Option.getD_some]
                  by_cases hgo : v.attr s = kDirectory ∧ n ≠ []
                  · rw [if_pos hgo]
                    have hgo' : v.attr s = kDirectory ∧ mem[q]? ≠ some 0 := hgo.imp_right hzero.not.mpr
                    rw [if_pos (decide_eq_true hgo')]
                  · rw [if_neg hgo]
                    have hgo' : ¬(v.attr s = kDirectory ∧ mem[q]? ≠ some 0) := fun hg =>
                      hgo (hg.imp_right hzero.not.mp)
                    rw [if_neg (by rw [decide_eq_true_eq]; exact hgo')]
                    rfl
    · rw [if_neg h12, if_neg h12]

/-! ## Whole walks -/

/-- In memory `FindFile` finds what it finds on lists. -/
theorem walk_found (v : Volume) {mem path : List UInt8} {p : Nat} (h : IsString (mem.drop p) path)
    (fuel dir : Nat) : (v.walk mem fuel p dir).found = v.findFile fuel path dir := by
  induction fuel generalizing path p dir with
  | zero => rfl
  | succ fuel ih =>
      obtain ⟨here, q, -, hnext, hwalk⟩ := v.walk_succ h fuel dir
      rw [hwalk, findFile]
      dsimp only
      rw [v.start_fst]
      by_cases h12 : (firstElement path).1.length ≤ 12
      · rw [if_pos h12]
        simp only [guard, if_pos h12, Option.bind_eq_bind, Option.pure_def, Option.bind_some]
        cases v.search (firstElement path).1 (v.start path dir).2 with
        | none => rfl
        | some r =>
            cases r with
            | none => rfl
            | some s =>
                dsimp only [Option.bind_some]
                by_cases hgo : v.attr s = kDirectory ∧ (firstElement path).2.getD [] ≠ []
                · obtain ⟨n, hn⟩ : ∃ n, (firstElement path).2 = some n :=
                    Option.ne_none_iff_exists'.mp fun hn => hgo.2 (by rw [hn]; rfl)
                  rw [if_pos hgo, if_pos hgo, hn, Option.getD_some]
                  exact ih (hnext n hn).1 _
                · rw [if_neg hgo, if_neg hgo]
      · rw [if_neg h12]
        simp only [guard, if_neg h12]
        rfl

/-- `FindFile` for a path at the start of memory. -/
def walkPath (v : Volume) (mem : List UInt8) (dir : Nat) : Walk := v.walk mem mem.length 0 dir

/-- The calls that a call of `FindFile` leads to: itself, and where the first element of the path
names a directory and more follows, those of the call for the rest. -/
inductive Calls (v : Volume) : List UInt8 → Nat → List UInt8 → Nat → Prop
  | here (path : List UInt8) (dir : Nat) : Calls v path dir path dir
  | down {path path' : List UInt8} {dir dir' : Nat} {s : Slot}
      (hs : v.search (firstElement path).1 (v.start path dir).2 = some (some s))
      (hattr : v.attr s = kDirectory) (hnext : (firstElement path).2.getD [] ≠ [])
      (hrest : Calls v ((firstElement path).2.getD []) (v.firstCluster s).toNat path' dir') :
      Calls v path dir path' dir'

/-- Every element that the walk comes to has at most twelve characters. -/
def ElementsFit (v : Volume) (path : List UInt8) (dir : Nat) : Prop :=
  ∀ path' dir', v.Calls path dir path' dir' → (firstElement path').1.length ≤ 12

theorem elementsFit_iff (v : Volume) {path : List UInt8} {dir : Nat} :
    v.ElementsFit path dir ↔ (firstElement path).1.length ≤ 12 ∧
      ∀ s, v.search (firstElement path).1 (v.start path dir).2 = some (some s) →
        v.attr s = kDirectory → (firstElement path).2.getD [] ≠ [] →
          v.ElementsFit ((firstElement path).2.getD []) (v.firstCluster s).toNat := by
  constructor
  · intro h
    exact ⟨h _ _ (.here path dir), fun s hs hattr hnext path' dir' hc =>
      h path' dir' (.down hs hattr hnext hc)⟩
  · rintro ⟨h12, hrest⟩ path' dir' hc
    cases hc with
    | here => exact h12
    | down hs hattr hnext hc => exact hrest _ hs hattr hnext path' dir' hc

/-- The directories of a tree: their chains are acyclic, and what `FindFile` may take for the
entry of a directory leads to one of them, or with cluster 0 to the root. -/
structure Walkable (v : Volume) (dirs : List Nat) : Prop where
  root : v.rootCluster.toNat ∈ dirs
  chain : ∀ d ∈ dirs, ∃ l, v.fat.IsChain d l
  down : ∀ d ∈ dirs, ∀ l, v.fat.IsChain d l → ∀ A s B, v.slots l = A ++ s :: B →
    (∀ t ∈ A, v.byte t 0 ≠ 0) → v.byte s 0 ≠ 0 → v.byte s 0 ≠ dot → v.attr s = kDirectory →
      (v.firstCluster s).toNat = 0 ∨ (v.firstCluster s).toNat ∈ dirs

section
variable {v : Volume} {dirs : List Nat}

theorem Walkable.start (h : v.Walkable dirs) {dir : Nat} (hdir : dir = 0 ∨ dir ∈ dirs)
    (path : List UInt8) : (v.start path dir).2 ∈ dirs := by
  rw [Volume.start]
  split
  · exact h.root
  · dsimp only
    split
    · exact h.root
    · exact hdir.resolve_left ‹_›

/-- The search in a directory comes to an end, and leads to another one. -/
theorem Walkable.search (h : v.Walkable dirs) {dir : Nat} (hdir : dir ∈ dirs) (elem : List UInt8) :
    ∃ r, v.search elem dir = some r ∧ ∀ s, r = some s → v.attr s = kDirectory →
      (v.firstCluster s).toNat = 0 ∨ (v.firstCluster s).toNat ∈ dirs := by
  obtain ⟨l, hl⟩ := h.chain dir hdir
  refine ⟨_, search_eq hl elem, fun s hs hattr => ?_⟩
  obtain ⟨-, h0, heq, A, B, hsplit, hA⟩ := lookup_some hs
  refine h.down dir hdir l hl A s B hsplit hA h0 (fun hdot => ?_) hattr
  rw [nameIsEqual, decide_eq_true_eq] at heq
  rw [elevenOf_inj.mp heq 0 (by decide)] at hdot
  exact name83_ne_dot elem 0 hdot

/-- **Walking a path in memory.** -/
theorem walk_safe (h : v.Walkable dirs) {mem path : List UInt8} {p fuel dir : Nat}
    (hdir : dir = 0 ∨ dir ∈ dirs) (hpath : IsString (mem.drop p) path) (hfuel : path.length < fuel) :
    (v.walk mem fuel p dir).Safe (p + path.length) ↔ v.ElementsFit path dir := by
  induction fuel generalizing path p dir with
  | zero => omega
  | succ fuel ih =>
      obtain ⟨here, q, hhere, hnext, hwalk⟩ := v.walk_succ hpath fuel dir
      obtain ⟨r, hsearch, hdown⟩ := h.search (h.start hdir path) (firstElement path).1
      rw [hwalk, elementsFit_iff, hsearch]
      by_cases h12 : (firstElement path).1.length ≤ 12
      · rw [if_pos h12, and_iff_right h12]
        cases r with
        | none =>
            exact iff_of_true (Walk.safe_leaf hhere h12) fun s hs => by cases hs
        | some s =>
            dsimp only
            by_cases hgo : v.attr s = kDirectory ∧ (firstElement path).2.getD [] ≠ []
            · obtain ⟨n, hn⟩ : ∃ n, (firstElement path).2 = some n :=
                Option.ne_none_iff_exists'.mp fun hn => hgo.2 (by rw [hn]; rfl)
              obtain ⟨hstr, hlen, hlt⟩ := hnext n hn
              have hrest := ih (hdown s rfl hgo.1) hstr (by omega)
              rw [hlen] at hrest
              rw [if_pos hgo, Walk.safe_cons hhere h12, hrest, hn, Option.getD_some]
              constructor
              · intro hfit s' hs' _ _
                cases hs'
                exact hfit
              · intro hfit
                exact hfit s rfl hgo.1 (by rw [hn] at hgo; exact hgo.2)
            · rw [if_neg hgo]
              refine iff_of_true (Walk.safe_leaf hhere h12) fun s' hs' hattr hne => ?_
              cases hs'
              exact absurd ⟨hattr, hne⟩ hgo
      · rw [if_neg h12]
        refine iff_of_false (fun hsafe => h12 ?_) fun hfit => h12 hfit.1
        have hlen := hsafe.elems _ (List.mem_singleton_self _)
        rw [List.length_append] at hlen
        exact Nat.le_of_succ_le_succ hlen

end

end Volume

/-- **Path walking** is safe exactly when no element that it comes to is too long. -/
theorem find_safe_iff {v : Volume} {dirs : List Nat} (h : v.Walkable dirs) {dir : Nat}
    (hdir : dir = 0 ∨ dir ∈ dirs) {path : List UInt8} (hpath : 0 ∉ path) (rest : List UInt8) :
    (v.walkPath (path ++ 0 :: rest) dir).Safe path.length ↔ v.ElementsFit path dir := by
  have hlen : path.length < (path ++ 0 :: rest).length := by
    rw [List.length_append, List.length_cons]
    omega
  have hsafe := Volume.walk_safe h hdir ⟨⟨rest, List.drop_zero⟩, hpath⟩ hlen
  rwa [Nat.zero_add] at hsafe

/-- A directory `A` in the root directory, in cluster 3. -/
def subdir : Volume :=
  (((State.small.vol.withFat (State.small.vol.fat.set 3 kEndOfClusterchain)).created ⟨2, 0⟩
    [0x41]).put 2 11 1 fun _ => kDirectory).setFirstCluster ⟨2, 0⟩ 3

theorem subdir_chain : ∀ d ∈ [2, 3], subdir.fat.IsChain d [d] := by
  intro d hd
  rcases List.mem_pair.mp hd with rfl | rfl
  · exact ⟨.last (by decide), fun c hc => List.mem_singleton.mp hc ▸
      ⟨by decide, by decide, by decide⟩⟩
  · exact ⟨.last (by decide), fun c hc => List.mem_singleton.mp hc ▸
      ⟨by decide, by decide, by decide⟩⟩

theorem subdir_walkable : subdir.Walkable [2, 3] := by
  have hfirst : ∀ d ∈ [2, 3], ∀ s ∈ subdir.slots [d], subdir.byte s 0 ≠ 0 →
      (subdir.firstCluster s).toNat ∈ [2, 3] := by decide +kernel
  refine ⟨by decide, fun d hd => ⟨_, subdir_chain d hd⟩, fun d hd l hl A s B hsplit _ h0 _ _ => .inr ?_⟩
  obtain rfl := hl.unique (subdir_chain d hd)
  exact hfirst d hd s (hsplit ▸ List.mem_append_right A List.mem_cons_self) h0

/-- `/a/b.txt`. -/
theorem find_safe_sample :
    (subdir.walkPath ([slash, 0x61, slash, 0x62, dot, 0x74, 0x78, 0x74] ++ 0 :: [7]) 0).Safe 8 :=
  (find_safe_iff subdir_walkable (.inl rfl) (by decide) [7]).mpr <|
    subdir.elementsFit_iff.mpr ⟨by decide, fun _ _ _ _ =>
      subdir.elementsFit_iff.mpr ⟨by decide, fun _ _ _ hnext => absurd rfl hnext⟩⟩

/-- An element of thirteen characters, in the root directory and below `A`. -/
theorem find_overflow :
    ¬(subdir.walkPath (List.replicate 13 0x61 ++ 0 :: []) 0).Safe 13 ∧
      ¬(subdir.walkPath (0x61 :: slash :: List.replicate 13 0x61 ++ 0 :: []) 0).Safe 15 :=
  ⟨fun h => absurd h.elems (by decide +kernel), fun h => absurd h.elems (by decide +kernel)⟩

end Laplus.Fat
