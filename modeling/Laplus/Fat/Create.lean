/-
# `Laplus.Fat.Create` — what `CreateFile` makes

`CreateFile` writes the name and the size of the slot that `AllocateEntry`
gives it.  The attribute and the first cluster stay as they are, whatever was
deleted there, and the parent may be any entry that `FindFile` returns.

`proper_iff` says when the outcome is a new, empty and regular file in a
directory, and the other entries are found as before.
-/
import Laplus.Fat.Directory

namespace Laplus.Fat

namespace Volume

variable {v v' : Volume} {dirs : List Nat} {depth : Nat → Nat} {dir : Nat} {name : List UInt8}
  {s : Slot} {A B : List Slot}

/-! ## What is asked of `CreateFile` -/

/-- `CreateFile` of the path goes to the directory `dir` with the name `name`: the root, or
what the parent path names. -/
def Parent (v : Volume) (path : List UInt8) (dir : Nat) (name : List UInt8) : Prop :=
  match strrchr slash path with
  | none => dir = v.rootCluster.toNat ∧ name = path
  | some ([], filename) => dir = v.rootCluster.toNat ∧ name = filename
  | some (parent, filename) => name = filename ∧ ∃ e b, v.find parent 0 = some (some e, b) ∧
      v.attr e = kDirectory ∧ dir = (v.firstCluster e).toNat

/-- The entry is a new, empty and regular file in a directory; writing to it changes
nothing that was in use, and the other entries stay and are found as before. -/
structure Proper (v v' : Volume) (dirs : List Nat) (path : List UInt8) (s : Slot) : Prop where
  parent : ∃ dir name, v.Parent path dir name
  size : v'.fileSize s = 0
  cluster : v'.firstCluster s = 0
  attr : v'.attr s ≠ kDirectory ∧ v'.attr s ≠ kLongName
  writes : ∀ bufs v'' fd ns, v'.writeAll (.new s) bufs = some (v'', fd, ns) →
    ∀ c, v'.fat.Used c → v''.fat.entry c = v'.fat.entry c ∧
      ∀ o, ¬s.Written c o → v''.data c o = v'.data c o
  entries : ∀ d ∈ dirs, ∀ l, v.fat.IsChain d l → ∀ t ∈ v.slots l, t ≠ s →
    ∀ k < 32, v'.byte t k = v.byte t k
  reachable : ∀ path, Plain path → ∀ d, d = 0 ∨ d ∈ dirs → ∀ t b,
    v.find path d = some (some t, b) → v'.find path d = some (some t, b)

/-- A path element. -/
structure Element (elem : List UInt8) : Prop where
  plain : Plain elem
  slash_not_mem : slash ∉ elem
  length_le : elem.length ≤ 12

/-- The vacant slot that `AllocateEntry` takes, if the directory has one, names no cluster,
is no directory and no long name, and no entry that is found behind it has the name that
`SetFileName` writes. -/
def Fresh (v : Volume) (dir : Nat) (name : List UInt8) : Prop :=
  ∀ A s B, v.Splits dir A s B →
    v.firstCluster s = 0 ∧ v.attr s ≠ kDirectory ∧ v.attr s ≠ kLongName ∧
      ∀ elem, Element elem → ∀ t ∈ B, v.search elem dir = some (some t) →
        v.name t ≠ elevenOf (encodeName name)

/-! ## Paths in general -/

theorem nextPathElement_eq (path : List UInt8) : ∃ elem next, nextPathElement path = (elem, next) ∧
    slash ∉ elem ∧ path = elem ++ (next.map (slash :: ·)).getD [] := by
  by_cases h : slash ∈ path
  · obtain ⟨elem, next, rfl, he⟩ := List.eq_append_cons_of_mem h
    exact ⟨elem, some next, nextPathElement_cons he next, he, rfl⟩
  · exact ⟨path, none, nextPathElement_last h, h, (List.append_nil path).symm⟩

theorem start_plain {path : List UInt8} (h : Plain path) (v : Volume) (d : Nat) :
    Plain (v.start path d).1 := by
  rw [start]
  split
  next => exact fun c hc => h c (List.mem_of_mem_tail hc)
  next => exact h

theorem WellFormed.start (hw : v.WellFormed dirs depth) (path : List UInt8) {d : Nat}
    (hd : d = 0 ∨ d ∈ dirs) : (v.start path d).2 ∈ dirs := by
  rw [Volume.start]
  split
  next => exact hw.root
  next =>
    split
    next => exact hw.root
    next h0 => exact hd.resolve_left h0

/-- One call of `FindFile` that finds an entry. -/
theorem findFile_succ {fuel : Nat} {path : List UInt8} {d : Nat} {t : Slot} {b : Bool} :
    v.findFile (fuel + 1) path d = some (some t, b) ↔
      ∃ elem next s, nextPathElement (v.start path d).1 = (elem, next) ∧ elem.length ≤ 12 ∧
        v.search elem (v.start path d).2 = some (some s) ∧
        if v.attr s = kDirectory ∧ next.getD [] ≠ [] then
          v.findFile fuel (next.getD []) (v.firstCluster s).toNat = some (some t, b)
        else s = t ∧ next.isSome = b := by
  obtain ⟨elem, next, hnext, -⟩ := nextPathElement_eq (v.start path d).1
  simp only [findFile, hnext, Option.bind_eq_bind, Option.pure_def, Option.bind_eq_some_iff,
    Option.guard_eq_some', exists_const, Prod.mk.injEq]
  constructor
  · rintro ⟨hlen, r, hsearch, h⟩
    cases r with
    | none => cases h
    | some s =>
        refine ⟨elem, next, s, ⟨rfl, rfl⟩, hlen, hsearch, ?_⟩
        simp only at h
        split at h
        next hc => rwa [if_pos hc]
        next hc =>
          rw [if_neg hc]
          cases h
          exact ⟨rfl, rfl⟩
  · rintro ⟨_, _, s, ⟨rfl, rfl⟩, hlen, hsearch, h⟩
    refine ⟨hlen, some s, hsearch, ?_⟩
    split at h
    next hc => simpa only [if_pos hc] using h
    next hc =>
      obtain ⟨rfl, rfl⟩ := h
      simp only [if_neg hc]

/-- The elements of a path are elements, and what is left is a path. -/
theorem nextPathElement_plain {path elem : List UInt8} {next : Option (List UInt8)}
    (hp : Plain path) (h : nextPathElement path = (elem, next)) (hlen : elem.length ≤ 12) :
    Element elem ∧ Plain (next.getD []) := by
  obtain ⟨elem', next', h', hslash, heq⟩ := nextPathElement_eq path
  obtain ⟨rfl, rfl⟩ : elem' = elem ∧ next' = next := by simpa [h'] using h
  refine ⟨⟨fun c hc => hp c ?_, hslash, hlen⟩, fun c hc => hp c ?_⟩
  · rw [heq]
    exact List.mem_append_left _ hc
  · rw [heq]
    cases next' with
    | none => cases hc
    | some n => exact List.mem_append_right _ (List.mem_cons_of_mem slash hc)

/-- What `FindFile` finds leads to a directory, if it is one. -/
theorem WellFormed.findFile_down (hw : v.WellFormed dirs depth) {fuel : Nat} {path : List UInt8}
    (hp : Plain path) {d : Nat} (hd : d = 0 ∨ d ∈ dirs) {e : Slot} {b : Bool}
    (h : v.findFile fuel path d = some (some e, b)) (he : v.attr e = kDirectory) :
    (v.firstCluster e).toNat ∈ dirs := by
  induction fuel generalizing path d with
  | zero => cases h
  | succ fuel ih =>
      obtain ⟨elem, next, s, hnext, hlen, hsearch, h⟩ := findFile_succ.mp h
      obtain ⟨helem, hrest⟩ := nextPathElement_plain (start_plain hp v d) hnext hlen
      have hdown := hw.down (hw.start path hd) helem.plain hsearch
      split at h
      next hc => exact ih hrest (.inr (hdown hc.1).1) h
      next =>
        obtain ⟨rfl, -⟩ := h
        exact (hdown he).1

/-! ## Blanks behind a path -/

/-- What stands behind the last slash of a path. -/
def lastElement (path : List UInt8) : List UInt8 :=
  match strrchr slash path with
  | none => path
  | some (_, filename) => filename

theorem lastElement_name {path : List UInt8} (h : slash ∉ path) : lastElement path = path := by
  rw [lastElement, strrchr_none.mpr h]

theorem lastElement_cons (elem next : List UInt8) :
    lastElement (elem ++ slash :: next) = lastElement next := by
  by_cases h : slash ∈ next
  · cases hcut : strrchr slash next with
    | none => exact absurd h (strrchr_none.mp hcut)
    | some r =>
        obtain ⟨rfl, hlast⟩ := strrchr_some hcut
        rw [lastElement, lastElement, hcut, ← List.cons_append, ← List.append_assoc,
          strrchr_append _ hlast]
  · rw [lastElement, strrchr_append elem h, lastElement_name h]

theorem slash_not_mem_blanks (n : Nat) : slash ∉ List.replicate n blank := fun hm =>
  absurd (List.eq_of_mem_replicate hm) (by decide)

theorem lastElement_blanks (path : List UInt8) (n : Nat) :
    lastElement (path ++ List.replicate n blank) = lastElement path ++ List.replicate n blank := by
  by_cases h : slash ∈ path
  · cases hcut : strrchr slash path with
    | none => exact absurd h (strrchr_none.mp hcut)
    | some r =>
        obtain ⟨rfl, hlast⟩ := strrchr_some hcut
        have hend : slash ∉ r.2 ++ List.replicate n blank := fun hm =>
          (List.mem_append.mp hm).elim hlast (slash_not_mem_blanks n)
        rw [List.append_assoc, List.cons_append, lastElement, lastElement, hcut,
          strrchr_append _ hend]
  · rw [lastElement_name h, lastElement_name fun hm =>
      (List.mem_append.mp hm).elim h (slash_not_mem_blanks n)]

/-- A name that the 8.3 comparison reads as it was meant: one base and one extension. -/
structure Name83 (name : List UInt8) : Prop where
  ne_nil : name ≠ []
  dots : name.count dot ≤ 1
  fits : Fits83 name

/-- Blanks behind the name of a new file. -/
theorem createFile_blanks {path : List UInt8} (h : lastElement path ≠ []) (n : Nat) :
    v.createFile (path ++ List.replicate n blank) = v.createFile path := by
  have hin : ∀ dir name, v.createIn dir (name ++ List.replicate n blank) = v.createIn dir name :=
    fun dir name => by simp only [createIn, setFileName, encodeName_blanks]
  cases hcut : strrchr slash path with
  | none =>
      have hno := strrchr_none.mp hcut
      rw [createFile_name hno, createFile_name fun hm =>
        (List.mem_append.mp hm).elim hno (slash_not_mem_blanks n), hin]
  | some r =>
      obtain ⟨rfl, hlast⟩ := strrchr_some hcut
      have hend : slash ∉ r.2 ++ List.replicate n blank := fun hm =>
        (List.mem_append.mp hm).elim hlast (slash_not_mem_blanks n)
      rw [lastElement, hcut] at h
      simp only [createFile, List.append_assoc, List.cons_append, strrchr_append _ hend,
        strrchr_append _ hlast, h, List.append_eq_nil_iff, false_and, if_false, hin]

/-- Blanks behind a path, as far as `FindFile` has room for them. -/
theorem findFile_blanks {n fuel : Nat} (fuel' : Nat) {path : List UInt8} {d : Nat}
    (hname : Name83 (lastElement path))
    (hlen : (lastElement path ++ List.replicate n blank).length ≤ 12) (hfuel : path.length < fuel)
    (hfuel' : path.length < fuel') :
    v.findFile fuel' (path ++ List.replicate n blank) d = v.findFile fuel path d := by
  induction fuel generalizing fuel' path d with
  | zero => cases hfuel
  | succ fuel ih =>
      cases fuel' with
      | zero => cases hfuel'
      | succ fuel' =>
          have hne : path ≠ [] := fun he => hname.ne_nil (by rw [he]; rfl)
          -- behind a leading slash
          have hstart : ∃ p d', v.start path d = (p, d') ∧ p.length ≤ path.length ∧
              lastElement p = lastElement path ∧
              v.start (path ++ List.replicate n blank) d = (p ++ List.replicate n blank, d') := by
            obtain ⟨c, path, rfl⟩ := List.exists_cons_of_ne_nil hne
            by_cases hc : c = slash
            · subst hc
              exact ⟨path, _, if_pos rfl, Nat.le_succ _, (lastElement_cons [] path).symm, if_pos rfl⟩
            · have hhead : ∀ tail, (c :: tail).head? ≠ some slash := fun tail he =>
                hc (Option.some.inj he)
              exact ⟨c :: path, _, if_neg (hhead _), Nat.le_refl _, rfl, if_neg (hhead _)⟩
          obtain ⟨p, d', hs, hp, hlast, hs'⟩ := hstart
          rw [← hlast] at hname hlen
          rw [findFile, findFile, hs, hs']
          by_cases hslash : slash ∈ p
          · obtain ⟨elem, next, rfl, helem⟩ := List.eq_append_cons_of_mem hslash
            rw [lastElement_cons] at hname hlen
            have hnext : next ≠ [] := fun he => hname.ne_nil (by rw [he]; rfl)
            rw [List.length_append, List.length_cons] at hp
            simp only [List.append_assoc, List.cons_append, nextPathElement_cons helem,
              Option.getD_some, ih fuel' hname hlen (by omega) (by omega), ne_eq,
              List.append_eq_nil_iff, hnext, false_and, not_false_eq_true, and_true,
              Option.isSome_some]
          · rw [lastElement_name hslash] at hname hlen
            have hslash' : slash ∉ p ++ List.replicate n blank := fun hm =>
              (List.mem_append.mp hm).elim hslash (slash_not_mem_blanks n)
            have hlen' : p.length ≤ 12 := by
              rw [List.length_append] at hlen
              omega
            have hequal : ∀ s, v.nameIsEqual s (p ++ List.replicate n blank) = v.nameIsEqual s p :=
              fun s => by rw [nameIsEqual, name83_blanks hname.dots hname.fits, nameIsEqual]
            have hsearch : v.search (p ++ List.replicate n blank) d' = v.search p d' := by
              simp only [search, hequal]
            simp only [nextPathElement_last hslash, nextPathElement_last hslash', hlen, hlen',
              hsearch, Option.getD_none, ne_eq, not_true_eq_false, and_false, if_false]

theorem find_blanks {n : Nat} {path : List UInt8} (hname : Name83 (lastElement path))
    (hlen : (lastElement path ++ List.replicate n blank).length ≤ 12) :
    v.find (path ++ List.replicate n blank) 0 = v.find path 0 :=
  findFile_blanks _ hname hlen (Nat.lt_succ_self _)
    (Nat.lt_succ_of_le (by rw [List.length_append]; exact Nat.le_add_right _ _))

/-- If every search that finds an entry finds it again, so does `FindFile`. -/
theorem WellFormed.findFile_kept (hw : v.WellFormed dirs depth)
    (hroot : v'.rootCluster = v.rootCluster)
    (hkeep : ∀ d ∈ dirs, ∀ elem, Element elem → ∀ t, v.search elem d = some (some t) →
      v'.search elem d = some (some t) ∧ v'.attr t = v.attr t ∧
        v'.firstCluster t = v.firstCluster t)
    {fuel : Nat} {path : List UInt8} (hp : Plain path) {d : Nat} (hd : d = 0 ∨ d ∈ dirs) {t : Slot}
    {b : Bool} (h : v.findFile fuel path d = some (some t, b)) :
    v'.findFile fuel path d = some (some t, b) := by
  induction fuel generalizing path d with
  | zero => cases h
  | succ fuel ih =>
      obtain ⟨elem, next, s, hnext, hlen, hsearch, h⟩ := findFile_succ.mp h
      obtain ⟨helem, hrest⟩ := nextPathElement_plain (start_plain hp v d) hnext hlen
      have hmem := hw.start path hd
      obtain ⟨hsearch', hattr, hfirst⟩ := hkeep _ hmem elem helem s hsearch
      have hstart : v'.start path d = v.start path d := by
        rw [Volume.start, Volume.start, hroot]
      refine findFile_succ.mpr ⟨elem, next, s, ?_, hlen, ?_, ?_⟩
      · rw [hstart, hnext]
      · rw [hstart, hsearch']
      · rw [hattr, hfirst]
        split at h
        next hc =>
          rw [if_pos hc]
          exact ih hrest (.inr (hw.down hmem helem.plain hsearch hc.1).1) h
        next hc => rwa [if_neg hc]

/-! ## What `CreateFile` makes -/

/-- `CreateFile` in the parent directory. -/
theorem createFile_parent {path : List UInt8} (hp : v.Parent path dir name)
    (h : v.createFile path = some (v', .ok s)) : v.createIn dir name = some (v', .ok s) := by
  rw [Parent] at hp
  rw [createFile] at h
  cases hcut : strrchr slash path with
  | none =>
      rw [hcut] at hp h
      obtain ⟨rfl, rfl⟩ := hp
      exact h
  | some r =>
      obtain ⟨parent, filename⟩ := r
      rw [hcut] at hp h
      simp only at hp h
      split at h
      next => cases h
      next =>
        cases parent with
        | nil =>
            obtain ⟨rfl, rfl⟩ := hp
            simpa using h
        | cons c cs =>
            obtain ⟨rfl, e, b, hfind, -, rfl⟩ := hp
            simpa [hfind] using h

theorem Parent.plain {path : List UInt8} (hp : v.Parent path dir name) (h : Plain path) :
    Plain name := by
  rw [Parent] at hp
  cases hcut : strrchr slash path with
  | none =>
      rw [hcut] at hp
      exact hp.2 ▸ h
  | some r =>
      obtain ⟨parent, filename⟩ := r
      obtain ⟨rfl, -⟩ := strrchr_some hcut
      have hname : name = filename := by
        rw [hcut] at hp
        cases parent with
        | nil => exact hp.2
        | cons c cs => exact hp.1
      exact fun c hc => h c (List.mem_append_right _ (List.mem_cons_of_mem slash (hname ▸ hc)))

theorem Parent.mem (hw : v.WellFormed dirs depth) {path : List UInt8} (h : Plain path)
    (hp : v.Parent path dir name) : dir ∈ dirs := by
  rw [Parent] at hp
  cases hcut : strrchr slash path with
  | none =>
      rw [hcut] at hp
      exact hp.1 ▸ hw.root
  | some r =>
      obtain ⟨parent, filename⟩ := r
      obtain ⟨heq, -⟩ := strrchr_some hcut
      rw [hcut] at hp
      cases parent with
      | nil => exact hp.1 ▸ hw.root
      | cons c cs =>
          obtain ⟨-, e, b, hfind, hattr, rfl⟩ := hp
          have hplain : Plain (c :: cs) := fun x hx => h x (heq ▸ List.mem_append_left _ hx)
          exact hw.findFile_down hplain (.inl rfl) hfind hattr

/-- `AllocateEntry` takes the first vacant slot. -/
theorem splits_unique {l : List Nat} (hl : v.fat.IsChain dir l) (hs : v.Splits dir A s B) :
    (v.slots l).find? v.vacant = some s ∧ v.slots l = A ++ s :: B := by
  obtain ⟨m, hm, hslots, hA, hv⟩ := hs
  obtain rfl := hl.unique hm
  refine ⟨List.find?_eq_some_iff_append.mpr ⟨hv, A, B, hslots, fun t ht => ?_⟩, hslots⟩
  simp [hA t ht]

/-- In a vacant slot the entry keeps the attribute and the first cluster. -/
theorem createIn_splits {l : List Nat} (hl : v.fat.IsChain dir l) (hs : v.Splits dir A s B)
    {t : Slot} (h : v.createIn dir name = some (v', .ok t)) : t = s ∧ v' = v.created s name := by
  obtain ⟨w, hw, rfl⟩ := v.createIn_eq.mp h
  rw [allocateEntry_vacant hl (splits_unique hl hs).1] at hw
  cases hw
  exact ⟨rfl, rfl⟩

/-- A new cluster gives an entry without attributes and without a cluster. -/
theorem grown_entry (he : 0 < v.entries) (last z : Nat) (name : List UInt8) :
    ((v.grown last z).created ⟨z, 0⟩ name).firstCluster ⟨z, 0⟩ = 0 ∧
      ((v.grown last z).created ⟨z, 0⟩ name).attr ⟨z, 0⟩ = 0 := by
  rw [created_firstCluster, created_attr, firstCluster, attr]
  have h0 : ∀ k < 32, (v.grown last z).byte ⟨z, 0⟩ k = 0 := fun k hk => grown_zero last z he hk
  rw [h0 26 (by decide), h0 27 (by decide), h0 20 (by decide), h0 21 (by decide),
    h0 11 (by decide)]
  exact ⟨by decide, rfl⟩

/-- An entry that is found behind the new one is found again, unless it has its name. -/
theorem Inserts.search (hi : v.Inserts v' dirs dir name s A B)
    (hbehind : ∀ elem, Element elem → ∀ t ∈ B, v.search elem dir = some (some t) →
      v.name t ≠ elevenOf (encodeName name))
    {d : Nat} (hd : d ∈ dirs) {elem : List UInt8} (he : Element elem) {t : Slot}
    (ht : v.search elem d = some (some t)) : v'.search elem d = some (some t) := by
  by_cases hne : d = dir
  · subst hne
    have hbefore := ht
    rw [hi.before elem he.plain] at hbefore
    rw [hi.after elem]
    cases hA : A.find? (v.nameIsEqual · elem) with
    | some u =>
        rw [hA] at hbefore
        exact hbefore
    | none =>
        rw [hA, Option.none_or] at hbefore
        split at hbefore
        next => cases hbefore
        next =>
          have hlook := Option.some.inj hbefore
          obtain ⟨hB, -, heq, -⟩ := lookup_some hlook
          have hname : v.name t = elevenOf (name83 elem) := of_decide_eq_true heq
          have hdiff := hbehind elem he t hB ht
          rw [Option.none_or, if_neg fun h => hdiff (hname.trans h.symm), hlook]
  · rw [hi.other d hd hne, ht]

/-- The entries that are found are found again only if none of them stands behind the new
entry with its name. -/
theorem Inserts.shadow (hi : v.Inserts v' dirs dir name s A B) (hdir : dir ≠ 0)
    (hreach : ∀ path, Plain path → ∀ t b, v.find path dir = some (some t, b) →
      v'.find path dir = some (some t, b))
    (hnd : ∀ t ∈ B, t ∉ A) {elem : List UInt8} (he : Element elem) {t : Slot} (ht : t ∈ B)
    (hsearch : v.search elem dir = some (some t)) : v.name t ≠ elevenOf (encodeName name) := by
  intro hname
  have hstart : ∀ w : Volume, w.start elem dir = (elem, dir) := fun w => by
    have hhead : elem.head? ≠ some slash := fun h => he.slash_not_mem (List.mem_of_mem_head? h)
    rw [Volume.start, if_neg hhead, if_neg hdir]
  have hfind : ∀ (w : Volume) u, w.find elem dir = some (some u, false) ↔
      w.search elem dir = some (some u) := fun w u => by
    rw [Volume.find, findFile_succ, hstart]
    simp [nextPathElement_last he.slash_not_mem, he.length_le]
  have hafter := (hfind v' t).mp (hreach elem he.plain t false ((hfind v t).mpr hsearch))
  rw [hi.before elem he.plain] at hsearch
  rw [hi.after elem] at hafter
  cases hA : A.find? (v.nameIsEqual · elem) with
  | some u =>
      rw [hA] at hsearch
      cases hsearch
      exact hnd t ht (List.mem_of_find?_eq_some hA)
  | none =>
      rw [hA, Option.none_or] at hsearch hafter
      split at hsearch
      next => cases hsearch
      next =>
        obtain ⟨-, -, heq, -⟩ := lookup_some (Option.some.inj hsearch)
        have heq : v.name t = elevenOf (name83 elem) := of_decide_eq_true heq
        rw [if_pos (hname.symm.trans heq)] at hafter
        cases hafter
        exact hi.behind_ne ht

/-- **`CreateFile` makes a fresh, empty, regular file** exactly when the path's parent is a
directory whose first vacant slot is fresh. -/
theorem proper_iff (hw : v.WellFormed dirs depth) {path : List UInt8} (hpath : Plain path)
    (h : v.createFile path = some (v', .ok s)) :
    v.Proper v' dirs path s ↔ ∃ dir name, v.Parent path dir name ∧ v.Fresh dir name := by
  constructor
  · intro hp
    obtain ⟨dir, name, hparent⟩ := hp.parent
    refine ⟨dir, name, hparent, fun A t B hs => ?_⟩
    have hdir := Parent.mem hw hpath hparent
    obtain ⟨l, hl⟩ := hw.fat.chain dir hdir
    obtain ⟨rfl, rfl⟩ := createIn_splits hl hs (createFile_parent hparent h)
    have hi := inserts_vacant hw.fat hdir (Parent.plain hparent hpath) hs
    have hcluster := hp.cluster
    have hattr := hp.attr
    rw [created_firstCluster] at hcluster
    rw [created_attr] at hattr
    refine ⟨hcluster, hattr.1, hattr.2, fun elem he u hu hsearch => ?_⟩
    refine hi.shadow (hw.ne_zero hdir) (fun q hq => hp.reachable q hq dir (.inr hdir)) ?_ he hu
      hsearch
    have hnd : (A ++ s :: B).Nodup := (splits_unique hl hs).2 ▸ nodup_slots hl.1.nodup
    exact fun x hx hxA => (List.nodup_append.mp hnd).2.2 x hxA x (List.mem_cons_of_mem s hx) rfl
  · rintro ⟨dir, name, hparent, hfresh⟩
    have hdir := Parent.mem hw hpath hparent
    have hname := Parent.plain hparent hpath
    obtain ⟨l, hl⟩ := hw.fat.chain dir hdir
    -- what is left to show, in the slot that was taken
    have hproper : ∀ {A B}, v.Inserts v' dirs dir name s A B → v'.firstCluster s = 0 →
        v'.attr s ≠ kDirectory ∧ v'.attr s ≠ kLongName →
        (∀ elem, Element elem → ∀ t ∈ B, v.search elem dir = some (some t) →
          v.name t ≠ elevenOf (encodeName name)) → v.Proper v' dirs path s := by
      intro A B hi hcluster hattr hbehind
      refine ⟨⟨dir, name, hparent⟩, hi.size, hcluster, hattr,
        fun bufs v'' fd ns hr c hc => writeAll_kept hcluster hr hc, hi.entry,
        fun q hq d hd t b hfind => ?_⟩
      refine hw.findFile_kept hi.root (fun d hd elem he t ht => ?_) hq hd hfind
      exact ⟨hi.search hbehind hd he ht, (hi.found hw hd he.plain ht).2⟩
    rcases createIn_cases hl (createFile_parent hparent h) with
      ⟨A, B, hs, rfl⟩ | ⟨hfull, z, rest, hz, rfl, rfl⟩
    · obtain ⟨hcluster, hdirAttr, hlong, hbehind⟩ := hfresh A s B hs
      refine hproper (inserts_vacant hw.fat hdir hname hs) ?_ ?_ hbehind
      · rw [created_firstCluster, hcluster]
      · rw [created_attr]
        exact ⟨hdirAttr, hlong⟩
    · obtain ⟨hcluster, hattr⟩ := grown_entry hw.entries (l.getLast hl.1.ne_nil) z name
      refine hproper (inserts_full hw.fat hw.entries hdir hname hl hfull hz) hcluster ?_ ?_
      · rw [hattr]
        decide
      · exact fun elem _ t ht => absurd ht List.not_mem_nil

/-- `a` in the root directory of the empty volume. -/
theorem proper_iff_small :
    State.small.vol.Proper (State.small.vol.created ⟨2, 0⟩ [0x61]) [2] [0x61] ⟨2, 0⟩ ↔
      ∃ dir name, State.small.vol.Parent [0x61] dir name ∧ State.small.vol.Fresh dir name :=
  proper_iff small_tree (by decide) (small_create (by decide))

/-- The empty volume with a deleted entry in its root directory that names cluster 3. -/
def deleted : Volume :=
  State.small.vol.put 2 0 32 fun k => if k = 0 then 0xe5 else if k = 26 then 3 else 0

theorem deleted_tree : deleted.WellFormed [2] fun _ => 0 := by
  have hvacant : ∀ s, deleted.vacant s = true := fun s => by
    refine decide_eq_true ?_
    simp only [deleted, byte, put]
    split
    next h =>
      have h0 : s.index = 0 := by omega
      simp [h0]
    next => exact .inl rfl
  refine ⟨State.small_wellFormed, List.mem_singleton_self 2, by decide, fun d _ s hs => ?_⟩
  obtain ⟨l, -, A, B, -, -, hv⟩ := hs
  rw [hvacant] at hv
  cases hv

/-- The new entry has the clusters of the deleted one. -/
theorem not_proper :
    ¬∀ (v : Volume) (dirs : List Nat) (depth : Nat → Nat), v.WellFormed dirs depth →
      ∀ path v' s, Plain path → v.createFile path = some (v', .ok s) →
        v.Proper v' dirs path s := by
  intro hall
  have hcreate : deleted.createFile [0x61] = some (deleted.created ⟨2, 0⟩ [0x61], .ok ⟨2, 0⟩) := by
    have hchain : deleted.fat.IsChain 2 [2] := State.small_chain
    have hfirst : (deleted.slots [2]).find? deleted.vacant = some ⟨2, 0⟩ := by decide +kernel
    rw [createFile_name (by decide)]
    exact createIn_vacant hchain hfirst [0x61]
  have hp := hall _ _ _ deleted_tree [0x61] _ _ (by decide) hcreate
  have hcluster := hp.cluster
  rw [created_firstCluster] at hcluster
  exact absurd hcluster (by decide)

end Volume

end Laplus.Fat
