/-
# `Laplus.Fat.Directory` — `FindFile` and `CreateFile`

`FindFile` walks a path through the directories; the elements are cut at
slashes into an array of thirteen characters.  `CreateFile` looks the parent
up, takes a slot of it and sets the name and the size; the attribute and the
first cluster stay as they stand in the slot.

`found_iff` says when a created file is found again, `proper_iff` when what
is created is a new, empty and regular file.
-/
import Laplus.Fat.File
import Laplus.Fat.Name
import Mathlib.Data.List.Find
import Mathlib.Data.List.TakeWhile

namespace Laplus.Fat

open Lib

/-! ## The source -/

/-- `Attribute::kDirectory`. -/
def kDirectory : UInt8 := 0x10

/-- `Attribute::kLongName`. -/
def kLongName : UInt8 := 0x0f

/-- `NextPathElement`: the element, and what stands behind the slash. -/
def nextPathElement (path : List UInt8) : List UInt8 × Option (List UInt8) :=
  match path.dropWhile (· ≠ slash) with
  | [] => (path, none)
  | _ :: next => (path.takeWhile (· ≠ slash), some next)

/-- The errors of `CreateFile`. -/
inductive Error where
  | kIsDirectory
  | kNoSuchEntry
  | kNoEnoughMemory
deriving DecidableEq

namespace Volume

/-- `NameIsEqual`. -/
def nameIsEqual (v : Volume) (s : Slot) (name : List UInt8) : Bool :=
  v.name s = elevenOf (name83 name)

/-- The loop of `FindFile` over one directory. -/
def search (v : Volume) (elem : List UInt8) (dir : Nat) : Option (Option Slot) :=
  if dir = kEndOfClusterchain.toNat then some none
  else
    match v.scan (fun s => v.byte s 0 = 0 ∨ v.nameIsEqual s elem) v.fat.size dir with
    | none => none
    | some (.inl s) => some (if v.byte s 0 = 0 then none else some s)
    | some (.inr _) => some none

/-- Where `FindFile` starts: behind a leading slash at the root. -/
def start (v : Volume) (path : List UInt8) (dir : Nat) : List UInt8 × Nat :=
  if path.head? = some slash then (path.tail, v.rootCluster.toNat)
  else (path, if dir = 0 then v.rootCluster.toNat else dir)

/-- `FindFile`; every recursion has a shorter path. -/
def findFile (v : Volume) : Nat → List UInt8 → Nat → Option (Option Slot × Bool)
  | 0, _, _ => none
  | fuel + 1, path, dir => do
      let (path, dir) := v.start path dir
      let (elem, next) := nextPathElement path
      guard (elem.length ≤ 12)
      match ← v.search elem dir with
      | none => return (none, next.isSome)
      | some s =>
          if v.attr s = kDirectory ∧ next.getD [] ≠ [] then
            v.findFile fuel (next.getD []) (v.firstCluster s).toNat
          else return (some s, next.isSome)

def find (v : Volume) (path : List UInt8) (dir : Nat) : Option (Option Slot × Bool) :=
  v.findFile (path.length + 1) path dir

/-- `SetFileName`. -/
def setFileName (v : Volume) (s : Slot) (name : List UInt8) : Volume :=
  v.put s.cluster (32 * s.index) 11 (encodeName name)

/-- `CreateFile` in the directory that it has found. -/
def createIn (v : Volume) (dir : Nat) (filename : List UInt8) :
    Option (Volume × Except Error Slot) := do
  let (v, slot) ← v.allocateEntry dir
  match slot with
  | none => return (v, .error .kNoEnoughMemory)
  | some s => return ((v.setFileName s filename).setFileSize s 0, .ok s)

/-- `CreateFile`. -/
def createFile (v : Volume) (path : List UInt8) : Option (Volume × Except Error Slot) :=
  match strrchr slash path with
  | none => v.createIn v.rootCluster.toNat path
  | some (parent, filename) =>
      if filename = [] then some (v, .error .kIsDirectory)
      else if parent = [] then v.createIn v.rootCluster.toNat filename
      else do
        match (← v.find parent 0).1 with
        | none => return (v, .error .kNoSuchEntry)
        | some s => v.createIn (v.firstCluster s).toNat filename

end Volume

/-! ## Paths -/

/-- A component of a path. -/
structure Component where
  chars : List UInt8
  ne_nil : chars ≠ []
  plain : Plain chars
  slash_not_mem : slash ∉ chars
  dots : chars.count dot ≤ 1
  length_le : chars.length ≤ 12

/-- The components with slashes between them. -/
def joinPath : List Component → List UInt8
  | [] => []
  | [c] => c.chars
  | c :: cs => c.chars ++ slash :: joinPath cs

/-- A path, with a leading slash or without. -/
def pathOf (lead : Bool) (cs : List Component) : List UInt8 :=
  if lead then slash :: joinPath cs else joinPath cs

theorem nextPathElement_last {path : List UInt8} (h : slash ∉ path) :
    nextPathElement path = (path, none) := by
  have hdrop : path.dropWhile (· ≠ slash) = [] :=
    List.dropWhile_eq_nil_iff.mpr fun x hx => decide_eq_true fun he : x = slash => h (he ▸ hx)
  rw [nextPathElement, hdrop]

theorem nextPathElement_cons {elem : List UInt8} (h : slash ∉ elem) (next : List UInt8) :
    nextPathElement (elem ++ slash :: next) = (elem, some next) := by
  have hne : ∀ x ∈ elem, decide (x ≠ slash) = true := fun x hx =>
    decide_eq_true fun he : x = slash => h (he ▸ hx)
  rw [nextPathElement, List.dropWhile_append_of_pos hne, List.takeWhile_append_of_pos hne]
  simp

namespace Volume

/-! ## The entry that is made -/

variable (v : Volume)

/-- What `CreateFile` writes to the slot. -/
def created (s : Slot) (name : List UInt8) : Volume := (v.setFileName s name).setFileSize s 0

@[simp] theorem created_fat (s : Slot) (name : List UInt8) : (v.created s name).fat = v.fat := rfl

@[simp] theorem created_bytesPerCluster (s : Slot) (name : List UInt8) :
    (v.created s name).bytesPerCluster = v.bytesPerCluster := rfl

@[simp] theorem created_rootCluster (s : Slot) (name : List UInt8) :
    (v.created s name).rootCluster = v.rootCluster := rfl

theorem created_cluster {s : Slot} {c : Nat} (name : List UInt8) (h : c ≠ s.cluster) :
    (v.created s name).data c = v.data c := by
  funext o
  rw [created, setFileSize, put_ne _ _ _ _ _ h, setFileName, put_ne _ _ _ _ _ h]

/-- The other entries keep their bytes. -/
theorem created_byte {s t : Slot} {k : Nat} (name : List UInt8) (h : t ≠ s) (hk : k < 32) :
    (v.created s name).byte t k = v.byte t k := by
  by_cases hc : t.cluster = s.cluster
  · have hi : t.index ≠ s.index := fun hi => h (by cases t; cases s; simp_all)
    rw [byte, byte, created, setFileSize, put_off _ _ _ (by omega), setFileName,
      put_off _ _ _ (by omega)]
  · rw [byte, byte, created_cluster v name hc]

theorem created_self (s : Slot) (name : List UInt8) (k : Nat) :
    (v.created s name).byte s k =
      if 28 ≤ k ∧ k < 32 then 0 else if k < 11 then encodeName name k else v.byte s k := by
  have hname : (v.setFileName s name).byte s k =
      if k < 11 then encodeName name k else v.byte s k := by
    have h := v.byte_put s 0 11 k (encodeName name)
    simpa [setFileName] using h
  rw [created, setFileSize, byte_put, hname]
  split
  next h =>
    have hz : ∀ i < 4, (Net.store32 0).getD i 0 = 0 := by decide
    exact hz (k - 28) (by omega)
  next => rfl

theorem created_name (s : Slot) (name : List UInt8) :
    (v.created s name).name s = elevenOf (encodeName name) := by
  refine elevenOf_inj.mpr fun k hk => ?_
  rw [created_self, if_neg (by omega), if_pos hk]

theorem created_attr (s : Slot) (name : List UInt8) :
    (v.created s name).attr s = v.attr s := by
  rw [attr, created_self]
  rfl

theorem created_firstCluster (s : Slot) (name : List UInt8) :
    (v.created s name).firstCluster s = v.firstCluster s := by
  simp only [firstCluster, created_self]
  rfl

theorem created_fileSize (s : Slot) (name : List UInt8) : (v.created s name).fileSize s = 0 :=
  fileSize_setFileSize _ s 0

theorem createIn_eq {dir : Nat} {name : List UInt8} {v' : Volume} {s : Slot} :
    v.createIn dir name = some (v', .ok s) ↔
      ∃ w, v.allocateEntry dir = some (w, some s) ∧ w.created s name = v' := by
  simp only [createIn, Option.bind_eq_bind, Option.bind_eq_some_iff, Prod.exists]
  constructor
  · rintro ⟨w, slot, ha, h⟩
    cases slot with
    | none => cases h
    | some t => cases h; exact ⟨w, ha, rfl⟩
  · rintro ⟨w, ha, rfl⟩
    exact ⟨w, some s, ha, rfl⟩

/-- The entry is made in the first vacant slot of the directory. -/
theorem createIn_vacant {v : Volume} {dir : Nat} {l : List Nat} {s : Slot}
    (hl : v.fat.IsChain dir l) (hs : (v.slots l).find? v.vacant = some s) (name : List UInt8) :
    v.createIn dir name = some (v.created s name, .ok s) :=
  v.createIn_eq.mpr ⟨v, allocateEntry_vacant hl hs, rfl⟩

/-- A path without a slash is a name in the root directory. -/
theorem createFile_name {v : Volume} {path : List UInt8} (h : slash ∉ path) :
    v.createFile path = v.createIn v.rootCluster.toNat path := by
  rw [createFile, strrchr_none.mpr h]

/-! ## Looking an element up -/

/-- What the loop of `FindFile` finds among slots. -/
def lookup (elem : List UInt8) (L : List Slot) : Option Slot :=
  match L.find? fun s => v.byte s 0 = 0 ∨ v.nameIsEqual s elem with
  | some s => if v.byte s 0 = 0 then none else some s
  | none => none

variable {v}

theorem search_eq {dir : Nat} {l : List Nat} (hl : v.fat.IsChain dir l) (elem : List UInt8) :
    v.search elem dir = some (v.lookup elem (v.slots l)) := by
  have hlt := (hl.2 dir hl.mem_head).2.1
  have hle := v.fat.size_le
  have hne : dir ≠ kEndOfClusterchain.toNat := by
    simp only [kEndOfClusterchain, UInt32.reduceToNat]
    omega
  rw [search, if_neg hne, scan_eq hl hl.length_le, lookup]
  cases (v.slots l).find? fun s => v.byte s 0 = 0 ∨ v.nameIsEqual s elem <;> rfl

/-- Past slots in use the lookup goes on, unless one of them has the name. -/
theorem lookup_append {elem : List UInt8} {A L : List Slot} (hA : ∀ t ∈ A, v.byte t 0 ≠ 0) :
    v.lookup elem (A ++ L) = (A.find? (v.nameIsEqual · elem)).or (v.lookup elem L) := by
  induction A with
  | nil => rfl
  | cons t A ih =>
      have ht := hA t List.mem_cons_self
      have hrest := ih fun u hu => hA u (List.mem_cons_of_mem t hu)
      cases heq : v.nameIsEqual t elem with
      | true => simp [lookup, heq, ht]
      | false =>
          simp only [lookup, List.cons_append] at hrest ⊢
          simp only [List.find?_cons, heq, ht, Bool.false_eq_true, or_self, decide_false, hrest]

theorem lookup_cons_eq {elem : List UInt8} {s : Slot} {L : List Slot} (h0 : v.byte s 0 ≠ 0)
    (he : v.nameIsEqual s elem = true) : v.lookup elem (s :: L) = some s := by
  simp [lookup, he, h0]

theorem lookup_some {elem : List UInt8} {L : List Slot} {t : Slot}
    (h : v.lookup elem L = some t) :
    t ∈ L ∧ v.byte t 0 ≠ 0 ∧ v.nameIsEqual t elem = true ∧
      ∃ A B, L = A ++ t :: B ∧ ∀ u ∈ A, v.byte u 0 ≠ 0 := by
  rw [lookup] at h
  split at h
  next s hs =>
    split at h
    next => cases h
    next h0 =>
      cases h
      obtain ⟨hp, A, B, hL, hA⟩ := List.find?_eq_some_iff_append.mp hs
      refine ⟨hL ▸ List.mem_append_right A List.mem_cons_self, h0, ?_, A, B, hL, fun u hu => ?_⟩
      · simpa [h0] using hp
      · have hu := hA u hu
        simp only [Bool.not_eq_true', decide_eq_false_iff_not, not_or] at hu
        exact hu.1
  next => cases h

/-- Slots that keep their names are found as before. -/
theorem lookup_congr {v' : Volume} {elem : List UInt8} {L : List Slot}
    (h : ∀ t ∈ L, ∀ k < 11, v'.byte t k = v.byte t k) : v'.lookup elem L = v.lookup elem L := by
  have hp : ∀ t ∈ L, (v'.byte t 0 = 0 ∨ v'.nameIsEqual t elem = true) =
      (v.byte t 0 = 0 ∨ v.nameIsEqual t elem = true) := fun t ht => by
    have hname : v'.name t = v.name t := elevenOf_inj.mpr (h t ht)
    rw [h t ht 0 (by decide), nameIsEqual, nameIsEqual, hname]
  induction L with
  | nil => rfl
  | cons s L ih =>
      have hs := hp s List.mem_cons_self
      have hrest := ih (fun t ht => h t (List.mem_cons_of_mem s ht)) fun t ht =>
        hp t (List.mem_cons_of_mem s ht)
      simp only [lookup, List.find?_cons, hs] at hrest ⊢
      by_cases hc : v.byte s 0 = 0 ∨ v.nameIsEqual s elem = true
      · simp only [hc, decide_true, h s List.mem_cons_self 0 (by decide)]
      · simpa only [hc, decide_false] using hrest

/-- Among slots none of which has the name, nothing is found. -/
theorem lookup_none {elem : List UInt8} {L : List Slot} (h : ∀ t ∈ L, v.byte t 0 = 0) :
    v.lookup elem L = none := by
  cases L with
  | nil => rfl
  | cons t L => simp [lookup, h t List.mem_cons_self]

/-- A name that is looked for is not the name of a vacant slot. -/
theorem nameIsEqual_vacant {elem : List UInt8} (he : Plain elem) {s : Slot}
    (hs : v.vacant s = true) : v.nameIsEqual s elem = false := by
  rw [nameIsEqual, decide_eq_false_iff_not]
  intro heq
  have h0 := elevenOf_inj.mp heq 0 (by decide)
  obtain ⟨hne, hlt⟩ := name83_plain he 0
  rw [← h0] at hne hlt
  rcases of_decide_eq_true hs with h | h
  · exact hne h
  · rw [h] at hlt
    exact absurd hlt (by decide)

theorem not_zero_of_not_vacant {s : Slot} (h : v.vacant s = false) : v.byte s 0 ≠ 0 := fun h0 =>
  of_decide_eq_false h (.inl h0)

/-! ## Directory trees -/

/-- An entry in use that the loop over the directory `d` comes to. -/
def Listed (v : Volume) (d : Nat) (s : Slot) : Prop :=
  ∃ l, v.fat.IsChain d l ∧ ∃ A B, v.slots l = A ++ s :: B ∧
    (∀ t ∈ A, v.byte t 0 ≠ 0) ∧ v.vacant s = false

/-- The directories are chains of their own, and all but `.` and `..` lead down in
the tree. -/
structure WellFormed (v : Volume) (dirs : List Nat) (depth : Nat → Nat) : Prop where
  fat : v.fat.WellFormed dirs
  root : v.rootCluster.toNat ∈ dirs
  entries : 0 < v.entries
  tree : ∀ d ∈ dirs, ∀ s, v.Listed d s → v.attr s = kDirectory → v.byte s 0 ≠ dot →
    (v.firstCluster s).toNat ∈ dirs ∧ depth d < depth (v.firstCluster s).toNat

/-- The slots before the first vacant one, that one, and those behind it. -/
def Splits (v : Volume) (d : Nat) (A : List Slot) (s : Slot) (B : List Slot) : Prop :=
  ∃ l, v.fat.IsChain d l ∧ v.slots l = A ++ s :: B ∧ (∀ t ∈ A, v.vacant t = false) ∧
    v.vacant s = true

theorem nodup_slots {l : List Nat} (hl : l.Nodup) : (v.slots l).Nodup := by
  have hinj : ∀ c, Function.Injective (Slot.mk c) := fun c i j h => by cases h; rfl
  refine List.nodup_flatMap.mpr ⟨fun c _ => List.nodup_range.map (hinj c), ?_⟩
  refine hl.imp fun {c d} hcd => ?_
  refine List.disjoint_left.mpr fun s hs ht => ?_
  simp only [slotsOf, List.mem_map] at hs ht
  obtain ⟨i, -, rfl⟩ := hs
  obtain ⟨j, -, h⟩ := ht
  exact hcd (congrArg Slot.cluster h).symm

/-- What is found is listed, and has the name. -/
theorem search_some {d : Nat} {l : List Nat} (hl : v.fat.IsChain d l) {elem : List UInt8}
    (he : Plain elem) {s : Slot} (h : v.search elem d = some (some s)) :
    v.Listed d s ∧ v.name s = elevenOf (name83 elem) ∧ s ∈ v.slots l := by
  rw [search_eq hl] at h
  obtain ⟨hmem, -, heq, A, B, hL, hA⟩ := lookup_some (Option.some.inj h)
  have hv : v.vacant s = false := by
    by_contra hv
    rw [nameIsEqual_vacant he (by simpa using hv)] at heq
    cases heq
  exact ⟨⟨l, hl, A, B, hL, hA, hv⟩, of_decide_eq_true heq, hmem⟩

/-- A listed entry with the name is not missed. -/
theorem lookup_listed {d : Nat} {l : List Nat} (hl : v.fat.IsChain d l) {elem : List UInt8} {s : Slot}
    (hs : v.Listed d s) (hname : v.name s = elevenOf (name83 elem)) :
    v.lookup elem (v.slots l) ≠ none := by
  obtain ⟨l', hl', A, B, hsplit, hA, hvacant⟩ := hs
  have heq : v.nameIsEqual s elem = true := decide_eq_true hname
  rw [hl.unique hl', hsplit, lookup_append hA,
    lookup_cons_eq (not_zero_of_not_vacant hvacant) heq]
  exact fun h => Option.some_ne_none s (Option.or_eq_none_iff.mp h).2

/-- What is found and leads to a directory is no `.` and no `..`. -/
theorem WellFormed.down {dirs : List Nat} {depth : Nat → Nat} (hw : v.WellFormed dirs depth)
    {d : Nat} (hd : d ∈ dirs) {elem : List UInt8} (he : Plain elem) {s : Slot}
    (h : v.search elem d = some (some s)) (hs : v.attr s = kDirectory) :
    (v.firstCluster s).toNat ∈ dirs ∧ depth d < depth (v.firstCluster s).toNat := by
  obtain ⟨l, hl⟩ := hw.fat.chain d hd
  obtain ⟨hlist, hname, -⟩ := search_some hl he h
  refine hw.tree d hd s hlist hs fun hdot => ?_
  rw [elevenOf_inj.mp hname 0 (by decide)] at hdot
  exact name83_ne_dot elem 0 hdot

/-! ## The directory after `CreateFile` -/

/-- The entry `s` with the name `name` was put into the directory `dir`, between the
slots `A` and what was found behind them, `B`. -/
structure Inserts (v v' : Volume) (dirs : List Nat) (dir : Nat) (name : List UInt8) (s : Slot)
    (A B : List Slot) : Prop where
  root : v'.rootCluster = v.rootCluster
  before : ∀ elem, Plain elem → v.search elem dir =
    some ((A.find? (v.nameIsEqual · elem)).or (if v.byte s 0 = 0 then none else v.lookup elem B))
  after : ∀ elem, v'.search elem dir = some ((A.find? (v.nameIsEqual · elem)).or
    (if elevenOf (encodeName name) = elevenOf (name83 elem) then some s else v.lookup elem B))
  other : ∀ d ∈ dirs, d ≠ dir → ∀ elem, v'.search elem d = v.search elem d
  entry : ∀ d ∈ dirs, ∀ l, v.fat.IsChain d l → ∀ t ∈ v.slots l, t ≠ s →
    ∀ k < 32, v'.byte t k = v.byte t k
  vacant : ∀ d ∈ dirs, ∀ l, v.fat.IsChain d l → s ∈ v.slots l → v.vacant s = true
  before_ne : s ∉ A
  behind_ne : s ∉ B
  used : v'.fat.Used s.cluster
  name : v'.name s = elevenOf (encodeName name)
  size : v'.fileSize s = 0

/-- The lookup in a directory after a slot of it got a name. -/
theorem lookup_created {v' : Volume} {name : List UInt8} (hname : Plain name) {s : Slot}
    {A B : List Slot} (hA : ∀ t ∈ A, v.vacant t = false)
    (hn : v'.name s = elevenOf (encodeName name))
    (hk : ∀ t ∈ A, ∀ k < 11, v'.byte t k = v.byte t k) (elem : List UInt8) :
    v'.lookup elem (A ++ s :: B) = (A.find? (v.nameIsEqual · elem)).or
      (if elevenOf (encodeName name) = elevenOf (name83 elem) then some s
        else v'.lookup elem B) := by
  have hA' : ∀ t ∈ A, v'.byte t 0 ≠ 0 := fun t ht => by
    rw [hk t ht 0 (by decide)]
    exact not_zero_of_not_vacant (hA t ht)
  have h0 : v'.byte s 0 ≠ 0 := by
    rw [elevenOf_inj.mp hn 0 (by decide)]
    exact (encodeName_plain hname 0).1
  have hfind : A.find? (v'.nameIsEqual · elem) = A.find? (v.nameIsEqual · elem) :=
    List.find?_congr fun t ht => by
      have ht : v'.name t = v.name t := elevenOf_inj.mpr (hk t ht)
      rw [nameIsEqual, nameIsEqual, ht]
  rw [lookup_append hA', hfind]
  congr 1
  split
  next heq => exact lookup_cons_eq h0 (decide_eq_true (hn.trans heq))
  next hne =>
    have hs : v'.nameIsEqual s elem = false := by rw [nameIsEqual, hn, decide_eq_false hne]
    simp [lookup, h0, hs]

/-- A directory whose entries keep their names is searched as before. -/
theorem search_congr {v' : Volume} {d : Nat} {l : List Nat} (hl : v.fat.IsChain d l)
    (hl' : v'.fat.IsChain d l) (hb : v'.bytesPerCluster = v.bytesPerCluster)
    (hk : ∀ t ∈ v.slots l, ∀ k < 11, v'.byte t k = v.byte t k) (elem : List UInt8) :
    v'.search elem d = v.search elem d := by
  have hslots : v'.slotsOf = v.slotsOf := by
    funext c
    rw [slotsOf, slotsOf, Volume.entries, Volume.entries, hb]
  rw [search_eq hl, search_eq hl', slots, hslots, ← slots, lookup_congr hk]

/-- The lookup in a directory whose slots before `s` are in use. -/
theorem lookup_split {s : Slot} {A B : List Slot} (hA : ∀ t ∈ A, v.vacant t = false)
    (hs : v.vacant s = true) {elem : List UInt8} (he : Plain elem) :
    v.lookup elem (A ++ s :: B) = (A.find? (v.nameIsEqual · elem)).or
      (if v.byte s 0 = 0 then none else v.lookup elem B) := by
  rw [lookup_append fun t ht => not_zero_of_not_vacant (hA t ht)]
  congr 1
  split
  next h0 => simp [lookup, h0]
  next h0 => simp [lookup, h0, nameIsEqual_vacant he hs]

/-- The entry is made in a slot of the directory that was vacant. -/
theorem inserts_vacant {dirs : List Nat} (hw : v.fat.WellFormed dirs) {dir : Nat}
    (hdir : dir ∈ dirs) {name : List UInt8} (hname : Plain name) {A B : List Slot} {s : Slot}
    (hs : v.Splits dir A s B) : v.Inserts (v.created s name) dirs dir name s A B := by
  obtain ⟨l, hl, hsl, hA, hv⟩ := hs
  have hnd : (A ++ s :: B).Nodup := hsl ▸ nodup_slots hl.1.nodup
  obtain ⟨-, hsB, hAB⟩ := List.nodup_append.mp hnd
  have hsA : s ∉ A := fun h => hAB s h s List.mem_cons_self rfl
  have hsB : s ∉ B := (List.nodup_cons.mp hsB).1
  have hmem : s.cluster ∈ l := (v.mem_slots.mp (hsl ▸ List.mem_append_right A List.mem_cons_self)).1
  have hentry : ∀ t, t ≠ s → ∀ k < 32, (v.created s name).byte t k = v.byte t k :=
    fun t ht k hk => v.created_byte name ht hk
  have hbehind : ∀ elem, (v.created s name).lookup elem B = v.lookup elem B := fun elem =>
    lookup_congr fun t ht k hk => hentry t (fun he => hsB (he ▸ ht)) k (by omega)
  refine ⟨rfl, fun elem he => ?_, fun elem => ?_, fun d hd hne elem => ?_,
    fun d _ m _ t _ ht => hentry t ht, fun _ _ _ _ _ => hv, hsA, hsB, hl.2 _ hmem,
    v.created_name s name, v.created_fileSize s name⟩
  · rw [search_eq hl, hsl, lookup_split hA hv he]
  · have hslots : (v.created s name).slots l = A ++ s :: B := hsl
    rw [search_eq (v := v.created s name) hl, hslots, ← hbehind,
      lookup_created hname hA (v.created_name s name) fun t ht k hk =>
        hentry t (fun he => hsA (he ▸ ht)) k (by omega)]
  · obtain ⟨m, hm⟩ := hw.chain d hd
    have hm' : (v.created s name).fat.IsChain d m := hm
    refine search_congr hm hm' rfl
      (fun t ht k hk => hentry t (fun he => ?_) k (by omega)) elem
    have htm := (v.mem_slots.mp ht).1
    exact List.disjoint_left.mp (hw.disjoint hd hdir hne m l hm hl) (he ▸ htm) hmem

/-- The volume after the directory got a cluster of zeros. -/
def grown (v : Volume) (last z : Nat) : Volume :=
  (v.withFat (v.fat.relink last [z])).put z 0 v.bytesPerCluster fun _ => 0

theorem grown_byte {last z : Nat} {t : Slot} (h : t.cluster ≠ z) (k : Nat) :
    (v.grown last z).byte t k = v.byte t k := by
  rw [byte, grown, put_ne _ _ _ _ _ h]
  rfl

theorem grown_zero (last z : Nat) {i k : Nat} (hi : i < v.entries) (hk : k < 32) :
    (v.grown last z).byte ⟨z, i⟩ k = 0 := by
  have hlt : 32 * i + k < v.bytesPerCluster := by
    have := Nat.mul_le_of_le_div 32 (i + 1) v.bytesPerCluster hi
    omega
  have h := put_same (v.withFat (v.fat.relink last [z])) z 0 (fun _ => 0) hlt
  rwa [Nat.zero_add] at h

/-- The entry is made in a cluster that the directory gets. -/
theorem inserts_full {dirs : List Nat} (hw : v.fat.WellFormed dirs) (he : 0 < v.entries) {dir : Nat}
    (hdir : dir ∈ dirs) {name : List UInt8} (hname : Plain name) {l : List Nat}
    (hl : v.fat.IsChain dir l) (hfull : ∀ t ∈ v.slots l, v.vacant t = false) {z : Nat}
    {rest : List Nat} (hz : v.fat.freeList = z :: rest) :
    v.Inserts ((v.grown (l.getLast hl.1.ne_nil) z).created ⟨z, 0⟩ name) dirs dir name ⟨z, 0⟩
      (v.slots l) [] := by
  have hfree : v.fat.Free z := Table.mem_freeList.mp (hz ▸ List.mem_cons_self)
  have hzs : ∀ c ∈ [z], v.fat.Free c := fun c hc => List.mem_singleton.mp hc ▸ hfree
  have hext : (v.fat.relink (l.getLast hl.1.ne_nil) [z]).IsChain dir (l ++ [z]) :=
    hl.extend hzs (List.nodup_singleton z)
  have hoff : ∀ {d m}, v.fat.IsChain d m → ∀ t ∈ v.slots m, t.cluster ≠ z := fun hm t ht hc =>
    hm.not_free hfree (hc ▸ (v.mem_slots.mp ht).1)
  have hentry : ∀ {d m}, v.fat.IsChain d m → ∀ t ∈ v.slots m, ∀ k < 32,
      ((v.grown (l.getLast hl.1.ne_nil) z).created ⟨z, 0⟩ name).byte t k = v.byte t k :=
    fun hm t ht k hk => by
      have hne : t ≠ ⟨z, 0⟩ := fun h => hoff hm t ht (h ▸ rfl)
      rw [created_byte _ name hne hk, grown_byte (hoff hm t ht)]
  have hsA : ⟨z, 0⟩ ∉ v.slots l := fun h => hoff hl _ h rfl
  refine ⟨rfl, fun elem hp => ?_, fun elem => ?_, fun d hd hne elem => ?_,
    fun d _ m hm t ht _ => hentry hm t ht, fun _ _ _ hm h => absurd rfl (hoff hm _ h), hsA,
    List.not_mem_nil, ?_, created_name _ _ name, created_fileSize _ _ name⟩
  · have hlook : v.lookup elem (v.slots l ++ []) = _ :=
      lookup_append fun t ht => not_zero_of_not_vacant (hfull t ht)
    rw [List.append_nil] at hlook
    rw [search_eq hl, hlook]
    simp [lookup]
  · obtain ⟨n, hn⟩ := Nat.exists_eq_succ_of_ne_zero (Nat.ne_of_gt he)
    have hslots : ((v.grown (l.getLast hl.1.ne_nil) z).created ⟨z, 0⟩ name).slots (l ++ [z]) =
        v.slots l ++ ⟨z, 0⟩ :: (List.range n).map (fun i => ⟨z, i + 1⟩) := by
      have hentries : ((v.grown (l.getLast hl.1.ne_nil) z).created ⟨z, 0⟩ name).slotsOf =
          v.slotsOf := rfl
      rw [slots, hentries, List.flatMap_append, ← slots, List.flatMap_singleton, slotsOf, hn,
        List.range_succ_eq_map, List.map_cons, List.map_map]
      rfl
    have hzero : ((v.grown (l.getLast hl.1.ne_nil) z).created ⟨z, 0⟩ name).lookup elem
        ((List.range n).map fun i => ⟨z, i + 1⟩) = none := lookup_none fun t ht => by
      obtain ⟨i, hi, rfl⟩ := List.mem_map.mp ht
      have hlt : i + 1 < v.entries := by
        rw [hn]
        exact Nat.succ_lt_succ (List.mem_range.mp hi)
      rw [created_byte _ name (by simp) (by decide), grown_zero _ z hlt (by decide)]
    have hchain : ((v.grown (l.getLast hl.1.ne_nil) z).created ⟨z, 0⟩ name).fat.IsChain dir
      (l ++ [z]) := hext
    rw [search_eq hchain, hslots, lookup_created hname hfull (created_name _ _ name)
      (fun t ht k hk => hentry hl t ht k (by omega)), hzero]
    rfl
  · obtain ⟨m, hm⟩ := hw.chain d hd
    have hkept : ((v.grown (l.getLast hl.1.ne_nil) z).created ⟨z, 0⟩ name).fat.IsChain d m :=
      (hw.kept_extend hdir hd hne hl hzs m hm).1
    exact search_congr hm hkept rfl (fun t ht k hk => hentry hm t ht k (by omega)) elem
  · exact hext.2 z (List.mem_append_right l (List.mem_singleton_self z))

/-- The two ways `CreateFile` comes to a slot. -/
theorem createIn_cases {dir : Nat} {l : List Nat} (hl : v.fat.IsChain dir l) {name : List UInt8}
    {v' : Volume} {s : Slot} (h : v.createIn dir name = some (v', .ok s)) :
    (∃ A B, v.Splits dir A s B ∧ v' = v.created s name) ∨
      (∀ t ∈ v.slots l, v.vacant t = false) ∧ ∃ z rest, v.fat.freeList = z :: rest ∧ s = ⟨z, 0⟩ ∧
        v' = (v.grown (l.getLast hl.1.ne_nil) z).created s name := by
  obtain ⟨w, ha, rfl⟩ := v.createIn_eq.mp h
  cases hfind : (v.slots l).find? v.vacant with
  | some t =>
      rw [allocateEntry_vacant hl hfind] at ha
      cases ha
      obtain ⟨hv, A, B, hL, hA⟩ := List.find?_eq_some_iff_append.mp hfind
      exact .inl ⟨A, B, ⟨l, hl, hL, fun u hu => by simpa using hA u hu, hv⟩, rfl⟩
  | none =>
      rw [allocateEntry_full hl hfind] at ha
      cases hz : v.fat.freeList with
      | nil =>
          rw [hz] at ha
          cases ha
      | cons z rest =>
          rw [hz] at ha
          cases ha
          refine .inr ⟨fun t ht => ?_, z, rest, rfl, rfl, rfl⟩
          simpa using List.find?_eq_none.mp hfind t ht

theorem createIn_inserts {dirs : List Nat} (hw : v.fat.WellFormed dirs) (he : 0 < v.entries)
    {dir : Nat} (hdir : dir ∈ dirs) {name : List UInt8} (hname : Plain name) {v' : Volume}
    {s : Slot} (h : v.createIn dir name = some (v', .ok s)) :
    ∃ A B, v.Inserts v' dirs dir name s A B := by
  obtain ⟨l, hl⟩ := hw.chain dir hdir
  rcases createIn_cases hl h with ⟨A, B, hs, rfl⟩ | ⟨hfull, z, rest, hz, rfl, rfl⟩
  · exact ⟨A, B, inserts_vacant hw hdir hname hs⟩
  · exact ⟨_, [], inserts_full hw he hdir hname hl hfull hz⟩

/-! ## Walking down a path -/

/-- The components lead from a directory down to another. -/
inductive Reaches (v : Volume) : Nat → List Component → Nat → Prop
  | here {d : Nat} : Reaches v d [] d
  | down {d e : Nat} {c : Component} {cs : List Component} {s : Slot} (hd : d ≠ 0)
      (hs : v.search c.chars d = some (some s)) (ha : v.attr s = kDirectory)
      (hr : Reaches v (v.firstCluster s).toNat cs e) : Reaches v d (c :: cs) e

theorem joinPath_cons (c : Component) {cs : List Component} (h : cs ≠ []) :
    joinPath (c :: cs) = c.chars ++ slash :: joinPath cs := by
  cases cs with
  | nil => exact absurd rfl h
  | cons d cs => rfl

theorem joinPath_head (cs : List Component) : (joinPath cs).head? ≠ some slash := by
  have hc : ∀ (c : Component) l, (c.chars ++ l).head? ≠ some slash := fun c l h => by
    rw [List.head?_append_of_ne_nil _ c.ne_nil] at h
    exact c.slash_not_mem (List.mem_of_mem_head? h)
  cases cs with
  | nil => simp [joinPath]
  | cons c cs =>
      by_cases hcs : cs = []
      · subst hcs
        simpa [joinPath] using hc c []
      · rw [joinPath_cons c hcs]
        exact hc c _

theorem joinPath_ne_nil {cs : List Component} (h : cs ≠ []) : joinPath cs ≠ [] := by
  cases cs with
  | nil => exact absurd rfl h
  | cons c cs =>
      by_cases hcs : cs = []
      · subst hcs
        exact c.ne_nil
      · rw [joinPath_cons c hcs]
        simp

/-- The last component is searched for. -/
theorem findFile_last (v : Volume) (fuel : Nat) (c : Component) {d : Nat} (hd : d ≠ 0) :
    v.findFile (fuel + 1) c.chars d = (v.search c.chars d).map fun r => (r, false) := by
  have hstart : v.start c.chars d = (c.chars, d) := by
    have hhead : c.chars.head? ≠ some slash := joinPath_head [c]
    rw [start, if_neg hhead, if_neg hd]
  rw [findFile, hstart]
  simp only [nextPathElement_last c.slash_not_mem, c.length_le]
  cases v.search c.chars d with
  | none => rfl
  | some r => cases r <;> simp [guard]

/-- A component before the last leads on when it is a directory. -/
theorem findFile_cons (v : Volume) (fuel : Nat) (c : Component) {cs : List Component}
    (hcs : cs ≠ []) {d : Nat} (hd : d ≠ 0) :
    v.findFile (fuel + 1) (joinPath (c :: cs)) d =
      (v.search c.chars d).bind fun r =>
        match r with
        | none => some (none, true)
        | some s =>
            if v.attr s = kDirectory then v.findFile fuel (joinPath cs) (v.firstCluster s).toNat
            else some (some s, true) := by
  have hstart : v.start (joinPath (c :: cs)) d = (joinPath (c :: cs), d) := by
    rw [start, if_neg (joinPath_head (c :: cs)), if_neg hd]
  rw [findFile, hstart, joinPath_cons c hcs]
  simp only [nextPathElement_cons c.slash_not_mem, c.length_le]
  cases v.search c.chars d with
  | none => rfl
  | some r =>
      cases r with
      | none => rfl
      | some s => simp [guard, joinPath_ne_nil hcs]

section

variable {dirs : List Nat} {depth : Nat → Nat}

theorem WellFormed.ne_zero (hw : v.WellFormed dirs depth) {d : Nat} (hd : d ∈ dirs) : d ≠ 0 := by
  obtain ⟨l, hl⟩ := hw.fat.chain d hd
  have h2 := (hl.2 d hl.mem_head).1
  omega

theorem Reaches.mem (hw : v.WellFormed dirs depth) {d e : Nat} {cs : List Component}
    (h : v.Reaches d cs e) (hd : d ∈ dirs) : e ∈ dirs ∧ depth d ≤ depth e := by
  induction h with
  | here => exact ⟨hd, Nat.le_refl _⟩
  | @down d e c cs s _ hs ha _ ih =>
      obtain ⟨hmem, hlt⟩ := hw.down hd c.plain hs ha
      obtain ⟨he, hle⟩ := ih hmem
      exact ⟨he, Nat.le_trans (Nat.le_of_lt hlt) hle⟩

/-- Below a directory that the components lead to, `FindFile` searches there. -/
theorem Reaches.find {d e : Nat} {cs : List Component} (h : v.Reaches d cs e) (he : e ≠ 0)
    (last : Component) {fuel : Nat} (hf : cs.length < fuel) :
    v.findFile fuel (joinPath (cs ++ [last])) d =
      (v.search last.chars e).map fun r => (r, false) := by
  obtain ⟨fuel, rfl⟩ := Nat.exists_eq_succ_of_ne_zero (Nat.ne_zero_of_lt hf)
  induction h generalizing fuel with
  | here => exact findFile_last v fuel last he
  | @down d e c cs s hd hs ha _ ih =>
      have hlt : cs.length < fuel := Nat.lt_of_succ_lt_succ hf
      obtain ⟨fuel, rfl⟩ := Nat.exists_eq_succ_of_ne_zero (Nat.ne_zero_of_lt hlt)
      rw [List.cons_append, findFile_cons v _ c (by simp) hd, hs]
      simp only [Option.bind_some, if_pos ha]
      exact ih he fuel hlt

/-- The components lead to the parent, if it is found and the path is not. -/
theorem reaches_of_find (hw : v.WellFormed dirs depth) {d : Nat} (hd : d ∈ dirs)
    {cs : List Component} (hcs : cs ≠ []) {last : Component} {fuel fuel' : Nat} {b b' : Bool}
    {s : Slot} (hnone : v.findFile fuel (joinPath (cs ++ [last])) d = some (none, b))
    (hsome : v.findFile fuel' (joinPath cs) d = some (some s, b')) :
    v.Reaches d cs (v.firstCluster s).toNat := by
  induction cs generalizing d fuel fuel' with
  | nil => exact absurd rfl hcs
  | cons c cs ih =>
      obtain ⟨fuel, rfl⟩ : ∃ n, fuel = n + 1 := by
        cases fuel with
        | zero => cases hnone
        | succ n => exact ⟨n, rfl⟩
      obtain ⟨fuel', rfl⟩ : ∃ n, fuel' = n + 1 := by
        cases fuel' with
        | zero => cases hsome
        | succ n => exact ⟨n, rfl⟩
      rw [List.cons_append, findFile_cons v _ c (by simp) (hw.ne_zero hd)] at hnone
      obtain ⟨r, hsearch, hnone⟩ := Option.bind_eq_some_iff.mp hnone
      by_cases hnil : cs = []
      · subst hnil
        have hlast := findFile_last v fuel' c (hw.ne_zero hd)
        rw [joinPath, hlast, hsearch] at hsome
        cases hsome
        simp only at hnone
        split at hnone
        next ha => exact .down (hw.ne_zero hd) hsearch ha .here
        next => cases hnone
      · rw [findFile_cons v _ c hnil (hw.ne_zero hd), hsearch, Option.bind_some] at hsome
        cases r with
        | none => cases hsome
        | some t =>
            simp only at hnone hsome
            split at hnone
            next ha =>
              rw [if_pos ha] at hsome
              have hmem := (hw.down hd c.plain hsearch ha).1
              exact .down (hw.ne_zero hd) hsearch ha (ih hmem hnil hnone hsome)
            next => cases hnone

/-- An entry that is found keeps its bytes. -/
theorem Inserts.found {v' : Volume} {dir : Nat} {name : List UInt8} {s : Slot} {A B : List Slot}
    (h : v.Inserts v' dirs dir name s A B) (hw : v.WellFormed dirs depth) {d : Nat} (hd : d ∈ dirs)
    {elem : List UInt8} (he : Plain elem) {t : Slot} (ht : v.search elem d = some (some t)) :
    t ≠ s ∧ v'.attr t = v.attr t ∧ v'.firstCluster t = v.firstCluster t := by
  obtain ⟨l, hl⟩ := hw.fat.chain d hd
  obtain ⟨⟨m, hm, -, -, -, -, hv⟩, -, hmem⟩ := search_some hl he ht
  have hne : t ≠ s := fun hts => by
    subst hts
    rw [h.vacant d hd l hl hmem] at hv
    cases hv
  have hk := h.entry d hd l hl t hmem hne
  refine ⟨hne, hk 11 (by decide), ?_⟩
  simp only [firstCluster, hk 26 (by decide), hk 27 (by decide), hk 20 (by decide),
    hk 21 (by decide)]

/-- The components lead to the directory as before. -/
theorem Inserts.reaches {v' : Volume} {dir : Nat} {name : List UInt8} {s : Slot} {A B : List Slot}
    (h : v.Inserts v' dirs dir name s A B) (hw : v.WellFormed dirs depth) {d : Nat}
    {cs : List Component} (hr : v.Reaches d cs dir) (hd : d ∈ dirs) : v'.Reaches d cs dir := by
  induction hr with
  | here => exact .here
  | @down d e c cs t h0 hs ha hr ih =>
      obtain ⟨hmem, hlt⟩ := hw.down hd c.plain hs ha
      have hle := (hr.mem hw hmem).2
      obtain ⟨-, hattr, hfirst⟩ := h.found hw hd c.plain hs
      have hne : d ≠ e := fun he => by
        rw [he] at hlt
        omega
      refine .down (s := t) h0 ?_ (hattr.trans ha) ?_
      · rw [h.other d hd hne, hs]
      · rw [hfirst]
        exact ih h hmem

/-! ## Created files are found -/

theorem length_le_joinPath (cs : List Component) : cs.length ≤ (joinPath cs).length := by
  induction cs with
  | nil => exact Nat.le_refl 0
  | cons c cs ih =>
      by_cases hcs : cs = []
      · subst hcs
        exact List.length_pos_of_ne_nil c.ne_nil
      · rw [joinPath_cons c hcs, List.length_append, List.length_cons, List.length_cons]
        omega

/-- A path is walked from the root directory. -/
theorem find_pathOf (v : Volume) (hroot : v.rootCluster.toNat ≠ 0) (lead : Bool)
    (cs : List Component) : ∃ fuel, cs.length < fuel ∧
      v.find (pathOf lead cs) 0 = v.findFile fuel (joinPath cs) v.rootCluster.toNat := by
  have hlen := length_le_joinPath cs
  have hstart : v.start (joinPath cs) v.rootCluster.toNat = (joinPath cs, v.rootCluster.toNat) := by
    rw [start, if_neg (joinPath_head cs), if_neg hroot]
  cases lead with
  | true =>
      refine ⟨(joinPath cs).length + 1 + 1, by omega, ?_⟩
      have hlead : v.start (slash :: joinPath cs) 0 = (joinPath cs, v.rootCluster.toNat) := rfl
      rw [find, pathOf, if_pos rfl, List.length_cons, findFile, findFile, hstart, hlead]
  | false =>
      refine ⟨(joinPath cs).length + 1, by omega, ?_⟩
      have hlead : v.start (joinPath cs) 0 = (joinPath cs, v.rootCluster.toNat) := by
        rw [start, if_neg (joinPath_head cs), if_pos rfl]
      rw [find, pathOf, if_neg Bool.false_ne_true, findFile, findFile, hstart, hlead]

theorem joinPath_snoc {cs : List Component} (h : cs ≠ []) (last : Component) :
    joinPath (cs ++ [last]) = joinPath cs ++ slash :: last.chars := by
  induction cs with
  | nil => exact absurd rfl h
  | cons c cs ih =>
      rw [List.cons_append, joinPath_cons c (by simp)]
      by_cases hcs : cs = []
      · subst hcs
        rfl
      · rw [ih hcs, joinPath_cons c hcs, List.append_assoc, List.cons_append]

/-- `CreateFile` cuts the path before its last component. -/
theorem strrchr_pathOf (lead : Bool) (cs : List Component) (last : Component) :
    strrchr slash (pathOf lead (cs ++ [last])) =
      if cs = [] then (if lead then some ([], last.chars) else none)
      else some (pathOf lead cs, last.chars) := by
  by_cases hcs : cs = []
  · subst hcs
    cases lead with
    | true => exact strrchr_append [] last.slash_not_mem
    | false => exact strrchr_none.mpr last.slash_not_mem
  · rw [if_neg hcs, pathOf, joinPath_snoc hcs, pathOf]
    cases lead with
    | true => exact strrchr_append (slash :: joinPath cs) last.slash_not_mem
    | false => exact strrchr_append (joinPath cs) last.slash_not_mem

/-- A file that is created and was not there is made in the directory its path leads to. -/
theorem createFile_reaches (hw : v.WellFormed dirs depth) {lead : Bool} {init : List Component}
    {last : Component} {b : Bool} {v' : Volume} {s : Slot}
    (hfind : v.find (pathOf lead (init ++ [last])) 0 = some (none, b))
    (hcreate : v.createFile (pathOf lead (init ++ [last])) = some (v', .ok s)) :
    ∃ dir, v.Reaches v.rootCluster.toNat init dir ∧
      v.createIn dir last.chars = some (v', .ok s) := by
  have hroot := hw.ne_zero hw.root
  rw [createFile, strrchr_pathOf] at hcreate
  by_cases hinit : init = []
  · subst hinit
    refine ⟨_, .here, ?_⟩
    cases lead with
    | true => simpa [last.ne_nil] using hcreate
    | false => simpa [pathOf, joinPath] using hcreate
  · have hparent : pathOf lead init ≠ [] := by
      cases lead with
      | true => exact List.cons_ne_nil _ _
      | false => exact joinPath_ne_nil hinit
    simp only [if_neg hinit, if_neg last.ne_nil, if_neg hparent, Option.bind_eq_bind,
      Option.bind_eq_some_iff, Prod.exists] at hcreate
    obtain ⟨r, b', hp, hcreate⟩ := hcreate
    cases r with
    | none => cases hcreate
    | some e =>
        obtain ⟨fuel, -, hfuel⟩ := find_pathOf v hroot lead (init ++ [last])
        obtain ⟨fuel', -, hfuel'⟩ := find_pathOf v hroot lead init
        rw [hfuel] at hfind
        rw [hfuel'] at hp
        exact ⟨_, reaches_of_find hw hw.root hinit hfind hp, hcreate⟩

/-- What the path of a created file leads to. -/
theorem find_created (hw : v.WellFormed dirs depth) {lead : Bool} {init : List Component}
    {last : Component} {b : Bool} {v' : Volume} {s : Slot}
    (hfind : v.find (pathOf lead (init ++ [last])) 0 = some (none, b))
    (hcreate : v.createFile (pathOf lead (init ++ [last])) = some (v', .ok s)) :
    ∃ r, r ≠ some s ∧ v'.find (pathOf lead (init ++ [last])) 0 =
      some (if elevenOf (encodeName last.chars) = elevenOf (name83 last.chars) then some s else r,
        false) := by
  have hroot := hw.ne_zero hw.root
  obtain ⟨dir, hr, hin⟩ := createFile_reaches hw hfind hcreate
  have hdir := (hr.mem hw hw.root).1
  obtain ⟨A, B, hi⟩ := createIn_inserts hw.fat hw.entries hdir last.plain hin
  have hr' := hi.reaches hw hr hw.root
  obtain ⟨fuel, hlt, hfuel⟩ := find_pathOf v hroot lead (init ++ [last])
  obtain ⟨fuel', hlt', hfuel'⟩ := find_pathOf v' (hi.root ▸ hroot) lead (init ++ [last])
  rw [List.length_append, List.length_singleton] at hlt hlt'
  rw [hfuel, hr.find (hw.ne_zero hdir) last (by omega)] at hfind
  rw [hfuel', hi.root, hr'.find (hw.ne_zero hdir) last (by omega), hi.after]
  -- no entry before the new one has the name
  obtain ⟨r, hsearch, hnone⟩ := Option.map_eq_some_iff.mp hfind
  obtain rfl : r = none := congrArg Prod.fst hnone
  rw [hi.before _ last.plain] at hsearch
  have hA := (Option.or_eq_none_iff.mp (Option.some.inj hsearch)).1
  refine ⟨v.lookup last.chars B, fun hlook => hi.behind_ne (lookup_some hlook).1, ?_⟩
  rw [hA, Option.none_or, Option.map_some]

/-- **Created files are found again.**  A file that was not there and was created is found
under its path exactly when the encoders agree on its name. -/
theorem found_iff (hw : v.WellFormed dirs depth) {lead : Bool} {init : List Component}
    {last : Component} {b : Bool} {v' : Volume} {s : Slot}
    (hfind : v.find (pathOf lead (init ++ [last])) 0 = some (none, b))
    (hcreate : v.createFile (pathOf lead (init ++ [last])) = some (v', .ok s)) :
    (∃ b', v'.find (pathOf lead (init ++ [last])) 0 = some (some s, b')) ↔ Fits83 last.chars := by
  obtain ⟨r, hr, hfound⟩ := find_created hw hfind hcreate
  rw [hfound, ← encode_eq_iff last.length_le last.dots]
  constructor
  · rintro ⟨b', h⟩
    by_contra hne
    rw [if_neg hne] at h
    exact hr (congrArg Prod.fst (Option.some.inj h))
  · intro heq
    rw [if_pos heq]
    exact ⟨false, rfl⟩

end

/-- The empty volume has no entry in use. -/
theorem small_tree : State.small.vol.WellFormed [2] fun _ => 0 := by
  refine ⟨State.small_wellFormed, List.mem_singleton_self 2, by decide, fun d _ s hs => ?_⟩
  obtain ⟨l, -, A, B, -, -, hv⟩ := hs
  cases hv

/-- The first entry of the empty volume. -/
theorem small_create {path : List UInt8} (h : slash ∉ path) :
    State.small.vol.createFile path = some (State.small.vol.created ⟨2, 0⟩ path, .ok ⟨2, 0⟩) := by
  rw [createFile_name h]
  exact createIn_vacant State.small_chain (by decide +kernel) path

/-- `a.txt` in the root directory of the empty volume. -/
theorem found_iff_small :
    (∃ b', (State.small.vol.created ⟨2, 0⟩ [0x61, dot, 0x74, 0x78, 0x74]).find
      (pathOf false ([] ++ [⟨[0x61, dot, 0x74, 0x78, 0x74], by decide, by decide, by decide,
        by decide, by decide⟩])) 0 = some (some ⟨2, 0⟩, b')) ↔
      Fits83 [0x61, dot, 0x74, 0x78, 0x74] :=
  found_iff small_tree (b := false) (by decide +kernel)
    (by exact small_create (by decide))

/-- `abcdefghi` is written as `ABCDEFGH` and looked for as `ABCDEFGHI`. -/
theorem not_found :
    ¬∀ (v : Volume) (dirs : List Nat) (depth : Nat → Nat), v.WellFormed dirs depth →
      ∀ lead init last b v' s, v.find (pathOf lead (init ++ [last])) 0 = some (none, b) →
        v.createFile (pathOf lead (init ++ [last])) = some (v', .ok s) →
        ∃ b', v'.find (pathOf lead (init ++ [last])) 0 = some (some s, b') := by
  intro hall
  let last : Component := ⟨[0x61, 0x62, 0x63, 0x64, 0x65, 0x66, 0x67, 0x68, 0x69], by decide,
    by decide, by decide, by decide, by decide⟩
  have hfind : State.small.vol.find (pathOf false ([] ++ [last])) 0 = some (none, false) := by
    decide +kernel
  have hcreate : State.small.vol.createFile (pathOf false ([] ++ [last])) =
      some (State.small.vol.created ⟨2, 0⟩ last.chars, .ok ⟨2, 0⟩) :=
    small_create last.slash_not_mem
  obtain ⟨b', h⟩ := hall _ _ _ small_tree false [] last false _ _ hfind hcreate
  obtain ⟨r, hr, hfound⟩ := find_created small_tree hfind hcreate
  have hne : ¬elevenOf (encodeName last.chars) = elevenOf (name83 last.chars) := by decide
  rw [hfound, if_neg hne] at h
  exact hr (congrArg Prod.fst (Option.some.inj h))

end Volume

end Laplus.Fat
