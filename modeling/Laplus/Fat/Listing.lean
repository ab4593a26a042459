/-
# `Laplus.Fat.Listing` — the names that `ls` prints

`FormatName` cuts the blanks off the two fields of a name and puts a dot between them;
`NameIsEqual` fills them up again.  So what is printed for an entry is the name by which
`FindFile` finds it, as long as the fields hold what may stand there.
-/
import Laplus.Fat.Directory
import Mathlib.Data.List.DropRight

namespace Laplus.Fat

open Lib

/-! ## The source -/

/-- A field without the blanks at its end, as a string. -/
def readField (field : List UInt8) : List UInt8 :=
  (field.rdropWhile (· = blank)).takeWhile (· ≠ 0)

/-- `ReadName`: the base and the extension. -/
def readName (name : List UInt8) : List UInt8 × List UInt8 :=
  (readField (name.take 8), readField ((name.drop 8).take 3))

/-- `FormatName`. -/
def formatName (name : List UInt8) : List UInt8 :=
  let (base, ext) := readName name
  if ext ≠ [] then base ++ dot :: ext else base

namespace Volume

variable (v : Volume)

/-- The loop of `ListAllEntries` over a cluster: the entries whose names it prints, and whether it
has come to the end mark. -/
def listLoop : List Slot → List Slot × Bool
  | [] => ([], false)
  | s :: L =>
      if v.byte s 0 = 0 then ([], true)
      else if v.byte s 0 = 0xe5 then listLoop L
      else if v.attr s = kLongName then listLoop L
      else (s :: (listLoop L).1, (listLoop L).2)

/-- `ListAllEntries`. -/
def listAllEntries : Nat → Nat → Option (List Slot)
  | 0, _ => none
  | fuel + 1, dir =>
      if dir = kEndOfClusterchain.toNat then some []
      else do
        guard (v.inside dir)
        let (here, ended) := v.listLoop (v.slotsOf dir)
        if ended then return here
        let next ← v.fat.nextCluster dir
        let rest ← listAllEntries fuel next.toNat
        return here ++ rest

end Volume

/-! ## Names -/

/-- The bytes of a name: printable, without dots and small letters; the base is not empty, and
neither field that is not empty begins with a blank. -/
structure ShortName (name : List UInt8) : Prop where
  length : name.length = 11
  chars : ∀ c ∈ name, 0x20 ≤ c ∧ c ≤ 0x7e ∧ c ≠ dot ∧ ¬(0x61 ≤ c ∧ c ≤ 0x7a)
  base : name.getD 0 blank ≠ blank
  ext : (∀ k, 8 ≤ k → name.getD k blank = blank) ∨ name.getD 8 blank ≠ blank

/-- Cutting blanks off the end leaves the characters where they are. -/
theorem getD_rdropWhile (l : List UInt8) (k : Nat) :
    (l.rdropWhile (· = blank)).getD k blank = l.getD k blank := by
  induction l using List.reverseRecOn with
  | nil => rfl
  | append_singleton l c ih =>
      rw [List.rdropWhile_concat]
      by_cases hc : c = blank
      · rw [if_pos (decide_eq_true hc), ih, hc]
        by_cases hk : k < l.length
        · rw [List.getD_append _ _ _ _ hk]
        · rw [List.getD_eq_default _ _ (Nat.le_of_not_lt hk), List.getD_append_right _ _ _ _
            (Nat.le_of_not_lt hk)]
          rcases k - l.length with _ | j
          · rfl
          · rfl
      · rw [if_neg fun h => hc (of_decide_eq_true h)]

namespace ShortName

variable {name : List UInt8}

theorem toupper_eq (h : ShortName name) {c : UInt8} (hc : c ∈ name) : toupper c = c :=
  if_neg (h.chars c hc).2.2.2

/-- The string of a field. -/
theorem readField_eq (h : ShortName name) {field : List UInt8} (hsub : field ⊆ name) :
    readField field = field.rdropWhile (· = blank) := by
  refine List.takeWhile_eq_self_iff.mpr fun c hc => decide_eq_true fun h0 => ?_
  have hmem := hsub ((List.rdropWhile_prefix _ field).subset hc)
  have hle := (h.chars c hmem).1
  rw [h0] at hle
  exact absurd hle (by decide)

theorem readField_mem (h : ShortName name) {field : List UInt8} (hsub : field ⊆ name) {c : UInt8}
    (hc : c ∈ readField field) : c ∈ name := by
  rw [h.readField_eq hsub] at hc
  exact hsub ((List.rdropWhile_prefix _ field).subset hc)

/-- A field, as the comparison sees it. -/
theorem readField_getD (h : ShortName name) {field : List UInt8} (hsub : field ⊆ name) (k : Nat) :
    ((readField field).map toupper).getD k blank = field.getD k blank := by
  have hmap : (readField field).map toupper = readField field :=
    (List.map_congr_left fun c hc => h.toupper_eq (h.readField_mem hsub hc)).trans (List.map_id _)
  rw [hmap, h.readField_eq hsub]
  exact getD_rdropWhile field k

theorem dot_not_mem (h : ShortName name) {field : List UInt8} (hsub : field ⊆ name) :
    dot ∉ readField field := fun hdot => (h.chars dot (h.readField_mem hsub hdot)).2.2.1 rfl

theorem readField_length (h : ShortName name) {field : List UInt8} (hsub : field ⊆ name) :
    (readField field).length ≤ field.length := by
  rw [h.readField_eq hsub]
  exact (List.rdropWhile_prefix _ field).length_le

theorem base_sub (name : List UInt8) : name.take 8 ⊆ name := List.take_subset 8 name

theorem ext_sub (name : List UInt8) : (name.drop 8).take 3 ⊆ name :=
  fun _ hc => List.drop_subset 8 name (List.take_subset 3 _ hc)

/-- The characters of the extension. -/
theorem ext_getD (h : ShortName name) (k : Nat) :
    ((name.drop 8).take 3).getD k blank = name.getD (k + 8) blank := by
  have htake : (name.drop 8).take 3 = name.drop 8 := by
    refine List.take_of_length_le ?_
    rw [List.length_drop, h.length]
  rw [htake]
  simp [List.getD, List.getElem?_drop, Nat.add_comm]

/-- **What is printed is compared with the name itself.** -/
theorem name83_formatName (h : ShortName name) {k : Nat} (hk : k < 11) :
    name83 (formatName name) k = name.getD k blank := by
  have hbase := h.dot_not_mem (base_sub name)
  have hext := h.dot_not_mem (ext_sub name)
  have hbaseAt : ((readField (name.take 8)).map toupper).getD k blank =
      (name.take 8).getD k blank := h.readField_getD (base_sub name) k
  have hlen : (readField (name.take 8)).length ≤ 8 := by
    refine (h.readField_length (base_sub name)).trans ?_
    rw [List.length_take]
    exact Nat.min_le_left 8 _
  rw [formatName, readName]
  dsimp only
  by_cases hne : readField ((name.drop 8).take 3) ≠ []
  · rw [if_pos hne, name83_ext hbase hext hk, hbaseAt]
    by_cases h8 : 8 ≤ k
    · have htake : (name.take 8).getD k blank = blank :=
        List.getD_eq_default _ _ (by rw [List.length_take]; omega)
      rw [if_pos ⟨h8, by omega⟩, htake, h.readField_getD (ext_sub name), h.ext_getD]
      rw [Nat.sub_add_cancel h8]
    · rw [if_neg fun hn => h8 hn.1]
      simp [List.getD, Nat.lt_of_not_le h8]
  · have hblank : ∀ j, name.getD (j + 8) blank = blank := fun j => by
      rw [← h.ext_getD, ← h.readField_getD (ext_sub name), not_not.mp hne]
      rfl
    rw [if_neg hne, name83_base hbase hk, hbaseAt]
    by_cases h8 : 8 ≤ k
    · have htake : (name.take 8).getD k blank = blank :=
        List.getD_eq_default _ _ (by rw [List.length_take]; omega)
      have hat := hblank (k - 8)
      rw [Nat.sub_add_cancel h8] at hat
      rw [htake, hat]
    · simp [List.getD, Nat.lt_of_not_le h8]

theorem elevenOf_formatName (h : ShortName name) : elevenOf (name83 (formatName name)) = name := by
  refine List.ext_getElem (by rw [elevenOf, List.length_map, List.length_range, h.length]) ?_
  intro k hk hk'
  have h11 : k < 11 := by rwa [h.length] at hk'
  rw [← List.getD_eq_getElem _ blank hk', ← h.name83_formatName h11]
  simp [elevenOf]

/-- At most eight characters, a dot and three characters. -/
theorem formatName_length (h : ShortName name) : (formatName name).length ≤ 12 := by
  have hbase := h.readField_length (base_sub name)
  have hext := h.readField_length (ext_sub name)
  rw [List.length_take] at hbase hext
  rw [formatName, readName]
  dsimp only
  split
  · rw [List.length_append, List.length_cons]
    omega
  · omega

theorem plain (h : ShortName name) : Plain (formatName name) := by
  have hchar : ∀ c ∈ name, c ≠ 0 ∧ c < 0x80 := by
    intro c hc
    obtain ⟨hge, hle, -⟩ := h.chars c hc
    refine ⟨fun h0 => ?_, UInt8.lt_of_le_of_lt hle (by decide)⟩
    rw [h0] at hge
    exact absurd hge (by decide)
  intro c hc
  rw [formatName, readName] at hc
  dsimp only at hc
  split at hc
  · rcases List.mem_append.mp hc with hc | hc
    · exact hchar c (h.readField_mem (base_sub name) hc)
    · rcases List.mem_cons.mp hc with rfl | hc
      · decide
      · exact hchar c (h.readField_mem (ext_sub name) hc)
  · exact hchar c (h.readField_mem (base_sub name) hc)

end ShortName

/-! ## Directories -/

namespace Volume

variable {v : Volume} {A B L : List Slot} {s : Slot}

theorem listLoop_append (v : Volume) (A B : List Slot) :
    v.listLoop (A ++ B) = if (v.listLoop A).2 then v.listLoop A
      else ((v.listLoop A).1 ++ (v.listLoop B).1, (v.listLoop B).2) := by
  induction A with
  | nil => rfl
  | cons s A ih =>
      rw [List.cons_append, listLoop, listLoop, ih]
      by_cases h0 : v.byte s 0 = 0
      · rw [if_pos h0, if_pos h0]
        rfl
      · rw [if_neg h0, if_neg h0]
        by_cases he5 : v.byte s 0 = 0xe5
        · rw [if_pos he5, if_pos he5]
        · rw [if_neg he5, if_neg he5]
          by_cases hattr : v.attr s = kLongName
          · rw [if_pos hattr, if_pos hattr]
          · rw [if_neg hattr, if_neg hattr]
            dsimp only
            split <;> rfl

/-- What is printed is in use, and stands before the end mark. -/
theorem mem_listLoop (h : s ∈ (v.listLoop L).1) :
    ∃ A B, L = A ++ s :: B ∧ (∀ t ∈ A, v.byte t 0 ≠ 0) ∧ v.vacant s = false := by
  induction L with
  | nil => cases h
  | cons t L ih =>
      rw [listLoop] at h
      by_cases h0 : v.byte t 0 = 0
      · rw [if_pos h0] at h
        cases h
      · rw [if_neg h0] at h
        -- the entry is printed behind this one
        have hbehind : s ∈ (v.listLoop L).1 →
            ∃ A B, t :: L = A ++ s :: B ∧ (∀ u ∈ A, v.byte u 0 ≠ 0) ∧ v.vacant s = false := by
          intro hs
          obtain ⟨A, B, rfl, hA, hvacant⟩ := ih hs
          exact ⟨t :: A, B, rfl, List.forall_mem_cons.mpr ⟨h0, hA⟩, hvacant⟩
        by_cases he5 : v.byte t 0 = 0xe5
        · rw [if_pos he5] at h
          exact hbehind h
        · rw [if_neg he5] at h
          by_cases hattr : v.attr t = kLongName
          · rw [if_pos hattr] at h
            exact hbehind h
          · rw [if_neg hattr] at h
            rcases List.mem_cons.mp h with rfl | hs
            · refine ⟨[], L, rfl, fun u hu => (by cases hu), decide_eq_false ?_⟩
              rintro (h | h)
              · exact h0 h
              · exact he5 h
            · exact hbehind hs

/-- `ls` prints what the loop over all slots of the directory prints. -/
theorem listAllEntries_eq {dir : Nat} {l : List Nat} (hl : v.fat.IsChain dir l) {fuel : Nat}
    (hf : l.length < fuel) : v.listAllEntries fuel dir = some (v.listLoop (v.slots l)).1 := by
  obtain ⟨hl, hu⟩ := hl
  have hne : ∀ c ∈ l, c ≠ kEndOfClusterchain.toNat := by
    intro c hc heq
    have hlt := (hu c hc).2.1
    have hle := v.fat.size_le
    rw [heq] at hlt
    simp only [kEndOfClusterchain, UInt32.reduceToNat] at hlt
    omega
  induction hl generalizing fuel with
  | @last c hn =>
      obtain ⟨fuel, rfl⟩ := Nat.exists_eq_succ_of_ne_zero (Nat.ne_zero_of_lt hf)
      obtain ⟨fuel, rfl⟩ := Nat.exists_eq_succ_of_ne_zero (n := fuel) (by
        rw [List.length_singleton] at hf
        omega)
      have hc := hu c List.mem_cons_self
      have hslots : v.slots [c] = v.slotsOf c := List.append_nil _
      have hnext := Table.nextCluster_end hc.2.1 hn
      have hrest : v.listAllEntries (fuel + 1) kEndOfClusterchain.toNat = some [] := by
        rw [listAllEntries, if_pos rfl]
      rw [listAllEntries, if_neg (hne c List.mem_cons_self), hslots]
      simp only [v.inside_of_used hc, guard, Option.pure_def, Option.bind_eq_bind, Option.bind_some,
        hnext, hrest, List.append_nil, if_true]
      split <;> rfl
  | @cons c d l hs ht ih =>
      obtain ⟨fuel, rfl⟩ := Nat.exists_eq_succ_of_ne_zero (Nat.ne_zero_of_lt hf)
      rw [List.length_cons] at hf
      have hc := hu c List.mem_cons_self
      have hslots : v.slots (c :: l) = v.slotsOf c ++ v.slots l := rfl
      obtain ⟨next, hnext, -, hd⟩ := Table.nextCluster_link hc.2.1 hs
      have hrest := ih (Nat.lt_of_succ_lt_succ hf) (fun x hx => hu x (List.mem_cons_of_mem c hx))
        fun x hx => hne x (List.mem_cons_of_mem c hx)
      rw [listAllEntries, if_neg (hne c List.mem_cons_self), hslots, listLoop_append]
      simp only [v.inside_of_used hc, guard, Option.pure_def, Option.bind_eq_bind, Option.bind_some,
        hnext, hd, hrest, if_true]
      split <;> rfl

/-- What `ls` prints for an entry: the entry has that name, and no entry with another one has. -/
theorem nameIsEqual_formatName (h : ShortName (v.name s)) (t : Slot) :
    v.nameIsEqual t (formatName (v.name s)) = decide (v.name t = v.name s) := by
  rw [nameIsEqual, h.elevenOf_formatName]

end Volume

/-- **Listed names.**  For an entry with a short name `ls` prints at most twelve characters,
`NameIsEqual` takes them for the name of this entry and of no entry with another name; and in a
directory that has the name once they lead `FindFile` to the entry. -/
theorem listed_name_denotes {v : Volume} {s : Slot} (h : ShortName (v.name s)) :
    v.nameIsEqual s (formatName (v.name s)) = true ∧ (formatName (v.name s)).length ≤ 12 ∧
      (∀ t, v.name t ≠ v.name s → v.nameIsEqual t (formatName (v.name s)) = false) ∧
      ∀ d l, v.fat.IsChain d l → ∃ L, v.listAllEntries (l.length + 1) d = some L ∧
        (s ∈ L → (∀ t, v.Listed d t → v.name t = v.name s → t = s) →
          v.search (formatName (v.name s)) d = some (some s)) := by
  refine ⟨?_, h.formatName_length, fun t ht => ?_, fun d l hl => ?_⟩
  · rw [Volume.nameIsEqual_formatName h, decide_eq_true rfl]
  · rw [Volume.nameIsEqual_formatName h, decide_eq_false ht]
  · refine ⟨_, Volume.listAllEntries_eq hl (Nat.lt_succ_self _), fun hs honce => ?_⟩
    obtain ⟨A, B, hsplit, hA, hvacant⟩ := Volume.mem_listLoop hs
    have hlisted : v.Listed d s := ⟨l, hl, A, B, hsplit, hA, hvacant⟩
    have hname := h.elevenOf_formatName.symm
    cases hlook : v.lookup (formatName (v.name s)) (v.slots l) with
    | none => exact absurd hlook (Volume.lookup_listed hl hlisted hname)
    | some t =>
        have hsearch : v.search (formatName (v.name s)) d = some (some t) := by
          rw [Volume.search_eq hl, hlook]
        obtain ⟨ht, hteq, -⟩ := Volume.search_some hl h.plain hsearch
        rw [hsearch, honce t ht (hteq.trans hname.symm)]

/-- A root directory with the file `a.txt`. -/
def listedFile : Volume := State.small.vol.created ⟨2, 0⟩ [0x61, dot, 0x74, 0x78, 0x74]

theorem listedFile_shortName : ShortName (listedFile.name ⟨2, 0⟩) where
  length := rfl
  chars := by decide +kernel
  base := by decide +kernel
  ext := .inr (by decide +kernel)

/-- `A.TXT` -/
theorem listed_name_sample :
    listedFile.nameIsEqual ⟨2, 0⟩ [0x41, dot, 0x54, 0x58, 0x54] = true ∧
      (∀ t, listedFile.name t ≠ listedFile.name ⟨2, 0⟩ →
        listedFile.nameIsEqual t [0x41, dot, 0x54, 0x58, 0x54] = false) := by
  have h := listed_name_denotes listedFile_shortName
  have hformat : formatName (listedFile.name ⟨2, 0⟩) = [0x41, dot, 0x54, 0x58, 0x54] := by
    decide +kernel
  rw [hformat] at h
  exact ⟨h.1, h.2.2.1⟩

end Laplus.Fat
