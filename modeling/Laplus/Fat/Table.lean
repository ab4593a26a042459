/-
# `Laplus.Fat.Table` — the table and its allocator

The FAT maps a cluster to the next cluster of its chain; zero marks a free
cluster, a value from `0x0ffffff8` on the end of a chain.  `ExtendCluster`
and `AllocateClusterChain` look for free clusters from cluster 2 on, in loops
that have no bound of their own: an access beyond the table has no value
here, and neither has a walk along a chain that never ends.

`relink` is what both do to the table when the clusters suffice: they hang
the first free clusters, in their order, behind the end of the chain.
-/
import Laplus.Lib.Chain
import Mathlib.Algebra.Group.Nat.Defs
import Mathlib.Data.List.Range
import Mathlib.Logic.Function.Basic

namespace Laplus.Fat

open Lib

/-! ## The table -/

/-- `kEndOfClusterchain`. -/
def kEndOfClusterchain : UInt32 := 0x0fffffff

/-- `IsEndOfClusterchain`. -/
def isEndOfClusterchain (cluster : UInt32) : Bool := cluster ≥ 0x0ffffff8

/-- What `GetFAT` points to.  The cluster numbers stay below the end marks. -/
structure Table where
  size : Nat
  entry : Nat → UInt32
  size_le : size ≤ 0x0ffffff8

namespace Table

/-- `fat[cluster]`. -/
def get? (fat : Table) (cluster : Nat) : Option UInt32 :=
  if cluster < fat.size then some (fat.entry cluster) else none

/-- `fat[cluster] = v`. -/
def set (fat : Table) (cluster : Nat) (v : UInt32) : Table :=
  { fat with entry := Function.update fat.entry cluster v }

/-- `NextCluster`. -/
def nextCluster (fat : Table) (cluster : Nat) : Option UInt32 := do
  let next ← fat.get? cluster
  if isEndOfClusterchain next then return kEndOfClusterchain
  return next

/-- The `while` loop of `ExtendCluster`: the end of the chain of a cluster. -/
def seekEnd (fat : Table) : Nat → Nat → Option Nat
  | 0, _ => none
  | fuel + 1, cluster => do
      let next ← fat.get? cluster
      if isEndOfClusterchain next then return cluster
      fat.seekEnd fuel next.toNat

/-- The `for` loop of `ExtendCluster` over the candidates the table still has. -/
def extendLoop : List Nat → Table → Nat → Nat → Option (Table × Nat)
  | _, fat, current, 0 => some (fat.set current kEndOfClusterchain, current)
  | [], _, _, _ + 1 => none
  | candidate :: rest, fat, current, n + 1 =>
      if fat.entry candidate ≠ 0 then extendLoop rest fat current (n + 1)
      else extendLoop rest (fat.set current (UInt32.ofNat candidate)) candidate n

/-- The clusters of the table. -/
def candidates (fat : Table) : List Nat := List.range' 2 (fat.size - 2)

/-- `ExtendCluster`.  A walk that is longer than the table goes round in it. -/
def extendCluster (fat : Table) (eocCluster n : Nat) : Option (Table × Nat) := do
  let eocCluster ← fat.seekEnd fat.size eocCluster
  extendLoop fat.candidates fat eocCluster n

/-- `AllocateClusterChain`. -/
def allocateClusterChain (fat : Table) (n : Nat) : Option (Table × Nat) := do
  let firstCluster ← fat.candidates.find? (fat.entry · = 0)
  let fat := fat.set firstCluster kEndOfClusterchain
  if n > 1 then
    let (fat, _) ← fat.extendCluster firstCluster (n - 1)
    return (fat, firstCluster)
  return (fat, firstCluster)

@[simp] theorem set_size (fat : Table) (c : Nat) (v : UInt32) : (fat.set c v).size = fat.size :=
  rfl

@[simp] theorem set_self (fat : Table) (c : Nat) (v : UInt32) : (fat.set c v).entry c = v := by
  simp only [set, Function.update_self]

theorem set_of_ne (fat : Table) {c x : Nat} (v : UInt32) (h : x ≠ c) :
    (fat.set c v).entry x = fat.entry x := by
  simp only [set, Function.update_of_ne h]

@[simp] theorem set_set (fat : Table) (c : Nat) (v w : UInt32) :
    (fat.set c v).set c w = fat.set c w := by
  simp only [set, Function.update_idem]

theorem mem_candidates {fat : Table} {c : Nat} : c ∈ fat.candidates ↔ 2 ≤ c ∧ c < fat.size := by
  rw [candidates, List.mem_range'_1]
  omega

theorem nodup_candidates (fat : Table) : fat.candidates.Nodup := List.nodup_range'

/-- A cluster number survives the table's 32 bits. -/
theorem toNat_ofNat {fat : Table} {c : Nat} (h : c < fat.size) : (UInt32.ofNat c).toNat = c := by
  have hs := fat.size_le
  rw [UInt32.toNat_ofNat']
  omega

/-- A cluster number is no mark of a free cluster. -/
theorem ofNat_ne_zero {fat : Table} {c : Nat} (h2 : 2 ≤ c) (h : c < fat.size) :
    UInt32.ofNat c ≠ 0 := by
  intro h0
  have hc := toNat_ofNat h
  rw [h0, UInt32.toNat_zero] at hc
  omega

/-- A cluster number is no end mark. -/
theorem not_end {fat : Table} {c : Nat} (h : c < fat.size) :
    isEndOfClusterchain (UInt32.ofNat c) = false := by
  have hs := fat.size_le
  have hc := toNat_ofNat h
  simp only [isEndOfClusterchain, ge_iff_le, decide_eq_false_iff_not, UInt32.le_iff_toNat_le,
    hc, UInt32.reduceToNat]
  omega

/-! ## Chains -/

/-- The link of a cluster, if it is not the last of its chain. -/
def link (fat : Table) (cluster : Nat) : Option Nat :=
  if isEndOfClusterchain (fat.entry cluster) then none else some (fat.entry cluster).toNat

/-- A cluster of the table that is not free. -/
def Used (fat : Table) (cluster : Nat) : Prop :=
  2 ≤ cluster ∧ cluster < fat.size ∧ fat.entry cluster ≠ 0

/-- A cluster of the table that is free. -/
def Free (fat : Table) (cluster : Nat) : Prop :=
  2 ≤ cluster ∧ cluster < fat.size ∧ fat.entry cluster = 0

/-- The links from `head` run through `l`, inside the table, to an end mark, and
no cluster of `l` is free. -/
def IsChain (fat : Table) (head : Nat) (l : List Nat) : Prop :=
  Chain fat.link head l ∧ ∀ c ∈ l, fat.Used c

/-- The free clusters, in the order of the search. -/
def freeList (fat : Table) : List Nat := fat.candidates.filter (fat.entry · = 0)

theorem mem_freeList {fat : Table} {c : Nat} : c ∈ fat.freeList ↔ fat.Free c := by
  simp only [freeList, List.mem_filter, mem_candidates, decide_eq_true_eq, Free, and_assoc]

theorem nodup_freeList (fat : Table) : fat.freeList.Nodup := fat.nodup_candidates.filter _

theorem IsChain.mem_head {fat : Table} {h : Nat} {l : List Nat} (hl : fat.IsChain h l) : h ∈ l :=
  hl.1.mem_head

/-- A used cluster that is not the last links to the next one. -/
theorem link_ofNat {fat : Table} {c d : Nat} (h : fat.entry c = UInt32.ofNat d)
    (hd : d < fat.size) : fat.link c = some d := by
  simp only [link, h, not_end hd, Bool.false_eq_true, if_false, toNat_ofNat hd]

theorem link_end {fat : Table} {c : Nat} (h : fat.entry c = kEndOfClusterchain) :
    fat.link c = none := by
  rw [link, h]
  rfl

/-- `NextCluster` within a chain. -/
theorem nextCluster_link {fat : Table} {c d : Nat} (hc : c < fat.size) (h : fat.link c = some d) :
    ∃ next, fat.nextCluster c = some next ∧ next ≠ kEndOfClusterchain ∧ next.toNat = d := by
  have he : isEndOfClusterchain (fat.entry c) = false := by
    by_contra he
    simp [link, he] at h
  refine ⟨fat.entry c, by simp [nextCluster, get?, hc, he], ?_, by simpa [link, he] using h⟩
  intro hk
  rw [hk] at he
  exact absurd he (by decide)

/-- `NextCluster` at the end of a chain. -/
theorem nextCluster_end {fat : Table} {c : Nat} (hc : c < fat.size) (h : fat.link c = none) :
    fat.nextCluster c = some kEndOfClusterchain := by
  have he : isEndOfClusterchain (fat.entry c) = true := by
    by_contra he
    simp [link, he] at h
  simp [nextCluster, get?, hc, he]

theorem link_congr {fat fat' : Table} {c : Nat} (h : fat'.entry c = fat.entry c) :
    fat'.link c = fat.link c := by
  simp only [link, h]

/-- A table that agrees on a chain has the chain. -/
theorem IsChain.congr {fat fat' : Table} {h : Nat} {l : List Nat} (hl : fat.IsChain h l)
    (hs : fat'.size = fat.size) (he : ∀ c ∈ l, fat'.entry c = fat.entry c) : fat'.IsChain h l := by
  refine ⟨hl.1.congr fun c hc => link_congr (he c hc), fun c hc => ?_⟩
  rw [Used, hs, he c hc]
  exact hl.2 c hc

theorem IsChain.length_le {fat : Table} {h : Nat} {l : List Nat} (hl : fat.IsChain h l) :
    l.length ≤ fat.size :=
  hl.1.length_le fun c hc => (hl.2 c hc).2.1

/-- The rest of a chain is the chain of its first cluster. -/
theorem IsChain.of_mem {fat : Table} {h c : Nat} {l : List Nat} (hl : fat.IsChain h l)
    (hc : c ∈ l) : ∃ s t, l = s ++ t ∧ fat.IsChain c t := by
  obtain ⟨s, t, rfl, ht⟩ := hl.1.of_mem hc
  exact ⟨s, t, rfl, ht, fun x hx => hl.2 x (List.mem_append_right s hx)⟩

/-- The last cluster is a chain of its own. -/
theorem IsChain.getLast {fat : Table} {h : Nat} {l : List Nat} (hl : fat.IsChain h l) :
    fat.IsChain (l.getLast hl.1.ne_nil) [l.getLast hl.1.ne_nil] := by
  refine ⟨.last hl.1.next_getLast, fun c hc => ?_⟩
  rw [List.mem_singleton.mp hc]
  exact hl.2 _ (List.getLast_mem hl.1.ne_nil)

/-- No free cluster is on a chain. -/
theorem IsChain.not_free {fat : Table} {h c : Nat} {l : List Nat} (hl : fat.IsChain h l)
    (hc : fat.Free c) : c ∉ l :=
  fun hmem => (hl.2 c hmem).2.2 hc.2.2

/-- The walk of `ExtendCluster` ends at the end of the chain. -/
theorem seekEnd_eq {fat : Table} {c : Nat} {l : List Nat} (hl : fat.IsChain c l) {fuel : Nat}
    (hf : l.length ≤ fuel) : fat.seekEnd fuel c = some (l.getLast hl.1.ne_nil) := by
  obtain ⟨hl, hu⟩ := hl
  induction hl generalizing fuel with
  | @last c hn =>
      obtain ⟨fuel, rfl⟩ := Nat.exists_eq_succ_of_ne_zero (Nat.one_le_iff_ne_zero.mp hf)
      have hc := (hu c List.mem_cons_self).2.1
      have he : isEndOfClusterchain (fat.entry c) = true := by
        by_contra he
        simp [link, he] at hn
      simp [seekEnd, get?, hc, he]
  | @cons c d l hs ht ih =>
      rw [List.length_cons] at hf
      obtain ⟨fuel, rfl⟩ := Nat.exists_eq_succ_of_ne_zero (Nat.ne_zero_of_lt hf)
      have hc := (hu c List.mem_cons_self).2.1
      have he : isEndOfClusterchain (fat.entry c) = false := by
        by_contra he
        simp [link, he] at hs
      have hd : (fat.entry c).toNat = d := by simpa [link, he] using hs
      have hnext := ih (Nat.le_of_succ_le_succ hf) fun x hx => hu x (List.mem_cons_of_mem c hx)
      simp [seekEnd, get?, hc, he, hd, hnext, List.getLast_cons ht.ne_nil]

/-! ## Relinking -/

/-- `l` hung behind the cluster `c`, and the end mark behind the last. -/
def relink (fat : Table) (c : Nat) : List Nat → Table
  | [] => fat.set c kEndOfClusterchain
  | d :: l => (fat.set c (UInt32.ofNat d)).relink d l

@[simp] theorem relink_size (fat : Table) (c : Nat) (l : List Nat) :
    (fat.relink c l).size = fat.size := by
  induction l generalizing fat c with
  | nil => rfl
  | cons d l ih => rw [relink, ih, set_size]

theorem relink_set (fat : Table) (c : Nat) (v : UInt32) (l : List Nat) :
    (fat.set c v).relink c l = fat.relink c l := by
  cases l with
  | nil => exact set_set fat c v _
  | cons d l => rw [relink, relink, set_set]

/-- Relinking behind the end of what was relinked. -/
theorem relink_append (fat : Table) (c : Nat) (l m : List Nat) :
    (fat.relink c l).relink ((c :: l).getLast (List.cons_ne_nil c l)) m =
      fat.relink c (l ++ m) := by
  induction l generalizing fat c with
  | nil => exact relink_set fat c _ m
  | cons d l ih =>
      rw [relink, List.cons_append, relink, List.getLast_cons (List.cons_ne_nil d l)]
      exact ih _ d

theorem relink_of_not_mem (fat : Table) {c x : Nat} {l : List Nat} (hx : x ∉ c :: l) :
    (fat.relink c l).entry x = fat.entry x := by
  induction l generalizing fat c with
  | nil => exact set_of_ne fat _ (List.ne_of_not_mem_cons hx)
  | cons d l ih =>
      rw [relink, ih _ (List.not_mem_of_not_mem_cons hx)]
      exact set_of_ne fat _ (List.ne_of_not_mem_cons hx)

/-- The relinked clusters are a chain. -/
theorem relink_chain {fat : Table} {c : Nat} {l : List Nat} (hnd : (c :: l).Nodup)
    (hl : ∀ d ∈ l, d < fat.size) : Chain (fat.relink c l).link c (c :: l) := by
  induction l generalizing fat c with
  | nil => exact .last (link_end (set_self fat c _))
  | cons d l ih =>
      obtain ⟨hc, hnd⟩ := List.nodup_cons.mp hnd
      have hd : d < fat.size := hl d List.mem_cons_self
      refine .cons (link_ofNat ?_ (by rwa [relink_size])) ?_
      · rw [relink, relink_of_not_mem _ hc, set_self]
      · exact ih hnd fun x hx => hl x (List.mem_cons_of_mem d hx)

/-- The relinked clusters are in use. -/
theorem relink_used {fat : Table} {c : Nat} {l : List Nat} (hnd : (c :: l).Nodup)
    (hl : ∀ d ∈ c :: l, 2 ≤ d ∧ d < fat.size) : ∀ d ∈ c :: l, (fat.relink c l).Used d := by
  induction l generalizing fat c with
  | nil =>
      intro d hd
      obtain rfl := List.mem_singleton.mp hd
      refine ⟨(hl d hd).1, (hl d hd).2, ?_⟩
      rw [relink, set_self]
      decide
  | cons e l ih =>
      obtain ⟨hc, hnd⟩ := List.nodup_cons.mp hnd
      intro d hd
      rcases List.mem_cons.mp hd with rfl | hd
      · have he := hl e (List.mem_cons_of_mem d List.mem_cons_self)
        obtain ⟨h2, hlt⟩ := hl d List.mem_cons_self
        refine ⟨h2, by rwa [relink_size], fun h0 => ?_⟩
        rw [relink, relink_of_not_mem _ hc, set_self] at h0
        exact ofNat_ne_zero he.1 he.2 h0
      · rw [relink]
        refine ih hnd (fun x hx => ?_) d hd
        exact hl x (List.mem_cons_of_mem c hx)

/-- A written link takes or frees no other cluster. -/
theorem filter_set {fat : Table} {c : Nat} {v : UInt32} {l : List Nat} (hv : v ≠ 0)
    (hc : c ∈ l → fat.entry c ≠ 0) :
    l.filter ((fat.set c v).entry · = 0) = l.filter (fat.entry · = 0) := by
  refine List.filter_congr fun x hx => ?_
  by_cases hxc : x = c
  · subst hxc
    simp [hv, hc hx]
  · rw [set_of_ne fat v hxc]

/-- The search writes the first `n` free candidates behind the current cluster. -/
theorem extendLoop_eq {rest : List Nat} {fat : Table} {current n : Nat} (hnd : rest.Nodup)
    (hr : ∀ d ∈ rest, 2 ≤ d ∧ d < fat.size) (hc : current ∈ rest → fat.entry current ≠ 0) :
    extendLoop rest fat current n =
      let free := rest.filter (fat.entry · = 0)
      if n ≤ free.length then
        some (fat.relink current (free.take n), (current :: free.take n).getLast (by simp))
      else none := by
  induction rest generalizing fat current n with
  | nil => cases n <;> simp [extendLoop, relink]
  | cons d rest ih =>
      obtain ⟨hd, hnd⟩ := List.nodup_cons.mp hnd
      have hr' : ∀ x ∈ rest, 2 ≤ x ∧ x < fat.size := fun x hx => hr x (List.mem_cons_of_mem d hx)
      have hc' : current ∈ rest → fat.entry current ≠ 0 := fun hm => hc (List.mem_cons_of_mem d hm)
      cases n with
      | zero => simp [extendLoop, relink]
      | succ n =>
          by_cases h0 : fat.entry d = 0
          · obtain ⟨h2, hlt⟩ := hr d List.mem_cons_self
            -- the write to the current cluster changes nothing for the later candidates
            have hfree := filter_set (ofNat_ne_zero h2 hlt) hc'
            have hr'' : ∀ x ∈ rest, 2 ≤ x ∧ x < (fat.set current (UInt32.ofNat d)).size := hr'
            rw [extendLoop, if_neg (not_not.mpr h0), ih hnd hr'' fun hm => absurd hm hd, hfree]
            simp [h0, relink]
          · have hnext := ih (n := n + 1) hnd hr' hc'
            simp only [extendLoop, ne_eq, h0, not_false_eq_true, if_true, hnext]
            simp [h0]

/-- The table after `ExtendCluster`: the first `n` free clusters behind the end. -/
theorem extendCluster_eq {fat : Table} {c : Nat} {l : List Nat} (hl : fat.IsChain c l) (n : Nat) :
    fat.extendCluster c n =
      if n ≤ fat.freeList.length then
        some (fat.relink (l.getLast hl.1.ne_nil) (fat.freeList.take n),
          (l.getLast hl.1.ne_nil :: fat.freeList.take n).getLast (by simp))
      else none := by
  have hlast := hl.2 _ (List.getLast_mem hl.1.ne_nil)
  rw [extendCluster, seekEnd_eq hl hl.length_le, Option.bind_eq_bind, Option.bind_some,
    extendLoop_eq fat.nodup_candidates (fun d => mem_candidates.mp) fun _ => hlast.2.2]
  rfl

/-- The walk stops at an end mark only. -/
theorem seekEnd_end {fat : Table} {fuel c e : Nat} (h : fat.seekEnd fuel c = some e) :
    isEndOfClusterchain (fat.entry e) = true := by
  induction fuel generalizing c with
  | zero => cases h
  | succ fuel ih =>
      simp only [seekEnd, get?, Option.bind_eq_bind, Option.pure_def] at h
      by_cases hc : c < fat.size
      · by_cases he : isEndOfClusterchain (fat.entry c) = true
        · obtain rfl : c = e := by simpa [hc, he] using h
          exact he
        · exact ih (by simpa [hc, he] using h)
      · simp [hc] at h

/-- Without enough free clusters the search leaves the table. -/
theorem extendCluster_short {fat : Table} {c n : Nat} (hn : fat.freeList.length < n) :
    fat.extendCluster c n = none := by
  rw [extendCluster, Option.bind_eq_bind, Option.bind_eq_none_iff]
  intro e he
  have hne : fat.entry e ≠ 0 := fun h0 => by
    have hend := seekEnd_end he
    rw [h0] at hend
    exact absurd hend (by decide)
  rw [extendLoop_eq fat.nodup_candidates (fun d => mem_candidates.mp) fun _ => hne]
  exact if_neg (Nat.not_le.mpr hn)

theorem freeList_find (fat : Table) :
    fat.candidates.find? (fat.entry · = 0) = fat.freeList.head? := by
  rw [freeList, List.head?_filter]

/-- Taking the first free cluster leaves the others. -/
theorem freeList_set {fat : Table} {c : Nat} {l : List Nat} (hl : fat.freeList = c :: l)
    {v : UInt32} (hv : v ≠ 0) : (fat.set c v).freeList = l := by
  have hnd : (c :: l).Nodup := hl ▸ fat.nodup_freeList
  have hc := (List.nodup_cons.mp hnd).1
  have hfilter : (fat.set c v).freeList = fat.freeList.filter (· ≠ c) := by
    rw [freeList, freeList, List.filter_filter]
    refine List.filter_congr fun x _ => ?_
    by_cases hx : x = c
    · subst hx
      simp [hv]
    · simp [set_of_ne fat v hx, hx]
  rw [hfilter, hl]
  have hself : (c :: l).filter (· ≠ c) = l.filter (· ≠ c) := by simp
  rw [hself, List.filter_eq_self]
  intro x hx
  exact decide_eq_true fun he => hc (he ▸ hx)

/-- What is free after free clusters were relinked from the first on. -/
theorem freeList_relink {fat : Table} {c : Nat} {l rest : List Nat}
    (h : fat.freeList = c :: l ++ rest) : (fat.relink c l).freeList = rest := by
  induction l generalizing fat c with
  | nil => exact freeList_set h (by decide)
  | cons d l ih =>
      have hd : fat.Free d := mem_freeList.mp (by simp [h])
      exact ih (freeList_set h (ofNat_ne_zero hd.1 hd.2.1))

theorem chain_single {fat : Table} {c : Nat} (hc : fat.Free c) :
    (fat.set c kEndOfClusterchain).IsChain c [c] := by
  refine ⟨.last (link_end (set_self fat c _)), fun x hx => ?_⟩
  obtain rfl := List.mem_singleton.mp hx
  exact ⟨hc.1, hc.2.1, by rw [set_self]; decide⟩

/-- The table after `AllocateClusterChain`: the first free clusters in a chain. -/
theorem allocateClusterChain_eq {fat : Table} {first : Nat} {l : List Nat}
    (hl : fat.freeList = first :: l) (n : Nat) :
    fat.allocateClusterChain n =
      if n - 1 ≤ l.length then some (fat.relink first (l.take (n - 1)), first) else none := by
  have hfree : fat.Free first := mem_freeList.mp (hl ▸ List.mem_cons_self)
  have hfree' := freeList_set hl (v := kEndOfClusterchain) (by decide)
  rw [allocateClusterChain, freeList_find, hl]
  simp only [List.head?_cons, Option.bind_eq_bind, Option.bind_some, gt_iff_lt, Option.pure_def]
  by_cases hn : 1 < n
  · rw [if_pos hn, extendCluster_eq (chain_single hfree), hfree']
    by_cases hle : n - 1 ≤ l.length
    · simp [hle, relink_set]
    · simp [hle]
  · have h0 : n - 1 = 0 := by omega
    simp [hn, h0, relink]

/-- Without a free cluster, or without enough, the search leaves the table. -/
theorem allocateClusterChain_short {fat : Table} {n : Nat} (hn : fat.freeList.length < max n 1) :
    fat.allocateClusterChain n = none := by
  cases hl : fat.freeList with
  | nil => simp [allocateClusterChain, freeList_find, hl]
  | cons first l =>
      rw [hl, List.length_cons] at hn
      rw [allocateClusterChain_eq hl, if_neg (by omega)]

/-! ## What the allocator leaves -/

/-- A chain after free clusters were hung behind its end. -/
theorem IsChain.extend {fat : Table} {h : Nat} {l m : List Nat} (hl : fat.IsChain h l)
    (hm : ∀ c ∈ m, fat.Free c) (hnd : m.Nodup) :
    (fat.relink (l.getLast hl.1.ne_nil) m).IsChain h (l ++ m) := by
  have hlast := List.getLast_mem hl.1.ne_nil
  have hndl : (l.getLast hl.1.ne_nil :: m).Nodup :=
    List.nodup_cons.mpr ⟨fun hc => hl.not_free (hm _ hc) hlast, hnd⟩
  -- a cluster of the chain other than its last is not rewritten
  have hkept : ∀ x ∈ l, x ≠ l.getLast hl.1.ne_nil →
      (fat.relink (l.getLast hl.1.ne_nil) m).entry x = fat.entry x := fun x hx hne =>
    relink_of_not_mem fat (List.not_mem_cons_of_ne_of_not_mem hne fun hc =>
      hl.not_free (hm x hc) hx)
  have hrange : ∀ d ∈ l.getLast hl.1.ne_nil :: m, 2 ≤ d ∧ d < fat.size := fun d hd => by
    rcases List.mem_cons.mp hd with rfl | hd
    · exact ⟨(hl.2 _ hlast).1, (hl.2 _ hlast).2.1⟩
    · exact ⟨(hm d hd).1, (hm d hd).2.1⟩
  constructor
  · refine hl.1.splice (fun x hx => link_congr (hkept x (List.dropLast_subset l hx) ?_))
      (relink_chain hndl fun d hd => (hm d hd).2.1)
    exact hl.1.nodup.rel_dropLast_getLast hx
  · intro x hx
    by_cases hxm : x ∈ l.getLast hl.1.ne_nil :: m
    · exact relink_used hndl hrange x hxm
    · have hxl : x ∈ l := (List.mem_append.mp hx).resolve_right fun hm' =>
        hxm (List.mem_cons_of_mem _ hm')
      obtain ⟨h2, hlt, hne⟩ := hl.2 x hxl
      refine ⟨h2, by rwa [relink_size], ?_⟩
      rwa [hkept x hxl (List.ne_of_not_mem_cons hxm)]

/-- Free clusters linked to one another are a chain. -/
theorem relink_free {fat : Table} {c : Nat} {m : List Nat} (hm : ∀ d ∈ c :: m, fat.Free d)
    (hnd : (c :: m).Nodup) : (fat.relink c m).IsChain c (c :: m) :=
  ⟨relink_chain hnd fun d hd => (hm d (List.mem_cons_of_mem c hd)).2.1,
    relink_used hnd fun d hd => ⟨(hm d hd).1, (hm d hd).2.1⟩⟩

/-- A chain that shares no cluster with the relinked ones keeps its entries. -/
theorem relink_kept {fat : Table} {c : Nat} {l m : List Nat} (hd : l.Disjoint (c :: m)) :
    ∀ x ∈ l, (fat.relink c m).entry x = fat.entry x :=
  fun _ hx => relink_of_not_mem fat (List.disjoint_left.mp hd hx)

/-- Entries below 2^28 stay below. -/
theorem relink_below {fat : Table} {c : Nat} {m : List Nat} (hm : ∀ d ∈ m, d < fat.size)
    (h : ∀ x < fat.size, (fat.entry x).toNat < 2 ^ 28) :
    ∀ x < fat.size, ((fat.relink c m).entry x).toNat < 2 ^ 28 := by
  induction m generalizing fat c with
  | nil =>
      intro x hx
      by_cases hxc : x = c
      · rw [hxc, relink, set_self]
        decide
      · rw [relink, set_of_ne fat _ hxc]
        exact h x hx
  | cons d m ih =>
      rw [relink]
      have hm' : ∀ e ∈ m, e < (fat.set c (UInt32.ofNat d)).size :=
        fun e he => hm e (List.mem_cons_of_mem d he)
      refine ih hm' fun x hx => ?_
      by_cases hxc : x = c
      · have hd := hm d List.mem_cons_self
        have hs := fat.size_le
        rw [hxc, set_self, toNat_ofNat hd]
        omega
      · rw [set_of_ne fat _ hxc]
        exact h x hx

theorem IsChain.unique {fat : Table} {h : Nat} {l l' : List Nat} (hl : fat.IsChain h l)
    (hl' : fat.IsChain h l') : l = l' :=
  hl.1.unique hl'.1

/-! ## Well-formed tables -/

/-- The chains of two clusters share no cluster. -/
def Apart (fat : Table) (h h' : Nat) : Prop :=
  ∀ l l', fat.IsChain h l → fat.IsChain h' l' → l.Disjoint l'

instance apartSymm (fat : Table) : Std.Symm fat.Apart where
  symm _ _ h l l' hl hl' := List.disjoint_comm.mp (h l' l hl' hl)

/-- The chains from the heads run inside the table to an end mark and are
disjoint.  That they have no cycle is `Chain.nodup`. -/
structure WellFormed (fat : Table) (heads : List Nat) : Prop where
  below : ∀ c < fat.size, (fat.entry c).toNat < 2 ^ 28
  chain : ∀ h ∈ heads, ∃ l, fat.IsChain h l
  apart : heads.Pairwise fat.Apart

/-- The chain of a head and its entries are as they were. -/
def Kept (fat fat' : Table) (h : Nat) : Prop :=
  ∀ l, fat.IsChain h l → fat'.IsChain h l ∧ ∀ c ∈ l, fat'.entry c = fat.entry c

theorem Kept.of_relink {fat : Table} {h c : Nat} {m : List Nat}
    (hd : ∀ l, fat.IsChain h l → l.Disjoint (c :: m)) : fat.Kept (fat.relink c m) h := fun l hl =>
  have hk := relink_kept (hd l hl)
  ⟨hl.congr (relink_size fat c m) hk, hk⟩

namespace WellFormed

variable {fat : Table} {heads : List Nat}

/-- Two different heads have disjoint chains. -/
theorem disjoint (hw : fat.WellFormed heads) {h h' : Nat} (hh : h ∈ heads) (hh' : h' ∈ heads)
    (hne : h ≠ h') : fat.Apart h h' :=
  hw.apart.forall hh hh' hne

/-- Clusters that were free are hung behind a chain: the other chains are kept. -/
theorem kept_extend (hw : fat.WellFormed heads) {h h' : Nat} {l m : List Nat} (hh : h ∈ heads)
    (hh' : h' ∈ heads) (hne : h' ≠ h) (hl : fat.IsChain h l) (hm : ∀ c ∈ m, fat.Free c) :
    fat.Kept (fat.relink (l.getLast hl.1.ne_nil) m) h' := by
  refine Kept.of_relink fun l' hl' => List.disjoint_right.mpr fun x hx => ?_
  rcases List.mem_cons.mp hx with rfl | hx
  · exact List.disjoint_right.mp (hw.disjoint hh' hh hne l' l hl' hl) (List.getLast_mem _)
  · exact hl'.not_free (hm x hx)

/-- The table stays well formed when free clusters are hung behind a chain. -/
theorem extend (hw : fat.WellFormed heads) {h : Nat} {l m : List Nat} (hh : h ∈ heads)
    (hl : fat.IsChain h l) (hm : ∀ c ∈ m, fat.Free c) (hnd : m.Nodup) :
    (fat.relink (l.getLast hl.1.ne_nil) m).WellFormed heads := by
  have hext := hl.extend hm hnd
  have hkept : ∀ h' ∈ heads, h' ≠ h → fat.Kept (fat.relink (l.getLast hl.1.ne_nil) m) h' :=
    fun h' hh' hne => hw.kept_extend hh hh' hne hl hm
  have back : ∀ {h' : Nat} {l' : List Nat}, h' ∈ heads →
      (fat.relink (l.getLast hl.1.ne_nil) m).IsChain h' l' →
      h' = h ∧ l' = l ++ m ∨ h' ≠ h ∧ fat.IsChain h' l' := fun {h' l'} hh' hl' => by
    by_cases he : h' = h
    · exact .inl ⟨he, hl'.unique (he ▸ hext)⟩
    · obtain ⟨l₀, hl₀⟩ := hw.chain h' hh'
      have hu := hl'.unique (hkept h' hh' he l₀ hl₀).1
      exact .inr ⟨he, hu ▸ hl₀⟩
  refine ⟨?_, fun h' hh' => ?_, hw.apart.imp_of_mem fun {a b} ha hb hab => ?_⟩
  · rw [relink_size]
    exact relink_below (fun d hd => (hm d hd).2.1) hw.below
  · by_cases he : h' = h
    · exact ⟨l ++ m, he ▸ hext⟩
    · obtain ⟨l', hl'⟩ := hw.chain h' hh'
      exact ⟨l', (hkept h' hh' he l' hl').1⟩
  · intro la lb hla hlb
    have hfree : ∀ h' l', fat.IsChain h' l' → m.Disjoint l' := fun h' l' hl' x hx =>
      hl'.not_free (hm x hx)
    rcases back ha hla with ⟨rfl, rfl⟩ | ⟨_, hla'⟩
    · rcases back hb hlb with ⟨rfl, rfl⟩ | ⟨_, hlb'⟩
      · -- a head is not apart from itself
        exact absurd hl.mem_head (List.disjoint_left.mp (hab l l hl hl) hl.mem_head)
      · exact List.disjoint_append_left.mpr ⟨hab l lb hl hlb', hfree _ lb hlb'⟩
    · rcases back hb hlb with ⟨rfl, rfl⟩ | ⟨_, hlb'⟩
      · have hfree' := List.disjoint_comm.mp (hfree _ la hla')
        exact List.disjoint_append_right.mpr ⟨hab la l hla' hl, hfree'⟩
      · exact hab la lb hla' hlb'

/-- The table stays well formed when free clusters become a new chain. -/
theorem allocate (hw : fat.WellFormed heads) {c : Nat} {m : List Nat}
    (hm : ∀ d ∈ c :: m, fat.Free d) (hnd : (c :: m).Nodup) :
    (fat.relink c m).WellFormed (heads ++ [c]) ∧ ∀ h ∈ heads, fat.Kept (fat.relink c m) h := by
  have hkept : ∀ h ∈ heads, fat.Kept (fat.relink c m) h := fun h _ => Kept.of_relink fun l hl =>
    List.disjoint_right.mpr fun x hx => hl.not_free (hm x hx)
  have hnew := relink_free hm hnd
  refine ⟨⟨?_, fun h hh => ?_, ?_⟩, hkept⟩
  · rw [relink_size]
    exact relink_below (fun d hd => (hm d (List.mem_cons_of_mem c hd)).2.1) hw.below
  · rcases List.mem_append.mp hh with hh | hh
    · obtain ⟨l, hl⟩ := hw.chain h hh
      exact ⟨l, (hkept h hh l hl).1⟩
    · exact ⟨c :: m, List.mem_singleton.mp hh ▸ hnew⟩
  · refine List.pairwise_append.mpr ⟨?_, List.pairwise_singleton _ c, ?_⟩
    · refine hw.apart.imp_of_mem fun {a b} ha hb hab la lb hla hlb => ?_
      obtain ⟨la', hla'⟩ := hw.chain a ha
      obtain ⟨lb', hlb'⟩ := hw.chain b hb
      rw [hla.unique (hkept a ha la' hla').1, hlb.unique (hkept b hb lb' hlb').1]
      exact hab la' lb' hla' hlb'
    · intro a ha b hb la lb hla hlb
      obtain rfl := List.mem_singleton.mp hb
      obtain ⟨la', hla'⟩ := hw.chain a ha
      rw [hla.unique (hkept a ha la' hla').1, hlb.unique hnew]
      exact List.disjoint_right.mpr fun x hx => hla'.not_free (hm x hx)

end WellFormed

end Table

end Laplus.Fat
