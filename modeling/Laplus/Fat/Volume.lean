/-
# `Laplus.Fat.Volume` — clusters, directory slots and `AllocateEntry`

The data area is a table of clusters, and `GetSectorByCluster` the first byte
of one; a cluster that is not in the volume has no address here.  Directory
entries are bytes of a directory's clusters, at the offsets of the packed
`DirectoryEntry`.

`Meets` says what a call of the allocator gives back and leaves alone, and
`chains_kept` that every call of a run meets it, as long as the free clusters
suffice.
-/
import Laplus.Fat.Table
import Laplus.Lib.Run
import Laplus.Net.Bytes

namespace Laplus.Fat

open Lib Net

/-! ## The volume -/

/-- What `boot_volume_image` describes: `bytes_per_cluster`, `root_cluster`, the
FAT and the bytes of the clusters. -/
structure Volume where
  bytesPerCluster : Nat
  rootCluster : UInt32
  fat : Table
  data : Nat → Nat → UInt8
  bytesPerCluster_pos : 0 < bytesPerCluster
  bytesPerCluster_lt : bytesPerCluster < 2 ^ 24

/-- The address of a `DirectoryEntry`: its cluster and its place there. -/
structure Slot where
  cluster : Nat
  index : Nat
deriving DecidableEq

/-- The bytes of an entry that `Write` sets, and the times between them. -/
def Slot.Written (s : Slot) (c o : Nat) : Prop :=
  c = s.cluster ∧ 32 * s.index + 20 ≤ o ∧ o < 32 * s.index + 32

namespace Volume

/-- `GetSectorByCluster` finds the cluster in the volume. -/
def inside (v : Volume) (cluster : Nat) : Bool := 2 ≤ cluster ∧ cluster < v.fat.size

/-- `n` bytes written from an offset of a cluster on. -/
def put (v : Volume) (cluster off n : Nat) (bytes : Nat → UInt8) : Volume :=
  { v with data := fun c o =>
      if c = cluster ∧ off ≤ o ∧ o < off + n then bytes (o - off) else v.data c o }

def withFat (v : Volume) (fat : Table) : Volume := { v with fat }

variable (v : Volume)

@[simp] theorem put_fat (c off n : Nat) (f : Nat → UInt8) : (v.put c off n f).fat = v.fat := rfl

@[simp] theorem put_bytesPerCluster (c off n : Nat) (f : Nat → UInt8) :
    (v.put c off n f).bytesPerCluster = v.bytesPerCluster := rfl

@[simp] theorem put_rootCluster (c off n : Nat) (f : Nat → UInt8) :
    (v.put c off n f).rootCluster = v.rootCluster := rfl

theorem put_same (c off : Nat) {n i : Nat} (f : Nat → UInt8) (hi : i < n) :
    (v.put c off n f).data c (off + i) = f i := by
  simp [put, hi]

theorem put_off {c o off n : Nat} (d : Nat) (f : Nat → UInt8) (h : o < off ∨ off + n ≤ o) :
    (v.put c off n f).data d o = v.data d o := by
  have hn : ¬(d = c ∧ off ≤ o ∧ o < off + n) := by omega
  simp [put, hn]

theorem put_ne {c d : Nat} (o off n : Nat) (f : Nat → UInt8) (h : d ≠ c) :
    (v.put c off n f).data d o = v.data d o := by
  simp [put, h]

@[simp] theorem withFat_fat (fat : Table) : (v.withFat fat).fat = fat := rfl
@[simp] theorem withFat_data (fat : Table) : (v.withFat fat).data = v.data := rfl
@[simp] theorem withFat_bytesPerCluster (fat : Table) :
    (v.withFat fat).bytesPerCluster = v.bytesPerCluster := rfl

theorem inside_iff {c : Nat} : v.inside c = true ↔ 2 ≤ c ∧ c < v.fat.size := by
  simp [inside]

theorem inside_of_used {c : Nat} (h : v.fat.Used c) : v.inside c = true :=
  v.inside_iff.mpr ⟨h.1, h.2.1⟩

/-! ## Directory entries -/

/-- The byte of an entry at an offset. -/
def byte (s : Slot) (k : Nat) : UInt8 := v.data s.cluster (32 * s.index + k)

/-- `entry.name`. -/
def name (s : Slot) : List UInt8 := (List.range 11).map (v.byte s)

/-- `entry.attr`. -/
def attr (s : Slot) : UInt8 := v.byte s 11

/-- `FirstCluster`. -/
def firstCluster (s : Slot) : UInt32 :=
  (load16 (v.byte s 26) (v.byte s 27)).toUInt32 |||
    (load16 (v.byte s 20) (v.byte s 21)).toUInt32 <<< 16

/-- `entry.file_size`. -/
def fileSize (s : Slot) : UInt32 :=
  load32 (v.byte s 28) (v.byte s 29) (v.byte s 30) (v.byte s 31)

/-- `first_cluster_low = cluster & 0xffff`, `first_cluster_high = (cluster >> 16) & 0xffff`. -/
def setFirstCluster (s : Slot) (cluster : UInt32) : Volume :=
  (v.put s.cluster (32 * s.index + 26) 2 fun i => (store16 cluster.toUInt16).getD i 0).put
    s.cluster (32 * s.index + 20) 2 fun i => (store16 (cluster >>> 16).toUInt16).getD i 0

/-- `file_size = size`. -/
def setFileSize (s : Slot) (size : UInt32) : Volume :=
  v.put s.cluster (32 * s.index + 28) 4 fun i => (store32 size).getD i 0

@[simp] theorem setFirstCluster_fat (s : Slot) (c : UInt32) :
    (v.setFirstCluster s c).fat = v.fat := rfl

@[simp] theorem setFirstCluster_bytesPerCluster (s : Slot) (c : UInt32) :
    (v.setFirstCluster s c).bytesPerCluster = v.bytesPerCluster := rfl

@[simp] theorem setFileSize_fat (s : Slot) (n : UInt32) : (v.setFileSize s n).fat = v.fat := rfl

@[simp] theorem setFileSize_bytesPerCluster (s : Slot) (n : UInt32) :
    (v.setFileSize s n).bytesPerCluster = v.bytesPerCluster := rfl

/-- A byte of an entry after a write into the entry. -/
theorem byte_put (s : Slot) (k n j : Nat) (f : Nat → UInt8) :
    (v.put s.cluster (32 * s.index + k) n f).byte s j =
      if k ≤ j ∧ j < k + n then f (j - k) else v.byte s j := by
  simp only [byte, put, true_and, Nat.add_assoc, Nat.add_le_add_iff_left, Nat.add_lt_add_iff_left,
    Nat.add_sub_add_left]

/-- The two halves of a cluster number. -/
theorem halves (c : UInt32) :
    c.toUInt16.toUInt32 ||| (c >>> 16).toUInt16.toUInt32 <<< 16 = c := by
  apply UInt32.toNat_inj.mp
  have hc := c.toNat_lt
  have hhigh : (c.toNat >>> 16 % 2 ^ 16) <<< 16 % 2 ^ 32 = (c.toNat / 2 ^ 16) <<< 16 := by
    rw [Nat.shiftRight_eq_div_pow, Nat.shiftLeft_eq, Nat.shiftLeft_eq]
    omega
  simp only [UInt32.toNat_or, UInt32.toNat_shiftLeft, UInt16.toNat_toUInt32, UInt32.toNat_toUInt16,
    UInt32.toNat_shiftRight, UInt32.reduceToNat, Nat.reduceMod, hhigh]
  rw [Nat.or_comm, ← Nat.shiftLeft_add_eq_or_of_lt (by omega), Nat.shiftLeft_eq]
  omega

@[simp] theorem firstCluster_setFirstCluster (s : Slot) (c : UInt32) :
    (v.setFirstCluster s c).firstCluster s = c := by
  simp only [firstCluster, setFirstCluster, byte_put]
  change (load16 c.toUInt16.toUInt8 (c.toUInt16 >>> 8).toUInt8).toUInt32 |||
    (load16 (c >>> 16).toUInt16.toUInt8 ((c >>> 16).toUInt16 >>> 8).toUInt8).toUInt32 <<< 16 = c
  rw [load16_store, load16_store, halves]

@[simp] theorem firstCluster_setFileSize (s : Slot) (n : UInt32) :
    (v.setFileSize s n).firstCluster s = v.firstCluster s := by
  simp only [firstCluster, setFileSize, byte_put]
  simp

@[simp] theorem fileSize_setFileSize (s : Slot) (n : UInt32) :
    (v.setFileSize s n).fileSize s = n := by
  simp only [fileSize, setFileSize, byte_put]
  simp [store32]

theorem setFirstCluster_data {s : Slot} {c o : Nat} (x : UInt32) (h : ¬s.Written c o) :
    (v.setFirstCluster s x).data c o = v.data c o := by
  by_cases hc : c = s.cluster
  · have ho : o < 32 * s.index + 20 ∨ 32 * s.index + 32 ≤ o := by
      by_contra ho
      exact h ⟨hc, by omega, by omega⟩
    rw [setFirstCluster, put_off _ _ _ (by omega), put_off _ _ _ (by omega)]
  · rw [setFirstCluster, put_ne _ _ _ _ _ hc, put_ne _ _ _ _ _ hc]

theorem setFileSize_data {s : Slot} {c o : Nat} (n : UInt32) (h : ¬s.Written c o) :
    (v.setFileSize s n).data c o = v.data c o := by
  by_cases hc : c = s.cluster
  · have ho : o < 32 * s.index + 20 ∨ 32 * s.index + 32 ≤ o := by
      by_contra ho
      exact h ⟨hc, by omega, by omega⟩
    rw [setFileSize, put_off _ _ _ (by omega)]
  · rw [setFileSize, put_ne _ _ _ _ _ hc]

variable {v} in
theorem firstCluster_congr {v' : Volume} {s : Slot}
    (h : ∀ o, v'.data s.cluster o = v.data s.cluster o) :
    v'.firstCluster s = v.firstCluster s := by
  simp only [firstCluster, byte, h]

/-- `bytes_per_cluster / sizeof(DirectoryEntry)`. -/
def entries : Nat := v.bytesPerCluster / 32

/-- The slots of one cluster of a directory. -/
def slotsOf (cluster : Nat) : List Slot := (List.range v.entries).map (Slot.mk cluster)

/-- The loop over a directory that `FindFile` and `AllocateEntry` share: the first
slot that meets `p`, or the last cluster of the directory. -/
def scan (p : Slot → Bool) : Nat → Nat → Option (Slot ⊕ Nat)
  | 0, _ => none
  | fuel + 1, dir => do
      guard (v.inside dir)
      match (v.slotsOf dir).find? p with
      | some slot => return .inl slot
      | none =>
          let next ← v.fat.nextCluster dir
          if next = kEndOfClusterchain then return .inr dir
          scan p fuel next.toNat

/-- A slot that was never used, or whose entry was deleted. -/
def vacant (s : Slot) : Bool := v.byte s 0 = 0 ∨ v.byte s 0 = 0xe5

/-- `AllocateEntry`. -/
def allocateEntry (dirCluster : Nat) : Option (Volume × Option Slot) := do
  match ← v.scan v.vacant v.fat.size dirCluster with
  | .inl slot => return (v, some slot)
  | .inr last =>
      let (fat, dir) ← v.fat.extendCluster last 1
      return ((v.withFat fat).put dir 0 v.bytesPerCluster fun _ => 0, some ⟨dir, 0⟩)

/-! ## The loop over a directory -/

/-- The slots of the clusters of a chain, in order. -/
def slots (l : List Nat) : List Slot := l.flatMap v.slotsOf

theorem mem_slots {l : List Nat} {s : Slot} :
    s ∈ v.slots l ↔ s.cluster ∈ l ∧ s.index < v.entries := by
  simp only [slots, slotsOf, List.mem_flatMap, List.mem_map, List.mem_range]
  constructor
  · rintro ⟨c, hc, i, hi, rfl⟩
    exact ⟨hc, hi⟩
  · rintro ⟨hc, hi⟩
    exact ⟨s.cluster, hc, s.index, hi, rfl⟩

variable {v}

/-- Along a chain the loop finds what is first in its slots. -/
theorem scan_eq {p : Slot → Bool} {dir : Nat} {l : List Nat} (hl : v.fat.IsChain dir l) {fuel : Nat}
    (hf : l.length ≤ fuel) :
    v.scan p fuel dir =
      match (v.slots l).find? p with
      | some slot => some (.inl slot)
      | none => some (.inr (l.getLast hl.1.ne_nil)) := by
  obtain ⟨hl, hu⟩ := hl
  induction hl generalizing fuel with
  | @last c hn =>
      obtain ⟨fuel, rfl⟩ := Nat.exists_eq_succ_of_ne_zero (Nat.one_le_iff_ne_zero.mp hf)
      have hc := hu c List.mem_cons_self
      have hnext := Table.nextCluster_end hc.2.1 hn
      cases hfind : (v.slotsOf c).find? p <;>
        simp [scan, v.inside_of_used hc, slots, hfind, hnext]
  | @cons c d l hs ht ih =>
      rw [List.length_cons] at hf
      obtain ⟨fuel, rfl⟩ := Nat.exists_eq_succ_of_ne_zero (Nat.ne_zero_of_lt hf)
      have hc := hu c List.mem_cons_self
      obtain ⟨next, hnext, hne, hd⟩ := Table.nextCluster_link hc.2.1 hs
      have hrest := ih (Nat.le_of_succ_le_succ hf) fun x hx => hu x (List.mem_cons_of_mem c hx)
      cases hfind : (v.slotsOf c).find? p with
      | some slot => simp [scan, v.inside_of_used hc, slots, hfind]
      | none =>
          simp only [slots, List.flatMap_cons, List.find?_append, hfind, Option.none_or,
            List.getLast_cons ht.ne_nil] at hrest ⊢
          simp [scan, v.inside_of_used hc, hfind, hnext, hne, hd, hrest]

/-- `AllocateEntry` takes the first vacant slot of the directory. -/
theorem allocateEntry_vacant {dir : Nat} {l : List Nat} {s : Slot} (hl : v.fat.IsChain dir l)
    (hs : (v.slots l).find? v.vacant = some s) : v.allocateEntry dir = some (v, some s) := by
  simp [allocateEntry, scan_eq hl hl.length_le, hs]

/-- A directory without a vacant slot gets a cluster of zeros. -/
theorem allocateEntry_full {dir : Nat} {l : List Nat} (hl : v.fat.IsChain dir l)
    (hs : (v.slots l).find? v.vacant = none) :
    v.allocateEntry dir =
      match v.fat.freeList with
      | [] => none
      | c :: _ => some ((v.withFat (v.fat.relink (l.getLast hl.1.ne_nil) [c])).put c 0
          v.bytesPerCluster fun _ => 0, some ⟨c, 0⟩) := by
  simp only [allocateEntry, scan_eq hl hl.length_le, hs, Option.bind_eq_bind, Option.bind_some,
    Table.extendCluster_eq hl.getLast, List.getLast_singleton]
  cases hf : v.fat.freeList <;> simp

end Volume

/-! ## Runs of the allocator -/

/-- The calls that write the table. -/
inductive Call where
  | allocateClusterChain (n : Nat)
  | extendCluster (cluster n : Nat)
  | allocateEntry (dirCluster : Nat)

/-- A volume and the clusters its chains start at. -/
structure State where
  vol : Volume
  heads : List Nat

namespace State

/-- What a call does; a new chain has a new head. -/
def step (s : State) : Call → State
  | .allocateClusterChain n =>
      match s.vol.fat.allocateClusterChain n with
      | some (fat, first) => ⟨s.vol.withFat fat, s.heads ++ [first]⟩
      | none => s
  | .extendCluster c n =>
      match s.vol.fat.extendCluster c n with
      | some (fat, _) => { s with vol := s.vol.withFat fat }
      | none => s
  | .allocateEntry dir =>
      match s.vol.allocateEntry dir with
      | some (vol, _) => { s with vol }
      | none => s

/-- A cluster of one of the chains. -/
def OnChain (s : State) (c : Nat) : Prop := ∃ h ∈ s.heads, ∃ l, s.vol.fat.IsChain h l ∧ c ∈ l

/-- The free clusters a call takes. -/
def needs (s : State) : Call → Nat
  | .allocateClusterChain n => max n 1
  | .extendCluster _ n => n
  | .allocateEntry dir =>
      match s.vol.scan s.vol.vacant s.vol.fat.size dir with
      | some (.inl _) => 0
      | _ => 1

/-- A call on a cluster of a chain for which the free clusters suffice. -/
def Allowed (s : State) (call : Call) : Prop :=
  s.needs call ≤ s.vol.fat.freeList.length ∧
    match call with
    | .allocateClusterChain _ => True
    | .extendCluster c _ | .allocateEntry c => s.OnChain c

/-- The chain `l` of the head `h` goes on with the clusters `m` that were free; the
other chains keep their entries. -/
structure Extends (s s' : State) (h : Nat) (l m : List Nat) : Prop where
  head : h ∈ s.heads
  heads : s'.heads = s.heads
  before : s.vol.fat.IsChain h l
  after : s'.vol.fat.IsChain h (l ++ m)
  nodup : m.Nodup
  free : ∀ c ∈ m, s.vol.fat.Free c
  others : ∀ h' ∈ s.heads, h' ≠ h → s.vol.fat.Kept s'.vol.fat h'

/-- The clusters `m` that were free are a new chain. -/
structure Creates (s s' : State) (first : Nat) (m : List Nat) : Prop where
  heads : s'.heads = s.heads ++ [first]
  chain : s'.vol.fat.IsChain first m
  free : ∀ c ∈ m, s.vol.fat.Free c
  others : ∀ h ∈ s.heads, s.vol.fat.Kept s'.vol.fat h

/-- What a call gives back and leaves alone. -/
def Meets (s : State) : Call → Prop
  | .allocateClusterChain n => ∃ fat first m,
      s.vol.fat.allocateClusterChain n = some (fat, first) ∧ m.length = max n 1 ∧
      s.Creates (s.step (.allocateClusterChain n)) first m ∧
      (s.step (.allocateClusterChain n)).vol.data = s.vol.data
  | .extendCluster c n => ∃ fat last h l m,
      s.vol.fat.extendCluster c n = some (fat, last) ∧ c ∈ l ∧ m.length = n ∧
      s.Extends (s.step (.extendCluster c n)) h l m ∧ (l ++ m).getLast? = some last ∧
      (s.step (.extendCluster c n)).vol.data = s.vol.data
  | .allocateEntry dir =>
      (∃ slot, s.vol.allocateEntry dir = some (s.vol, some slot) ∧ s.vol.vacant slot = true ∧
        s.OnChain slot.cluster) ∨
      ∃ vol h l c, s.vol.allocateEntry dir = some (vol, some ⟨c, 0⟩) ∧ dir ∈ l ∧
        s.Extends (s.step (.allocateEntry dir)) h l [c] ∧
        (∀ o < vol.bytesPerCluster, vol.data c o = 0) ∧
        ∀ d ≠ c, ∀ o, vol.data d o = s.vol.data d o

section

variable {s : State}

/-- Hanging free clusters behind a chain. -/
theorem extends_of_relink (hw : s.vol.fat.WellFormed s.heads) {s' : State} {h : Nat}
    {l m : List Nat} (hh : h ∈ s.heads) (hl : s.vol.fat.IsChain h l)
    (hm : ∀ c ∈ m, s.vol.fat.Free c) (hnd : m.Nodup)
    (hfat : s'.vol.fat = s.vol.fat.relink (l.getLast hl.1.ne_nil) m) (hheads : s'.heads = s.heads) :
    s.Extends s' h l m ∧ s'.vol.fat.WellFormed s'.heads := by
  refine ⟨⟨hh, hheads, hl, ?_, hnd, hm, fun h' hh' hne => ?_⟩, ?_⟩
  · rw [hfat]
    exact hl.extend hm hnd
  · rw [hfat]
    exact hw.kept_extend hh hh' hne hl hm
  · rw [hfat, hheads]
    exact hw.extend hh hl hm hnd

/-- The first free clusters are free. -/
theorem take_free (fat : Table) (n : Nat) : ∀ c ∈ fat.freeList.take n, fat.Free c :=
  fun _ hc => Table.mem_freeList.mp (List.mem_of_mem_take hc)

theorem step_allocateClusterChain (hw : s.vol.fat.WellFormed s.heads) {n : Nat}
    (hok : s.Allowed (.allocateClusterChain n)) :
    s.Meets (.allocateClusterChain n) ∧
      (s.step (.allocateClusterChain n)).vol.fat.WellFormed
        (s.step (.allocateClusterChain n)).heads := by
  have hlen : max n 1 ≤ s.vol.fat.freeList.length := hok.1
  obtain ⟨first, rest, hfree⟩ : ∃ first rest, s.vol.fat.freeList = first :: rest :=
    List.exists_cons_of_length_pos (by omega)
  have hm : ∀ d ∈ first :: rest.take (n - 1), s.vol.fat.Free d := fun d hd =>
    Table.mem_freeList.mp (hfree ▸ (List.cons_subset_cons first (List.take_subset _ rest) hd))
  have hnd : (first :: rest.take (n - 1)).Nodup := by
    have hnd := hfree ▸ s.vol.fat.nodup_freeList
    exact hnd.sublist ((List.take_sublist _ _).cons_cons first)
  rw [hfree, List.length_cons] at hlen
  have hrun : s.vol.fat.allocateClusterChain n =
      some (s.vol.fat.relink first (rest.take (n - 1)), first) := by
    rw [Table.allocateClusterChain_eq hfree, if_pos (by omega)]
  obtain ⟨hwf, hkept⟩ := hw.allocate hm hnd
  have hstep : s.step (.allocateClusterChain n) =
      ⟨s.vol.withFat (s.vol.fat.relink first (rest.take (n - 1))), s.heads ++ [first]⟩ := by
    simp only [step, hrun]
  refine ⟨⟨_, first, first :: rest.take (n - 1), hrun, ?_, ?_, ?_⟩, ?_⟩
  · rw [List.length_cons, List.length_take]
    omega
  · rw [hstep]
    exact ⟨rfl, Table.relink_free hm hnd, hm, hkept⟩
  · rw [hstep]
    rfl
  · rw [hstep]
    exact hwf

theorem step_extendCluster (hw : s.vol.fat.WellFormed s.heads) {c n : Nat}
    (hok : s.Allowed (.extendCluster c n)) :
    s.Meets (.extendCluster c n) ∧
      (s.step (.extendCluster c n)).vol.fat.WellFormed (s.step (.extendCluster c n)).heads := by
  obtain ⟨hlen, h, hh, l, hl, hc⟩ := hok
  replace hlen : n ≤ s.vol.fat.freeList.length := hlen
  obtain ⟨l₀, t, rfl, ht⟩ := hl.of_mem hc
  have hlast : t.getLast ht.1.ne_nil = (l₀ ++ t).getLast hl.1.ne_nil :=
    (List.getLast_append_of_ne_nil _ ht.1.ne_nil).symm
  have hrun : s.vol.fat.extendCluster c n = some
      (s.vol.fat.relink ((l₀ ++ t).getLast hl.1.ne_nil) (s.vol.fat.freeList.take n),
        ((l₀ ++ t).getLast hl.1.ne_nil :: s.vol.fat.freeList.take n).getLast (by simp)) := by
    simp only [Table.extendCluster_eq ht, if_pos hlen, hlast]
  have hstep : s.step (.extendCluster c n) =
      ⟨s.vol.withFat (s.vol.fat.relink ((l₀ ++ t).getLast hl.1.ne_nil)
        (s.vol.fat.freeList.take n)), s.heads⟩ := by
    simp only [step, hrun]
  have hfat : (s.step (.extendCluster c n)).vol.fat =
      s.vol.fat.relink ((l₀ ++ t).getLast hl.1.ne_nil) (s.vol.fat.freeList.take n) := by
    rw [hstep]
    rfl
  obtain ⟨hext, hwf⟩ := extends_of_relink hw hh hl (take_free _ n)
    (s.vol.fat.nodup_freeList.sublist (List.take_sublist _ _)) hfat (by rw [hstep])
  refine ⟨⟨_, _, h, _, _, hrun, hc, ?_, hext, ?_, by rw [hstep]; rfl⟩, hwf⟩
  · rw [List.length_take]
    exact Nat.min_eq_left hlen
  · rw [← getLast_append_eq hl.1.ne_nil]
    exact List.getLast?_eq_some_getLast _

theorem step_allocateEntry (hw : s.vol.fat.WellFormed s.heads) {dir : Nat}
    (hok : s.Allowed (.allocateEntry dir)) :
    s.Meets (.allocateEntry dir) ∧
      (s.step (.allocateEntry dir)).vol.fat.WellFormed (s.step (.allocateEntry dir)).heads := by
  obtain ⟨hlen, h, hh, l, hl, hc⟩ := hok
  obtain ⟨l₀, t, rfl, ht⟩ := hl.of_mem hc
  have hlast : t.getLast ht.1.ne_nil = (l₀ ++ t).getLast hl.1.ne_nil :=
    (List.getLast_append_of_ne_nil _ ht.1.ne_nil).symm
  have hscan := Volume.scan_eq ht (p := s.vol.vacant) ht.length_le
  cases hfind : (s.vol.slots t).find? s.vol.vacant with
  | some slot =>
      have hrun := Volume.allocateEntry_vacant ht hfind
      have hstep : s.step (.allocateEntry dir) = s := by simp only [step, hrun]
      have hmem := (s.vol.mem_slots.mp (List.mem_of_find?_eq_some hfind)).1
      refine ⟨.inl ⟨slot, hrun, List.find?_some hfind, h, hh, _, hl, ?_⟩, ?_⟩
      · exact List.mem_append_right l₀ hmem
      · rw [hstep]
        exact hw
  | none =>
      rw [hfind] at hscan
      have hpos : 1 ≤ s.vol.fat.freeList.length := by simpa only [needs, hscan] using hlen
      obtain ⟨c, rest, hfree⟩ := List.exists_cons_of_length_pos hpos
      have hcf : s.vol.fat.Free c := Table.mem_freeList.mp (hfree ▸ List.mem_cons_self)
      have hrun := Volume.allocateEntry_full ht hfind
      rw [hfree, hlast] at hrun
      have hstep : s.step (.allocateEntry dir) = ⟨(s.vol.withFat
          (s.vol.fat.relink ((l₀ ++ t).getLast hl.1.ne_nil) [c])).put c 0
          s.vol.bytesPerCluster fun _ => 0, s.heads⟩ := by
        simp only [step, hrun]
      have hfat : (s.step (.allocateEntry dir)).vol.fat =
          s.vol.fat.relink ((l₀ ++ t).getLast hl.1.ne_nil) [c] := by
        rw [hstep]
        rfl
      obtain ⟨hext, hwf⟩ := extends_of_relink hw hh hl
        (fun x hx => List.mem_singleton.mp hx ▸ hcf) (List.nodup_singleton c) hfat (by rw [hstep])
      refine ⟨.inr ⟨_, h, _, c, hrun, hc, hext, fun o ho => ?_, fun d hd o => ?_⟩, hwf⟩
      · simpa using Volume.put_same (s.vol.withFat _) c 0 (fun _ => 0) ho
      · exact Volume.put_ne _ o 0 _ _ hd

/-- One call of the allocator. -/
theorem step_meets (hw : s.vol.fat.WellFormed s.heads) {call : Call} (hok : s.Allowed call) :
    s.Meets call ∧ (s.step call).vol.fat.WellFormed (s.step call).heads := by
  cases call with
  | allocateClusterChain n => exact step_allocateClusterChain hw hok
  | extendCluster c n => exact step_extendCluster hw hok
  | allocateEntry dir => exact step_allocateEntry hw hok

end

/-- **The chains stay well formed.**  Every call of a run whose free clusters suffice
meets its description, and the table is well formed after it. -/
theorem chains_kept {s : State} (hw : s.vol.fat.WellFormed s.heads) {calls : List Call}
    (hg : Guarded step Allowed s calls) :
    ∀ done call, done ++ [call] <+: calls →
      (run step s done).Meets call ∧
        (run step s (done ++ [call])).vol.fat.WellFormed (run step s (done ++ [call])).heads := by
  rintro done call ⟨rest, rfl⟩
  rw [guarded_append, guarded_append] at hg
  have hrun := inv_run (fun s => s.vol.fat.WellFormed s.heads)
    (fun s call hw hok => (step_meets hw hok).2) hw hg.1.1
  have hstep := step_meets hrun hg.1.2.1
  rw [run_append]
  exact hstep

/-- An empty volume of six clusters, the first its root directory. -/
def small : State where
  vol := {
    bytesPerCluster := 512
    rootCluster := 2
    fat := ⟨8, fun c => if c = 2 then kEndOfClusterchain else 0, by decide⟩
    data := fun _ _ => 0
    bytesPerCluster_pos := by decide
    bytesPerCluster_lt := by decide }
  heads := [2]

theorem small_chain : small.vol.fat.IsChain 2 [2] := by
  refine ⟨.last rfl, fun c hc => ?_⟩
  rw [List.mem_singleton.mp hc]
  exact ⟨by decide, by decide, by decide⟩

theorem small_wellFormed : small.vol.fat.WellFormed small.heads := by
  refine ⟨by decide, fun h hh => ⟨[2], ?_⟩, List.pairwise_singleton _ _⟩
  rw [List.mem_singleton.mp hh]
  exact small_chain

theorem chains_kept_small :
    (run step small [.extendCluster 2 2]).Meets (.allocateClusterChain 0) ∧
      (run step small ([.extendCluster 2 2] ++ [.allocateClusterChain 0])).vol.fat.WellFormed
        (run step small ([.extendCluster 2 2] ++ [.allocateClusterChain 0])).heads := by
  have hg : Guarded step Allowed small [.extendCluster 2 2, .allocateClusterChain 0] :=
    ⟨⟨by decide, 2, List.mem_singleton_self 2, [2], small_chain, List.mem_singleton_self 2⟩,
      ⟨by decide, trivial⟩, trivial⟩
  exact chains_kept small_wellFormed hg [.extendCluster 2 2] (.allocateClusterChain 0) ⟨[], rfl⟩

end State

end Laplus.Fat
