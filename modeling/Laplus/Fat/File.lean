/-
# `Laplus.Fat.File` — `FileDescriptor::Read` and `FileDescriptor::Write`

`Write` copies `min(len, bytes_per_cluster - wr_cluster_off_)` bytes in each
turn, not what is left of the buffer, and at the end of the chain it goes on in
the last of the clusters that `ExtendCluster` adds.  `stored_iff` says for
which buffers a file is nevertheless written as it should be.
-/
import Laplus.Fat.Read

namespace Laplus.Fat

open Lib

/-! ## The source -/

/-- The bytes at an address, and how many of them are the caller's. -/
structure Buffer where
  byte : Nat → UInt8
  len : Nat

/-- The first bytes at the address. -/
def Buffer.take (buf : Buffer) (n : Nat) : List UInt8 := (List.range n).map buf.byte

/-- The bytes of the buffer. -/
def Buffer.bytes (buf : Buffer) : List UInt8 := buf.take buf.len

theorem Buffer.take_add (buf : Buffer) (m n : Nat) :
    buf.take (m + n) = buf.take m ++ (List.range n).map fun i => buf.byte (m + i) := by
  simp only [Buffer.take, List.range_add, List.map_append, List.map_map, Function.comp_def]

/-- Where the loop of `Write` stands. -/
structure Cursor where
  vol : Volume
  cluster : Nat
  off : Nat
  total : Nat

namespace Volume

/-- `num_cluster`, in `size_t`. -/
def numCluster (v : Volume) (bytes : Nat) : Nat :=
  (bytes + v.bytesPerCluster - 1) % 2 ^ 64 / v.bytesPerCluster

/-- `Write` at the end of a cluster. -/
def advance (v : Volume) (cluster rest : Nat) : Option (Volume × Nat) := do
  let next ← v.fat.nextCluster cluster
  if next = kEndOfClusterchain then
    let (fat, cluster) ← v.fat.extendCluster cluster (v.numCluster rest)
    return (v.withFat fat, cluster)
  return (v, next.toNat)

/-- Where the next turn of the loop of `Write` copies to. -/
def wrPlace (buf : Buffer) (w : Cursor) : Option (Volume × Nat × Nat) :=
  if w.off = w.vol.bytesPerCluster then
    (w.vol.advance w.cluster (buf.len - w.total)).map fun r => (r.1, r.2, 0)
  else some (w.vol, w.cluster, w.off)

/-- One turn of the loop of `Write`. -/
def writeTurn (buf : Buffer) (w : Cursor) : Option Cursor := do
  let (vol, cluster, off) ← wrPlace buf w
  guard (vol.inside cluster)
  let n := min buf.len (vol.bytesPerCluster - off)
  return {
    vol := vol.put cluster off n fun i => buf.byte (w.total + i)
    cluster
    off := off + n
    total := w.total + n }

/-- The loop of `Write`; a turn copies a byte at least. -/
def writeLoop (buf : Buffer) : Nat → Cursor → Option Cursor
  | 0, w => if w.total < buf.len then none else some w
  | fuel + 1, w =>
      if w.total < buf.len then do
        let w ← writeTurn buf w
        writeLoop buf fuel w
      else some w

/-- The first cluster `Write` goes to. -/
def wrStart (v : Volume) (fd : FileDescriptor) (len : Nat) : Option (Volume × Nat) :=
  if fd.wrCluster = 0 then
    if v.firstCluster fd.entry ≠ 0 then some (v, (v.firstCluster fd.entry).toNat)
    else do
      let (fat, first) ← v.fat.allocateClusterChain (v.numCluster len)
      return ((v.withFat fat).setFirstCluster fd.entry (UInt32.ofNat first), first)
  else some (v, fd.wrCluster)

/-- `FileDescriptor::Write`: the volume, the descriptor and what it returns. -/
def write (v : Volume) (fd : FileDescriptor) (buf : Buffer) :
    Option (Volume × FileDescriptor × Nat) := do
  let (v, cluster) ← v.wrStart fd buf.len
  let w ← writeLoop buf buf.len ⟨v, cluster, fd.wrClusterOff, 0⟩
  let wrOff := (fd.wrOff + w.total) % 2 ^ 64
  return (w.vol.setFileSize fd.entry (UInt32.ofNat wrOff),
    { fd with wrOff, wrCluster := w.cluster, wrClusterOff := w.off }, w.total)

/-- Calls of `Write` on one descriptor, and what they return. -/
def writeAll (v : Volume) (fd : FileDescriptor) :
    List Buffer → Option (Volume × FileDescriptor × List Nat)
  | [] => some (v, fd, [])
  | buf :: bufs => do
      let (v, fd, n) ← v.write fd buf
      let (v, fd, ns) ← v.writeAll fd bufs
      return (v, fd, n :: ns)

theorem write_eq_some {v v' : Volume} {fd fd' : FileDescriptor} {buf : Buffer} {n : Nat} :
    v.write fd buf = some (v', fd', n) ↔ ∃ v₁ c w, v.wrStart fd buf.len = some (v₁, c) ∧
      writeLoop buf buf.len ⟨v₁, c, fd.wrClusterOff, 0⟩ = some w ∧
      w.vol.setFileSize fd.entry (UInt32.ofNat ((fd.wrOff + w.total) % 2 ^ 64)) = v' ∧
      { fd with
        wrOff := (fd.wrOff + w.total) % 2 ^ 64, wrCluster := w.cluster, wrClusterOff := w.off } =
        fd' ∧ w.total = n := by
  simp only [write, Option.bind_eq_bind, Option.pure_def, Option.bind_eq_some_iff,
    Option.some.injEq, Prod.mk.injEq, Prod.exists, exists_and_left]

/-! ## The clusters of the file -/

/-- The file's chain is `l`; its clusters are the first that were free in `v₀`, and
nothing else of the table has changed. -/
structure Owns (v₀ v : Volume) (first : Nat) (l : List Nat) : Prop where
  bpc : v.bytesPerCluster = v₀.bytesPerCluster
  head : ∃ t, l = first :: t ∧ v.fat = v₀.fat.relink first t
  free : ∃ rest, v₀.fat.freeList = l ++ rest

/-- Within the chain `Write` goes on in the next cluster. -/
theorem advance_next {v : Volume} {first : Nat} {l : List Nat} (h : v.fat.IsChain first l)
    {j c d : Nat} (hc : l[j]? = some c) (hd : l[j + 1]? = some d) (rest : Nat) :
    v.advance c rest = some (v, d) := by
  have hcm := h.2 c (List.mem_of_getElem? hc)
  obtain ⟨next, hnext, hne, rfl⟩ := Table.nextCluster_link hcm.2.1 (h.1.next_getElem hc hd)
  simp [advance, hnext, hne]

/-- At the end of the chain it goes on in the last cluster that it gets. -/
theorem advance_end {v : Volume} {first : Nat} {l : List Nat} (h : v.fat.IsChain first l)
    (rest : Nat) :
    v.advance (l.getLast h.1.ne_nil) rest =
      if v.numCluster rest ≤ v.fat.freeList.length then
        some (v.withFat (v.fat.relink (l.getLast h.1.ne_nil)
          (v.fat.freeList.take (v.numCluster rest))),
          (l.getLast h.1.ne_nil :: v.fat.freeList.take (v.numCluster rest)).getLast (by simp))
      else none := by
  have hlast := h.2 _ (List.getLast_mem h.1.ne_nil)
  have hnext := Table.nextCluster_end hlast.2.1 h.1.next_getLast
  simp only [advance, hnext, Option.bind_eq_bind, Option.bind_some, if_true,
    Table.extendCluster_eq h.getLast, List.getLast_singleton]
  by_cases hn : v.numCluster rest ≤ v.fat.freeList.length <;> simp [hn]

namespace Owns

variable {v₀ v v' : Volume} {first : Nat} {l : List Nat}

theorem congr (h : Owns v₀ v first l) (hfat : v'.fat = v.fat)
    (hbpc : v'.bytesPerCluster = v.bytesPerCluster) : Owns v₀ v' first l := by
  obtain ⟨t, hl, hf⟩ := h.head
  exact ⟨hbpc.trans h.bpc, ⟨t, hl, hfat.trans hf⟩, h.free⟩

theorem nodup (h : Owns v₀ v first l) : l.Nodup := by
  obtain ⟨rest, hr⟩ := h.free
  exact (List.nodup_append.mp (hr ▸ v₀.fat.nodup_freeList)).1

theorem mem_free (h : Owns v₀ v first l) {c : Nat} (hc : c ∈ l) : v₀.fat.Free c := by
  obtain ⟨rest, hr⟩ := h.free
  exact Table.mem_freeList.mp (hr ▸ List.mem_append_left rest hc)

theorem chain (h : Owns v₀ v first l) : v.fat.IsChain first l := by
  obtain ⟨t, rfl, hf⟩ := h.head
  rw [hf]
  exact Table.relink_free (fun d hd => h.mem_free hd) h.nodup

/-- The table is as it was off the chain. -/
theorem entry_eq (h : Owns v₀ v first l) {c : Nat} (hc : c ∉ l) :
    v.fat.entry c = v₀.fat.entry c := by
  obtain ⟨t, rfl, hf⟩ := h.head
  rw [hf, Table.relink_of_not_mem _ hc]

theorem inside (h : Owns v₀ v first l) {c : Nat} (hc : c ∈ l) : v.inside c = true :=
  v.inside_of_used (h.chain.2 c hc)

/-- What is free now is what was free, but the chain. -/
theorem freeList (h : Owns v₀ v first l) : v₀.fat.freeList = l ++ v.fat.freeList := by
  obtain ⟨t, rfl, hf⟩ := h.head
  obtain ⟨rest, hr⟩ := h.free
  rw [hf, Table.freeList_relink hr, hr]

/-- `ExtendCluster` behind the last cluster. -/
theorem extend (h : Owns v₀ v first l) (n : Nat) :
    Owns v₀ (v.withFat (v.fat.relink (l.getLast h.chain.1.ne_nil) (v.fat.freeList.take n))) first
      (l ++ v.fat.freeList.take n) := by
  have hfree := h.freeList
  obtain ⟨t, rfl, hf⟩ := h.head
  refine ⟨h.bpc, ⟨t ++ v.fat.freeList.take n, rfl, ?_⟩, v.fat.freeList.drop n, ?_⟩
  · have happ := Table.relink_append v₀.fat first t (v.fat.freeList.take n)
    rw [← hf] at happ
    exact happ
  · rw [List.append_assoc, List.take_append_drop, hfree]

/-- Wherever it goes on, it is in the file's chain. -/
theorem advance_some (h : Owns v₀ v first l) {c c' rest : Nat} (hc : c ∈ l)
    (hr : v.advance c rest = some (v', c')) :
    ∃ m, Owns v₀ v' first (l ++ m) ∧ c' ∈ l ++ m ∧ v'.data = v.data := by
  obtain ⟨j, hj⟩ := List.getElem?_of_mem hc
  cases hd : l[j + 1]? with
  | some d =>
      rw [advance_next h.chain hj hd] at hr
      cases hr
      exact ⟨[], by rwa [List.append_nil], by simpa using List.mem_of_getElem? hd, rfl⟩
  | none =>
      -- the cluster is the last one
      have hlt := (List.getElem?_eq_some_iff.mp hj).1
      have hle := List.getElem?_eq_none_iff.mp hd
      rw [← getLast_of_getElem? hj (by omega) h.chain.1.ne_nil, advance_end h.chain] at hr
      split at hr
      next =>
        cases hr
        refine ⟨_, h.extend _, ?_, rfl⟩
        rw [← getLast_append_eq h.chain.1.ne_nil]
        exact List.getLast_mem _
      next => cases hr

end Owns

theorem writeTurn_eq_some {buf : Buffer} {w w' : Cursor} :
    writeTurn buf w = some w' ↔ ∃ vol c off, wrPlace buf w = some (vol, c, off) ∧
      vol.inside c = true ∧
      Cursor.mk (vol.put c off (min buf.len (vol.bytesPerCluster - off))
        fun i => buf.byte (w.total + i)) c (off + min buf.len (vol.bytesPerCluster - off))
        (w.total + min buf.len (vol.bytesPerCluster - off)) = w' := by
  simp only [writeTurn, Option.bind_eq_bind, Option.pure_def, Option.bind_eq_some_iff,
    Option.some.injEq, Prod.exists, Option.guard_eq_some', exists_const]

/-- A turn stays in the file's chain, which it may extend. -/
theorem writeTurn_owns {v₀ : Volume} {first : Nat} {buf : Buffer} {w w' : Cursor} {l : List Nat}
    (h : Owns v₀ w.vol first l) (hc : w.cluster ∈ l) (hr : writeTurn buf w = some w') :
    ∃ m, Owns v₀ w'.vol first (l ++ m) ∧ w'.cluster ∈ l ++ m ∧
      ∀ c ∉ l ++ m, w'.vol.data c = w.vol.data c := by
  obtain ⟨vol, c, off, hgo, -, rfl⟩ := writeTurn_eq_some.mp hr
  obtain ⟨m, hm, hcm, hdata⟩ : ∃ m, Owns v₀ vol first (l ++ m) ∧ c ∈ l ++ m ∧
      vol.data = w.vol.data := by
    rw [wrPlace] at hgo
    split at hgo
    next =>
      obtain ⟨r, hadv, hr⟩ := Option.map_eq_some_iff.mp hgo
      cases hr
      exact h.advance_some hc hadv
    next =>
      cases hgo
      exact ⟨[], by rwa [List.append_nil], by rwa [List.append_nil], rfl⟩
  refine ⟨m, hm.congr rfl rfl, hcm, fun d hd => ?_⟩
  have hne : d ≠ c := fun he => hd (he ▸ hcm)
  funext o
  simp only [put_ne vol o _ _ _ hne, hdata]

/-- What every turn keeps, the loop keeps. -/
theorem writeLoop_keeps (P : Cursor → Prop) {buf : Buffer}
    (hturn : ∀ {w w'}, P w → w.total < buf.len → writeTurn buf w = some w' → P w') {fuel : Nat}
    {w w' : Cursor} (h : P w) (hr : writeLoop buf fuel w = some w') : P w' := by
  induction fuel generalizing w with
  | zero =>
      rw [writeLoop] at hr
      split at hr
      next => cases hr
      next => exact Option.some.inj hr ▸ h
  | succ fuel ih =>
      rw [writeLoop] at hr
      split at hr
      next hlt =>
        obtain ⟨w₁, hw₁, hrest⟩ := Option.bind_eq_some_iff.mp hr
        exact ih (hturn h hlt hw₁) hrest
      next => exact Option.some.inj hr ▸ h

/-- The loop stays in the file's chain, which it may extend. -/
theorem writeLoop_owns {v₀ : Volume} {first : Nat} {buf : Buffer} {fuel : Nat} {w w' : Cursor}
    {l : List Nat} (h : Owns v₀ w.vol first l) (hc : w.cluster ∈ l)
    (hr : writeLoop buf fuel w = some w') :
    ∃ m, Owns v₀ w'.vol first (l ++ m) ∧ w'.cluster ∈ l ++ m ∧
      ∀ c ∉ l ++ m, w'.vol.data c = w.vol.data c := by
  refine writeLoop_keeps (fun x => ∃ m, Owns v₀ x.vol first (l ++ m) ∧ x.cluster ∈ l ++ m ∧
    ∀ c ∉ l ++ m, x.vol.data c = w.vol.data c) ?_
    ⟨[], by rwa [List.append_nil], by rwa [List.append_nil], fun _ _ => rfl⟩ hr
  rintro x x' ⟨m, hm, hcm, hdata⟩ - hturn
  obtain ⟨m', hm', hcm', hdata'⟩ := writeTurn_owns hm hcm hturn
  rw [List.append_assoc] at hm' hcm' hdata'
  refine ⟨m ++ m', hm', hcm', fun c hc => ?_⟩
  rw [hdata' c hc, hdata c fun hmem => hc ?_]
  rw [← List.append_assoc]
  exact List.mem_append_left m' hmem

/-- The loop ends when the count has reached the length. -/
theorem loop_done {buf : Buffer} {w : Cursor} (h : ¬w.total < buf.len) {fuel : Nat} :
    writeLoop buf fuel w = some w := by
  cases fuel <;> rw [writeLoop, if_neg h]

/-! ## The bytes of the file -/

/-- The bytes lie in the file's chain, and end at the offset `off` of its `j`-th
cluster `c`. -/
structure Filled (v₀ v : Volume) (first : Nat) (l : List Nat) (j c off : Nat)
    (bytes : List UInt8) : Prop where
  owns : Owns v₀ v first l
  cluster : l[j]? = some c
  off_le : off ≤ v.bytesPerCluster
  length : bytes.length = j * v.bytesPerCluster + off
  striped : Striped v.bytesPerCluster v.data l bytes

namespace Filled

variable {v₀ v : Volume} {first j c off : Nat} {l : List Nat} {bytes : List UInt8}

/-- `memcpy` behind the end, within the cluster. -/
theorem put (h : Filled v₀ v first l j c off bytes) {n : Nat} (f : Nat → UInt8)
    (hn : off + n ≤ v.bytesPerCluster) :
    Filled v₀ (v.put c off n f) first l j c (off + n) (bytes ++ (List.range n).map f) where
  owns := h.owns.congr rfl rfl
  cluster := h.cluster
  off_le := hn
  length := by
    rw [List.length_append, List.length_map, List.length_range, h.length]
    simp only [put_bytesPerCluster, Nat.add_assoc]
  striped := by
    refine h.striped.write h.owns.nodup h.cluster h.length hn (fun i hi => v.put_same c off f hi) ?_
    rintro d o (hd | ho)
    · exact v.put_ne o off n f hd
    · exact v.put_off d f (.inl ho)

/-- One turn, from the place that it copies to. -/
theorem turn {w : Cursor} {buf : Buffer}
    (h : Filled v₀ v first l j c off (bytes ++ buf.take w.total))
    (hp : wrPlace buf w = some (v, c, off)) :
    ∃ w', writeTurn buf w = some w' ∧
      w'.total = w.total + min buf.len (v.bytesPerCluster - off) ∧
      w'.off = off + min buf.len (v.bytesPerCluster - off) ∧
      w'.vol.bytesPerCluster = v.bytesPerCluster ∧
      Filled v₀ w'.vol first l j w'.cluster w'.off (bytes ++ buf.take w'.total) := by
  have hin := h.owns.inside (List.mem_of_getElem? h.cluster)
  have hle := h.off_le
  have hn : off + min buf.len (v.bytesPerCluster - off) ≤ v.bytesPerCluster := by omega
  have hput := h.put (fun i => buf.byte (w.total + i)) hn
  rw [List.append_assoc, ← Buffer.take_add] at hput
  have hrun : writeTurn buf w = some ⟨v.put c off (min buf.len (v.bytesPerCluster - off))
      fun i => buf.byte (w.total + i), c, off + min buf.len (v.bytesPerCluster - off),
      w.total + min buf.len (v.bytesPerCluster - off)⟩ := by
    simp only [writeTurn, hp, Option.bind_eq_bind, Option.bind_some, hin, guard_true,
      Option.pure_def]
  exact ⟨_, hrun, rfl, rfl, rfl, hput⟩

/-- Before the end of the cluster it is the place. -/
theorem place_in {buf : Buffer} {w : Cursor} (hoff : w.off ≠ w.vol.bytesPerCluster) :
    wrPlace buf w = some (w.vol, w.cluster, w.off) := by
  rw [wrPlace, if_neg hoff]

/-- At its end the next cluster of the chain is. -/
theorem place_next {buf : Buffer} {w : Cursor} {d : Nat}
    (h : Filled v₀ w.vol first l j w.cluster w.off bytes) (hoff : w.off = w.vol.bytesPerCluster)
    (hd : l[j + 1]? = some d) :
    wrPlace buf w = some (w.vol, d, 0) ∧ Filled v₀ w.vol first l (j + 1) d 0 bytes := by
  constructor
  · rw [wrPlace, if_pos hoff, advance_next h.owns.chain h.cluster hd]
    rfl
  · refine ⟨h.owns, hd, Nat.zero_le _, ?_, h.striped⟩
    rw [h.length, hoff, Nat.succ_mul]
    omega

/-- At the end of the chain a new cluster is. -/
theorem place_end {buf : Buffer} {w : Cursor}
    (h : Filled v₀ w.vol first l j w.cluster w.off bytes) (hoff : w.off = w.vol.bytesPerCluster)
    (hj : j + 1 = l.length) (hone : w.vol.numCluster (buf.len - w.total) = 1)
    (hfree : l.length < v₀.fat.freeList.length) :
    ∃ v z, wrPlace buf w = some (v, z, 0) ∧ v.bytesPerCluster = w.vol.bytesPerCluster ∧
      Filled v₀ v first (l ++ [z]) (j + 1) z 0 bytes := by
  have hlast := getLast_of_getElem? h.cluster hj h.owns.chain.1.ne_nil
  have hlen := congrArg List.length h.owns.freeList
  rw [List.length_append] at hlen
  obtain ⟨z, rest, hz⟩ := List.exists_cons_of_length_pos (l := w.vol.fat.freeList) (by omega)
  have hext := h.owns.extend 1
  have hadv := advance_end h.owns.chain (buf.len - w.total)
  rw [hone, if_pos (by omega)] at hadv
  simp only [hlast, hz, List.take_succ_cons, List.take_zero, List.getLast_cons_cons,
    List.getLast_singleton] at hadv hext
  refine ⟨w.vol.withFat (w.vol.fat.relink w.cluster [z]), z, ?_, rfl, hext, ?_, Nat.zero_le _,
    ?_, ?_⟩
  · rw [wrPlace, if_pos hoff, hadv]
    rfl
  · rw [List.getElem?_append_right (by omega), hj, Nat.sub_self]
    rfl
  · rw [h.length, hoff, Nat.succ_mul]
    rfl
  · exact h.striped.append [z]

/-- The last turn: it copies what is left of the buffer. -/
theorem finish {w : Cursor} {buf : Buffer}
    (h : Filled v₀ v first l j c off (bytes ++ buf.take w.total))
    (hp : wrPlace buf w = some (v, c, off)) (hlt : w.total < buf.len)
    (hn : min buf.len (v.bytesPerCluster - off) = buf.len - w.total) (fuel : Nat) :
    ∃ w', writeLoop buf (fuel + 1) w = some w' ∧ w'.total = buf.len ∧
      w'.off = off + (buf.len - w.total) ∧ w'.vol.bytesPerCluster = v.bytesPerCluster ∧
      Filled v₀ w'.vol first l j w'.cluster w'.off (bytes ++ buf.bytes) := by
  obtain ⟨w', hrun, htotal, hoff, hbpc, hfill⟩ := h.turn hp
  have hend : w'.total = buf.len := by omega
  refine ⟨w', ?_, hend, by rw [hoff, hn], hbpc, ?_⟩
  · rw [writeLoop, if_pos hlt, hrun]
    exact loop_done (by omega)
  · rwa [hend] at hfill

end Filled

/-! ## Calls that store their buffer -/

/-- The clusters a file of so many bytes takes, once it was written to. -/
def clustersOf (B bytes : Nat) : Nat := max 1 ((bytes + B - 1) / B)

theorem numCluster_eq (v : Volume) {n : Nat} (hn : n < 2 ^ 63) :
    v.numCluster n = (n + v.bytesPerCluster - 1) / v.bytesPerCluster := by
  have hB := v.bytesPerCluster_lt
  rw [numCluster, Nat.mod_eq_of_lt (by omega)]

theorem numCluster_one (v : Volume) {n : Nat} (h0 : 0 < n) (hn : n ≤ v.bytesPerCluster) :
    v.numCluster n = 1 := by
  have hB := v.bytesPerCluster_lt
  rw [numCluster_eq v (by omega), Nat.div_eq_of_lt_le] <;> omega

/-- A file that ends in its `k`-th cluster behind the first byte takes `k + 1`. -/
theorem clustersOf_place {B k o : Nat} (h0 : 0 < o) (ho : o ≤ B) :
    clustersOf B (k * B + o) = k + 1 := by
  have hdiv : (k * B + o + B - 1) / B = k + (o + B - 1) / B := by
    rw [Nat.add_assoc, Nat.add_sub_assoc (by omega), Nat.mul_comm, Nat.mul_add_div (by omega)]
  have hone : (o + B - 1) / B = 1 := Nat.div_eq_of_lt_le (by omega) (by omega)
  rw [clustersOf, hdiv, hone]
  omega

theorem clustersOf_zero {B : Nat} (hB : 0 < B) : clustersOf B 0 = 1 := by
  rw [clustersOf, Nat.div_eq_of_lt (by omega)]
  rfl

/-- A cursor at the end of the file: in its last cluster, and behind its first byte
unless the file is empty. -/
structure AtEnd (v₀ v : Volume) (first : Nat) (l : List Nat) (c off : Nat)
    (bytes : List UInt8) : Prop where
  filled : Filled v₀ v first l (l.length - 1) c off bytes
  used : off = 0 → l.length = 1

namespace AtEnd

variable {v₀ v : Volume} {first c off : Nat} {l : List Nat} {bytes : List UInt8}

theorem length_pos (h : AtEnd v₀ v first l c off bytes) : 0 < l.length :=
  List.length_pos_of_mem (List.mem_of_getElem? h.filled.cluster)

/-- The chain has no cluster to spare. -/
theorem length_eq (h : AtEnd v₀ v first l c off bytes) :
    l.length = clustersOf v.bytesPerCluster bytes.length := by
  have hpos := h.length_pos
  have hle := h.filled.off_le
  have hlen := h.filled.length
  by_cases h0 : off = 0
  · have hone := h.used h0
    rw [hone, h0] at hlen
    rw [hlen, hone]
    simp [clustersOf_zero v.bytesPerCluster_pos]
  · rw [hlen, clustersOf_place (by omega) hle]
    omega

/-- `Write` stores a buffer that ends in the last cluster or fills the next one. -/
theorem loop {w : Cursor} {buf : Buffer} (h : AtEnd v₀ w.vol first l w.cluster w.off bytes)
    (hw : w.total = 0)
    (hfit : buf.len + w.off ≤ w.vol.bytesPerCluster ∨
      buf.len + w.off = 2 * w.vol.bytesPerCluster ∨
      w.off = w.vol.bytesPerCluster ∧ buf.len ≤ w.vol.bytesPerCluster)
    (hfree : clustersOf w.vol.bytesPerCluster (bytes.length + buf.len) ≤ v₀.fat.freeList.length) :
    ∃ w' l', writeLoop buf buf.len w = some w' ∧ w'.total = buf.len ∧
      w'.vol.bytesPerCluster = w.vol.bytesPerCluster ∧
      AtEnd v₀ w'.vol first l' w'.cluster w'.off (bytes ++ buf.bytes) := by
  have hpos := h.length_pos
  have hle := h.filled.off_le
  have hlen := h.filled.length
  have hend : l.length - 1 + 1 = l.length := by omega
  have hstart : bytes ++ buf.take w.total = bytes := by rw [hw]; exact List.append_nil bytes
  have hfill : Filled v₀ w.vol first l (l.length - 1) w.cluster w.off (bytes ++ buf.take w.total) :=
    hstart.symm ▸ h.filled
  by_cases h0 : buf.len = 0
  · -- nothing to copy
    have hnil : buf.bytes = [] := by rw [Buffer.bytes, h0]; rfl
    refine ⟨w, l, ?_, by omega, rfl, ?_⟩
    · exact loop_done (by omega)
    · rwa [hnil, List.append_nil]
  obtain ⟨fuel, hfuel⟩ := Nat.exists_eq_succ_of_ne_zero h0
  rw [hfuel]
  by_cases hin : buf.len + w.off ≤ w.vol.bytesPerCluster
  · -- the buffer ends in the last cluster
    obtain ⟨w', hrun, htotal, hoff, hbpc, hfill'⟩ :=
      hfill.finish (Filled.place_in (by omega)) (by omega) (by omega) fuel
    exact ⟨w', l, hrun, hfuel ▸ htotal, hbpc, hfill', fun h0' => by omega⟩
  have hroom : l.length < v₀.fat.freeList.length := by
    have hmul : l.length * w.vol.bytesPerCluster =
        (l.length - 1) * w.vol.bytesPerCluster + w.vol.bytesPerCluster := by
      rw [← Nat.succ_mul, Nat.succ_eq_add_one, hend]
    have hsum : bytes.length + buf.len =
        l.length * w.vol.bytesPerCluster + (buf.len + w.off - w.vol.bytesPerCluster) := by omega
    rw [hsum, clustersOf_place (by omega) (by omega)] at hfree
    omega
  by_cases hoff : w.off = w.vol.bytesPerCluster
  · -- the buffer starts in a new cluster and ends there
    have hone : w.vol.numCluster (buf.len - w.total) = 1 := numCluster_one _ (by omega) (by omega)
    obtain ⟨v, z, hp, hbpc, hfill₁⟩ := hfill.place_end hoff hend hone hroom
    obtain ⟨w', hrun, htotal, hoff', hbpc', hfill'⟩ :=
      hfill₁.finish hp (by omega) (by omega) fuel
    refine ⟨w', l ++ [z], hrun, hfuel ▸ htotal, hbpc'.trans hbpc, ?_, fun h0' => by omega⟩
    rw [List.length_append, List.length_singleton, Nat.add_sub_cancel, ← hend]
    exact hfill'
  · -- the first turn fills the last cluster, the second one a new cluster
    obtain ⟨w₁, hrun₁, htotal₁, hoff₁, hbpc₁, hfill₁⟩ := hfill.turn (Filled.place_in hoff)
    have hone : w₁.vol.numCluster (buf.len - w₁.total) = 1 := numCluster_one _ (by omega) (by omega)
    obtain ⟨v, z, hp, hbpc, hfill₂⟩ := hfill₁.place_end (by omega) hend hone hroom
    obtain ⟨fuel, rfl⟩ := Nat.exists_eq_add_one_of_ne_zero (n := fuel) (by omega)
    obtain ⟨w', hrun, htotal, hoff', hbpc', hfill'⟩ :=
      hfill₂.finish hp (by omega) (by omega) fuel
    refine ⟨w', l ++ [z], ?_, hfuel ▸ htotal, by omega, ?_, fun h0' => by omega⟩
    · rw [writeLoop, if_pos (by omega), hrun₁]
      exact hrun
    · rw [List.length_append, List.length_singleton, Nat.add_sub_cancel, ← hend]
      exact hfill'

/-- Whole clusters fill the chain that was allocated for them. -/
theorem loop_whole {buf : Buffer} {m : Nat} {w : Cursor} {j fuel : Nat}
    (h : Filled v₀ w.vol first l j w.cluster w.off (bytes ++ buf.take w.total))
    (hoff : w.off = w.vol.bytesPerCluster) (hm : j + 1 + m = l.length)
    (htotal : w.total + m * w.vol.bytesPerCluster = buf.len) (hfuel : m ≤ fuel) :
    ∃ w', writeLoop buf fuel w = some w' ∧ w'.total = buf.len ∧
      w'.vol.bytesPerCluster = w.vol.bytesPerCluster ∧
      AtEnd v₀ w'.vol first l w'.cluster w'.off (bytes ++ buf.bytes) := by
  have hB := w.vol.bytesPerCluster_pos
  induction m generalizing w j fuel with
  | zero =>
      have hend : w.total = buf.len := by omega
      have hj : j = l.length - 1 := by omega
      refine ⟨w, loop_done (by omega), hend, rfl, ?_, fun h0 => by omega⟩
      rwa [hend, hj] at h
  | succ m ih =>
      obtain ⟨fuel, rfl⟩ := Nat.exists_eq_add_one_of_ne_zero (n := fuel) (by omega)
      rw [Nat.succ_mul] at htotal
      obtain ⟨d, hd⟩ : ∃ d, l[j + 1]? = some d := ⟨_, List.getElem?_eq_getElem (by omega)⟩
      obtain ⟨hp, hfill⟩ := h.place_next hoff hd
      obtain ⟨w₁, hrun₁, htotal₁, hoff₁, hbpc₁, hfill₁⟩ := hfill.turn hp
      have hmin : min buf.len (w.vol.bytesPerCluster - 0) = w.vol.bytesPerCluster := by omega
      rw [hmin] at htotal₁ hoff₁
      obtain ⟨w', hrun, htotal', hbpc, hend⟩ := ih hfill₁ (by omega) (by omega)
        (by rw [htotal₁, hbpc₁]; omega) (Nat.le_of_succ_le_succ hfuel) (hbpc₁ ▸ hB)
      refine ⟨w', ?_, htotal', hbpc.trans hbpc₁, hend⟩
      rw [writeLoop, if_pos (by omega), hrun₁]
      exact hrun

end AtEnd

/-- The first `Write` of a file allocates its chain. -/
theorem wrStart_new {v₀ : Volume} {entry : Slot} {len : Nat} (h0 : v₀.firstCluster entry = 0)
    (hfree : max 1 (v₀.numCluster len) ≤ v₀.fat.freeList.length) :
    ∃ v first l, v₀.wrStart (.new entry) len = some (v, first) ∧
      l.length = max 1 (v₀.numCluster len) ∧ v.bytesPerCluster = v₀.bytesPerCluster ∧
      v.firstCluster entry = UInt32.ofNat first ∧
      Filled v₀ v first l 0 first 0 [] ∧
      ∀ c o, ¬entry.Written c o → v.data c o = v₀.data c o := by
  obtain ⟨first, rest, hf⟩ := List.exists_cons_of_length_pos (l := v₀.fat.freeList) (by omega)
  have hlen : v₀.fat.freeList.length = rest.length + 1 := by rw [hf, List.length_cons]
  have hrun : v₀.fat.allocateClusterChain (v₀.numCluster len) =
      some (v₀.fat.relink first (rest.take (v₀.numCluster len - 1)), first) := by
    rw [Table.allocateClusterChain_eq hf, if_pos (by omega)]
  have howns : Owns v₀ ((v₀.withFat (v₀.fat.relink first (rest.take (v₀.numCluster len - 1)))
      ).setFirstCluster entry (UInt32.ofNat first)) first
      (first :: rest.take (v₀.numCluster len - 1)) := by
    refine ⟨rfl, ⟨_, rfl, rfl⟩, rest.drop (v₀.numCluster len - 1), ?_⟩
    rw [hf, List.cons_append, List.take_append_drop]
  refine ⟨_, first, _, ?_, ?_, howns.bpc, ?_, ⟨howns, rfl, Nat.zero_le _, ?_, Striped.nil⟩, ?_⟩
  · simp only [wrStart, FileDescriptor.new, h0, hrun]
    rfl
  · rw [List.length_cons, List.length_take]
    omega
  · exact firstCluster_setFirstCluster _ entry _
  · rw [Nat.zero_mul]
    rfl
  · exact fun c o hco => setFirstCluster_data _ _ hco

theorem Owns.not_mem {v₀ v : Volume} {first c : Nat} {l : List Nat} (h : Owns v₀ v first l)
    (hc : v₀.fat.Used c) : c ∉ l :=
  fun hm => hc.2.2 (h.mem_free hm).2.2

theorem AtEnd.congr {v₀ v v' : Volume} {first c off : Nat} {l : List Nat} {bytes : List UInt8}
    (h : AtEnd v₀ v first l c off bytes) (hfat : v'.fat = v.fat)
    (hbpc : v'.bytesPerCluster = v.bytesPerCluster) (hd : ∀ c ∈ l, ∀ o, v'.data c o = v.data c o) :
    AtEnd v₀ v' first l c off bytes := by
  obtain ⟨⟨howns, hcl, hle, hlen, hstr⟩, hused⟩ := h
  refine ⟨⟨howns.congr hfat hbpc, hcl, hbpc ▸ hle, hbpc ▸ hlen, ?_⟩, hused⟩
  rw [hbpc]
  exact hstr.congr hd

/-- The file as it should be after calls that wrote `bytes`. -/
structure Good (v₀ v : Volume) (entry : Slot) (fd : FileDescriptor) (first : Nat) (l : List Nat)
    (bytes : List UInt8) : Prop where
  slot : fd.entry = entry
  atEnd : AtEnd v₀ v first l fd.wrCluster fd.wrClusterOff bytes
  wrOff : fd.wrOff = bytes.length
  firstCluster : v.firstCluster entry = UInt32.ofNat first
  fileSize : v.fileSize entry = UInt32.ofNat bytes.length
  frame : ∀ c ∉ l, ∀ o, ¬entry.Written c o → v.data c o = v₀.data c o

/-- What `Write` does after a loop that stored its buffer. -/
theorem good_of_loop {v₀ v v₁ : Volume} {entry : Slot} {fd : FileDescriptor} {first c : Nat}
    {l l' : List Nat} {bytes : List UInt8} {buf : Buffer} {w' : Cursor}
    (hslot : v₀.fat.Used entry.cluster) (hentry : fd.entry = entry)
    (hstart : v.wrStart fd buf.len = some (v₁, c))
    (howns : Owns v₀ v₁ first l) (hc : c ∈ l)
    (hfirst : v₁.firstCluster entry = UInt32.ofNat first)
    (hframe : ∀ c ∉ l, ∀ o, ¬entry.Written c o → v₁.data c o = v₀.data c o)
    (hrun : writeLoop buf buf.len ⟨v₁, c, fd.wrClusterOff, 0⟩ = some w')
    (htotal : w'.total = buf.len)
    (hend : AtEnd v₀ w'.vol first l' w'.cluster w'.off (bytes ++ buf.bytes))
    (hoff : fd.wrOff = bytes.length) (hlt : bytes.length + buf.len < 2 ^ 32) :
    ∃ v' fd', v.write fd buf = some (v', fd', buf.len) ∧
      Good v₀ v' entry fd' first l' (bytes ++ buf.bytes) := by
  subst hentry
  obtain ⟨m, hm, -, hdata⟩ := writeLoop_owns howns hc hrun
  have hl : l' = l ++ m := hend.filled.owns.chain.unique hm.chain
  have hnot := hm.not_mem hslot
  have hlen : (bytes ++ buf.bytes).length = bytes.length + buf.len := by
    simp [Buffer.bytes, Buffer.take]
  have hmod : (fd.wrOff + buf.len) % 2 ^ 64 = (bytes ++ buf.bytes).length := by
    rw [hoff, hlen, Nat.mod_eq_of_lt (by omega)]
  have hwrite : v.write fd buf = some (w'.vol.setFileSize fd.entry
      (UInt32.ofNat (bytes ++ buf.bytes).length), { fd with
        wrOff := (bytes ++ buf.bytes).length, wrCluster := w'.cluster, wrClusterOff := w'.off },
      buf.len) := by
    simp only [write, hstart, hrun, htotal, hmod, Option.bind_eq_bind, Option.bind_some,
      Option.pure_def]
  refine ⟨_, _, hwrite, rfl, ?_, rfl, ?_, fileSize_setFileSize _ fd.entry _, ?_⟩
  · refine hend.congr rfl rfl fun d hd o => setFileSize_data _ _ fun hw => hnot ?_
    rw [← hw.1, ← hl]
    exact hd
  · have hsame : w'.vol.firstCluster fd.entry = v₁.firstCluster fd.entry :=
      firstCluster_congr fun o => congrFun (hdata _ hnot) o
    rw [firstCluster_setFileSize, hsame, hfirst]
  · intro d hd o hw
    rw [hl] at hd
    rw [setFileSize_data _ _ hw, hdata d hd]
    exact hframe d (fun hm => hd (List.mem_append_left m hm)) o hw

/-! ## One call -/

/-- The offset in its last cluster at which a file of so many bytes ends. -/
def lastOff (B bytes : Nat) : Nat := if bytes = 0 then 0 else (bytes - 1) % B + 1

/-- The buffers that a call stores: the first call takes what one cluster holds or a
whole number of clusters, a later one ends in the last cluster or fills the next,
or it starts in the next and ends there. -/
def FitsNext (B : Nat) (fresh : Bool) (bytes len : Nat) : Prop :=
  if fresh then len ≤ B ∨ B ∣ len
  else len + lastOff B bytes ≤ B ∨ len + lastOff B bytes = 2 * B ∨ lastOff B bytes = B ∧ len ≤ B

instance decFitsNext (B : Nat) (fresh : Bool) (bytes len : Nat) :
    Decidable (FitsNext B fresh bytes len) :=
  inferInstanceAs (Decidable (if fresh then len ≤ B ∨ B ∣ len
    else len + lastOff B bytes ≤ B ∨ len + lastOff B bytes = 2 * B ∨ lastOff B bytes = B ∧ len ≤ B))

/-- The end of the file is where its length says. -/
theorem AtEnd.off_eq {v₀ v : Volume} {first c off : Nat} {l : List Nat} {bytes : List UInt8}
    (h : AtEnd v₀ v first l c off bytes) : off = lastOff v.bytesPerCluster bytes.length := by
  have hle := h.filled.off_le
  have hlen := h.filled.length
  have hB := v.bytesPerCluster_pos
  rw [lastOff]
  by_cases h0 : off = 0
  · rw [h.used h0, h0] at hlen
    simp [hlen, h0]
  · have hne : bytes.length ≠ 0 := by omega
    have hmod : (bytes.length - 1) % v.bytesPerCluster = off - 1 := by
      rw [hlen, Nat.add_sub_assoc (by omega), Nat.mul_comm, Nat.mul_add_mod,
        Nat.mod_eq_of_lt (by omega)]
    rw [if_neg hne, hmod]
    omega

/-- A later call stores a buffer that fits. -/
theorem Good.write {v₀ v : Volume} {entry : Slot} {fd : FileDescriptor} {first : Nat}
    {l : List Nat} {bytes : List UInt8} (h : Good v₀ v entry fd first l bytes)
    (hslot : v₀.fat.Used entry.cluster) {buf : Buffer}
    (hfit : FitsNext v₀.bytesPerCluster false bytes.length buf.len)
    (hfree : clustersOf v₀.bytesPerCluster (bytes.length + buf.len) ≤ v₀.fat.freeList.length)
    (hlt : bytes.length + buf.len < 2 ^ 32) :
    ∃ v' fd' l', v.write fd buf = some (v', fd', buf.len) ∧
      Good v₀ v' entry fd' first l' (bytes ++ buf.bytes) := by
  have hbpc := h.atEnd.filled.owns.bpc
  have hmem := List.mem_of_getElem? h.atEnd.filled.cluster
  have hne : fd.wrCluster ≠ 0 := by
    have h2 := (h.atEnd.filled.owns.mem_free hmem).1
    omega
  have hoff := h.atEnd.off_eq
  rw [hbpc] at hoff
  rw [FitsNext, ← hoff] at hfit
  rw [← hbpc] at hfit hfree
  obtain ⟨w', l', hrun, htotal, -, hend⟩ :=
    AtEnd.loop (w := ⟨v, fd.wrCluster, fd.wrClusterOff, 0⟩) h.atEnd rfl hfit hfree
  obtain ⟨v', fd', hwrite, hgood⟩ := good_of_loop hslot h.slot (by rw [wrStart, if_neg hne])
    h.atEnd.filled.owns hmem h.firstCluster h.frame hrun htotal hend h.wrOff hlt
  exact ⟨v', fd', l', hwrite, hgood⟩

/-- The first call stores a buffer that fits. -/
theorem good_first {v₀ : Volume} {entry : Slot} (h0 : v₀.firstCluster entry = 0)
    (hslot : v₀.fat.Used entry.cluster) {buf : Buffer}
    (hfit : FitsNext v₀.bytesPerCluster true 0 buf.len)
    (hfree : clustersOf v₀.bytesPerCluster buf.len ≤ v₀.fat.freeList.length)
    (hlt : buf.len < 2 ^ 32) :
    ∃ v' fd' first l', v₀.write (.new entry) buf = some (v', fd', buf.len) ∧
      Good v₀ v' entry fd' first l' buf.bytes := by
  have hB := v₀.bytesPerCluster_pos
  have hnum := v₀.numCluster_eq (n := buf.len) (by omega)
  have hfree' : max 1 (v₀.numCluster buf.len) ≤ v₀.fat.freeList.length := hnum ▸ hfree
  obtain ⟨v₁, first, l, hstart, hlen, hbpc, hfirst, hfill, hframe⟩ := wrStart_new h0 hfree'
  have hone : ∃ w' l', writeLoop buf buf.len ⟨v₁, first, 0, 0⟩ = some w' ∧ w'.total = buf.len ∧
      AtEnd v₀ w'.vol first l' w'.cluster w'.off ([] ++ buf.bytes) := by
    by_cases hle : buf.len ≤ v₀.bytesPerCluster
    · -- one cluster holds the buffer
      have hdiv : (buf.len + v₀.bytesPerCluster - 1) / v₀.bytesPerCluster < 2 :=
        Nat.div_lt_of_lt_mul (by omega)
      have hl : l.length = 1 := by omega
      have hend : AtEnd v₀ v₁ first l first 0 [] := ⟨by rwa [hl], fun _ => hl⟩
      obtain ⟨w', l', hrun, htotal, -, hend'⟩ := AtEnd.loop (w := ⟨v₁, first, 0, 0⟩) hend rfl
        (.inl (by simpa [hbpc] using hle)) (by simpa [hbpc] using hfree)
      exact ⟨w', l', hrun, htotal, hend'⟩
    · -- whole clusters
      obtain ⟨k, hk⟩ := hfit.resolve_left hle
      have hdiv : (buf.len + v₀.bytesPerCluster - 1) / v₀.bytesPerCluster = k := by
        rw [hk, Nat.add_sub_assoc (by omega), Nat.mul_add_div hB, Nat.div_eq_of_lt (by omega),
          Nat.add_zero]
      obtain ⟨k, rfl⟩ : ∃ i, k = i + 1 := Nat.exists_eq_add_one_of_ne_zero fun h0 => by
        rw [h0, Nat.mul_zero] at hk
        omega
      obtain ⟨fuel, hfuel⟩ := Nat.exists_eq_add_one_of_ne_zero (n := buf.len) (by omega)
      have hfill₀ : Filled v₀ v₁ first l 0 first 0 ([] ++ buf.take 0) := hfill
      have hin : (⟨v₁, first, 0, 0⟩ : Cursor).off ≠ v₁.bytesPerCluster := by simp only; omega
      obtain ⟨w₁, hrun₁, htotal₁, hoff₁, hbpc₁, hfill₁⟩ :=
        Filled.turn (w := ⟨v₁, first, 0, 0⟩) hfill₀ (Filled.place_in hin)
      have hmin : min buf.len (v₁.bytesPerCluster - 0) = v₀.bytesPerCluster := by omega
      rw [hmin, Nat.zero_add] at htotal₁ hoff₁
      have hmul : k ≤ fuel := by
        have := Nat.le_mul_of_pos_left (k + 1) hB
        omega
      obtain ⟨w', hrun, htotal, -, hend⟩ := AtEnd.loop_whole (m := k) hfill₁ (by omega) (by omega)
        (by rw [htotal₁, hbpc₁, hbpc, hk, Nat.mul_succ, Nat.mul_comm k]; omega) hmul
      refine ⟨w', l, ?_, htotal, hend⟩
      rw [hfuel, writeLoop, if_pos (by simp only; omega), hrun₁]
      exact hrun
  obtain ⟨w', l', hrun, htotal, hend⟩ := hone
  obtain ⟨v', fd', hwrite, hgood⟩ := good_of_loop hslot rfl hstart hfill.owns
    (List.mem_of_getElem? hfill.cluster) hfirst (fun c _ o => hframe c o) hrun htotal hend rfl
    (by simpa using hlt)
  exact ⟨v', fd', first, l', hwrite, hgood⟩

/-! ## Calls that do not -/

theorem Owns.wrPlace_bpc {v₀ : Volume} {first : Nat} {l : List Nat} {buf : Buffer} {w : Cursor}
    {v : Volume} {c off : Nat} (h : Owns v₀ w.vol first l) (hc : w.cluster ∈ l)
    (hp : wrPlace buf w = some (v, c, off)) :
    v.bytesPerCluster = v₀.bytesPerCluster ∧
      off = if w.off = v₀.bytesPerCluster then 0 else w.off := by
  rw [wrPlace, h.bpc] at hp
  split at hp
  next hoff =>
    obtain ⟨r, hadv, hr⟩ := Option.map_eq_some_iff.mp hp
    cases hr
    obtain ⟨m, hm, -, -⟩ := h.advance_some hc hadv
    exact ⟨hm.bpc, (if_pos hoff).symm⟩
  next hoff =>
    cases hp
    exact ⟨h.bpc, (if_neg hoff).symm⟩

/-- Turns that fill whole clusters copy whole clusters. -/
theorem loop_multiple {v₀ : Volume} {first : Nat} {buf : Buffer} {fuel : Nat} {w w' : Cursor}
    {l : List Nat} (h : Owns v₀ w.vol first l) (hc : w.cluster ∈ l)
    (hle : v₀.bytesPerCluster ≤ buf.len) (hoff : w.off = 0 ∨ w.off = v₀.bytesPerCluster)
    (htotal : v₀.bytesPerCluster ∣ w.total) (hr : writeLoop buf fuel w = some w') :
    v₀.bytesPerCluster ∣ w'.total := by
  induction fuel generalizing w l with
  | zero =>
      rw [writeLoop] at hr
      split at hr
      next => cases hr
      next => exact Option.some.inj hr ▸ htotal
  | succ fuel ih =>
      rw [writeLoop] at hr
      split at hr
      next =>
        obtain ⟨w₁, hturn, hrest⟩ := Option.bind_eq_some_iff.mp hr
        obtain ⟨m, hm, hcm, -⟩ := writeTurn_owns h hc hturn
        obtain ⟨v, c, off, hp, -, rfl⟩ := writeTurn_eq_some.mp hturn
        obtain ⟨hbpc, hoff'⟩ := h.wrPlace_bpc hc hp
        obtain rfl : off = 0 := by
          rcases hoff with h0 | hB
          · rw [hoff', h0]
            exact ite_self 0
          · rw [hoff', if_pos hB]
        have hmin : min buf.len (v.bytesPerCluster - 0) = v₀.bytesPerCluster := by omega
        refine ih hm hcm (.inr ?_) ?_ hrest
        · exact (Nat.zero_add _).trans hmin
        · simp only [hmin]
          exact Nat.dvd_add htotal (Nat.dvd_refl _)
      next => exact Option.some.inj hr ▸ htotal

/-- A turn at the end of the chain takes the clusters for all that is left, and goes on
in the last of them. -/
theorem Owns.turn_end {v₀ : Volume} {first j : Nat} {l : List Nat} {buf : Buffer} {w w' : Cursor}
    (h : Owns v₀ w.vol first l) (hc : l[j]? = some w.cluster) (hj : j + 1 = l.length)
    (hoff : w.off = v₀.bytesPerCluster) (hr : writeTurn buf w = some w') :
    ∃ m, Owns v₀ w'.vol first (l ++ m) ∧ m.length = v₀.numCluster (buf.len - w.total) ∧
      (l ++ m).getLast? = some w'.cluster ∧ w'.off = min buf.len v₀.bytesPerCluster ∧
      w'.total = w.total + min buf.len v₀.bytesPerCluster := by
  obtain ⟨v, c, off, hp, -, rfl⟩ := writeTurn_eq_some.mp hr
  have hlast := getLast_of_getElem? hc hj h.chain.1.ne_nil
  rw [wrPlace, if_pos (hoff.trans h.bpc.symm), ← hlast, advance_end h.chain] at hp
  have hnum : w.vol.numCluster (buf.len - w.total) = v₀.numCluster (buf.len - w.total) := by
    rw [numCluster, numCluster, h.bpc]
  split at hp
  next hn =>
    cases hp
    have hB : (w.vol.withFat (w.vol.fat.relink (l.getLast h.chain.1.ne_nil)
        (w.vol.fat.freeList.take (w.vol.numCluster (buf.len - w.total))))).bytesPerCluster =
        v₀.bytesPerCluster := h.bpc
    refine ⟨w.vol.fat.freeList.take (w.vol.numCluster (buf.len - w.total)),
      (h.extend _).congr rfl rfl, ?_, ?_, ?_, ?_⟩
    · rw [List.length_take, ← hnum]
      exact Nat.min_eq_left hn
    · rw [← getLast_append_eq h.chain.1.ne_nil]
      exact List.getLast?_eq_some_getLast _
    · simp only [hB, Nat.sub_zero, Nat.zero_add]
    · simp only [hB, Nat.sub_zero]
  next => cases hp

/-- From the end of the chain, with bytes left to copy: the loop copies the smaller of
the buffer and a cluster, and more only after it has lengthened the chain again. -/
theorem loop_at_end {v₀ : Volume} {first j : Nat} {l : List Nat} {buf : Buffer} {w w' : Cursor}
    {fuel : Nat} (h : Owns v₀ w.vol first l) (hc : l[j]? = some w.cluster) (hj : j + 1 = l.length)
    (hoff : w.off = v₀.bytesPerCluster) (hlt : w.total < buf.len) (hlen : buf.len < 2 ^ 63)
    (hr : writeLoop buf fuel w = some w') :
    ∃ l', Owns v₀ w'.vol first l' ∧
      (w'.total = w.total + min buf.len v₀.bytesPerCluster ∧
          buf.len ≤ w.total + min buf.len v₀.bytesPerCluster ∨
        w.total + v₀.bytesPerCluster < buf.len ∧
          l.length + v₀.numCluster (buf.len - w.total) < l'.length) := by
  have hB := v₀.bytesPerCluster_pos
  have hB' := v₀.bytesPerCluster_lt
  have hpos : ∀ n, 0 < n → n < 2 ^ 63 → 0 < v₀.numCluster n := fun n h0 hn => by
    rw [numCluster_eq v₀ hn]
    exact Nat.div_pos (by omega) hB
  cases fuel with
  | zero => rw [writeLoop, if_pos hlt] at hr; cases hr
  | succ fuel =>
      rw [writeLoop, if_pos hlt] at hr
      obtain ⟨w₁, hturn, hrest⟩ := Option.bind_eq_some_iff.mp hr
      obtain ⟨m, hm, hmlen, hlast, hoff₁, htotal₁⟩ := h.turn_end hc hj hoff hturn
      have hmpos := hpos (buf.len - w.total) (by omega) (by omega)
      by_cases hdone : w₁.total < buf.len
      · -- a whole cluster was copied, and the chain is at its end again
        cases fuel with
        | zero => rw [writeLoop, if_pos hdone] at hrest; cases hrest
        | succ fuel =>
            rw [writeLoop, if_pos hdone] at hrest
            obtain ⟨w₂, hturn₂, hrest₂⟩ := Option.bind_eq_some_iff.mp hrest
            rw [List.getLast?_eq_getElem?] at hlast
            have hend : (l ++ m).length - 1 + 1 = (l ++ m).length := by
              rw [List.length_append]
              omega
            obtain ⟨m₂, hm₂, hmlen₂, hlast₂, -, -⟩ :=
              hm.turn_end hlast hend (by omega) hturn₂
            obtain ⟨m₃, hm₃, -, -⟩ := writeLoop_owns hm₂ (List.mem_of_getLast? hlast₂) hrest₂
            have hmpos₂ := hpos (buf.len - w₁.total) (by omega) (by omega)
            refine ⟨_, hm₃, .inr ⟨by omega, ?_⟩⟩
            simp only [List.length_append]
            omega
      · rw [loop_done hdone] at hrest
        cases hrest
        exact ⟨_, hm, .inl ⟨htotal₁, by omega⟩⟩

/-- A later call whose buffer does not fit returns another number than its length, or
leaves a chain with a cluster too many. -/
theorem Good.misfit {v₀ v v' : Volume} {entry : Slot} {fd fd' : FileDescriptor} {first : Nat}
    {l : List Nat} {bytes : List UInt8} (h : Good v₀ v entry fd first l bytes)
    (hslot : v₀.fat.Used entry.cluster) {buf : Buffer}
    (hfit : ¬FitsNext v₀.bytesPerCluster false bytes.length buf.len)
    (hlt : bytes.length + buf.len < 2 ^ 32)
    (hr : v.write fd buf = some (v', fd', buf.len)) :
    ∃ l', v'.fat.IsChain first l' ∧ v'.firstCluster entry = UInt32.ofNat first ∧
      clustersOf v₀.bytesPerCluster (bytes.length + buf.len) < l'.length := by
  have hbpc := h.atEnd.filled.owns.bpc
  have hmem := List.mem_of_getElem? h.atEnd.filled.cluster
  have hne : fd.wrCluster ≠ 0 := by
    have h2 := (h.atEnd.filled.owns.mem_free hmem).1
    omega
  have hoff := h.atEnd.off_eq
  rw [hbpc] at hoff
  rw [FitsNext, ← hoff] at hfit
  simp only [Bool.false_eq_true, if_false, not_or, not_and_or] at hfit
  have hpos := h.atEnd.length_pos
  have hle := h.atEnd.filled.off_le
  have hlen := h.atEnd.filled.length
  rw [hbpc] at hle hlen
  obtain ⟨v₁, c, w', hstart, hloop, rfl, -, htotal⟩ := write_eq_some.mp hr
  rw [wrStart, if_neg hne] at hstart
  cases hstart
  have hown := h.atEnd.filled.owns
  -- the state at the end of the cluster, with bytes left to copy
  obtain ⟨w₁, fuel, hw₁, howns, hcl, hoff₁, htotal₁⟩ : ∃ w₁ fuel,
      writeLoop buf fuel w₁ = some w' ∧ Owns v₀ w₁.vol first l ∧
      l[l.length - 1]? = some w₁.cluster ∧ w₁.off = v₀.bytesPerCluster ∧
      w₁.total = v₀.bytesPerCluster - fd.wrClusterOff := by
    by_cases hB : fd.wrClusterOff = v₀.bytesPerCluster
    · exact ⟨_, _, hloop, hown, h.atEnd.filled.cluster, hB, by simp [hB]⟩
    · obtain ⟨fuel, hfuel⟩ := Nat.exists_eq_add_one_of_ne_zero (n := buf.len) (by omega)
      have hfill : Filled v₀ v first l (l.length - 1) fd.wrCluster fd.wrClusterOff
          (bytes ++ buf.take 0) := (List.append_nil bytes).symm ▸ h.atEnd.filled
      have hin : wrPlace buf ⟨v, fd.wrCluster, fd.wrClusterOff, 0⟩ =
          some (v, fd.wrCluster, fd.wrClusterOff) :=
        Filled.place_in (by simpa only [hbpc] using hB)
      obtain ⟨w₁, hrun₁, htotal₁, hoff₁, -, hfill₁⟩ :=
        Filled.turn (w := ⟨v, fd.wrCluster, fd.wrClusterOff, 0⟩) hfill hin
      simp only [Nat.zero_add] at htotal₁
      rw [hfuel, writeLoop, if_pos (by simp only; omega), hrun₁] at hloop
      exact ⟨w₁, fuel, hloop, hfill₁.owns, hfill₁.cluster, by omega, by omega⟩
  obtain ⟨l', hl', hcase⟩ := loop_at_end howns hcl (by omega) hoff₁ (by omega) (by omega) hw₁
  refine ⟨l', hl'.chain, ?_, ?_⟩
  · obtain ⟨m, hm, -, hdata⟩ := writeLoop_owns hown hmem hloop
    have hsame : w'.vol.firstCluster entry = v.firstCluster entry :=
      firstCluster_congr fun o => congrFun (hdata _ (hm.not_mem hslot)) o
    rw [h.slot, firstCluster_setFileSize, hsame, h.firstCluster]
  · rcases hcase with ⟨hend, -⟩ | ⟨hmore, hlong⟩
    · omega
    · -- what the file needs is the chain and the clusters for the rest
      have hsum : bytes.length + buf.len =
          l.length * v₀.bytesPerCluster + (buf.len - w₁.total) := by
        have hmul : l.length * v₀.bytesPerCluster =
            (l.length - 1) * v₀.bytesPerCluster + v₀.bytesPerCluster := by
          rw [← Nat.succ_mul, Nat.succ_eq_add_one, Nat.sub_add_cancel hpos]
        omega
      have hdiv : (l.length * v₀.bytesPerCluster + (buf.len - w₁.total) + v₀.bytesPerCluster - 1) /
          v₀.bytesPerCluster = l.length +
            (buf.len - w₁.total + v₀.bytesPerCluster - 1) / v₀.bytesPerCluster := by
        rw [Nat.add_assoc, Nat.add_sub_assoc (by omega), Nat.mul_comm,
          Nat.mul_add_div v₀.bytesPerCluster_pos]
      rw [numCluster_eq v₀ (by omega)] at hlong
      rw [hsum, clustersOf, hdiv]
      exact max_lt (Nat.lt_of_le_of_lt (Nat.le_trans hpos (Nat.le_add_right _ _)) hlong) hlong

/-- A first call that does not fit returns another number than its length. -/
theorem misfit_first {v₀ v' : Volume} {entry : Slot} {fd' : FileDescriptor} {buf : Buffer}
    (h0 : v₀.firstCluster entry = 0) (hfit : ¬FitsNext v₀.bytesPerCluster true 0 buf.len)
    (hfree : clustersOf v₀.bytesPerCluster buf.len ≤ v₀.fat.freeList.length)
    (hlt : buf.len < 2 ^ 32) : v₀.write (.new entry) buf ≠ some (v', fd', buf.len) := by
  intro hr
  simp only [FitsNext, if_true, not_or, Nat.not_le] at hfit
  have hnum := v₀.numCluster_eq (n := buf.len) (by omega)
  have hfree' : max 1 (v₀.numCluster buf.len) ≤ v₀.fat.freeList.length := hnum ▸ hfree
  obtain ⟨v₁, first, l, hstart, -, -, -, hfill, -⟩ := wrStart_new h0 hfree'
  obtain ⟨v₂, c, w', hstart', hloop, -, -, htotal⟩ := write_eq_some.mp hr
  rw [hstart] at hstart'
  cases hstart'
  have hdvd := loop_multiple hfill.owns (List.mem_of_getElem? hfill.cluster) (by omega) (.inl rfl)
    (Nat.dvd_zero _) hloop
  exact hfit.2 (htotal ▸ hdvd)

/-! ## Reading it back -/

/-- A new descriptor reads the whole file. -/
theorem Good.read {v₀ v : Volume} {entry : Slot} {fd : FileDescriptor} {first : Nat}
    {l : List Nat} {bytes : List UInt8} (h : Good v₀ v entry fd first l bytes)
    (hlt : bytes.length < 2 ^ 32) {len : Nat} (hlen : bytes.length ≤ len) :
    (v.read (.new entry) len).map Prod.snd = some bytes := by
  have hfill := h.atEnd.filled
  have hfirst : (v.firstCluster entry).toNat = first := by
    rw [h.firstCluster]
    exact Table.toNat_ofNat (hfill.owns.chain.2 first hfill.owns.chain.mem_head).2.1
  have hsize : (v.fileSize entry).toNat = bytes.length := by
    rw [h.fileSize, UInt32.toNat_ofNat', Nat.mod_eq_of_lt hlt]
  have hroom : bytes.length ≤ l.length * v.bytesPerCluster := by
    have hpos := h.atEnd.length_pos
    have hle := hfill.off_le
    rw [hfill.length]
    calc (l.length - 1) * v.bytesPerCluster + fd.wrClusterOff
        ≤ (l.length - 1) * v.bytesPerCluster + v.bytesPerCluster := by omega
      _ = l.length * v.bytesPerCluster := by
        rw [← Nat.succ_mul, Nat.succ_eq_add_one, Nat.sub_add_cancel hpos]
  have hcovers : v.Covers entry l :=
    ⟨.inr (hfirst ▸ hfill.owns.chain), by rwa [hsize]⟩
  obtain ⟨⟨fd', hread, -⟩, -⟩ :=
    read_place hcovers (v.new_readerAt entry l) (Nat.zero_le _) len
  rw [hsize, Nat.sub_zero, Nat.min_eq_right hlen, v.span_striped l hfill.striped] at hread
  rw [hread, Option.map_some]

/-! ## Only the buffer is read -/

/-- The same bytes of the caller's. -/
def Buffer.Same (buf buf' : Buffer) : Prop :=
  buf.len = buf'.len ∧ ∀ i < buf.len, buf.byte i = buf'.byte i

theorem put_congr (v : Volume) {c off n : Nat} {f f' : Nat → UInt8} (h : ∀ i < n, f i = f' i) :
    v.put c off n f = v.put c off n f' := by
  simp only [put, Volume.mk.injEq, true_and]
  funext d o
  split
  next hin => exact h _ (by omega)
  next => rfl

theorem writeLoop_le {buf : Buffer} {fuel : Nat} {w w' : Cursor}
    (hr : writeLoop buf fuel w = some w') : w.total ≤ w'.total := by
  induction fuel generalizing w with
  | zero =>
      rw [writeLoop] at hr
      split at hr
      next => cases hr
      next => exact Option.some.inj hr ▸ Nat.le_refl _
  | succ fuel ih =>
      rw [writeLoop] at hr
      split at hr
      next =>
        obtain ⟨w₁, hturn, hrest⟩ := Option.bind_eq_some_iff.mp hr
        obtain ⟨v, c, off, -, -, rfl⟩ := writeTurn_eq_some.mp hturn
        exact Nat.le_trans (Nat.le_add_right _ _) (ih hrest)
      next => exact Option.some.inj hr ▸ Nat.le_refl _

/-- The loop depends on the bytes it copies only. -/
theorem writeLoop_congr {buf buf' : Buffer} (hlen : buf'.len = buf.len) {fuel : Nat}
    {w w' : Cursor} (hr : writeLoop buf fuel w = some w')
    (hb : ∀ i < w'.total, buf.byte i = buf'.byte i) : writeLoop buf' fuel w = some w' := by
  induction fuel generalizing w with
  | zero => rwa [writeLoop, hlen, ← writeLoop]
  | succ fuel ih =>
      rw [writeLoop] at hr ⊢
      rw [hlen]
      split at hr
      next hlt =>
        obtain ⟨w₁, hturn, hrest⟩ := Option.bind_eq_some_iff.mp hr
        rw [if_pos hlt]
        refine Option.bind_eq_some_iff.mpr ⟨w₁, ?_, ih hrest⟩
        have hle := writeLoop_le hrest
        obtain ⟨v, c, off, hp, hin, rfl⟩ := writeTurn_eq_some.mp hturn
        refine writeTurn_eq_some.mpr ⟨v, c, off, ?_, hin, ?_⟩
        · rw [← hp, wrPlace, wrPlace, hlen]
        · simp only at hle
          rw [hlen, put_congr v fun i hi => (hb (w.total + i) (by omega)).symm]
      next hlt => rwa [if_neg hlt]

/-- A call that returns its length depends on the bytes of its buffer only. -/
theorem write_congr {v v' : Volume} {fd fd' : FileDescriptor} {buf buf' : Buffer}
    (hs : Buffer.Same buf buf') (hr : v.write fd buf = some (v', fd', buf.len)) :
    v.write fd buf' = some (v', fd', buf'.len) := by
  obtain ⟨v₁, c, w, hstart, hloop, hv, hfd, htotal⟩ := write_eq_some.mp hr
  rw [← hs.1]
  refine write_eq_some.mpr ⟨v₁, c, w, ?_, ?_, hv, hfd, htotal⟩
  · rw [← hs.1, hstart]
  · rw [← hs.1]
    exact writeLoop_congr hs.1.symm hloop fun i hi => hs.2 i (htotal ▸ hi)

/-! ## Lists of calls -/

theorem writeAll_append (v : Volume) (fd : FileDescriptor) (bufs : List Buffer) (buf : Buffer) :
    v.writeAll fd (bufs ++ [buf]) = (v.writeAll fd bufs).bind fun r =>
      (r.1.write r.2.1 buf).map fun r' => (r'.1, r'.2.1, r.2.2 ++ [r'.2.2]) := by
  induction bufs generalizing v fd with
  | nil =>
      simp only [List.nil_append, writeAll, Option.bind_eq_bind, Option.pure_def, Option.bind_some]
      cases v.write fd buf <;> rfl
  | cons b bufs ih =>
      simp only [List.cons_append, writeAll, Option.bind_eq_bind, Option.pure_def, ih]
      cases v.write fd b with
      | none => rfl
      | some r =>
          simp only [Option.bind_some]
          cases r.1.writeAll r.2.1 bufs with
          | none => rfl
          | some r' =>
              simp only [Option.bind_some]
              cases r'.1.write r'.2.1 buf <;> rfl

/-- The file holds the clusters `l`, which were free; of the other clusters only the
entry has changed. -/
structure Holds (v₀ v : Volume) (entry : Slot) (first : Nat) (l : List Nat) : Prop where
  owns : Owns v₀ v first l
  frame : ∀ c ∉ l, ∀ o, ¬entry.Written c o → v.data c o = v₀.data c o

/-- The loop of `Write` and the new size keep to the file. -/
theorem Holds.loop {v₀ v : Volume} {entry : Slot} {first c off fuel : Nat} {l : List Nat}
    (h : Holds v₀ v entry first l) (hc : c ∈ l) {buf : Buffer} {w : Cursor}
    (hr : writeLoop buf fuel ⟨v, c, off, 0⟩ = some w) (size : UInt32) :
    ∃ m, Holds v₀ (w.vol.setFileSize entry size) entry first m ∧ w.cluster ∈ m := by
  obtain ⟨m, hm, hcm, hdata⟩ := writeLoop_owns h.owns hc hr
  refine ⟨l ++ m, ⟨hm.congr rfl rfl, fun d hd o ho => ?_⟩, hcm⟩
  rw [setFileSize_data _ _ ho, hdata d hd]
  exact h.frame d (fun hl => hd (List.mem_append_left m hl)) o ho

theorem Holds.write {v₀ v v' : Volume} {fd fd' : FileDescriptor} {first n : Nat} {l : List Nat}
    {buf : Buffer} (h : Holds v₀ v fd.entry first l) (hc : fd.wrCluster ∈ l)
    (hr : v.write fd buf = some (v', fd', n)) :
    ∃ m, Holds v₀ v' fd'.entry first m ∧ fd'.wrCluster ∈ m := by
  obtain ⟨v₁, c, w, hstart, hloop, rfl, rfl, -⟩ := write_eq_some.mp hr
  have hne : fd.wrCluster ≠ 0 := fun h0 => by
    have h2 := (h.owns.mem_free hc).1
    omega
  rw [wrStart, if_neg hne] at hstart
  cases hstart
  exact h.loop hc hloop _

/-- The first call on a new descriptor of a file without a cluster. -/
theorem holds_new {v₀ v' : Volume} {entry : Slot} {fd' : FileDescriptor} {buf : Buffer} {n : Nat}
    (h0 : v₀.firstCluster entry = 0) (hr : v₀.write (.new entry) buf = some (v', fd', n)) :
    ∃ first m, Holds v₀ v' fd'.entry first m ∧ fd'.wrCluster ∈ m ∧ fd'.entry = entry := by
  obtain ⟨v₁, c, w, hstart, hloop, rfl, rfl, -⟩ := write_eq_some.mp hr
  have hfree : max 1 (v₀.numCluster buf.len) ≤ v₀.fat.freeList.length := by
    by_contra hlt
    have hshort : v₀.fat.allocateClusterChain (v₀.numCluster buf.len) = none :=
      Table.allocateClusterChain_short (by omega)
    simp [wrStart, FileDescriptor.new, h0, hshort] at hstart
  obtain ⟨v, first, l, hstart', -, -, -, hfill, hframe⟩ := wrStart_new h0 hfree
  rw [hstart'] at hstart
  cases hstart
  have hholds : Holds v₀ v₁ entry c l := ⟨hfill.owns, fun d _ o ho => hframe d o ho⟩
  obtain ⟨m, hm, hcm⟩ := hholds.loop (List.mem_of_getElem? hfill.cluster) hloop _
  exact ⟨c, m, hm, hcm, rfl⟩

theorem Holds.writeAll {v₀ v v' : Volume} {fd fd' : FileDescriptor} {first : Nat} {l ns : List Nat}
    {bufs : List Buffer} (h : Holds v₀ v fd.entry first l) (hc : fd.wrCluster ∈ l)
    (hr : v.writeAll fd bufs = some (v', fd', ns)) : ∃ m, Holds v₀ v' fd.entry first m := by
  induction bufs generalizing v fd l ns with
  | nil =>
      cases hr
      exact ⟨l, h⟩
  | cons buf bufs ih =>
      simp only [Volume.writeAll, Option.bind_eq_bind, Option.pure_def, Option.bind_eq_some_iff,
        Option.some.injEq, Prod.mk.injEq, Prod.exists] at hr
      obtain ⟨v₁, fd₁, n, hwrite, v₂, fd₂, ns', hrest, rfl, rfl, -⟩ := hr
      obtain ⟨m, hm, hcm⟩ := h.write hc hwrite
      have hentry : fd₁.entry = fd.entry := by
        obtain ⟨_, _, _, _, _, _, rfl, _⟩ := write_eq_some.mp hwrite
        rfl
      rw [← hentry]
      exact ih hm hcm hrest

/-- Writing a file without a cluster changes no cluster that was in use, but its entry. -/
theorem writeAll_kept {v₀ v' : Volume} {entry : Slot} {fd' : FileDescriptor} {bufs : List Buffer}
    {ns : List Nat} (h0 : v₀.firstCluster entry = 0)
    (hr : v₀.writeAll (.new entry) bufs = some (v', fd', ns)) {c : Nat} (hc : v₀.fat.Used c) :
    v'.fat.entry c = v₀.fat.entry c ∧ ∀ o, ¬entry.Written c o → v'.data c o = v₀.data c o := by
  cases bufs with
  | nil =>
      cases hr
      exact ⟨rfl, fun _ _ => rfl⟩
  | cons buf bufs =>
      simp only [Volume.writeAll, Option.bind_eq_bind, Option.pure_def, Option.bind_eq_some_iff,
        Option.some.injEq, Prod.mk.injEq, Prod.exists] at hr
      obtain ⟨v₁, fd₁, n, hwrite, v₂, fd₂, ns', hrest, rfl, rfl, -⟩ := hr
      obtain ⟨first, l, hl, hcl, rfl⟩ := holds_new h0 hwrite
      obtain ⟨m, hm⟩ := hl.writeAll hcl hrest
      exact ⟨hm.owns.entry_eq (hm.owns.not_mem hc), hm.frame c (hm.owns.not_mem hc)⟩

/-- The concatenation of the buffers. -/
def contents (bufs : List Buffer) : List UInt8 := bufs.flatMap Buffer.bytes

/-- The clusters that calls with these buffers need. -/
def clustersFor (v : Volume) (bufs : List Buffer) : Nat :=
  if bufs = [] then 0 else clustersOf v.bytesPerCluster (contents bufs).length

/-- The calls of `Write` store their buffers in a new file. -/
structure Stored (v₀ : Volume) (entry : Slot) (bufs : List Buffer) (v : Volume)
    (fd : FileDescriptor) (l : List Nat) : Prop where
  returns : v₀.writeAll (.new entry) bufs = some (v, fd, bufs.map Buffer.len)
  own : ∀ bufs', List.Forall₂ Buffer.Same bufs bufs' →
    v₀.writeAll (.new entry) bufs' = v₀.writeAll (.new entry) bufs
  chain : bufs ≠ [] → v.fat.IsChain (v.firstCluster entry).toNat l
  noGap : l.length = v₀.clustersFor bufs
  table : ∀ c ∉ l, v.fat.entry c = v₀.fat.entry c
  data : ∀ c ∉ l, ∀ o, ¬entry.Written c o → v.data c o = v₀.data c o
  fileSize : (v.fileSize entry).toNat = (contents bufs).length
  read : ∀ len, (contents bufs).length ≤ len →
    (v.read (.new entry) len).map Prod.snd = some (contents bufs)

/-- The buffers that the calls store, one after the other. -/
structure Fits (v₀ : Volume) (entry : Slot) (bufs : List Buffer) : Prop where
  empty : v₀.fileSize entry = 0
  length : (contents bufs).length < 2 ^ 32
  next : ∀ done buf, done ++ [buf] <+: bufs →
    FitsNext v₀.bytesPerCluster done.isEmpty (contents done).length buf.len

theorem contents_append (bufs : List Buffer) (buf : Buffer) :
    contents (bufs ++ [buf]) = contents bufs ++ buf.bytes := by
  simp [contents]

theorem Buffer.length_bytes (buf : Buffer) : buf.bytes.length = buf.len := by
  simp [Buffer.bytes, Buffer.take]

theorem clustersOf_mono (B : Nat) {m n : Nat} (h : m ≤ n) : clustersOf B m ≤ clustersOf B n := by
  have hdiv : (m + B - 1) / B ≤ (n + B - 1) / B := Nat.div_le_div_right (by omega)
  rw [clustersOf, clustersOf]
  omega

theorem length_contents_le {done bufs : List Buffer} (h : done <+: bufs) :
    (contents done).length ≤ (contents bufs).length := by
  obtain ⟨rest, rfl⟩ := h
  simp [contents]

theorem clustersFor_le (v : Volume) {done bufs : List Buffer} (h : done <+: bufs) :
    v.clustersFor done ≤ v.clustersFor bufs := by
  by_cases hnil : done = []
  · simp [clustersFor, hnil]
  · have hne : bufs ≠ [] := fun h0 => hnil (List.prefix_nil.mp (h0 ▸ h))
    rw [clustersFor, clustersFor, if_neg hnil, if_neg hne]
    exact clustersOf_mono _ (length_contents_le h)

theorem Fits.init {v₀ : Volume} {entry : Slot} {done bufs : List Buffer} (h : Fits v₀ entry bufs)
    (hp : done <+: bufs) : Fits v₀ entry done :=
  ⟨h.empty, Nat.lt_of_le_of_lt (length_contents_le hp) h.length,
    fun _ _ hq => h.next _ _ (hq.trans hp)⟩

theorem writeAll_congr {bufs bufs' : List Buffer} (hs : List.Forall₂ Buffer.Same bufs bufs')
    {v v' : Volume} {fd fd' : FileDescriptor}
    (hr : v.writeAll fd bufs = some (v', fd', bufs.map Buffer.len)) :
    v.writeAll fd bufs' = some (v', fd', bufs.map Buffer.len) := by
  induction hs generalizing v fd with
  | nil => exact hr
  | cons hb _ ih =>
      simp only [writeAll, Option.bind_eq_bind, Option.pure_def, Option.bind_eq_some_iff,
        Option.some.injEq, Prod.mk.injEq, Prod.exists, List.map_cons, List.cons.injEq] at hr
      obtain ⟨v₁, fd₁, n, hwrite, v₂, fd₂, ns, hrest, rfl, rfl, rfl, rfl⟩ := hr
      simp only [writeAll, Option.bind_eq_bind, Option.pure_def, write_congr hb hwrite, ← hb.1,
        Option.bind_some, ih hrest, List.map_cons]

/-- What a good file gives its caller. -/
theorem Good.stored {v₀ v : Volume} {entry : Slot} {bufs : List Buffer} {fd : FileDescriptor}
    {first : Nat} {l : List Nat} (hne : bufs ≠ [])
    (hall : v₀.writeAll (.new entry) bufs = some (v, fd, bufs.map Buffer.len))
    (hlt : (contents bufs).length < 2 ^ 32) (h : Good v₀ v entry fd first l (contents bufs)) :
    Stored v₀ entry bufs v fd l := by
  have howns := h.atEnd.filled.owns
  refine ⟨hall, fun bufs' hs => ?_, fun _ => ?_, ?_, fun c hc => howns.entry_eq hc, h.frame, ?_,
    fun len hlen => h.read hlt hlen⟩
  · rw [hall, writeAll_congr hs hall]
  · rw [h.firstCluster, Table.toNat_ofNat (howns.chain.2 first howns.chain.mem_head).2.1]
    exact howns.chain
  · rw [h.atEnd.length_eq, howns.bpc, clustersFor, if_neg hne]
  · rw [h.fileSize, UInt32.toNat_ofNat', Nat.mod_eq_of_lt hlt]

section

variable {v₀ : Volume} {entry : Slot} (h0 : v₀.firstCluster entry = 0)
  (hslot : v₀.fat.Used entry.cluster)

include h0 hslot

/-- Calls that fit leave the file as it should be. -/
theorem good_of_fits {bufs : List Buffer} (hne : bufs ≠ [])
    (hfree : v₀.clustersFor bufs ≤ v₀.fat.freeList.length) (hfit : Fits v₀ entry bufs) :
    ∃ v fd first l, v₀.writeAll (.new entry) bufs = some (v, fd, bufs.map Buffer.len) ∧
      Good v₀ v entry fd first l (contents bufs) := by
  induction bufs using List.reverseRecOn with
  | nil => exact absurd rfl hne
  | append_singleton bufs buf ih =>
      have hlen := hfit.length
      rw [contents_append, List.length_append, Buffer.length_bytes] at hlen
      have hnext := hfit.next bufs buf (List.prefix_refl _)
      have hp : bufs <+: bufs ++ [buf] := List.prefix_append _ _
      have hfree' := hfree
      rw [clustersFor, if_neg hne, contents_append, List.length_append, Buffer.length_bytes]
        at hfree'
      by_cases hnil : bufs = []
      · subst hnil
        obtain ⟨v, fd, first, l, hwrite, hgood⟩ :=
          good_first h0 hslot hnext (by simpa [contents] using hfree') (by omega)
        refine ⟨v, fd, first, l, ?_, by simpa [contents] using hgood⟩
        rw [writeAll_append, writeAll, Option.bind_some, hwrite]
        rfl
      · obtain ⟨v, fd, first, l, hall, hgood⟩ :=
          ih hnil ((v₀.clustersFor_le hp).trans hfree) (hfit.init hp)
        rw [List.isEmpty_eq_false_iff.mpr hnil] at hnext
        obtain ⟨v', fd', l', hwrite, hgood'⟩ := hgood.write hslot hnext hfree' hlen
        refine ⟨v', fd', first, l', ?_, by rwa [contents_append]⟩
        rw [writeAll_append, hall, Option.bind_some, hwrite]
        simp only [Option.map_some, List.map_append, List.map_cons, List.map_nil]

/-- Calls that leave the file as it should be fit. -/
theorem fits_of_stored {bufs : List Buffer}
    (hfree : v₀.clustersFor bufs ≤ v₀.fat.freeList.length)
    (hall : ∀ done, done <+: bufs → ∃ v fd l, Stored v₀ entry done v fd l) :
    Fits v₀ entry bufs := by
  induction bufs using List.reverseRecOn with
  | nil =>
      obtain ⟨v, fd, l, hs⟩ := hall [] (List.prefix_refl _)
      have hsize := hs.fileSize
      cases hs.returns
      refine ⟨UInt32.toNat_inj.mp hsize, by simp [contents], fun done buf hp => ?_⟩
      have hne : done ++ [buf] ≠ [] := List.append_ne_nil_of_right_ne_nil _ (List.cons_ne_nil _ _)
      exact absurd (List.prefix_nil.mp hp) hne
  | append_singleton bufs buf ih =>
      obtain ⟨v, fd, l, hs⟩ := hall _ (List.prefix_refl _)
      have hlt : (contents (bufs ++ [buf])).length < 2 ^ 32 := hs.fileSize ▸ UInt32.toNat_lt _
      have hne : bufs ++ [buf] ≠ [] := List.append_ne_nil_of_right_ne_nil _ (List.cons_ne_nil _ _)
      have hgap := hs.noGap
      have hfree' := hfree
      rw [clustersFor, if_neg hne, contents_append, List.length_append, Buffer.length_bytes]
        at hfree' hgap
      have hlen := hlt
      rw [contents_append, List.length_append, Buffer.length_bytes] at hlen
      have hp : bufs <+: bufs ++ [buf] := List.prefix_append _ _
      have hfit := ih ((v₀.clustersFor_le hp).trans hfree) fun done hq => hall done (hq.trans hp)
      refine ⟨hfit.empty, hlt, fun done b hq => ?_⟩
      rcases List.prefix_concat_iff.mp hq with heq | hq
      swap
      · exact hfit.next done b hq
      obtain ⟨rfl, hb⟩ := List.append_inj' heq rfl
      obtain rfl : b = buf := by simpa using hb
      by_contra hmis
      have hreturns := hs.returns
      by_cases hnil : done = []
      · subst hnil
        rw [writeAll_append, writeAll, Option.bind_some] at hreturns
        obtain ⟨⟨v', fd', n⟩, hwrite, hr⟩ := Option.map_eq_some_iff.mp hreturns
        obtain rfl : n = b.len := by simpa using congrArg (fun r => r.2.2) hr
        exact misfit_first h0 hmis (by simpa [contents] using hfree') (by omega) hwrite
      · obtain ⟨v₁, fd₁, first, l₁, hdone, hgood⟩ :=
          good_of_fits h0 hslot hnil ((v₀.clustersFor_le hp).trans hfree) hfit
        rw [List.isEmpty_eq_false_iff.mpr hnil] at hmis
        rw [writeAll_append, hdone, Option.bind_some] at hreturns
        obtain ⟨⟨v', fd', n⟩, hwrite, hr⟩ := Option.map_eq_some_iff.mp hreturns
        obtain ⟨rfl, rfl, hns⟩ : v' = v ∧ fd' = fd ∧
            done.map Buffer.len ++ [n] = (done ++ [b]).map Buffer.len := by simpa using hr
        obtain rfl : n = b.len := by simpa using hns
        obtain ⟨l', hl', hfirst, hlong⟩ := hgood.misfit hslot hmis hlen hwrite
        have hchain := hs.chain hne
        rw [hfirst, Table.toNat_ofNat (hl'.2 first hl'.mem_head).2.1] at hchain
        rw [hchain.unique hl', hl'.unique hl'] at hgap
        omega

/-- **Write, then read.**  After each of the calls the file is as it should be exactly
when every buffer fits. -/
theorem stored_iff {bufs : List Buffer} (hfree : v₀.clustersFor bufs ≤ v₀.fat.freeList.length) :
    (∀ done, done <+: bufs → ∃ v fd l, Stored v₀ entry done v fd l) ↔ Fits v₀ entry bufs := by
  refine ⟨fits_of_stored h0 hslot hfree, fun hfit done hp => ?_⟩
  by_cases hnil : done = []
  · subst hnil
    have hsize : (v₀.fileSize entry).toNat = 0 := by rw [hfit.empty]; rfl
    refine ⟨v₀, .new entry, [], rfl, fun bufs' hs => ?_, fun h => absurd rfl h, rfl, fun _ _ => rfl,
      fun _ _ _ _ => rfl, hsize, fun len _ => ?_⟩
    · cases hs
      rfl
    · simp [read, FileDescriptor.new, hsize, contents, readLoop]
  · have hfit' := hfit.init hp
    obtain ⟨v, fd, first, l, hrun, hgood⟩ :=
      good_of_fits h0 hslot hnil ((v₀.clustersFor_le hp).trans hfree) hfit'
    exact ⟨v, fd, l, hgood.stored hnil hrun hfit'.length⟩

end

/-- A file in the root directory of an empty volume, written in one call of 512 bytes. -/
theorem stored_iff_small :
    (∀ done, done <+: [⟨fun _ => 7, 512⟩] → ∃ v fd l, Stored State.small.vol ⟨2, 0⟩ done v fd l) ↔
      Fits State.small.vol ⟨2, 0⟩ [⟨fun _ => 7, 512⟩] :=
  stored_iff (by decide) ⟨by decide, by decide, by decide⟩ (by decide +kernel)

/-- One byte more than a cluster: the second turn copies 512 bytes again. -/
theorem not_stored :
    ¬∀ (v₀ : Volume) (entry : Slot) (bufs : List Buffer), v₀.firstCluster entry = 0 →
      v₀.fat.Used entry.cluster → v₀.clustersFor bufs ≤ v₀.fat.freeList.length →
      ∀ done, done <+: bufs → ∃ v fd l, Stored v₀ entry done v fd l := by
  intro hall
  have h0 : State.small.vol.firstCluster ⟨2, 0⟩ = 0 := by decide
  have hslot : State.small.vol.fat.Used 2 := ⟨by decide, by decide, by decide⟩
  have hfree : State.small.vol.clustersFor [⟨fun _ => 7, 513⟩] ≤
      State.small.vol.fat.freeList.length := by decide +kernel
  have hfit := fits_of_stored h0 hslot hfree (hall _ _ _ h0 hslot hfree)
  have hnext := hfit.next [] ⟨fun _ => 7, 513⟩ (List.prefix_refl _)
  exact absurd hnext (by decide)

end Volume

end Laplus.Fat
