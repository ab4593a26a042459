/-
# `Laplus.Fat.Read` — reading a file in pieces

`Read` keeps its place in a file twice: as an offset in the file, and as a
cluster of its chain with an offset in the cluster.  `Load` builds the second
from the first with a loop of its own and reads through a descriptor of its
own.  `Place` says when the two fit; a read that ends with a cluster leaves the
descriptor at the start of the next one, which behind the last cluster is the
end mark.
-/
import Laplus.Fat.Volume
import Laplus.Lib.Striped

namespace Laplus.Fat

open Lib

/-! ## The source -/

/-- `FileDescriptor`. -/
structure FileDescriptor where
  entry : Slot
  rdOff : Nat
  rdCluster : Nat
  rdClusterOff : Nat
  wrOff : Nat
  wrCluster : Nat
  wrClusterOff : Nat

/-- `FileDescriptor(fat_entry)`. -/
def FileDescriptor.new (entry : Slot) : FileDescriptor := ⟨entry, 0, 0, 0, 0, 0, 0⟩

/-- The descriptor that `Load` reads through. -/
def FileDescriptor.own (entry : Slot) (offset cluster off : Nat) : FileDescriptor :=
  { FileDescriptor.new entry with rdOff := offset, rdCluster := cluster, rdClusterOff := off }

@[simp] theorem own_entry (entry : Slot) (offset c off : Nat) :
    (FileDescriptor.own entry offset c off).entry = entry := rfl

@[simp] theorem own_rdOff (entry : Slot) (offset c off : Nat) :
    (FileDescriptor.own entry offset c off).rdOff = offset := rfl

namespace Volume

/-- The loop of `Read`: the bytes copied so far, and where it stands. -/
def readLoop (v : Volume) (len : Nat) :
    Nat → Nat → Nat → List UInt8 → Option (Nat × Nat × List UInt8)
  | 0, cluster, off, got => if got.length < len then none else some (cluster, off, got)
  | fuel + 1, cluster, off, got =>
      if got.length < len then do
        guard (v.inside cluster)
        let n := min (len - got.length) (v.bytesPerCluster - off)
        let got := got ++ (List.range n).map fun i => v.data cluster (off + i)
        if off + n = v.bytesPerCluster then
          let next ← v.fat.nextCluster cluster
          v.readLoop len fuel next.toNat 0 got
        else v.readLoop len fuel cluster (off + n) got
      else some (cluster, off, got)

/-- `FileDescriptor::Read`: the descriptor and the bytes it copies. -/
def read (v : Volume) (fd : FileDescriptor) (len : Nat) : Option (FileDescriptor × List UInt8) := do
  let cluster := if fd.rdCluster = 0 then (v.firstCluster fd.entry).toNat else fd.rdCluster
  let len := min len (((v.fileSize fd.entry).toNat + 2 ^ 64 - fd.rdOff) % 2 ^ 64)
  let (cluster, off, got) ← v.readLoop len len cluster fd.rdClusterOff []
  let rdOff := fd.rdOff + got.length
  return ({ fd with rdOff, rdCluster := cluster, rdClusterOff := off }, got)

/-- The loop of `Load`: the cluster and the offset in it. -/
def loadSeek (v : Volume) : Nat → Nat → Nat → Option (Nat × Nat)
  | 0, offset, cluster => if offset ≥ v.bytesPerCluster then none else some (cluster, offset)
  | fuel + 1, offset, cluster =>
      if offset ≥ v.bytesPerCluster then do
        let next ← v.fat.nextCluster cluster
        v.loadSeek fuel (offset - v.bytesPerCluster) next.toNat
      else some (cluster, offset)

/-- `FileDescriptor::Load`, which reads through a descriptor of its own. -/
def load (v : Volume) (fd : FileDescriptor) (len offset : Nat) :
    Option (FileDescriptor × List UInt8) := do
  let (cluster, off) ← v.loadSeek offset offset (v.firstCluster fd.entry).toNat
  let (_, got) ← v.read (.own fd.entry offset cluster off) len
  return (fd, got)

/-! ## The clusters a call goes to -/

/-- The clusters whose sectors the loop of `Read` copies from. -/
def readVisits (v : Volume) (len : Nat) : Nat → Nat → Nat → Nat → List Nat
  | 0, _, _, _ => []
  | fuel + 1, cluster, off, total =>
      if total < len then
        let n := min (len - total) (v.bytesPerCluster - off)
        cluster ::
          if v.inside cluster then
            if off + n = v.bytesPerCluster then
              match v.fat.nextCluster cluster with
              | none => []
              | some next => v.readVisits len fuel next.toNat 0 (total + n)
            else v.readVisits len fuel cluster (off + n) (total + n)
          else []
      else []

/-- The clusters whose successor the loop of `Load` looks up. -/
def seekVisits (v : Volume) : Nat → Nat → Nat → List Nat
  | 0, _, _ => []
  | fuel + 1, offset, cluster =>
      if offset ≥ v.bytesPerCluster then
        cluster ::
          match v.fat.nextCluster cluster with
          | none => []
          | some next => v.seekVisits fuel (offset - v.bytesPerCluster) next.toNat
      else []

/-- The cluster `Read` starts in. -/
def rdStart (v : Volume) (fd : FileDescriptor) : Nat :=
  if fd.rdCluster = 0 then (v.firstCluster fd.entry).toNat else fd.rdCluster

/-- The length `Read` goes by. -/
def rdLen (v : Volume) (fd : FileDescriptor) (len : Nat) : Nat :=
  min len (((v.fileSize fd.entry).toNat + 2 ^ 64 - fd.rdOff) % 2 ^ 64)

/-- The clusters a `Read` goes to. -/
def visits (v : Volume) (fd : FileDescriptor) (len : Nat) : List Nat :=
  v.readVisits (v.rdLen fd len) (v.rdLen fd len) (v.rdStart fd) fd.rdClusterOff 0

/-- The clusters a `Load` goes to. -/
def loadVisits (v : Volume) (fd : FileDescriptor) (len offset : Nat) : List Nat :=
  v.seekVisits offset offset (v.firstCluster fd.entry).toNat ++
    match v.loadSeek offset offset (v.firstCluster fd.entry).toNat with
    | none => []
    | some (cluster, off) => v.visits (.own fd.entry offset cluster off) len

/-! ## The file -/

/-- The clusters of a file, of which an empty one may have none. -/
def FileChain (v : Volume) (entry : Slot) (l : List Nat) : Prop :=
  (v.firstCluster entry).toNat = 0 ∧ l = [] ∨ v.fat.IsChain (v.firstCluster entry).toNat l

/-- The chain covers the size. -/
structure Covers (v : Volume) (entry : Slot) (l : List Nat) : Prop where
  chain : v.FileChain entry l
  size : (v.fileSize entry).toNat ≤ l.length * v.bytesPerCluster

/-- `n` bytes of the clusters, from a place on. -/
def span (v : Volume) (l : List Nat) (pos n : Nat) : List UInt8 :=
  (List.range n).map fun i =>
    v.data (l.getD ((pos + i) / v.bytesPerCluster) 0) ((pos + i) % v.bytesPerCluster)

/-- The bytes of the file. -/
def fileBytes (v : Volume) (entry : Slot) (l : List Nat) : List UInt8 :=
  v.span l 0 (v.fileSize entry).toNat

/-- The place in the file as a cluster and an offset in it. -/
inductive Place (v : Volume) (l : List Nat) (pos cluster off : Nat) : Prop
  | inside (j : Nat) (hc : l[j]? = some cluster) (hoff : off < v.bytesPerCluster)
      (hpos : pos = j * v.bytesPerCluster + off) : Place v l pos cluster off
  | behind (hpos : pos = l.length * v.bytesPerCluster) (hoff : off = 0)
      (hc : cluster = kEndOfClusterchain.toNat) : Place v l pos cluster off

section Span
variable (v : Volume) (l : List Nat)

@[simp] theorem span_length (pos n : Nat) : (v.span l pos n).length = n := by simp [span]

@[simp] theorem span_zero (pos : Nat) : v.span l pos 0 = [] := rfl

theorem span_add (pos m n : Nat) :
    v.span l pos (m + n) = v.span l pos m ++ v.span l (pos + m) n := by
  simp only [span, List.range_add, List.map_append, List.map_map, Function.comp_def, Nat.add_assoc]

/-- Within a cluster. -/
theorem span_cluster {j c off n : Nat} (hc : l[j]? = some c) (hn : off + n ≤ v.bytesPerCluster) :
    v.span l (j * v.bytesPerCluster + off) n =
      (List.range n).map fun i => v.data c (off + i) := by
  refine List.map_congr_left fun i hi => ?_
  rw [List.mem_range] at hi
  obtain ⟨hdiv, hmod⟩ := Striped.place (B := v.bytesPerCluster) (j := j) (o := off + i) (by omega)
  rw [Nat.add_assoc, hdiv, hmod, List.getD_eq_getElem?_getD, hc, Option.getD_some]

/-- Dropping and taking. -/
theorem span_slice (size pos len : Nat) :
    ((v.span l 0 size).drop pos).take len = v.span l pos (min len (size - pos)) := by
  refine List.ext_getElem? fun i => ?_
  by_cases hi : i < min len (size - pos)
  · rw [List.getElem?_take_of_lt (by omega), List.getElem?_drop, span, span, List.getElem?_map,
      List.getElem?_map, List.getElem?_range (by omega), List.getElem?_range hi]
    simp
  · rw [List.getElem?_eq_none, List.getElem?_eq_none]
    · rw [span_length]
      omega
    · rw [List.length_take, List.length_drop, span_length]
      omega

/-- The clusters a string lies in. -/
theorem span_striped {bytes : List UInt8} (h : Striped v.bytesPerCluster v.data l bytes) :
    v.span l 0 bytes.length = bytes := by
  refine List.ext_getElem (by simp) fun p hp hp' => ?_
  obtain ⟨c, hc, hv⟩ := h p _ (List.getElem?_eq_getElem hp')
  rw [← hv]
  simp [span, List.getD_eq_getElem?_getD, hc]

end Span

theorem getLast_of_getElem? {l : List Nat} {j c : Nat} (hc : l[j]? = some c) (hj : j + 1 = l.length)
    (hl : l ≠ []) : l.getLast hl = c := by
  have hlast : l.length - 1 = j := by omega
  rw [← Option.some.injEq, ← hc, ← List.getLast?_eq_some_getLast, List.getLast?_eq_getElem?, hlast]

theorem readLoop_done {v : Volume} {len fuel c off : Nat} {got : List UInt8}
    (h : ¬got.length < len) : v.readLoop len fuel c off got = some (c, off, got) := by
  cases fuel <;> rw [readLoop, if_neg h]

section Chain
variable {v : Volume} {entry : Slot} {l : List Nat} {pos c off : Nat}

/-- A cluster of the file and its successor. -/
theorem FileChain.next (h : v.FileChain entry l) {j : Nat} (hc : l[j]? = some c) :
    v.inside c = true ∧ ∃ next, v.fat.nextCluster c = some next ∧
      (l[j + 1]? = some next.toNat ∨ j + 1 = l.length ∧ next = kEndOfClusterchain) := by
  rcases h with ⟨-, rfl⟩ | hl
  · cases hc
  · have hcm := hl.2 c (List.mem_of_getElem? hc)
    refine ⟨v.inside_of_used hcm, ?_⟩
    cases hd : l[j + 1]? with
    | some d =>
        obtain ⟨next, hnext, -, hnd⟩ := Table.nextCluster_link hcm.2.1 (hl.1.next_getElem hc hd)
        exact ⟨next, hnext, .inl (by rw [hnd])⟩
    | none =>
        have hj := List.getElem?_eq_none_iff.mp hd
        have hjlt := (List.getElem?_eq_some_iff.mp hc).1
        have hlast := getLast_of_getElem? hc (by omega) hl.1.ne_nil
        have hnext := Table.nextCluster_end hcm.2.1 (hlast ▸ hl.1.next_getLast)
        exact ⟨_, hnext, .inr ⟨by omega, rfl⟩⟩

/-- The first cluster. -/
theorem FileChain.start (h : v.FileChain entry l) (hne : l ≠ []) :
    v.Place l 0 (v.firstCluster entry).toNat 0 := by
  rcases h with ⟨-, rfl⟩ | hl
  · exact absurd rfl hne
  · obtain ⟨t, ht⟩ := hl.1.head
    exact .inside 0 (by rw [ht]; rfl) v.bytesPerCluster_pos (by simp)

theorem FileChain.first (h : v.FileChain entry l) (hl : l = []) :
    (v.firstCluster entry).toNat = 0 := by
  rcases h with ⟨h0, -⟩ | hc
  · exact h0
  · exact absurd hl hc.1.ne_nil

/-- To the end of a cluster. -/
theorem FileChain.turn (h : v.FileChain entry l) {j : Nat} (hc : l[j]? = some c) :
    ∃ next, v.fat.nextCluster c = some next ∧
      v.Place l ((j + 1) * v.bytesPerCluster) next.toNat 0 := by
  obtain ⟨-, next, hnext, hd | ⟨hj, rfl⟩⟩ := h.next hc
  · exact ⟨next, hnext, .inside (j + 1) hd v.bytesPerCluster_pos rfl⟩
  · exact ⟨_, hnext, .behind (by rw [hj]) rfl rfl⟩

/-- The loop of `Read`, along the file. -/
theorem readLoop_place (h : v.FileChain entry l) {len fuel : Nat} {got : List UInt8}
    (hp : v.Place l (pos + got.length) c off) (hgot : got = v.span l pos got.length)
    (hle : got.length ≤ len) (hroom : pos + len ≤ l.length * v.bytesPerCluster)
    (hfuel : len ≤ got.length + fuel) :
    (∃ c' off', v.readLoop len fuel c off got = some (c', off', v.span l pos len) ∧
      v.Place l (pos + len) c' off') ∧ ∀ x ∈ v.readVisits len fuel c off got.length, x ∈ l := by
  induction fuel generalizing c off got with
  | zero =>
      obtain rfl : len = got.length := by omega
      refine ⟨⟨c, off, ?_, hp⟩, fun x hx => (List.not_mem_nil hx).elim⟩
      rw [readLoop_done (Nat.lt_irrefl _), ← hgot]
  | succ fuel ih =>
      by_cases hlt : got.length < len
      · cases hp with
        | behind hpos => exact absurd hpos (by omega)
        | inside j hc hoff hpos =>
            obtain ⟨n, hn⟩ : ∃ n, n = min (len - got.length) (v.bytesPerCluster - off) := ⟨_, rfl⟩
            have hpiece := @span_cluster v l j c off n hc (by omega)
            rw [← hpos] at hpiece
            have hlen : (got ++ (List.range n).map fun i => v.data c (off + i)).length =
                got.length + n := by simp
            have hgot' : got ++ (List.range n).map (fun i => v.data c (off + i)) =
                v.span l pos (got.length + n) := by
              rw [span_add, ← hpiece, ← hgot]
            rw [readLoop, if_pos hlt, readVisits, if_pos hlt, (h.next hc).1]
            simp only [guard_true, Option.bind_eq_bind, Option.pure_def, Option.bind_some, ← hn,
              if_true]
            by_cases hB : off + n = v.bytesPerCluster
            · -- the turn ends with the cluster
              obtain ⟨next, hnext, hplace⟩ := h.turn hc
              have hsucc : (j + 1) * v.bytesPerCluster =
                  j * v.bytesPerCluster + v.bytesPerCluster := Nat.succ_mul j _
              have hend : (j + 1) * v.bytesPerCluster = pos + (got.length + n) := by omega
              rw [hend, ← hlen] at hplace
              have hrest := ih hplace (by rw [hlen]; exact hgot') (by omega) (by omega)
              rw [if_pos hB, if_pos hB, hnext, Option.bind_some]
              rw [hlen] at hrest
              exact ⟨hrest.1, List.forall_mem_cons.mpr ⟨List.mem_of_getElem? hc, hrest.2⟩⟩
            · have hplace : v.Place l (pos + (got ++ (List.range n).map fun i =>
                  v.data c (off + i)).length) c (off + n) :=
                .inside j hc (by omega) (by omega)
              have hrest := ih hplace (by rw [hlen]; exact hgot') (by omega) (by omega)
              rw [if_neg hB, if_neg hB]
              rw [hlen] at hrest
              exact ⟨hrest.1, List.forall_mem_cons.mpr ⟨List.mem_of_getElem? hc, hrest.2⟩⟩
      · obtain rfl : len = got.length := by omega
        refine ⟨⟨c, off, ?_, hp⟩, fun x hx => ?_⟩
        · rw [readLoop_done hlt, ← hgot]
        · rw [readVisits, if_neg hlt] at hx
          exact (List.not_mem_nil hx).elim

/-- The loop of `Load`, along the file. -/
theorem loadSeek_place (h : v.FileChain entry l) {fuel offset : Nat}
    (hp : v.Place l pos c 0) (hroom : pos + offset ≤ l.length * v.bytesPerCluster)
    (hfuel : offset ≤ fuel) :
    (∃ c' off', v.loadSeek fuel offset c = some (c', off') ∧ v.Place l (pos + offset) c' off') ∧
      ∀ x ∈ v.seekVisits fuel offset c, x ∈ l := by
  have hB := v.bytesPerCluster_pos
  induction fuel generalizing offset pos c with
  | zero =>
      obtain rfl : offset = 0 := by omega
      exact ⟨⟨c, 0, if_neg (by omega), hp⟩, fun x hx => (List.not_mem_nil hx).elim⟩
  | succ fuel ih =>
      rw [loadSeek, seekVisits]
      by_cases hge : offset ≥ v.bytesPerCluster
      · cases hp with
        | behind hpos => omega
        | inside j hc hoff hpos =>
            obtain ⟨next, hnext, hplace⟩ := h.turn hc
            have hsucc : (j + 1) * v.bytesPerCluster =
                j * v.bytesPerCluster + v.bytesPerCluster := Nat.succ_mul j _
            obtain ⟨⟨c', off', hseek, hplace'⟩, hvisits⟩ :=
              @ih _ _ (offset - v.bytesPerCluster) hplace (by omega) (by omega)
            have hpos' : (j + 1) * v.bytesPerCluster + (offset - v.bytesPerCluster) =
                pos + offset := by omega
            rw [hpos'] at hplace'
            rw [if_pos hge, if_pos hge, hnext, Option.bind_eq_bind, Option.bind_some]
            exact ⟨⟨c', off', hseek, hplace'⟩,
              List.forall_mem_cons.mpr ⟨List.mem_of_getElem? hc, hvisits⟩⟩
      · rw [if_neg hge, if_neg hge]
        refine ⟨⟨c, offset, rfl, ?_⟩, fun x hx => (List.not_mem_nil hx).elim⟩
        cases hp with
        | behind hpos hoff hc => exact .behind (by omega) (by omega) hc
        | inside j hc hoff hpos => exact .inside j hc (by omega) (by omega)

end Chain

/-! ## Calls on one descriptor -/

/-- The descriptor stands at a place of the file. -/
structure ReaderAt (v : Volume) (entry : Slot) (l : List Nat) (fd : FileDescriptor) (pos : Nat) :
    Prop where
  slot : fd.entry = entry
  rdOff : fd.rdOff = pos
  place : fd.rdCluster = 0 ∧ fd.rdClusterOff = 0 ∧ pos = 0 ∨
    v.Place l pos fd.rdCluster fd.rdClusterOff

section Calls
variable {v : Volume} {entry : Slot} {l : List Nat} {fd : FileDescriptor} {pos : Nat}

theorem new_readerAt (v : Volume) (entry : Slot) (l : List Nat) :
    v.ReaderAt entry l (.new entry) 0 := ⟨rfl, rfl, .inl ⟨rfl, rfl, rfl⟩⟩

/-- No place is in cluster 0. -/
theorem Place.ne_zero {c off : Nat} (hp : v.Place l pos c off) (h : v.FileChain entry l) :
    c ≠ 0 := by
  rintro rfl
  cases hp with
  | inside j hc =>
      have hin := v.inside_iff.mp (h.next hc).1
      omega
  | behind _ _ hc => exact absurd hc (by decide)

/-- Where `Read` starts. -/
theorem ReaderAt.start (hr : v.ReaderAt entry l fd pos) (h : v.FileChain entry l) (hne : l ≠ []) :
    v.Place l pos (v.rdStart fd) fd.rdClusterOff := by
  obtain ⟨rfl, rfl, ⟨h0, hoff, hpos⟩ | hp⟩ := hr
  · rw [rdStart, if_pos h0, hoff, hpos]
    exact h.start hne
  · rwa [rdStart, if_neg (hp.ne_zero h)]

theorem ReaderAt.start_nil (hr : v.ReaderAt entry l fd pos) (h : v.FileChain entry l)
    (hl : l = []) :
    v.rdStart fd = 0 ∧ fd.rdClusterOff = 0 ∧ pos = 0 ∨
      v.Place l pos (v.rdStart fd) fd.rdClusterOff := by
  obtain ⟨rfl, rfl, ⟨h0, hoff, hpos⟩ | hp⟩ := hr
  · refine .inl ⟨?_, hoff, hpos⟩
    rw [rdStart, if_pos h0]
    exact h.first hl
  · rw [rdStart, if_neg (hp.ne_zero h)]
    exact .inr hp

/-- What `Read` makes of its loop. -/
theorem read_eq (v : Volume) (fd : FileDescriptor) (len : Nat) :
    v.read fd len = (v.readLoop (v.rdLen fd len) (v.rdLen fd len) (v.rdStart fd)
      fd.rdClusterOff []).map fun r => ({ fd with
        rdOff := fd.rdOff + r.2.2.length, rdCluster := r.1, rdClusterOff := r.2.1 }, r.2.2) := by
  rw [Option.map_eq_bind]
  rfl

/-- **`Read`** returns the next bytes, and goes to clusters of the file only. -/
theorem read_place (h : v.Covers entry l) (hr : v.ReaderAt entry l fd pos)
    (hpos : pos ≤ (v.fileSize entry).toNat) (len : Nat) :
    let n := min len ((v.fileSize entry).toNat - pos)
    (∃ fd', v.read fd len = some (fd', v.span l pos n) ∧ v.ReaderAt entry l fd' (pos + n)) ∧
      ∀ c ∈ v.visits fd len, c ∈ l := by
  have hlt := (v.fileSize entry).toNat_lt
  have hlen : v.rdLen fd len = min len ((v.fileSize entry).toNat - pos) := by
    rw [rdLen, hr.slot, hr.rdOff]
    omega
  intro n
  rw [visits, read_eq, hlen]
  by_cases hne : l = []
  · -- a file without clusters is empty
    have hsize : (v.fileSize entry).toNat = 0 := by
      have hs := h.size
      rw [hne, List.length_nil, Nat.zero_mul] at hs
      omega
    have hn : n = 0 := by omega
    rw [show min len ((v.fileSize entry).toNat - pos) = 0 from hn, hn]
    exact ⟨⟨_, rfl, hr.slot, hr.rdOff, hr.start_nil h.chain hne⟩,
      fun x hx => (List.not_mem_nil hx).elim⟩
  · have hroom : pos + n ≤ l.length * v.bytesPerCluster := by
      have hsize := h.size
      omega
    obtain ⟨⟨c', off', hrun, hplace⟩, hvisits⟩ :=
      @readLoop_place v entry l pos _ _ h.chain n n [] (hr.start h.chain hne) rfl (Nat.zero_le n)
        hroom (by simp)
    refine ⟨⟨{ fd with rdOff := fd.rdOff + n, rdCluster := c', rdClusterOff := off' }, ?_,
      hr.slot, by rw [hr.rdOff], .inr hplace⟩, hvisits⟩
    rw [hrun, Option.map_some, span_length]

/-- The descriptor `Load` reads through. -/
theorem load_start (h : v.Covers entry l) {offset : Nat}
    (hoff : offset ≤ (v.fileSize entry).toNat) :
    ∃ c off, v.loadSeek offset offset (v.firstCluster entry).toNat = some (c, off) ∧
      v.ReaderAt entry l (.own entry offset c off) offset ∧
      ∀ x ∈ v.seekVisits offset offset (v.firstCluster entry).toNat, x ∈ l := by
  have hsize := h.size
  by_cases hne : l = []
  · obtain rfl : offset = 0 := by
      rw [hne, List.length_nil, Nat.zero_mul] at hsize
      omega
    have hB := v.bytesPerCluster_pos
    exact ⟨_, 0, if_neg (by omega), ⟨rfl, rfl, .inl ⟨h.chain.first hne, rfl, rfl⟩⟩,
      fun x hx => (List.not_mem_nil hx).elim⟩
  · obtain ⟨⟨c, off, hseek, hplace⟩, hvisits⟩ :=
      loadSeek_place h.chain (h.chain.start hne) (by omega) (Nat.le_refl offset)
    rw [Nat.zero_add] at hplace
    exact ⟨c, off, hseek, ⟨rfl, rfl, .inr hplace⟩, hvisits⟩

/-- **`Load`** returns the bytes at an offset, and leaves the descriptor alone. -/
theorem load_place (h : v.Covers entry l) (hfd : fd.entry = entry) {offset : Nat}
    (hoff : offset ≤ (v.fileSize entry).toNat) (len : Nat) :
    v.load fd len offset =
      some (fd, v.span l offset (min len ((v.fileSize entry).toNat - offset))) ∧
      ∀ c ∈ v.loadVisits fd len offset, c ∈ l := by
  obtain ⟨c, off, hseek, hr, hvisits⟩ := load_start h hoff
  obtain ⟨⟨fd', hread, -⟩, hvisits'⟩ := read_place h hr hoff len
  subst hfd
  refine ⟨?_, ?_⟩
  · simp only [load, hseek, Option.bind_eq_bind, Option.bind_some, hread, Option.pure_def]
  · simp only [loadVisits, hseek]
    exact List.forall_mem_append.mpr ⟨hvisits, hvisits'⟩

end Calls

end Volume

/-- A call on a descriptor that does not write. -/
inductive FileCall where
  | read (len : Nat)
  | load (len offset : Nat)

namespace FileCall

def run (v : Volume) (fd : FileDescriptor) : FileCall → Option (FileDescriptor × List UInt8)
  | read len => v.read fd len
  | load len offset => v.load fd len offset

/-- The clusters a call goes to. -/
def visits (v : Volume) (fd : FileDescriptor) : FileCall → List Nat
  | read len => v.visits fd len
  | load len offset => v.loadVisits fd len offset

/-- What a call is to return, for a descriptor that stands at `pos`. -/
def expects (bytes : List UInt8) (pos : Nat) : FileCall → List UInt8
  | read len => (bytes.drop pos).take len
  | load len offset => (bytes.drop offset).take len

/-- How far a call moves the descriptor. -/
def moves (bytes : List UInt8) (pos : Nat) : FileCall → Nat
  | read len => min len (bytes.length - pos)
  | load _ _ => 0

/-- `Load` is called for an offset in the file. -/
def Within (size : Nat) : FileCall → Prop
  | read _ => True
  | load _ offset => offset ≤ size

end FileCall

/-- Calls in a row: what they return. -/
def callAll (v : Volume) (fd : FileDescriptor) :
    List FileCall → Option (FileDescriptor × List (List UInt8))
  | [] => some (fd, [])
  | call :: calls => do
      let (fd, got) ← call.run v fd
      let (fd, gots) ← callAll v fd calls
      return (fd, got :: gots)

/-- The clusters they go to. -/
def callVisits (v : Volume) (fd : FileDescriptor) : List FileCall → List Nat
  | [] => []
  | call :: calls => call.visits v fd ++
      match call.run v fd with
      | none => []
      | some (fd, _) => callVisits v fd calls

/-- What they are to return: a `read` the next bytes, a `load` the bytes at its offset. -/
def expected (bytes : List UInt8) (pos : Nat) : List FileCall → List (List UInt8)
  | [] => []
  | call :: calls => call.expects bytes pos :: expected bytes (pos + call.moves bytes pos) calls

section Calls
variable {v : Volume} {entry : Slot} {l : List Nat} {fd : FileDescriptor} {pos : Nat}

open Volume

/-- **One call.** -/
theorem call_place (h : v.Covers entry l) (hr : v.ReaderAt entry l fd pos)
    (hpos : pos ≤ (v.fileSize entry).toNat) {call : FileCall}
    (hin : call.Within (v.fileSize entry).toNat) :
    (∃ fd', call.run v fd = some (fd', call.expects (v.fileBytes entry l) pos) ∧
      v.ReaderAt entry l fd' (pos + call.moves (v.fileBytes entry l) pos)) ∧
      ∀ c ∈ call.visits v fd, c ∈ l := by
  cases call with
  | read len =>
      simp only [FileCall.run, FileCall.expects, FileCall.moves, FileCall.visits, fileBytes,
        span_slice, span_length]
      exact read_place h hr hpos len
  | load len offset =>
      simp only [FileCall.run, FileCall.expects, FileCall.moves, FileCall.visits, fileBytes,
        span_slice, Nat.add_zero]
      obtain ⟨hload, hvisits⟩ := load_place h hr.slot hin len
      exact ⟨⟨fd, hload, hr⟩, hvisits⟩

/-- **Calls in a row.** -/
theorem calls_place (h : v.Covers entry l) (hr : v.ReaderAt entry l fd pos)
    (hpos : pos ≤ (v.fileSize entry).toNat) (calls : List FileCall)
    (hin : ∀ call ∈ calls, call.Within (v.fileSize entry).toNat) :
    (∃ fd', callAll v fd calls = some (fd', expected (v.fileBytes entry l) pos calls)) ∧
      ∀ c ∈ callVisits v fd calls, c ∈ l := by
  induction calls generalizing fd pos with
  | nil => exact ⟨⟨fd, rfl⟩, fun c hc => (List.not_mem_nil hc).elim⟩
  | cons call calls ih =>
      obtain ⟨hcall, hcalls⟩ := List.forall_mem_cons.mp hin
      obtain ⟨⟨fd', hrun, hr'⟩, hvisits⟩ := call_place h hr hpos hcall
      have hpos' : pos + call.moves (v.fileBytes entry l) pos ≤ (v.fileSize entry).toNat := by
        cases call with
        | read len =>
            simp only [FileCall.moves, fileBytes, span_length]
            omega
        | load len offset => exact hpos
      obtain ⟨⟨fd'', hrest⟩, hvisits'⟩ := ih hr' hpos' hcalls
      refine ⟨⟨fd'', ?_⟩, ?_⟩
      · simp only [callAll, hrun, hrest, Option.bind_eq_bind, Option.bind_some, Option.pure_def,
          expected]
      · simp only [callVisits, hrun]
        exact List.forall_mem_append.mpr ⟨hvisits, hvisits'⟩

end Calls

/-- **Reading a file.**  A file whose chain covers its size, and a new descriptor.  Calls of
`Read`, with calls of `Load` for offsets in the file between them, go to clusters of the file
only; a `Read` returns the next bytes of the file, as many as it is asked for and there are,
and a `Load` those at its offset.  What `Load` returns is what a new descriptor reads when it
has read up to the offset, and `Load` leaves its own descriptor as it is. -/
theorem reads_consistent {v : Volume} {entry : Slot} {l : List Nat} (h : v.Covers entry l) :
    (∀ calls : List FileCall, (∀ call ∈ calls, call.Within (v.fileSize entry).toNat) →
      (∃ fd, callAll v (.new entry) calls = some (fd, expected (v.fileBytes entry l) 0 calls)) ∧
        ∀ c ∈ callVisits v (.new entry) calls, c ∈ l) ∧
    ∀ (fd : FileDescriptor) (len offset : Nat), fd.entry = entry →
      offset ≤ (v.fileSize entry).toNat → ∃ before got fd',
        callAll v (.new entry) [.read offset, .read len] = some (fd', [before, got]) ∧
          v.load fd len offset = some (fd, got) := by
  have hnew := v.new_readerAt entry l
  refine ⟨fun calls hin => calls_place h hnew (Nat.zero_le _) calls hin, ?_⟩
  intro fd len offset hfd hoff
  obtain ⟨⟨fd', hreads⟩, -⟩ := calls_place h hnew (Nat.zero_le _) [.read offset, .read len]
    (by simp [FileCall.Within])
  obtain ⟨hload, -⟩ := Volume.load_place h hfd hoff len
  have hmove : 0 + min offset ((v.fileBytes entry l).length - 0) = offset := by
    rw [Volume.fileBytes, Volume.span_length]
    omega
  simp only [expected, FileCall.moves, hmove] at hreads
  refine ⟨_, _, fd', hreads, ?_⟩
  rw [hload, FileCall.expects, Volume.fileBytes, Volume.span_slice]

/-- A file of 300 bytes in one cluster. -/
def oneFile : Volume :=
  ((State.small.vol.withFat (State.small.vol.fat.set 3 kEndOfClusterchain)).setFirstCluster
    ⟨2, 0⟩ 3).setFileSize ⟨2, 0⟩ 300

theorem oneFile_covers : oneFile.Covers ⟨2, 0⟩ [3] := by
  have hfirst : (oneFile.firstCluster ⟨2, 0⟩).toNat = 3 := by decide
  refine ⟨.inr ?_, by decide⟩
  rw [hfirst]
  refine ⟨.last (by decide), fun c hc => ?_⟩
  rw [List.mem_singleton.mp hc]
  exact ⟨by decide, by decide, by decide⟩

theorem oneFile_read :
    ∃ before got fd', callAll oneFile (.new ⟨2, 0⟩) [.read 200, .read 150] =
        some (fd', [before, got]) ∧
      oneFile.load (.new ⟨2, 0⟩) 150 200 = some (.new ⟨2, 0⟩, got) :=
  (reads_consistent oneFile_covers).2 (.new ⟨2, 0⟩) 150 200 rfl (by decide)

end Laplus.Fat
