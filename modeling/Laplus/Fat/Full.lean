/-
# `Laplus.Fat.Full` — calls that need more clusters than are free

The search for a free cluster stops at a free entry only.  On a volume that
is full it runs on behind the last entry of the table, whatever call asked for
the cluster: none of the callers is told, and `kNoEnoughMemory` is never
returned.  `never_refused` says so for every call and every volume.
-/
import Laplus.Fat.Directory

namespace Laplus.Fat

namespace Volume

/-! ## Requests -/

/-- The calls that ask for clusters. -/
inductive Request where
  | extendCluster (cluster n : Nat)
  | allocateClusterChain (n : Nat)
  | allocateEntry (dirCluster : Nat)
  | createFile (path : List UInt8)
  | write (fd : FileDescriptor) (buf : Buffer)

/-- What they return. -/
inductive Reply where
  | cluster (c : Nat)
  | slot (s : Option Slot)
  | file (r : Except Error Slot)
  | bytes (n : Nat)

/-- The call; there is no outcome when it leaves the table or the volume. -/
def perform (v : Volume) : Request → Option (Volume × Reply)
  | .extendCluster c n => (v.fat.extendCluster c n).map fun r => (v.withFat r.1, .cluster r.2)
  | .allocateClusterChain n =>
      (v.fat.allocateClusterChain n).map fun r => (v.withFat r.1, .cluster r.2)
  | .allocateEntry dir => (v.allocateEntry dir).map fun r => (r.1, .slot r.2)
  | .createFile path => (v.createFile path).map fun r => (r.1, .file r.2)
  | .write fd buf => (v.write fd buf).map fun r => (r.1, .bytes r.2.2)

/-- The directory that `CreateFile` goes to, and the name. -/
def target (v : Volume) (path : List UInt8) : Option (Nat × List UInt8) :=
  match strrchr slash path with
  | none => some (v.rootCluster.toNat, path)
  | some (parent, filename) =>
      if filename = [] then none
      else if parent = [] then some (v.rootCluster.toNat, filename)
      else
        match v.find parent 0 with
        | some (some s, _) => some ((v.firstCluster s).toNat, filename)
        | _ => none

/-- The cluster that a descriptor writes to, or zero. -/
def current (v : Volume) (fd : FileDescriptor) : Nat :=
  if fd.wrCluster = 0 then (v.firstCluster fd.entry).toNat else fd.wrCluster

/-- The clusters from there to the end of the file. -/
def Ahead (v : Volume) (fd : FileDescriptor) (l : List Nat) : Prop :=
  if v.current fd = 0 then l = [] else v.fat.IsChain (v.current fd) l

/-- A directory without a vacant slot. -/
def Packed (v : Volume) (dir : Nat) : Prop :=
  ∃ l, v.fat.IsChain dir l ∧ ∀ s ∈ v.slots l, v.vacant s = false

/-- The call needs more clusters than are free. -/
def Short (v : Volume) : Request → Prop
  | .extendCluster _ n => v.fat.freeList.length < n
  | .allocateClusterChain n => v.fat.freeList.length < max n 1
  | .allocateEntry dir => v.Packed dir ∧ v.fat.freeList.length < 1
  | .createFile path => ∃ dir name, v.target path = some (dir, name) ∧ v.Packed dir ∧
      v.fat.freeList.length < 1
  | .write fd buf => buf.len < 2 ^ 64 ∧ fd.wrClusterOff ≤ v.bytesPerCluster ∧ ∃ l, v.Ahead fd l ∧
      l.length + v.fat.freeList.length < clustersOf v.bytesPerCluster (fd.wrClusterOff + buf.len)

/-- The caller learns that the call has failed. -/
def Failure (v : Volume) : Request → Reply → Prop
  | .write _ buf, .bytes n => n < buf.len
  | _, .cluster c => ¬(2 ≤ c ∧ c < v.fat.size)
  | _, .slot s => s = none
  | _, .file r => r = .error .kNoEnoughMemory
  | _, .bytes _ => False

/-- The bytes that a call writes by itself: those of its file and of the file's entry. -/
def Own (v : Volume) : Request → Nat → Nat → Prop
  | .write fd _, c, o => fd.entry.Written c o ∨ ∃ l, v.Ahead fd l ∧ c ∈ l
  | _, _, _ => False

/-- The call ends within the table, fails for its caller, and leaves the entries of the
chains and the bytes of the files as they were. -/
def Refused (v : Volume) (req : Request) : Prop :=
  ∃ v' reply, v.perform req = some (v', reply) ∧ v.Failure req reply ∧
    ∀ c, v.fat.Used c → v'.fat.entry c = v.fat.entry c ∧
      ∀ o, ¬v.Own req c o → v'.data c o = v.data c o

/-! ## The loop of `Write` -/

theorem length_freeList_le (fat : Table) : fat.freeList.length ≤ fat.size := by
  have h := List.length_filter_le (fun c => decide (fat.entry c = 0)) fat.candidates
  rw [Table.candidates, List.length_range'] at h
  exact h.trans (Nat.sub_le _ _)

/-- What is left needs more clusters than are free and ahead; `l` are the clusters ahead. -/
structure Starved (v : Volume) (c off rest : Nat) (l : List Nat) : Prop where
  chain : v.fat.IsChain c l
  off_le : off ≤ v.bytesPerCluster
  short : (l.length + v.fat.freeList.length) * v.bytesPerCluster < off + rest

/-- Where the count of clusters does not wrap, it is too many; where it wraps, the search
is asked for none. -/
theorem numCluster_short {v : Volume} {free rest : Nat} (hfree : free ≤ 2 ^ 28)
    (hshort : free * v.bytesPerCluster < rest) (hrest : rest < 2 ^ 64) :
    free < v.numCluster rest ∨
      v.numCluster rest = 0 ∧ (1 + free) * v.bytesPerCluster < rest := by
  have hB := v.bytesPerCluster_pos
  have hlt := v.bytesPerCluster_lt
  have hmul : free * v.bytesPerCluster ≤ 2 ^ 28 * 2 ^ 24 :=
    Nat.mul_le_mul hfree (Nat.le_of_lt hlt)
  by_cases hwrap : rest + v.bytesPerCluster - 1 < 2 ^ 64
  · left
    rw [numCluster, Nat.mod_eq_of_lt hwrap, Nat.lt_iff_add_one_le, Nat.le_div_iff_mul_le hB,
      Nat.succ_mul]
    omega
  · right
    have hmod : (rest + v.bytesPerCluster - 1) % 2 ^ 64 < v.bytesPerCluster := by omega
    refine ⟨by rw [numCluster, Nat.div_eq_of_lt hmod], ?_⟩
    rw [Nat.add_mul, Nat.one_mul]
    omega

/-- Where `Write` goes on when it has come to the end of a cluster. -/
theorem Starved.advance {v v' : Volume} {c c' rest : Nat} {l : List Nat}
    (h : v.Starved c v.bytesPerCluster rest l) (hrest : rest < 2 ^ 64)
    (hr : v.advance c rest = some (v', c')) :
    v'.bytesPerCluster = v.bytesPerCluster ∧ ∃ l', v'.Starved c' 0 rest l' := by
  have hshort := h.short
  have hu := h.chain.2 c h.chain.mem_head
  obtain ⟨hl, hall⟩ := h.chain
  cases hl with
  | last hn =>
      have hchain : v.fat.IsChain c [c] := ⟨.last hn, hall⟩
      have hfree : v.fat.freeList.length ≤ 2 ^ 28 :=
        (length_freeList_le v.fat).trans (v.fat.size_le.trans (by decide))
      simp only [List.length_singleton, Nat.add_mul, Nat.one_mul] at hshort
      simp only [Volume.advance, Table.nextCluster_end hu.2.1 hn, Option.bind_eq_bind,
        Option.bind_some, if_true, Table.extendCluster_eq hchain, List.getLast_singleton] at hr
      rcases numCluster_short (v := v) hfree (by omega) hrest with hmany | ⟨hzero, hroom⟩
      · rw [if_neg (Nat.not_le.mpr hmany)] at hr
        cases hr
      · -- the last cluster is written again
        rw [hzero, if_pos (Nat.zero_le _), List.take_zero] at hr
        cases hr
        have hkeep : (v.fat.set c kEndOfClusterchain).freeList = v.fat.freeList :=
          Table.filter_set (by decide) fun _ => hu.2.2
        refine ⟨rfl, [c], ?_, Nat.zero_le _, ?_⟩
        · have hext := hchain.extend (m := []) (by simp) List.nodup_nil
          exact hext
        · rw [withFat_fat, Table.relink, hkeep]
          simpa using hroom
  | @cons _ d l hs ht =>
      obtain ⟨next, hnext, hne, rfl⟩ := Table.nextCluster_link hu.2.1 hs
      simp only [Volume.advance, hnext, Option.bind_eq_bind, Option.bind_some, if_neg hne] at hr
      cases hr
      refine ⟨rfl, l, ⟨ht, fun x hx => hall x (List.mem_cons_of_mem c hx)⟩, Nat.zero_le _, ?_⟩
      simp only [List.length_cons, Nat.add_mul, Nat.one_mul] at hshort ⊢
      omega

/-- Such a loop does not end. -/
theorem Starved.loop {buf : Buffer} {fuel : Nat} {w : Cursor} {l : List Nat}
    (h : w.vol.Starved w.cluster w.off (buf.len - w.total) l) (hlen : buf.len < 2 ^ 64) :
    writeLoop buf fuel w = none := by
  have hpos : ∀ {v : Volume} {c off rest l}, v.Starved c off rest l → v.bytesPerCluster < off + rest :=
    fun {v c off rest l} hs => by
      have h1 := List.length_pos_of_ne_nil hs.chain.1.ne_nil
      have hmul := Nat.mul_le_mul_right v.bytesPerCluster
        (Nat.le_trans h1 (Nat.le_add_right l.length v.fat.freeList.length))
      have hshort := hs.short
      omega
  induction fuel generalizing w l with
  | zero =>
      have hrest := hpos h
      have hoff := h.off_le
      rw [writeLoop, if_pos (by omega)]
  | succ fuel ih =>
      have hrest := hpos h
      have hoff := h.off_le
      rw [writeLoop, if_pos (by omega), Option.bind_eq_bind, Option.bind_eq_none_iff]
      intro w' hturn
      obtain ⟨v, c, off, hplace, -, rfl⟩ := writeTurn_eq_some.mp hturn
      obtain ⟨hbpc, m, hm⟩ : v.bytesPerCluster = w.vol.bytesPerCluster ∧
          ∃ m, v.Starved c off (buf.len - w.total) m := by
        rw [wrPlace] at hplace
        split at hplace
        next hend =>
          obtain ⟨r, hadv, hr⟩ := Option.map_eq_some_iff.mp hplace
          cases hr
          rw [hend] at h
          exact h.advance (by omega) hadv
        next =>
          cases hplace
          exact ⟨rfl, l, h⟩
      have hrest' := hpos hm
      have hoff' := hm.off_le
      have hshort := hm.short
      refine ih (l := m) ⟨hm.chain, ?_, ?_⟩
      · simp only [put_bytesPerCluster]
        omega
      · simp only [put_bytesPerCluster, put_fat]
        omega

/-! ## The calls -/

theorem mul_lt_of_lt_clustersOf {B n x : Nat} (hn : 0 < n) (h : n < clustersOf B x) :
    n * B < x := by
  have hdiv : n + 1 ≤ (x + B - 1) / B := by
    rw [clustersOf] at h
    omega
  have hB : 0 < B := Nat.pos_of_ne_zero fun h0 => by
    rw [h0, Nat.div_zero] at hdiv
    omega
  have hmul := (Nat.le_div_iff_mul_le hB).mp hdiv
  rw [Nat.succ_mul] at hmul
  omega

theorem allocateEntry_short {v : Volume} {dir : Nat} (h : v.Packed dir)
    (hfree : v.fat.freeList.length < 1) : v.allocateEntry dir = none := by
  obtain ⟨l, hl, hfull⟩ := h
  have hnil : v.fat.freeList = [] := List.length_eq_zero_iff.mp (by omega)
  rw [allocateEntry_full hl (List.find?_eq_none.mpr fun s hs => by simp [hfull s hs]), hnil]

theorem createFile_target {v : Volume} {path name : List UInt8} {dir : Nat}
    (h : v.target path = some (dir, name)) : v.createFile path = v.createIn dir name := by
  rw [target] at h
  rw [createFile]
  cases hcut : strrchr slash path with
  | none =>
      rw [hcut] at h
      cases h
      rfl
  | some r =>
      obtain ⟨parent, filename⟩ := r
      rw [hcut] at h
      simp only at h ⊢
      split at h
      next => cases h
      next hname =>
        rw [if_neg hname]
        split at h
        next hparent =>
          cases h
          rw [if_pos hparent]
        next hparent =>
          rw [if_neg hparent]
          split at h
          next s b hfind =>
            cases h
            simp [hfind]
          next => cases h

theorem write_short {v : Volume} {fd : FileDescriptor} {buf : Buffer} {l : List Nat}
    (hlen : buf.len < 2 ^ 64) (hoff : fd.wrClusterOff ≤ v.bytesPerCluster) (hl : v.Ahead fd l)
    (hshort : l.length + v.fat.freeList.length <
      clustersOf v.bytesPerCluster (fd.wrClusterOff + buf.len)) : v.write fd buf = none := by
  rw [write, Option.bind_eq_bind, Option.bind_eq_none_iff]
  rintro ⟨v₁, c⟩ hstart
  rw [Option.bind_eq_bind, Option.bind_eq_none_iff]
  intro w hloop
  have hstarved : ∃ m, v₁.Starved c fd.wrClusterOff buf.len m := by
    rw [Ahead] at hl
    split at hl
    next h0 =>
      -- a file without a cluster gets a chain
      subst hl
      have hwr : fd.wrCluster = 0 := by
        by_contra hne
        rw [current, if_neg hne] at h0
        exact hne h0
      rw [current, if_pos hwr] at h0
      have hfirst : v.firstCluster fd.entry = 0 := UInt32.toNat_inj.mp h0
      have hnew : v.wrStart fd buf.len = v.wrStart (.new fd.entry) buf.len := by
        rw [wrStart, wrStart, if_pos hwr]
        rfl
      have hfree : max 1 (v.numCluster buf.len) ≤ v.fat.freeList.length := by
        by_contra hlt
        have hnone : v.fat.allocateClusterChain (v.numCluster buf.len) = none :=
          Table.allocateClusterChain_short (by omega)
        simp [wrStart, hwr, hfirst, hnone] at hstart
      obtain ⟨v', first, m, hstart', -, hbpc, -, hfill, -⟩ := wrStart_new hfirst hfree
      rw [hnew, hstart'] at hstart
      cases hstart
      have hlist := congrArg List.length hfill.owns.freeList
      rw [List.length_append] at hlist
      refine ⟨m, hfill.owns.chain, by rwa [hbpc], ?_⟩
      rw [← hlist, hbpc]
      rw [List.length_nil, Nat.zero_add] at hshort
      exact mul_lt_of_lt_clustersOf (by omega) hshort
    next h0 =>
      have hc : v₁ = v ∧ c = v.current fd := by
        rw [current] at h0
        rw [wrStart] at hstart
        rw [current]
        split at hstart
        next hwr =>
          rw [if_pos hwr] at h0 ⊢
          rw [if_pos fun h => h0 (congrArg UInt32.toNat h)] at hstart
          cases hstart
          exact ⟨rfl, rfl⟩
        next hwr =>
          cases hstart
          exact ⟨rfl, (if_neg hwr).symm⟩
      obtain ⟨rfl, rfl⟩ := hc
      have hpos := List.length_pos_of_ne_nil hl.1.ne_nil
      exact ⟨l, hl, hoff, mul_lt_of_lt_clustersOf (by omega) hshort⟩
  obtain ⟨m, hm⟩ := hstarved
  rw [Starved.loop (w := ⟨v₁, c, fd.wrClusterOff, 0⟩) hm hlen] at hloop
  cases hloop

/-- Such a call leaves the table. -/
theorem perform_short {v : Volume} {req : Request} (h : v.Short req) : v.perform req = none := by
  cases req with
  | extendCluster c n => rw [perform, Table.extendCluster_short h, Option.map_none]
  | allocateClusterChain n => rw [perform, Table.allocateClusterChain_short h, Option.map_none]
  | allocateEntry dir => rw [perform, allocateEntry_short h.1 h.2, Option.map_none]
  | createFile path =>
      obtain ⟨dir, name, htarget, hpacked, hfree⟩ := h
      rw [perform, createFile_target htarget, createIn, allocateEntry_short hpacked hfree]
      rfl
  | write fd buf =>
      obtain ⟨hlen, hoff, l, hl, hshort⟩ := h
      rw [perform, write_short hlen hoff hl hshort, Option.map_none]

/-- **A full volume is no error.**  No call that needs more clusters than are free is
refused. -/
theorem never_refused {v : Volume} {req : Request} (h : v.Short req) : ¬v.Refused req := by
  rintro ⟨v', reply, hr, -⟩
  rw [perform_short h] at hr
  cases hr

/-- Five free clusters are not six. -/
theorem never_refused_small : ¬State.small.vol.Refused (.extendCluster 2 6) :=
  never_refused (by decide : State.small.vol.fat.freeList.length < 6)

/-- A chain of six clusters is not refused. -/
theorem not_refused : ¬∀ (v : Volume) (req : Request), v.Short req → v.Refused req := by
  intro hall
  have hfive : State.small.vol.fat.freeList.length < max 6 1 := by decide
  have hshort : State.small.vol.Short (.allocateClusterChain 6) := hfive
  obtain ⟨v', reply, hr, -⟩ := hall _ _ hshort
  rw [perform_short hshort] at hr
  cases hr

end Volume

end Laplus.Fat
