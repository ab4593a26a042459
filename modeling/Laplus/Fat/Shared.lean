/-
# `Laplus.Fat.Shared` — reading a file that others write

The size of a file is in its directory entry, which every descriptor of the
file shares; the places are in the descriptors.  `Write` sets the size to where
its own descriptor stands.  `Read` takes the difference of the size and its own
offset as unsigned: once another descriptor has made the file shorter than that,
there is no bound.  And a descriptor that has read up to the end of the last
cluster stands on the end mark, also when the chain goes on by now.
-/
import Laplus.Fat.File

namespace Laplus.Fat

open Lib

/-! ## The conditions -/

/-- `Read` is asked for nothing, or the file ends where it stands, or there is more and the
descriptor does not stand on the end mark. -/
def Volume.ReadInStep (v : Volume) (fd : FileDescriptor) (len : Nat) : Prop :=
  len = 0 ∨ fd.rdOff = (v.fileSize fd.entry).toNat ∨
    fd.rdOff < (v.fileSize fd.entry).toNat ∧ fd.rdCluster ≠ kEndOfClusterchain.toNat

/-- `Load` is asked for nothing or for what lies in the file, and follows the chain no
further than it goes. -/
def Volume.LoadInStep (v : Volume) (fd : FileDescriptor) (len offset : Nat) : Prop :=
  (len = 0 ∨ offset ≤ (v.fileSize fd.entry).toNat) ∧
    ∃ l, v.FileChain fd.entry l ∧ offset / v.bytesPerCluster ≤ l.length

/-! ## The machine -/

/-- The volume, the descriptor that reads, and the others of the same entry. -/
structure Shared where
  vol : Volume
  reader : FileDescriptor
  writers : Nat → FileDescriptor

/-- No object is larger than that. -/
abbrev WriteBuffer := {buf : Buffer // buf.len < 2 ^ 63}

/-- The descriptor reads, or another one writes. -/
inductive SharedEvent where
  | call (c : FileCall)
  | write (k : Nat) (buf : WriteBuffer)

namespace Shared

/-- All descriptors are new. -/
def start (v : Volume) (entry : Slot) : Shared := ⟨v, .new entry, fun _ => .new entry⟩

/-- One call.  After an access outside of the volume nothing is known. -/
def step : Option Shared → SharedEvent → Option Shared
  | none, _ => none
  | some s, .call c => (c.run s.vol s.reader).map fun r => { s with reader := r.1 }
  | some s, .write k buf => (s.vol.write (s.writers k) buf.1).map fun r =>
      { s with vol := r.1, writers := Function.update s.writers k r.2.1 }

/-- Where a call reads from. -/
def origin (fd : FileDescriptor) : FileCall → Nat
  | .read _ => fd.rdOff
  | .load _ offset => offset

/-- A call that reads returns, with no more bytes than there are behind its place, and goes to
clusters of the file only. -/
def Safe : Option Shared → SharedEvent → Prop
  | some s, .call c =>
      (∃ l, s.vol.FileChain s.reader.entry l ∧ ∀ x ∈ c.visits s.vol s.reader, x ∈ l) ∧
      ∃ fd got, c.run s.vol s.reader = some (fd, got) ∧
        got.length ≤ (s.vol.fileSize s.reader.entry).toNat - origin s.reader c
  | _, _ => True

/-- The condition of every call that reads. -/
def InStep : Option Shared → SharedEvent → Prop
  | some s, .call (.read len) => s.vol.ReadInStep s.reader len
  | some s, .call (.load len offset) => s.vol.LoadInStep s.reader len offset
  | _, _ => True

end Shared

/-! ## What the calls find -/

namespace Volume

/-- A file whose entry lies in a cluster of another chain. -/
structure File (v : Volume) (entry : Slot) (l : List Nat) : Prop where
  covers : v.Covers entry l
  used : v.fat.Used entry.cluster
  out : entry.cluster ∉ l

/-- A descriptor that reads: new, at the end mark, or at a place of the file. -/
structure ReaderOk (v : Volume) (entry : Slot) (l : List Nat) (fd : FileDescriptor) : Prop where
  slot : fd.entry = entry
  bound : fd.rdOff ≤ l.length * v.bytesPerCluster
  place : fd.rdCluster = kEndOfClusterchain.toNat ∨ v.ReaderAt entry l fd fd.rdOff

/-- A descriptor that writes: new, or in a cluster of the file that is no nearer than what
it has written. -/
structure WriterOk (v : Volume) (entry : Slot) (l : List Nat) (fd : FileDescriptor) : Prop where
  slot : fd.entry = entry
  place : fd.wrCluster = 0 ∧ fd.wrClusterOff = 0 ∧ fd.wrOff = 0 ∨
    ∃ j, l[j]? = some fd.wrCluster ∧ fd.wrClusterOff ≤ v.bytesPerCluster ∧
      fd.wrOff ≤ j * v.bytesPerCluster + fd.wrClusterOff

section Read
variable {v : Volume} {entry : Slot} {l : List Nat} {fd : FileDescriptor} {len : Nat}

/-- The loop of `Read` returns as many bytes as it goes by. -/
theorem readLoop_length {fuel c off : Nat} {got : List UInt8} {r : Nat × Nat × List UInt8}
    (h : v.readLoop len fuel c off got = some r) (hle : got.length ≤ len) :
    r.2.2.length = len := by
  induction fuel generalizing c off got with
  | zero =>
      rw [readLoop] at h
      split at h
      · cases h
      · obtain rfl := Option.some.inj h
        exact Nat.le_antisymm hle (Nat.le_of_not_lt ‹_›)
  | succ fuel ih =>
      rw [readLoop] at h
      split at h
      · obtain ⟨-, -, h⟩ := Option.bind_eq_some_iff.mp h
        have hlen : (got ++ (List.range (min (len - got.length) (v.bytesPerCluster - off))).map
            fun i => v.data c (off + i)).length ≤ len := by
          rw [List.length_append, List.length_map, List.length_range]
          omega
        dsimp only at h
        split at h
        · obtain ⟨next, -, h⟩ := Option.bind_eq_some_iff.mp h
          exact ih h hlen
        · exact ih h hlen
      · obtain rfl := Option.some.inj h
        exact Nat.le_antisymm hle (Nat.le_of_not_lt ‹_›)

theorem read_length {fd' : FileDescriptor} {got : List UInt8}
    (h : v.read fd len = some (fd', got)) : got.length = v.rdLen fd len := by
  rw [read_eq] at h
  obtain ⟨r, hr, he⟩ := Option.map_eq_some_iff.mp h
  cases he
  exact readLoop_length hr (Nat.zero_le _)

/-- A `Read` that copies anything goes to where it starts. -/
theorem visits_start (h : 0 < v.rdLen fd len) : v.rdStart fd ∈ v.visits fd len := by
  rw [visits]
  obtain ⟨n, hn⟩ := Nat.exists_eq_succ_of_ne_zero h.ne'
  rw [hn, readVisits, if_pos (Nat.zero_lt_succ n)]
  exact List.mem_cons_self

/-- The end mark is no cluster. -/
theorem FileChain.end_not_mem (h : v.FileChain entry l) : kEndOfClusterchain.toNat ∉ l := by
  intro hm
  obtain ⟨j, hj⟩ := List.getElem?_of_mem hm
  have hin := v.inside_iff.mp (h.next hj).1
  have hsize := v.fat.size_le
  have hmark : kEndOfClusterchain.toNat = 0x0fffffff := rfl
  omega

theorem FileChain.unique {l' : List Nat} (h : v.FileChain entry l) (h' : v.FileChain entry l') :
    l = l' := by
  have hzero {m : List Nat} (h0 : (v.firstCluster entry).toNat = 0)
      (hm : v.fat.IsChain (v.firstCluster entry).toNat m) : False := by
    have hu := hm.2 _ hm.mem_head
    rw [h0] at hu
    exact absurd hu.1 (by decide)
  rcases h with ⟨h0, rfl⟩ | hl
  · rcases h' with ⟨-, rfl⟩ | hl'
    · rfl
    · exact (hzero h0 hl').elim
  · rcases h' with ⟨h0, -⟩ | hl'
    · exact (hzero h0 hl).elim
    · exact hl.unique hl'

theorem FileChain.capacity (h : v.FileChain entry l) : l.length * v.bytesPerCluster < 2 ^ 52 := by
  rcases h with ⟨-, rfl⟩ | hl
  · rw [List.length_nil, Nat.zero_mul]
    decide
  · have hlen : l.length < 2 ^ 28 := by
      have hle := hl.length_le
      have hsize := v.fat.size_le
      omega
    calc l.length * v.bytesPerCluster
        < 2 ^ 28 * 2 ^ 24 := Nat.mul_lt_mul'' hlen v.bytesPerCluster_lt
      _ = 2 ^ 52 := by decide

/-- A `Read` of nothing. -/
theorem read_nothing (h : v.rdLen fd len = 0) :
    v.read fd len = some ({ fd with rdCluster := v.rdStart fd }, []) ∧ v.visits fd len = [] := by
  rw [read_eq, visits, h]
  exact ⟨rfl, rfl⟩

/-- The descriptor has its first cluster. -/
theorem ReaderOk.begun (hr : v.ReaderOk entry l fd) (h : v.FileChain entry l) :
    v.ReaderOk entry l { fd with rdCluster := v.rdStart fd } := by
  refine ⟨hr.slot, hr.bound, ?_⟩
  rcases hr.place with hend | hat
  · refine .inl ?_
    have hne : kEndOfClusterchain.toNat ≠ 0 := by decide
    rw [← hend]
    exact if_neg (hend ▸ hne)
  · refine .inr ⟨hr.slot, rfl, ?_⟩
    by_cases hnil : l = []
    · exact hat.start_nil h hnil
    · exact .inr (hat.start h hnil)

/-- What `Read` goes by is nothing, or all that it may, or more. -/
theorem rdLen_eq (v : Volume) (len : Nat) (hslot : fd.entry = entry) (hbound : fd.rdOff < 2 ^ 63) :
    v.rdLen fd len = if fd.rdOff ≤ (v.fileSize entry).toNat then
      min len ((v.fileSize entry).toNat - fd.rdOff)
      else min len (2 ^ 64 - (fd.rdOff - (v.fileSize entry).toNat)) := by
  have hlt := (v.fileSize entry).toNat_lt
  rw [rdLen, hslot]
  split
  · omega
  · omega

/-- A `Read` in step. -/
theorem read_inStep (h : v.Covers entry l) (hr : v.ReaderOk entry l fd)
    (hin : v.ReadInStep fd len) :
    (∀ x ∈ v.visits fd len, x ∈ l) ∧ ∃ fd' got, v.read fd len = some (fd', got) ∧
      got.length ≤ (v.fileSize entry).toNat - fd.rdOff ∧ v.ReaderOk entry l fd' := by
  have hcap := h.chain.capacity
  have hbound := hr.bound
  have hlen := rdLen_eq v len hr.slot (by omega)
  by_cases h0 : v.rdLen fd len = 0
  · obtain ⟨hread, hvisits⟩ := read_nothing h0
    rw [hvisits]
    exact ⟨fun x hx => (List.not_mem_nil hx).elim, _, _, hread, Nat.zero_le _, hr.begun h.chain⟩
  · rw [ReadInStep, hr.slot] at hin
    have hlt : fd.rdOff < (v.fileSize entry).toNat ∧ fd.rdCluster ≠ kEndOfClusterchain.toNat := by
      rcases hin with hz | heq | hlt
      · rw [hlen, hz] at h0
        simp at h0
      · rw [hlen, if_pos heq.le] at h0
        omega
      · exact hlt
    have hat := hr.place.resolve_left hlt.2
    obtain ⟨⟨fd', hread, hat'⟩, hvisits⟩ := read_place h hat hlt.1.le len
    refine ⟨hvisits, fd', _, hread, by rw [span_length]; omega, hat'.slot, ?_, .inr ?_⟩
    · rw [hat'.rdOff]
      have hsize := h.size
      omega
    · rw [hat'.rdOff]
      exact hat'

/-- A `Read` that is safe is in step. -/
theorem read_safe (h : v.Covers entry l) (hr : v.ReaderOk entry l fd)
    (hvisits : ∀ x ∈ v.visits fd len, x ∈ l) {fd' : FileDescriptor} {got : List UInt8}
    (hread : v.read fd len = some (fd', got))
    (hgot : got.length ≤ (v.fileSize entry).toNat - fd.rdOff) : v.ReadInStep fd len := by
  have hcap := h.chain.capacity
  have hbound := hr.bound
  have hlen := rdLen_eq v len hr.slot (by omega)
  rw [read_length hread] at hgot
  by_cases hz : len = 0
  · exact .inl hz
  · refine .inr ?_
    rw [hr.slot]
    by_cases hle : fd.rdOff ≤ (v.fileSize entry).toNat
    · rcases Nat.lt_or_eq_of_le hle with hlt | heq
      · refine .inr ⟨hlt, fun hend => ?_⟩
        rw [if_pos hle] at hlen
        have hstart := hvisits _ (visits_start (by omega))
        have hne : kEndOfClusterchain.toNat ≠ 0 := by decide
        rw [rdStart, if_neg (hend ▸ hne), hend] at hstart
        exact h.chain.end_not_mem hstart
      · exact .inl heq
    · rw [if_neg hle] at hlen
      omega

/-- A cluster of the file, or what comes behind the last one. -/
def Behind (l : List Nat) (j c : Nat) : Prop := l[j]? = some c ∨ j = l.length ∧ c ∉ l

theorem FileChain.behind (h : v.FileChain entry l) {j c : Nat} (hc : l[j]? = some c) :
    ∃ next, v.fat.nextCluster c = some next ∧ Behind l (j + 1) next.toNat := by
  obtain ⟨-, next, hnext, hd | ⟨hj, rfl⟩⟩ := h.next hc
  · exact ⟨next, hnext, .inl hd⟩
  · exact ⟨_, hnext, .inr ⟨hj, h.end_not_mem⟩⟩

theorem FileChain.behind_first (h : v.FileChain entry l) :
    Behind l 0 (v.firstCluster entry).toNat := by
  rcases h with ⟨-, rfl⟩ | hl
  · exact .inr ⟨rfl, List.not_mem_nil⟩
  · obtain ⟨t, rfl⟩ := hl.1.head
    exact .inl rfl

/-- The loop of `Load` stays in the file exactly when the chain is long enough. -/
theorem seek_iff (h : v.FileChain entry l) {fuel offset j c : Nat} (hb : Behind l j c)
    (hfuel : offset ≤ fuel) :
    ((∀ x ∈ v.seekVisits fuel offset c, x ∈ l) ↔ j + offset / v.bytesPerCluster ≤ l.length) ∧
      (j + offset / v.bytesPerCluster ≤ l.length → ∃ r, v.loadSeek fuel offset c = some r) := by
  have hB := v.bytesPerCluster_pos
  have hj : j ≤ l.length := by
    rcases hb with hc | ⟨hj, -⟩
    · exact (List.getElem?_eq_some_iff.mp hc).1.le
    · exact hj.le
  induction fuel generalizing offset j c with
  | zero =>
      obtain rfl : offset = 0 := by omega
      rw [Nat.zero_div, Nat.add_zero]
      exact ⟨iff_of_true (fun x hx => (List.not_mem_nil hx).elim) hj,
        fun _ => ⟨_, if_neg (by omega)⟩⟩
  | succ fuel ih =>
      rw [seekVisits, loadSeek]
      by_cases hge : offset ≥ v.bytesPerCluster
      · obtain ⟨q, hq⟩ : ∃ q, (offset - v.bytesPerCluster) / v.bytesPerCluster = q := ⟨_, rfl⟩
        have hdiv : offset / v.bytesPerCluster = q + 1 := by
          rw [← hq, ← Nat.add_div_right _ hB, Nat.sub_add_cancel hge]
        rw [if_pos hge, if_pos hge, List.forall_mem_cons, hdiv]
        rcases hb with hc | ⟨rfl, hc⟩
        · obtain ⟨next, hnext, hb'⟩ := h.behind hc
          have hjlt := (List.getElem?_eq_some_iff.mp hc).1
          obtain ⟨hiff, hseek⟩ := @ih (offset - v.bytesPerCluster) _ _ hb' (by omega) hjlt
          have hassoc : j + (q + 1) = j + 1 + q := by omega
          rw [hq] at hiff hseek
          rw [hassoc, hnext]
          exact ⟨(and_iff_right (List.mem_of_getElem? hc)).trans hiff, hseek⟩
        · refine ⟨iff_of_false (fun hv => hc hv.1) (by omega), fun hle => ?_⟩
          omega
      · rw [if_neg hge, if_neg hge, Nat.div_eq_of_lt (Nat.lt_of_not_le hge), Nat.add_zero]
        exact ⟨iff_of_true (fun x hx => (List.not_mem_nil hx).elim) hj, fun _ => ⟨_, rfl⟩⟩

/-- **`Load`** is safe exactly when it is in step. -/
theorem load_safe_iff (h : v.Covers entry l) (hslot : fd.entry = entry) {offset : Nat} :
    ((∀ x ∈ v.loadVisits fd len offset, x ∈ l) ∧ ∃ fd' got, v.load fd len offset = some (fd', got) ∧
      got.length ≤ (v.fileSize entry).toNat - offset) ↔ v.LoadInStep fd len offset := by
  subst hslot
  have hcap := h.chain.capacity
  have hB := v.bytesPerCluster_pos
  obtain ⟨hiff, hseek⟩ := seek_iff h.chain h.chain.behind_first (Nat.le_refl offset)
  rw [Nat.zero_add] at hiff hseek
  constructor
  · rintro ⟨hvisits, fd', got, hload, hgot⟩
    have hchain := hiff.mp fun x hx => hvisits x (List.mem_append_left _ hx)
    refine ⟨?_, l, h.chain, hchain⟩
    by_contra hno
    obtain ⟨hz, hlt⟩ := not_or.mp hno
    obtain ⟨r, hr⟩ := hseek hchain
    simp only [load, hr, Option.bind_eq_bind, Option.bind_some, Option.bind_eq_some_iff] at hload
    obtain ⟨⟨own, got'⟩, hread, he⟩ := hload
    cases he
    rw [read_length hread] at hgot
    have hbound : offset < 2 ^ 63 := by
      have hmul := Nat.div_add_mod' offset v.bytesPerCluster
      have hmod := Nat.mod_lt offset hB
      have hle := Nat.mul_le_mul_right v.bytesPerCluster hchain
      have hBlt := v.bytesPerCluster_lt
      omega
    have hown := @rdLen_eq fd.entry (.own fd.entry offset r.1 r.2) v len rfl hbound
    rw [own_rdOff, if_neg hlt] at hown
    omega
  · rintro ⟨hlen, l', hl', hchain⟩
    obtain rfl := h.chain.unique hl'
    by_cases hoff : offset ≤ (v.fileSize fd.entry).toNat
    · obtain ⟨hload, hvisits⟩ := load_place h rfl hoff len
      refine ⟨hvisits, fd, _, hload, ?_⟩
      rw [span_length]
      omega
    · obtain rfl := hlen.resolve_right hoff
      obtain ⟨⟨c, off⟩, hr⟩ := hseek hchain
      have h0 : v.rdLen (.own fd.entry offset c off) 0 = 0 := by rw [rdLen, Nat.zero_min]
      obtain ⟨hread, hnone⟩ := read_nothing h0
      refine ⟨?_, fd, [], ?_, Nat.zero_le _⟩
      · simp only [loadVisits, hr, hnone, List.append_nil]
        exact hiff.mpr hchain
      · rw [load, hr, Option.bind_eq_bind, Option.bind_some]
        dsimp only
        rw [hread]
        rfl

end Read

/-! ## Writing -/

/-- The chain of a file, with the entry outside of it. -/
structure Along (v : Volume) (entry : Slot) (first : Nat) (l : List Nat) : Prop where
  chain : v.fat.IsChain first l
  used : v.fat.Used entry.cluster
  out : entry.cluster ∉ l

section Write
variable {v v' : Volume} {entry : Slot} {first j c : Nat} {l : List Nat} {buf : Buffer}

theorem numCluster_pos (v : Volume) {n : Nat} (h0 : 0 < n) (hn : n < 2 ^ 63) :
    0 < v.numCluster n := by
  have hB := v.bytesPerCluster_pos
  have hlt := v.bytesPerCluster_lt
  rw [numCluster, Nat.mod_eq_of_lt (by omega)]
  exact Nat.div_pos (by omega) hB

/-- More clusters behind the last one. -/
theorem Along.extend (h : Along v entry first l) {m : List Nat} (hm : ∀ d ∈ m, v.fat.Free d)
    (hnd : m.Nodup) :
    Along (v.withFat (v.fat.relink (l.getLast h.chain.1.ne_nil) m)) entry first (l ++ m) := by
  have hnot : entry.cluster ∉ m := fun hmem => h.used.2.2 (hm _ hmem).2.2
  have hlast : entry.cluster ≠ l.getLast h.chain.1.ne_nil := fun he =>
    h.out (he ▸ List.getLast_mem h.chain.1.ne_nil)
  refine ⟨h.chain.extend hm hnd, ?_, ?_⟩
  · have hkept := Table.relink_of_not_mem v.fat
      (List.not_mem_cons_of_ne_of_not_mem hlast hnot)
    rw [withFat_fat, Table.Used, Table.relink_size, hkept]
    exact h.used
  · rw [List.mem_append]
    exact not_or.mpr ⟨h.out, hnot⟩

/-- `Write` goes on in a later cluster of the file, which it may make longer. -/
theorem Along.advance (h : Along v entry first l) (hc : l[j]? = some c) {rest c' : Nat}
    (hn : 0 < v.numCluster rest) (hr : v.advance c rest = some (v', c')) :
    ∃ m j', Along v' entry first (l ++ m) ∧ (l ++ m)[j']? = some c' ∧ j < j' ∧
      v'.bytesPerCluster = v.bytesPerCluster ∧ v'.data = v.data := by
  have hjlt := (List.getElem?_eq_some_iff.mp hc).1
  cases hd : l[j + 1]? with
  | some d =>
      rw [advance_next h.chain hc hd] at hr
      cases hr
      exact ⟨[], j + 1, by rwa [List.append_nil], by rwa [List.append_nil], Nat.lt_succ_self j,
        rfl, rfl⟩
  | none =>
      have hle := List.getElem?_eq_none_iff.mp hd
      rw [← getLast_of_getElem? hc (by omega) h.chain.1.ne_nil, advance_end h.chain] at hr
      split at hr
      · rename_i hfree
        cases hr
        obtain ⟨m, hm⟩ : ∃ m, v.fat.freeList.take (v.numCluster rest) = m := ⟨_, rfl⟩
        have hlen : 0 < m.length := by
          rw [← hm, List.length_take]
          omega
        have hmem : ∀ d ∈ m, v.fat.Free d := fun d hd =>
          Table.mem_freeList.mp (List.mem_of_mem_take (hm ▸ hd))
        have hnd : m.Nodup := hm ▸ v.fat.nodup_freeList.sublist (List.take_sublist _ _)
        have hm0 : m ≠ [] := List.ne_nil_of_length_pos hlen
        rw [hm]
        refine ⟨m, l.length + (m.length - 1), h.extend hmem hnd, ?_, by omega, rfl, rfl⟩
        rw [List.getElem?_append_right (Nat.le_add_right _ _), Nat.add_sub_cancel_left,
          ← List.getLast?_eq_getElem?, List.getLast?_eq_some_getLast hm0]
        simp only [List.getLast_cons hm0]
      · cases hr

/-- Where a `Write` stands. -/
structure Writing (v₀ : Volume) (entry : Slot) (first : Nat) (l : List Nat) (base : Nat)
    (w : Cursor) : Prop where
  along : Along w.vol entry first l
  bpc : w.vol.bytesPerCluster = v₀.bytesPerCluster
  place : ∃ j, l[j]? = some w.cluster ∧ w.off ≤ w.vol.bytesPerCluster ∧
    base + w.total ≤ j * w.vol.bytesPerCluster + w.off
  data : ∀ o, w.vol.data entry.cluster o = v₀.data entry.cluster o

/-- Where the next turn copies to. -/
theorem Writing.next {v₀ : Volume} {base off : Nat} {w : Cursor} (h : Writing v₀ entry first l base w)
    (hlen : buf.len < 2 ^ 63) (hlt : w.total < buf.len) (hr : wrPlace buf w = some (v, c, off)) :
    ∃ m, Writing v₀ entry first (l ++ m) base { w with vol := v, cluster := c, off := off } := by
  obtain ⟨j, hj, hoff, hbase⟩ := h.place
  rw [wrPlace] at hr
  split at hr
  · rename_i heq
    obtain ⟨r, hadv, he⟩ := Option.map_eq_some_iff.mp hr
    cases he
    obtain ⟨m, j', halong, hj', hlt', hbpc, hdata⟩ :=
      h.along.advance hj (w.vol.numCluster_pos (by omega) (by omega)) hadv
    refine ⟨m, halong, hbpc.trans h.bpc, ⟨j', hj', Nat.zero_le _, ?_⟩, fun o => ?_⟩
    · have hmul := Nat.mul_le_mul_right w.vol.bytesPerCluster hlt'
      rw [Nat.succ_mul] at hmul
      rw [hbpc, Nat.add_zero]
      exact hbase.trans (heq ▸ hmul)
    · rw [hdata, h.data]
  · cases hr
    refine ⟨[], ?_⟩
    rw [List.append_nil]
    exact h

theorem Writing.turn {v₀ : Volume} {base : Nat} {w w' : Cursor} (h : Writing v₀ entry first l base w)
    (hlen : buf.len < 2 ^ 63) (hlt : w.total < buf.len) (hr : writeTurn buf w = some w') :
    ∃ m, Writing v₀ entry first (l ++ m) base w' := by
  obtain ⟨vol, c, off, hgo, -, rfl⟩ := writeTurn_eq_some.mp hr
  obtain ⟨m, along, hbpc, ⟨j, hj, hoff, hbase⟩, hdata⟩ := h.next hlen hlt hgo
  refine ⟨m, ⟨along.chain, along.used, along.out⟩, hbpc, ⟨j, hj, ?_, ?_⟩, fun o => ?_⟩
  · dsimp only [put_bytesPerCluster] at hoff ⊢
    omega
  · dsimp only [put_bytesPerCluster] at hbase ⊢
    omega
  · have hne : entry.cluster ≠ c := fun he => along.out (he ▸ List.mem_of_getElem? hj)
    dsimp only
    rw [put_ne _ _ _ _ _ hne]
    exact hdata o

/-- The whole loop. -/
theorem Writing.loop {v₀ : Volume} {base fuel : Nat} {w w' : Cursor}
    (h : Writing v₀ entry first l base w) (hlen : buf.len < 2 ^ 63)
    (hr : writeLoop buf fuel w = some w') : ∃ m, Writing v₀ entry first (l ++ m) base w' := by
  refine writeLoop_keeps (fun x => ∃ m, Writing v₀ entry first (l ++ m) base x) ?_
    ⟨[], by rwa [List.append_nil]⟩ hr
  rintro x x' ⟨m, hm⟩ hlt hturn
  obtain ⟨m', hm'⟩ := hm.turn hlen hlt hturn
  rw [List.append_assoc] at hm'
  exact ⟨m ++ m', hm'⟩

/-- Where the loop of a `Write` starts. -/
theorem wrStart_writing {fd : FileDescriptor} {len : Nat} (h : v.File entry l)
    (hw : v.WriterOk entry l fd) (hr : v.wrStart fd len = some (v', c)) :
    v'.bytesPerCluster = v.bytesPerCluster ∧ ∃ m,
      Writing v' entry (v'.firstCluster entry).toNat (l ++ m) fd.wrOff ⟨v', c, fd.wrClusterOff, 0⟩ := by
  obtain ⟨rfl, hplace⟩ := hw
  rw [wrStart] at hr
  rcases h.covers.chain with ⟨hfirst, rfl⟩ | hl
  · -- the file has no cluster yet
    obtain ⟨h0, hoff, hwr⟩ : fd.wrCluster = 0 ∧ fd.wrClusterOff = 0 ∧ fd.wrOff = 0 := by
      refine hplace.resolve_right ?_
      rintro ⟨j, hj, -⟩
      cases hj
    have hzero : ¬v.firstCluster fd.entry ≠ 0 := not_not.mpr (UInt32.toNat_inj.mp hfirst)
    rw [if_pos h0, if_neg hzero] at hr
    obtain ⟨⟨fat, first⟩, halloc, he⟩ := Option.bind_eq_some_iff.mp hr
    cases hfree : v.fat.freeList with
    | nil =>
        rw [Table.allocateClusterChain_short (by rw [hfree, List.length_nil]; omega)] at halloc
        cases halloc
    | cons z rest =>
        rw [Table.allocateClusterChain_eq hfree] at halloc
        split at halloc
        · cases halloc
          cases he
          obtain ⟨t, ht⟩ : ∃ t, rest.take (v.numCluster len - 1) = t := ⟨_, rfl⟩
          have hmem : ∀ d ∈ c :: t, v.fat.Free d := fun d hd => Table.mem_freeList.mp
            (hfree ▸ (List.cons_subset_cons c (ht ▸ List.take_subset _ _)) hd)
          have hnd : (c :: t).Nodup := (hfree ▸ v.fat.nodup_freeList).sublist
            (List.Sublist.cons_cons c (ht ▸ List.take_sublist _ _))
          have hnot : fd.entry.cluster ∉ c :: t := fun hm => h.used.2.2 (hmem _ hm).2.2
          have hc := (hmem c List.mem_cons_self).2.1
          rw [firstCluster_setFirstCluster, Table.toNat_ofNat hc, ht]
          refine ⟨rfl, c :: t, ?_⟩
          rw [List.nil_append]
          refine ⟨⟨Table.relink_free hmem hnd, ?_, hnot⟩, rfl, ⟨0, rfl, ?_, ?_⟩, fun o => rfl⟩
          · have hkept := Table.relink_of_not_mem v.fat hnot
            rw [setFirstCluster_fat, withFat_fat, Table.Used, Table.relink_size, hkept]
            exact h.used
          · rw [hoff]
            exact Nat.zero_le _
          · rw [hwr]
            exact Nat.zero_le _
        · cases halloc
  · have hne : (v.firstCluster fd.entry).toNat ≠ 0 := fun h0 =>
      absurd (h0 ▸ hl.2 _ hl.mem_head).1 (by decide)
    have halong : Along v fd.entry (v.firstCluster fd.entry).toNat l := ⟨hl, h.used, h.out⟩
    rcases hplace with ⟨h0, hoff, hwr⟩ | ⟨j, hj, hoff, hwr⟩
    · have hne' : v.firstCluster fd.entry ≠ 0 := fun h0 => hne (congrArg UInt32.toNat h0)
      rw [if_pos h0, if_pos hne'] at hr
      cases hr
      obtain ⟨t, ht⟩ := hl.1.head
      refine ⟨rfl, [], ?_⟩
      rw [List.append_nil]
      refine ⟨halong, rfl, ⟨0, by rw [ht]; rfl, ?_, ?_⟩, fun o => rfl⟩
      · rw [hoff]
        exact Nat.zero_le _
      · rw [hwr]
        exact Nat.zero_le _
    · have hc0 : fd.wrCluster ≠ 0 := fun h0 =>
        absurd (h0 ▸ hl.2 _ (List.mem_of_getElem? hj)).1 (by decide)
      rw [if_neg hc0] at hr
      cases hr
      refine ⟨rfl, [], ?_⟩
      rw [List.append_nil]
      exact ⟨halong, rfl, ⟨j, hj, hoff, hwr⟩, fun o => rfl⟩

/-- **`Write`** keeps the file a file; its chain may grow. -/
theorem write_file {fd fd' : FileDescriptor} {n : Nat} (h : v.File entry l)
    (hw : v.WriterOk entry l fd) (hlen : buf.len < 2 ^ 63)
    (hr : v.write fd buf = some (v', fd', n)) :
    v'.bytesPerCluster = v.bytesPerCluster ∧ ∃ m,
      v'.File entry (l ++ m) ∧ v'.WriterOk entry (l ++ m) fd' := by
  obtain ⟨v₁, c, w, hstart, hloop, rfl, rfl, -⟩ := write_eq_some.mp hr
  obtain ⟨hbpc₁, m, hm⟩ := wrStart_writing h hw hstart
  obtain ⟨m', halong, hbpc, ⟨j, hj, hoff, hbase⟩, hdata⟩ := hm.loop hlen hloop
  rw [List.append_assoc] at halong hj
  have hslot := hw.slot
  subst hslot
  have hle : (fd.wrOff + w.total) % 2 ^ 64 ≤ j * w.vol.bytesPerCluster + w.off :=
    (Nat.mod_le _ _).trans hbase
  have hjlt := (List.getElem?_eq_some_iff.mp hj).1
  refine ⟨hbpc.trans hbpc₁, m ++ m', ⟨⟨.inr ?_, ?_⟩, ?_, halong.out⟩, rfl, .inr ⟨j, hj, hoff, hle⟩⟩
  · rw [firstCluster_setFileSize, firstCluster_congr hdata]
    exact halong.chain
  · have hmul := Nat.mul_le_mul_right w.vol.bytesPerCluster hjlt
    rw [Nat.succ_mul] at hmul
    rw [fileSize_setFileSize, UInt32.toNat_ofNat', setFileSize_bytesPerCluster]
    refine (Nat.mod_le _ _).trans ?_
    omega
  · exact halong.used

end Write

/-! ## Growing -/

section Grow
variable {v v' : Volume} {entry : Slot} {l : List Nat} {fd : FileDescriptor}

theorem ReaderOk.grow (h : v.ReaderOk entry l fd) (hbpc : v'.bytesPerCluster = v.bytesPerCluster)
    (m : List Nat) : v'.ReaderOk entry (l ++ m) fd := by
  obtain ⟨hslot, hbound, hplace⟩ := h
  refine ⟨hslot, ?_, ?_⟩
  · rw [List.length_append, hbpc, Nat.add_mul]
    exact Nat.le_add_right_of_le hbound
  · rcases hplace with hend | ⟨-, -, h0 | hp⟩
    · exact .inl hend
    · exact .inr ⟨hslot, rfl, .inl h0⟩
    · cases hp with
      | inside j hc hoff hpos =>
          refine .inr ⟨hslot, rfl, .inr (.inside j ?_ (hbpc ▸ hoff) (hbpc ▸ hpos))⟩
          rwa [List.getElem?_append_left (List.getElem?_eq_some_iff.mp hc).1]
      | behind _ _ hc => exact .inl hc

theorem WriterOk.grow (h : v.WriterOk entry l fd) (hbpc : v'.bytesPerCluster = v.bytesPerCluster)
    (m : List Nat) : v'.WriterOk entry (l ++ m) fd := by
  refine ⟨h.slot, h.place.imp_right ?_⟩
  rintro ⟨j, hj, hoff, hwr⟩
  refine ⟨j, ?_, hbpc ▸ hoff, hbpc ▸ hwr⟩
  rwa [List.getElem?_append_left (List.getElem?_eq_some_iff.mp hj).1]

end Grow

end Volume

/-! ## Runs -/

namespace Shared

/-- All places are of one file. -/
def Ok (entry : Slot) : Option Shared → Prop
  | none => True
  | some s => ∃ l, s.vol.File entry l ∧ s.vol.ReaderOk entry l s.reader ∧
      ∀ k, s.vol.WriterOk entry l (s.writers k)

variable {v : Volume} {entry : Slot} {l : List Nat}

theorem start_ok (h : v.File entry l) : Ok entry (some (.start v entry)) :=
  ⟨l, h, ⟨rfl, Nat.zero_le _, .inr (v.new_readerAt entry l)⟩, fun _ => ⟨rfl, .inl ⟨rfl, rfl, rfl⟩⟩⟩

/-- A call is safe exactly when it is in step. -/
theorem safe_iff {s : Option Shared} (h : Ok entry s) (e : SharedEvent) :
    Safe s e ↔ InStep s e := by
  match s, e, h with
  | none, _, _ => exact Iff.rfl
  | some s, .write k buf, _ => exact Iff.rfl
  | some s, .call (.read len), ⟨l, hfile, hr, _⟩ =>
      constructor
      · rintro ⟨⟨l', hl', hvisits⟩, fd', got, hread, hgot⟩
        rw [hr.slot] at hl' hgot
        obtain rfl := hfile.covers.chain.unique hl'
        exact Volume.read_safe hfile.covers hr hvisits hread hgot
      · intro hin
        obtain ⟨hvisits, fd', got, hread, hgot, -⟩ := Volume.read_inStep hfile.covers hr hin
        rw [← hr.slot] at hgot
        exact ⟨⟨l, hr.slot ▸ hfile.covers.chain, hvisits⟩, fd', got, hread, hgot⟩
  | some s, .call (.load len offset), ⟨l, hfile, hr, _⟩ =>
      refine Iff.trans ?_ (Volume.load_safe_iff hfile.covers hr.slot)
      rw [Safe, hr.slot]
      refine and_congr_left fun _ => ⟨?_, fun hvisits => ⟨l, hfile.covers.chain, hvisits⟩⟩
      rintro ⟨l', hl', hvisits⟩
      obtain rfl := hfile.covers.chain.unique hl'
      exact hvisits

/-- `Load` leaves the descriptor as it is. -/
theorem load_keeps {fd fd' : FileDescriptor} {len offset : Nat} {got : List UInt8}
    (h : v.load fd len offset = some (fd', got)) : fd' = fd := by
  rw [Volume.load] at h
  obtain ⟨r, -, h⟩ := Option.bind_eq_some_iff.mp h
  obtain ⟨r', -, h⟩ := Option.bind_eq_some_iff.mp h
  cases h
  rfl

/-- What a step keeps. -/
theorem step_ok {s : Option Shared} (h : Ok entry s) {e : SharedEvent} (he : Safe s e) :
    Ok entry (step s e) := by
  match s, e, h with
  | none, _, _ => exact trivial
  | some s, .call (.read len), ⟨l, hfile, hr, hw⟩ =>
      have hok : Ok entry (some s) := ⟨l, hfile, hr, hw⟩
      have hin := (safe_iff hok _).mp he
      obtain ⟨-, fd', got, hread, -, hr'⟩ := Volume.read_inStep hfile.covers hr hin
      rw [step, FileCall.run, hread]
      exact ⟨l, hfile, hr', hw⟩
  | some s, .call (.load len offset), ⟨l, hfile, hr, hw⟩ =>
      obtain ⟨-, fd', got, hload, -⟩ := he
      obtain rfl := load_keeps hload
      rw [step, hload]
      exact ⟨l, hfile, hr, hw⟩
  | some s, .write k buf, ⟨l, hfile, hr, hw⟩ =>
      rw [step]
      cases hwrite : s.vol.write (s.writers k) buf.1 with
      | none => exact trivial
      | some r =>
          obtain ⟨v', fd', n⟩ := r
          obtain ⟨hbpc, m, hfile', hw'⟩ := Volume.write_file hfile (hw k) buf.2 hwrite
          refine ⟨l ++ m, hfile', hr.grow hbpc m, fun i => ?_⟩
          by_cases hi : i = k
          · subst hi
            dsimp only
            rw [Function.update_self]
            exact hw'
          · dsimp only
            rw [Function.update_of_ne hi]
            exact (hw i).grow hbpc m

end Shared

/-- **Reading while others write.**  In every run of a file's descriptors, all calls that read are
safe exactly when they are all in step. -/
theorem reads_safe_iff {v : Volume} {entry : Slot} {l : List Nat} (h : v.File entry l)
    (es : List SharedEvent) :
    Guarded Shared.step Shared.Safe (some (.start v entry)) es ↔
      Guarded Shared.step Shared.InStep (some (.start v entry)) es :=
  guarded_iff (Shared.Ok entry) (fun _ _ h he => Shared.step_ok h he) (fun _ e h => Shared.safe_iff h e)
    (Shared.start_ok h)

theorem oneFile_file : oneFile.File ⟨2, 0⟩ [3] :=
  ⟨oneFile_covers, ⟨by decide, by decide, by decide⟩, by decide⟩

/-- A buffer of `n` bytes. -/
def sevens (n : Nat) (hn : n < 2 ^ 63) : WriteBuffer := ⟨⟨fun _ => 7, n⟩, hn⟩

instance (v : Volume) (fd : FileDescriptor) (len : Nat) : Decidable (v.ReadInStep fd len) :=
  inferInstanceAs (Decidable (len = 0 ∨ fd.rdOff = (v.fileSize fd.entry).toNat ∨
    fd.rdOff < (v.fileSize fd.entry).toNat ∧ fd.rdCluster ≠ kEndOfClusterchain.toNat))

theorem inStep_read {s : Option Shared} {len : Nat} :
    Shared.InStep s (.call (.read len)) ↔ ∀ t ∈ s, t.vol.ReadInStep t.reader len := by
  cases s with
  | none => exact iff_of_true trivial fun t ht => by cases ht
  | some s => exact ⟨fun h t ht => by cases ht; exact h, fun h => h s rfl⟩

theorem inStep_write (s : Option Shared) (k : Nat) (buf : WriteBuffer) :
    Shared.InStep s (.write k buf) := by
  cases s <;> trivial

theorem reads_safe_sample :
    Guarded Shared.step Shared.Safe (some (.start oneFile ⟨2, 0⟩))
      [.call (.read 100), .write 0 (sevens 200 (by decide)), .call (.read 50)] :=
  (reads_safe_iff oneFile_file _).mpr ⟨inStep_read.mpr (by decide +kernel), inStep_write _ _ _,
    inStep_read.mpr (by decide +kernel), guarded_nil _ _ _⟩

/-- A `Read` at the end of a safe run is in step. -/
theorem Shared.last_read {v : Volume} {entry : Slot} {l : List Nat} (h : v.File entry l)
    (es : List SharedEvent) {len : Nat}
    (hg : Guarded Shared.step Shared.Safe (some (.start v entry)) (es ++ [.call (.read len)])) :
    ∀ t ∈ run Shared.step (some (.start v entry)) es, t.vol.ReadInStep t.reader len := by
  obtain ⟨hes, hlast, -⟩ := guarded_append.mp hg
  have hok : Shared.Ok entry (run Shared.step (some (.start v entry)) es) :=
    inv_run (Shared.Ok entry) (fun _ _ h he => Shared.step_ok h he) (Shared.start_ok h) hes
  exact inStep_read.mp ((Shared.safe_iff hok _).mp hlast)

/-- The file with all bytes of its cluster. -/
def wholeFile : Volume := oneFile.setFileSize ⟨2, 0⟩ 512

theorem wholeFile_file : wholeFile.File ⟨2, 0⟩ [3] := by
  refine ⟨⟨.inr ?_, by decide⟩, ⟨by decide, by decide, by decide⟩, by decide⟩
  have hchain := oneFile_covers.chain.resolve_left fun h => List.cons_ne_nil _ _ h.2
  rw [wholeFile, Volume.firstCluster_setFileSize]
  exact hchain

/-- A file is read, made shorter and read again; another is read to the end of its cluster,
made longer and read again. -/
theorem read_unsafe :
    ¬Guarded Shared.step Shared.Safe (some (.start oneFile ⟨2, 0⟩))
      ([.call (.read 100), .write 0 (sevens 50 (by decide))] ++ [.call (.read 100)]) ∧
    ¬Guarded Shared.step Shared.Safe (some (.start wholeFile ⟨2, 0⟩))
      ([.call (.read 512), .write 0 (sevens 512 (by decide)), .write 0 (sevens 88 (by decide))] ++
        [.call (.read 88)]) :=
  ⟨fun hg => absurd (Shared.last_read oneFile_file _ hg) (by decide +kernel),
    fun hg => absurd (Shared.last_read wholeFile_file _ hg) (by decide +kernel)⟩

end Laplus.Fat
