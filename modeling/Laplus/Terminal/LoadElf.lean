/-
# `Laplus.Terminal.LoadElf` — loading an executable (`terminal.cpp`, `elf.hpp`)

`LoadELF` looks at the type of the file and at the address of its first segment, and then
maps and writes all segments as their headers say.  The headers are read out of the file
buffer, and whatever lies behind it.

The loop over the headers is a run of `copyLoadSegment`, which notes what it is about to do;
`loadELF_safe_iff` says when all of it is safe.
-/
import Laplus.Paging.Ownership
import Laplus.Lib.Run

namespace Laplus.Paging

/-! ## Bytes of memory -/

namespace PageMapEntry

/-- The word of an entry. -/
def toNat (e : PageMapEntry) : Nat :=
  e.present.toNat + 2 * e.writable.toNat + 4 * e.user.toNat + 8 * (e.rest % 16) +
    128 * e.hugePage.toNat + 256 * (e.rest / 16 % 16) + 4096 * (e.addr % 2 ^ 40) +
      2 ^ 52 * (e.rest / 256 % 4096)

/-- The entry in a word. -/
def ofNat (n : Nat) : PageMapEntry where
  present := n % 2 = 1
  writable := n / 2 % 2 = 1
  user := n / 4 % 2 = 1
  hugePage := n / 128 % 2 = 1
  addr := n / 4096 % 2 ^ 40
  rest := n / 8 % 16 + 16 * (n / 256 % 16) + 256 * (n / 2 ^ 52 % 4096)

theorem toNat_ofNat {n : Nat} (h : n < 2 ^ 64) : (ofNat n).toNat = n := by
  have hbit : ∀ k : Nat, (decide (k % 2 = 1)).toNat = k % 2 := by
    intro k
    rcases Nat.mod_two_eq_zero_or_one k with hk | hk
    · rw [hk]
      rfl
    · rw [hk]
      rfl
  -- the bits that the code only copies
  have hrest : ∀ a b c, a < 16 → b < 16 → c < 4096 → (a + 16 * b + 256 * c) % 16 = a ∧
      (a + 16 * b + 256 * c) / 16 % 16 = b ∧ (a + 16 * b + 256 * c) / 256 % 4096 = c := by
    intro a b c ha hb hc
    omega
  obtain ⟨h1, h2, h3⟩ := hrest (n / 8 % 16) (n / 256 % 16) (n / 2 ^ 52 % 4096)
    (Nat.mod_lt _ (by decide)) (Nat.mod_lt _ (by decide)) (Nat.mod_lt _ (by decide))
  simp only [toNat, ofNat, hbit, h1, h2, h3, Nat.mod_mod]
  clear hbit hrest h1 h2 h3
  omega

/-- A byte of the word is written. -/
def setByte (e : PageMapEntry) (i : Nat) (b : UInt8) : PageMapEntry :=
  ofNat (e.toNat / 256 ^ (i + 1) * 256 ^ (i + 1) + b.toNat * 256 ^ i + e.toNat % 256 ^ i)

end PageMapEntry

namespace Machine

/-- The kernel writes a byte; there is no outcome if the page is not there. -/
def storeByte (s : Machine) (addr : Nat) (b : UInt8) : Option Machine :=
  (translate s.mem s.cr3 (path addr)).map fun t =>
    let i : Fin 512 := ⟨addr % 4096 / 8, by omega⟩
    s.store t.frame i ((s.mem t.frame i).setByte (addr % 8) b)

/-- The kernel writes bytes from an address on. -/
def storeBytes (s : Machine) (addr : Nat) (bytes : Nat → UInt8) : Nat → Option Machine
  | 0 => some s
  | len + 1 => do
      let s ← s.storeBytes addr bytes len
      s.storeByte ((addr + len) % 2 ^ 64) (bytes len)

end Machine

end Laplus.Paging

namespace Laplus.Terminal

open Lib Paging

/-! ## ELF files -/

/-- The buffer that has the file, and what lies behind it. -/
structure FileBuf where
  heap : Nat → UInt8
  size : Nat
  size_lt : size < 2 ^ 32

/-- A field of the file, little endian; the address may be any. -/
def FileBuf.read (file : FileBuf) (offset : Nat) : Nat → Nat
  | 0 => 0
  | len + 1 => (file.heap (offset % 2 ^ 64)).toNat + 256 * file.read (offset + 1) len

theorem FileBuf.read_lt (file : FileBuf) (offset len : Nat) :
    file.read offset len < 256 ^ len := by
  induction len generalizing offset with
  | zero => exact Nat.one_pos
  | succ len ih =>
      have hrest := ih (offset + 1)
      have hbyte := (file.heap (offset % 2 ^ 64)).toNat_lt
      have hpow : 256 ^ (len + 1) = 256 * 256 ^ len := Nat.pow_succ'
      rw [read, hpow]
      omega

/-- `Elf64_Ehdr`. -/
structure Elf64Ehdr where
  eType : Nat
  eEntry : Nat
  ePhoff : Nat
  ePhnum : Nat

/-- `Elf64_Phdr`. -/
structure Elf64Phdr where
  pType : Nat
  pOffset : Nat
  pVaddr : Nat
  pFilesz : Nat
  pMemsz : Nat
deriving DecidableEq

/-- `ET_EXEC`. -/
def etExec : Nat := 2

/-- `PT_LOAD`. -/
def ptLoad : Nat := 1

namespace FileBuf

variable (file : FileBuf)

/-- The header of the file. -/
def ehdr : Elf64Ehdr where
  eType := file.read 16 2
  eEntry := file.read 24 8
  ePhoff := file.read 32 8
  ePhnum := file.read 56 2

/-- The place of `phdr[i]`. -/
def phdrOffset (i : Nat) : Nat := (file.ehdr.ePhoff + 56 * i) % 2 ^ 64

/-- `phdr[i]`. -/
def phdr (i : Nat) : Elf64Phdr :=
  let offset := file.phdrOffset i
  { pType := file.read offset 4
    pOffset := file.read (offset + 8) 8
    pVaddr := file.read (offset + 16) 8
    pFilesz := file.read (offset + 32) 8
    pMemsz := file.read (offset + 40) 8 }

/-- `GetFirstLoadAddress`. -/
def getFirstLoadAddress : Nat :=
  match (List.range file.ehdr.ePhnum).find? fun i => (file.phdr i).pType = ptLoad with
  | some i => (file.phdr i).pVaddr
  | none => 0

end FileBuf

namespace Elf64Phdr

/-- `num_4kpages`. -/
def num4kPages (ph : Elf64Phdr) : Nat := (ph.pVaddr % 4096 + ph.pMemsz + 4095) % 2 ^ 64 / 4096

/-- The end of the segment, as it is computed. -/
def lastAddr (ph : Elf64Phdr) : Nat := (ph.pVaddr + ph.pMemsz) % 2 ^ 64

/-- Where the zeros begin. -/
def fillAddr (ph : Elf64Phdr) : Nat := (ph.pVaddr + ph.pFilesz) % 2 ^ 64

/-- How many zeros are written. -/
def fillSize (ph : Elf64Phdr) : Nat := (ph.pMemsz + 2 ^ 64 - ph.pFilesz) % 2 ^ 64

end Elf64Phdr

/-! ## `LoadELF` -/

/-- What the loader is about to do: to read a header, to map a segment, to copy the segment out of
the file, to fill it up with zeros. -/
inductive LoadOp where
  | header (offset : Nat)
  | setup (ph : Elf64Phdr)
  | copy (s : Machine) (ph : Elf64Phdr)
  | fill (s : Machine) (ph : Elf64Phdr)

/-- The loop goes on, with `last_addr`; or an error was returned; or the kernel wrote to a page
that is not there. -/
inductive LoadStatus where
  | running (lastAddr : Nat)
  | failed (e : Error)
  | fault
deriving DecidableEq

/-- The machine, where the loop is, and what it did, the last first. -/
structure Loader where
  machine : Machine
  status : LoadStatus
  trace : List LoadOp

namespace Loader

/-- The two writes of `CopyLoadSegments` to a segment that is mapped. -/
def writeSegment (file : FileBuf) (l : Loader) (ph : Elf64Phdr)
    (fillAddr fillSize lastAddr : Nat) : Loader :=
  let l := { l with trace := .copy l.machine ph :: l.trace }
  match l.machine.storeBytes ph.pVaddr (fun k => file.heap ((ph.pOffset + k) % 2 ^ 64))
      ph.pFilesz with
  | none => { l with status := .fault }
  | some s =>
      let l := { l with trace := .fill s ph :: l.trace }
      match s.storeBytes fillAddr (fun _ => 0) fillSize with
      | none => { l with status := .fault }
      | some s => { l with machine := s, status := .running lastAddr }

/-- A segment is mapped, and written. -/
def loadSegment (file : FileBuf) (l : Loader) (ph : Elf64Phdr)
    (num4kPages fillAddr fillSize lastAddr : Nat) : Loader :=
  let l := { l with trace := .setup ph :: l.trace }
  match l.machine.setupPageMaps ph.pVaddr num4kPages false with
  | (s, .error e) => { l with machine := s, status := .failed e }
  | (s, .ok _) => writeSegment file { l with machine := s } ph fillAddr fillSize lastAddr

/-- The loop of `CopyLoadSegments`, for `phdr[i]`. -/
def copyLoadSegment (file : FileBuf) (l : Loader) (i : Nat) : Loader :=
  match l.status with
  | .running lastAddr =>
      let ph := file.phdr i
      let l := { l with trace := .header (file.phdrOffset i) :: l.trace }
      if ph.pType ≠ ptLoad then l
      else
        loadSegment file l ph ph.num4kPages ph.fillAddr ph.fillSize (max lastAddr ph.lastAddr)
  | _ => l

/-- The state in which `CopyLoadSegments` begins. -/
def start (s : Machine) : Loader := ⟨s, .running 0, []⟩

end Loader

/-- `LoadELF` accepts the file. -/
def FileBuf.Accepted (file : FileBuf) : Prop :=
  file.ehdr.eType = etExec ∧ kUpperBegin ≤ file.getFirstLoadAddress

instance (file : FileBuf) : Decidable file.Accepted :=
  inferInstanceAs (Decidable (file.ehdr.eType = etExec ∧ kUpperBegin ≤ file.getFirstLoadAddress))

/-- `LoadELF`. -/
def loadELF (s : Machine) (file : FileBuf) : Loader :=
  if file.Accepted then
    run (Loader.copyLoadSegment file) (.start s) (List.range file.ehdr.ePhnum)
  else ⟨s, .failed .kInvalidFormat, []⟩

/-! ## Safety -/

/-- The address is in the segment, and its page was mapped since the machine was `m`. -/
structure InSegment (m s : Machine) (ph : Elf64Phdr) (addr : Nat) : Prop where
  ge : ph.pVaddr ≤ addr
  lt : addr < ph.pVaddr + ph.pMemsz
  mapped : ∃ t, translate s.mem s.cr3 (path addr) = some t ∧ ¬m.Allocated t.frame

/-- What the loader is about to do is safe; the machine was `m` before the address space was
made. -/
def LoadOp.Safe (m : Machine) (file : FileBuf) : LoadOp → Prop
  | .header offset => offset + 56 ≤ file.size
  | .setup ph => kUpperBegin ≤ ph.pVaddr ∧ ph.pVaddr + ph.pMemsz ≤ 2 ^ 64
  | .copy s ph => ph.pOffset + ph.pFilesz ≤ file.size ∧
      ∀ k < ph.pFilesz, InSegment m s ph ((ph.pVaddr + k) % 2 ^ 64)
  | .fill s ph => ph.pFilesz ≤ ph.pMemsz ∧
      ∀ k < ph.fillSize, InSegment m s ph ((ph.fillAddr + k) % 2 ^ 64)

namespace Loader

/-- **All that the loader did was safe**: it wrote nothing outside of the new address space, and
`last_addr` is the end of the last segment. -/
structure Safe (m : Machine) (file : FileBuf) (l : Loader) : Prop where
  ops : ∀ op ∈ l.trace, op.Safe m file
  noFault : l.status ≠ .fault
  outside : ∀ f, m.Allocated f → l.machine.mem f = m.mem f
  ends : ∀ last, l.status = .running last → ∀ ph, .setup ph ∈ l.trace →
    ph.pVaddr + ph.pMemsz ≤ last
  last : ∀ last, l.status = .running last → last = 0 ∨ ∃ ph, .setup ph ∈ l.trace ∧
    ph.pVaddr + ph.pMemsz = last

/-- The next header lies in the file; its segment lies in the upper half, and if its pages can be
mapped then its bytes lie in the file and there are not more of them than it takes in memory. -/
def Fits (file : FileBuf) (l : Loader) (i : Nat) : Prop :=
  match l.status with
  | .running _ => file.phdrOffset i + 56 ≤ file.size ∧
      ((file.phdr i).pType = ptLoad →
        kUpperBegin ≤ (file.phdr i).pVaddr ∧
          (file.phdr i).pVaddr + (file.phdr i).pMemsz ≤ 2 ^ 64 ∧
          ((l.machine.setupPageMaps (file.phdr i).pVaddr (file.phdr i).num4kPages false).2.isOk →
            (file.phdr i).pVaddr + (file.phdr i).pMemsz < 2 ^ 64 ∧
              (file.phdr i).pFilesz ≤ (file.phdr i).pMemsz ∧
              (file.phdr i).pOffset + (file.phdr i).pFilesz ≤ file.size))
  | _ => True

end Loader

/-! ## The new address space -/

/-- The address space of the image while it is loaded: its frames are new, its pages are
read-only, and the frames of others are as they were. -/
structure Loading (m s : Machine) : Prop where
  space : ∃ O I, Space s s.cr3 O I ∧ (∀ f, f ∈ O ∨ f ∈ I → ¬m.Allocated f)
  readOnly : ∀ p i e, p.length = 3 → s.space s.cr3 p i = some e → e.writable = false
  kept : ∀ f, m.Allocated f → s.Allocated f ∧ s.mem f = m.mem f

variable {m s s' : Machine} {T addr : Nat} {file : FileBuf} {l : Loader} {ph : Elf64Phdr}

theorem Loading.setupPML4 (h : m.setupPML4 = (s, .ok T)) : Loading m s := by
  obtain ⟨hspace, hnone, hfree, halloc, hmem, hcr3, -⟩ :=
    setupPML4_space (I := ∅) (fun f hf => hf.elim) h
  subst hcr3
  refine ⟨⟨_, ∅, hspace, fun f hf => ?_⟩, fun p i e _ he => ?_, fun f hf => ?_⟩
  · rcases hf with rfl | hf
    · exact hfree
    · exact hf.elim
  · rw [hnone] at he
    cases he
  · exact ⟨(halloc f).mpr (.inr hf), hmem f fun heq => hfree (heq ▸ hf)⟩

/-- The pages of a segment. -/
theorem Loading.setup (h : Loading m s) {res : Except Error Unit} {num : Nat}
    (haddr : Upper addr) (hr : s.setupPageMaps addr num false = (s', res)) :
    Loading m s' ∧ s'.cr3 = s.cr3 ∧ (res = .ok () → Mapped s' s'.cr3 [] (number (path addr)) num) := by
  obtain ⟨O, I, hspace, hnew⟩ := h.space
  obtain ⟨O', I', hgrows, -, hmapped⟩ := setupPageMaps_grows hspace haddr
    (fun q i e hq _ _ he => h.readOnly q i e hq he) hr
  have hold : ∀ f, m.Allocated f → f ∉ O ∧ f ∉ I := fun f hf =>
    ⟨fun hO => hnew f (.inl hO) hf, fun hI => hnew f (.inr hI) hf⟩
  rw [hgrows.cr3]
  refine ⟨⟨⟨O', I', hgrows.cr3 ▸ hgrows.space, fun f hf hm => ?_⟩, fun p i e hp he => ?_,
    fun f hf => ?_⟩, rfl, hmapped⟩
  · obtain ⟨hO, hI⟩ := hgrows.old f (h.kept f hm).1
    rcases hf with hf | hf
    · exact (hold f hm).1 (hO hf)
    · exact (hold f hm).2 (hI hf)
  · rw [hgrows.cr3] at he
    cases hs : s.space s.cr3 p i with
    | none => exact hgrows.leaf p i e hp hs he
    | some x =>
        have hx := hgrows.keep p i x hs
        rw [he] at hx
        cases hx
        exact h.readOnly p i e hp hs
  · obtain ⟨halloc, hmem⟩ := h.kept f hf
    exact ⟨(hgrows.allocated f).mpr (.inl halloc), (hgrows.mem f halloc (hold f hf).1).trans hmem⟩

/-- A page of the address space is new. -/
theorem Loading.translate_leaf (h : Loading m s) {e : PageMapEntry} (haddr : Upper addr)
    (he : s.leaf s.cr3 addr = some e) :
    translate s.mem s.cr3 (path addr) = some e.mapping ∧ ¬m.Allocated e.addr := by
  obtain ⟨O, I, hspace, hnew⟩ := h.space
  refine ⟨by rw [translate_upper hspace haddr, he]; rfl, hnew _ (.inr ?_)⟩
  exact hspace.owns.share he (h.readOnly _ _ e rfl he)

/-- The kernel writes a byte of the image. -/
theorem Loading.storeByte (h : Loading m s) {e : PageMapEntry} (haddr : Upper addr)
    (he : s.leaf s.cr3 addr = some e) (b : UInt8) :
    ∃ s', s.storeByte addr b = some s' ∧ Loading m s' ∧ s'.cr3 = s.cr3 ∧
      s'.space s.cr3 = s.space s.cr3 := by
  obtain ⟨htrans, hfree⟩ := h.translate_leaf haddr he
  obtain ⟨O, I, hspace, hnew⟩ := h.space
  have hstore : ∀ i x, s.store e.addr i x =
      s.fill e.addr (Function.update (s.mem e.addr) i x) := fun i x => rfl
  rw [Machine.storeByte, htrans]
  refine ⟨_, rfl, ?_⟩
  simp only [PageMapEntry.mapping, hstore]
  generalize Function.update (s.mem e.addr) _ _ = words
  obtain ⟨hfill, heq⟩ := hspace.fill_leaf he rfl words
  refine ⟨⟨⟨O, I, hfill, hnew⟩, fun p i x hp hx => h.readOnly p i x hp (heq ▸ hx), fun f hf => ?_⟩,
    rfl, heq⟩
  obtain ⟨halloc, hmem⟩ := h.kept f hf
  have hne : f ≠ e.addr := by
    rintro rfl
    exact hfree hf
  exact ⟨halloc, (Function.update_of_ne hne _ _).trans hmem⟩

/-- The kernel writes bytes of the image. -/
theorem Loading.storeBytes (h : Loading m s) (addr : Nat) (bytes : Nat → UInt8) (len : Nat)
    (hmapped : ∀ k < len, Upper ((addr + k) % 2 ^ 64) ∧
      ∃ e, s.leaf s.cr3 ((addr + k) % 2 ^ 64) = some e) :
    ∃ s', s.storeBytes addr bytes len = some s' ∧ Loading m s' ∧ s'.cr3 = s.cr3 ∧
      s'.space s.cr3 = s.space s.cr3 := by
  induction len with
  | zero => exact ⟨s, rfl, h, rfl, rfl⟩
  | succ len ih =>
      obtain ⟨s₁, hs₁, h₁, hcr3, hspace⟩ := ih fun k hk => hmapped k (Nat.lt_succ_of_lt hk)
      obtain ⟨haddr, e, he⟩ := hmapped len (Nat.lt_succ_self len)
      have he₁ : s₁.leaf s₁.cr3 ((addr + len) % 2 ^ 64) = some e := by
        rw [Machine.leaf, hcr3, hspace]
        exact he
      obtain ⟨s₂, hs₂, h₂, hcr3₂, hspace₂⟩ := h₁.storeByte haddr he₁ (bytes len)
      rw [hcr3] at hspace₂
      refine ⟨s₂, ?_, h₂, hcr3₂.trans hcr3, hspace₂.trans hspace⟩
      rw [Machine.storeBytes, hs₁]
      exact hs₂

/-- **The pages of a segment** are mapped. -/
theorem Loading.segment (h : Loading m s) {u : Unit} (hupper : Upper ph.pVaddr)
    (hlast : ph.pVaddr + ph.pMemsz ≤ 2 ^ 64)
    (hr : s.setupPageMaps ph.pVaddr ph.num4kPages false = (s', .ok u)) (hle : ph.pVaddr ≤ addr)
    (hlt : addr < ph.pVaddr + ph.pMemsz) :
    Upper addr ∧ ∃ e, s'.leaf s'.cr3 addr = some e := by
  obtain ⟨_, _, hmapped⟩ := h.setup hupper hr
  have haddr : Upper addr := ⟨hupper.1.trans hle, hlt.trans_le hlast⟩
  have hfirst := number_upper hupper
  have hpage := number_upper haddr
  have hlow := hupper.1
  have hnum : ph.num4kPages = (ph.pVaddr % 4096 + ph.pMemsz + 4095) / 4096 := by
    rw [Elf64Phdr.num4kPages, Nat.mod_eq_of_lt (by omega)]
  have hsome := hmapped rfl (place addr).1 (place addr).2 rfl List.nil_prefix
    (by rw [← path_eq]; omega) (by rw [← path_eq]; omega)
  exact ⟨haddr, Option.ne_none_iff_exists'.mp hsome⟩

namespace Elf64Phdr

theorem fillAddr_eq (ph : Elf64Phdr) (h : ph.pVaddr + ph.pFilesz < 2 ^ 64) :
    ph.fillAddr = ph.pVaddr + ph.pFilesz := by
  rw [fillAddr, Nat.mod_eq_of_lt h]

theorem fillSize_eq (ph : Elf64Phdr) (h : ph.pFilesz ≤ ph.pMemsz) (hlt : ph.pMemsz < 2 ^ 64) :
    ph.fillSize = ph.pMemsz - ph.pFilesz := by
  have hsum : ph.pMemsz + 2 ^ 64 - ph.pFilesz = ph.pMemsz - ph.pFilesz + 2 ^ 64 := by omega
  rw [fillSize, hsum, Nat.add_mod_right, Nat.mod_eq_of_lt (by omega)]

theorem lastAddr_eq (ph : Elf64Phdr) (h : ph.pVaddr + ph.pMemsz < 2 ^ 64) :
    ph.lastAddr = ph.pVaddr + ph.pMemsz := by
  rw [lastAddr, Nat.mod_eq_of_lt h]

end Elf64Phdr

/-- The bytes of a segment are copied into its pages. -/
theorem safe_copy (h : Loading m s) (hsize : ph.pFilesz ≤ ph.pMemsz)
    (hsource : ph.pOffset + ph.pFilesz ≤ file.size) (hlt : ph.pVaddr + ph.pMemsz < 2 ^ 64)
    (hpages : ∀ addr, ph.pVaddr ≤ addr → addr < ph.pVaddr + ph.pMemsz →
      Upper addr ∧ ∃ e, s.leaf s.cr3 addr = some e) : LoadOp.Safe m file (.copy s ph) := by
  refine ⟨hsource, fun k hk => ?_⟩
  have haddr : (ph.pVaddr + k) % 2 ^ 64 = ph.pVaddr + k := Nat.mod_eq_of_lt (by omega)
  obtain ⟨hupper, e, he⟩ := hpages (ph.pVaddr + k) (Nat.le_add_right _ _) (by omega)
  rw [haddr]
  exact ⟨Nat.le_add_right _ _, by omega, e.mapping, h.translate_leaf hupper he⟩

/-- The zeros of a segment are written into its pages. -/
theorem safe_fill (h : Loading m s) (hsize : ph.pFilesz ≤ ph.pMemsz)
    (hlt : ph.pVaddr + ph.pMemsz < 2 ^ 64)
    (hpages : ∀ addr, ph.pVaddr ≤ addr → addr < ph.pVaddr + ph.pMemsz →
      Upper addr ∧ ∃ e, s.leaf s.cr3 addr = some e) : LoadOp.Safe m file (.fill s ph) := by
  have hfillAddr := ph.fillAddr_eq (by omega)
  have hfillSize := ph.fillSize_eq hsize (by omega)
  refine ⟨hsize, fun k hk => ?_⟩
  rw [hfillSize] at hk
  have haddr : (ph.fillAddr + k) % 2 ^ 64 = ph.pVaddr + ph.pFilesz + k := by
    rw [hfillAddr]
    exact Nat.mod_eq_of_lt (by omega)
  obtain ⟨hupper, e, he⟩ := hpages (ph.pVaddr + ph.pFilesz + k) (by omega) (by omega)
  rw [haddr]
  exact ⟨by omega, by omega, e.mapping, h.translate_leaf hupper he⟩

namespace Loader

/-- What the loop keeps as long as all is safe. -/
structure Loads (m : Machine) (l : Loader) : Prop where
  loading : Loading m l.machine
  last_lt : ∀ last, l.status = .running last → last < 2 ^ 64

/-- **The writes to a segment.** -/
theorem writeSegment_safe (file : FileBuf) (last : Nat) {fillAddr fillSize : Nat}
    (hloading : Loading m l.machine)
    (hpages : ∀ addr, ph.pVaddr ≤ addr → addr < ph.pVaddr + ph.pMemsz →
      Upper addr ∧ ∃ e, l.machine.leaf l.machine.cr3 addr = some e)
    (hlast : ph.pVaddr + ph.pMemsz < 2 ^ 64) (hsize : ph.pFilesz ≤ ph.pMemsz)
    (hfillAddr : fillAddr = ph.pVaddr + ph.pFilesz)
    (hfillSize : fillSize = ph.pMemsz - ph.pFilesz) :
    ∃ s₁ s₂, Loading m s₁ ∧ Loading m s₂ ∧ s₁.cr3 = l.machine.cr3 ∧
      s₁.space l.machine.cr3 = l.machine.space l.machine.cr3 ∧
      writeSegment file l ph fillAddr fillSize last =
        ⟨s₂, .running last, .fill s₁ ph :: .copy l.machine ph :: l.trace⟩ := by
  obtain ⟨s₁, hs₁, h₁, hcr3, hspace⟩ := hloading.storeBytes ph.pVaddr
    (fun k => file.heap ((ph.pOffset + k) % 2 ^ 64)) ph.pFilesz fun k hk => by
      rw [Nat.mod_eq_of_lt (by omega)]
      exact hpages _ (Nat.le_add_right _ _) (by omega)
  obtain ⟨s₂, hs₂, h₂, _⟩ := h₁.storeBytes fillAddr (fun _ => 0) fillSize fun k hk => by
      rw [Nat.mod_eq_of_lt (by omega), Machine.leaf, hcr3, hspace]
      exact hpages _ (by omega) (by omega)
  refine ⟨s₁, s₂, h₁, h₂, hcr3, hspace, ?_⟩
  simp only [writeSegment, hs₁, hs₂]

/-- What `writeSegment` notes. -/
theorem writeSegment_copy (file : FileBuf) (l : Loader) (ph : Elf64Phdr)
    (fillAddr fillSize last : Nat) :
    .copy l.machine ph :: l.trace <:+ (writeSegment file l ph fillAddr fillSize last).trace ∧
      ((writeSegment file l ph fillAddr fillSize last).status ≠ .fault →
        (writeSegment file l ph fillAddr fillSize last).status = .running last ∧
          ∃ s, (writeSegment file l ph fillAddr fillSize last).trace =
            .fill s ph :: .copy l.machine ph :: l.trace) := by
  rw [writeSegment]
  dsimp only
  cases l.machine.storeBytes ph.pVaddr (fun k => file.heap ((ph.pOffset + k) % 2 ^ 64))
      ph.pFilesz with
  | none => exact ⟨List.suffix_refl _, fun h => absurd rfl h⟩
  | some s =>
      dsimp only
      cases s.storeBytes fillAddr (fun _ => 0) fillSize with
      | none => exact ⟨List.suffix_cons _ _, fun h => absurd rfl h⟩
      | some s' => exact ⟨List.suffix_cons _ _, fun _ => ⟨rfl, s, rfl⟩⟩

/-- The step for a header that is not of a segment. -/
theorem copyLoadSegment_skip {last i : Nat} (hstatus : l.status = .running last)
    (hload : (file.phdr i).pType ≠ ptLoad) : copyLoadSegment file l i =
      { l with trace := .header (file.phdrOffset i) :: l.trace } := by
  simp only [copyLoadSegment, hstatus, if_pos hload]

/-- The step for a segment whose pages cannot be mapped. -/
theorem copyLoadSegment_error {last i : Nat} {e : Error} (hstatus : l.status = .running last)
    (hload : (file.phdr i).pType = ptLoad)
    (hr : l.machine.setupPageMaps (file.phdr i).pVaddr (file.phdr i).num4kPages false =
      (s, .error e)) : copyLoadSegment file l i =
        ⟨s, .failed e, .setup (file.phdr i) :: .header (file.phdrOffset i) :: l.trace⟩ := by
  simp only [copyLoadSegment, hstatus, if_neg (not_not_intro hload), loadSegment, hr]

/-- The step for a segment whose pages are mapped. -/
theorem copyLoadSegment_ok {last i : Nat} {u : Unit} (hstatus : l.status = .running last)
    (hload : (file.phdr i).pType = ptLoad)
    (hr : l.machine.setupPageMaps (file.phdr i).pVaddr (file.phdr i).num4kPages false =
      (s, .ok u)) : copyLoadSegment file l i =
        writeSegment file
          ⟨s, .running last, .setup (file.phdr i) :: .header (file.phdrOffset i) :: l.trace⟩
          (file.phdr i) (file.phdr i).fillAddr (file.phdr i).fillSize
          (max last (file.phdr i).lastAddr) := by
  simp only [copyLoadSegment, hstatus, if_neg (not_not_intro hload), loadSegment, hr]

/-- **A step is safe** if its header fits. -/
theorem Safe.step (h : Safe m file l) (hj : Loads m l) {i : Nat} (hfits : Fits file l i) :
    Safe m file (copyLoadSegment file l i) ∧ Loads m (copyLoadSegment file l i) := by
  cases hstatus : l.status with
  | failed e =>
      have hsame : copyLoadSegment file l i = l := by simp only [copyLoadSegment, hstatus]
      rw [hsame]
      exact ⟨h, hj⟩
  | fault => exact absurd hstatus h.noFault
  | running last =>
      simp only [Fits, hstatus] at hfits
      obtain ⟨hheader, hfits⟩ := hfits
      have hlastLt := hj.last_lt last hstatus
      have hops : ∀ op ∈ LoadOp.header (file.phdrOffset i) :: l.trace, op.Safe m file := by
        intro op hop
        rcases List.mem_cons.mp hop with rfl | hop
        · exact hheader
        · exact h.ops op hop
      by_cases hload : (file.phdr i).pType = ptLoad
      · obtain ⟨hge, hend, hrest⟩ := hfits hload
        have hvaddr : (file.phdr i).pVaddr < 2 ^ 64 := file.read_lt _ 8
        have hupper : Upper (file.phdr i).pVaddr := ⟨hge, hvaddr⟩
        have hops : ∀ op ∈ LoadOp.setup (file.phdr i) :: .header (file.phdrOffset i) :: l.trace,
            op.Safe m file := by
          intro op hop
          rcases List.mem_cons.mp hop with rfl | hop
          · exact ⟨hge, hend⟩
          · exact hops op hop
        cases hr : l.machine.setupPageMaps (file.phdr i).pVaddr (file.phdr i).num4kPages false with
        | mk s res =>
            obtain ⟨hloading, _, _⟩ := hj.loading.setup hupper hr
            cases res with
            | error e =>
                rw [copyLoadSegment_error hstatus hload hr]
                refine ⟨⟨hops, fun heq => ?_, fun f hf => (hloading.kept f hf).2, fun _ heq => ?_,
                  fun _ heq => ?_⟩, hloading, fun _ heq => ?_⟩ <;> cases heq
            | ok u =>
                rw [hr] at hrest
                obtain ⟨hlt, hsize, hsource⟩ := hrest rfl
                have hpages : ∀ addr, (file.phdr i).pVaddr ≤ addr →
                    addr < (file.phdr i).pVaddr + (file.phdr i).pMemsz →
                      Upper addr ∧ ∃ e, s.leaf s.cr3 addr = some e :=
                  fun addr hle hlt' => hj.loading.segment hupper hend hr hle hlt'
                rw [copyLoadSegment_ok hstatus hload hr]
                have hend' : (file.phdr i).lastAddr = (file.phdr i).pVaddr + (file.phdr i).pMemsz :=
                  (file.phdr i).lastAddr_eq hlt
                obtain ⟨s₁, s₂, h₁, h₂, hcr3, hspace, heq⟩ := writeSegment_safe
                  (l := ⟨s, .running last, .setup (file.phdr i) ::
                    .header (file.phdrOffset i) :: l.trace⟩) file
                  (max last (file.phdr i).lastAddr) hloading hpages hlt hsize
                  ((file.phdr i).fillAddr_eq (by omega)) ((file.phdr i).fillSize_eq hsize (by omega))
                rw [heq]
                refine ⟨⟨fun op hop => ?_, fun heq => (by cases heq), fun f hf => (h₂.kept f hf).2,
                  fun n hn ph hph => ?_, fun n hn => ?_⟩, h₂, fun n hn => ?_⟩
                · rcases List.mem_cons.mp hop with rfl | hop
                  · refine safe_fill h₁ hsize hlt fun addr hle hlt' => ?_
                    rw [Machine.leaf, hcr3, hspace]
                    exact hpages addr hle hlt'
                  rcases List.mem_cons.mp hop with rfl | hop
                  · exact safe_copy hloading hsize hsource hlt hpages
                  · exact hops op hop
                · rw [← LoadStatus.running.inj hn, hend']
                  rcases List.mem_cons.mp hph with hph | hph
                  · cases hph
                  rcases List.mem_cons.mp hph with hph | hph
                  · cases hph
                  rcases List.mem_cons.mp hph with hph | hph
                  · rw [LoadOp.setup.inj hph]
                    exact Nat.le_max_right _ _
                  rcases List.mem_cons.mp hph with hph | hph
                  · cases hph
                  · exact (h.ends last hstatus ph hph).trans (Nat.le_max_left _ _)
                · rw [← LoadStatus.running.inj hn, hend']
                  rcases Nat.le_total last ((file.phdr i).pVaddr + (file.phdr i).pMemsz) with
                    hle | hle
                  · exact .inr ⟨file.phdr i, by simp, (Nat.max_eq_right hle).symm⟩
                  · rw [Nat.max_eq_left hle]
                    rcases h.last last hstatus with hzero | ⟨ph, hph, hphEnd⟩
                    · exact .inl hzero
                    · exact .inr ⟨ph, by simp [hph], hphEnd⟩
                · rw [← LoadStatus.running.inj hn, hend']
                  exact Nat.max_lt.mpr ⟨hlastLt, hlt⟩
      · rw [copyLoadSegment_skip hstatus hload]
        refine ⟨⟨hops, h.noFault, h.outside, fun last hrunning ph hph => ?_,
          fun last hrunning => ?_⟩, hj.loading, hj.last_lt⟩
        · rcases List.mem_cons.mp hph with hph | hph
          · cases hph
          · exact h.ends last hrunning ph hph
        · rcases h.last last hrunning with hzero | ⟨ph, hph, hend⟩
          · exact .inl hzero
          · exact .inr ⟨ph, List.mem_cons_of_mem _ hph, hend⟩

/-- A header whose step is safe fits. -/
theorem Safe.fits (hj : Loads m l) {i : Nat} (h' : Safe m file (copyLoadSegment file l i)) :
    Fits file l i := by
  rw [Fits]
  cases hstatus : l.status with
  | failed e => trivial
  | fault => trivial
  | running last =>
      have hlastLt := hj.last_lt last hstatus
      by_cases hload : (file.phdr i).pType = ptLoad
      · cases hr : l.machine.setupPageMaps (file.phdr i).pVaddr (file.phdr i).num4kPages false with
        | mk s res =>
            cases res with
            | error e =>
                rw [copyLoadSegment_error hstatus hload hr] at h'
                have hheader := h'.ops (.header (file.phdrOffset i)) (by simp)
                have hsetup := h'.ops (.setup (file.phdr i)) (by simp)
                exact ⟨hheader, fun _ => ⟨hsetup.1, hsetup.2, fun hok => (by cases hok)⟩⟩
            | ok u =>
                rw [copyLoadSegment_ok hstatus hload hr] at h'
                obtain ⟨_, hnotes⟩ := writeSegment_copy file
                  ⟨s, .running last, .setup (file.phdr i) ::
                    .header (file.phdrOffset i) :: l.trace⟩ (file.phdr i) (file.phdr i).fillAddr
                  (file.phdr i).fillSize (max last (file.phdr i).lastAddr)
                obtain ⟨hrunning, s₁, htrace⟩ := hnotes h'.noFault
                have hops := h'.ops
                have hends := h'.ends _ hrunning (file.phdr i)
                rw [htrace] at hops hends
                have hheader := hops (.header (file.phdrOffset i)) (by simp)
                have hsetup := hops (.setup (file.phdr i)) (by simp)
                have hcopy := hops (.copy s (file.phdr i)) (by simp)
                have hfill := hops (.fill s₁ (file.phdr i)) (by simp)
                have hend := hends (by simp)
                have hlast : (file.phdr i).lastAddr < 2 ^ 64 := Nat.mod_lt _ (by decide)
                refine ⟨hheader, fun _ => ⟨hsetup.1, hsetup.2, fun _ => ⟨?_, hfill.1, hcopy.1⟩⟩⟩
                exact hend.trans_lt (Nat.max_lt.mpr ⟨hlastLt, hlast⟩)
      · rw [copyLoadSegment_skip hstatus hload] at h'
        exact ⟨h'.ops _ List.mem_cons_self, fun hl => absurd hl hload⟩

/-- What the loop has done for a header, as long as it goes on. -/
structure Done (file : FileBuf) (l : Loader) (i : Nat) : Prop where
  header : .header (file.phdrOffset i) ∈ l.trace
  segment : (file.phdr i).pType = ptLoad → .setup (file.phdr i) ∈ l.trace ∧
    (∃ s, .copy s (file.phdr i) ∈ l.trace) ∧ ∃ s, .fill s (file.phdr i) ∈ l.trace

theorem Done.mono {l' : Loader} {i : Nat} (h : Done file l i) (hsub : l.trace ⊆ l'.trace) :
    Done file l' i where
  header := hsub h.header
  segment hload := by
    obtain ⟨hsetup, ⟨s, hcopy⟩, s', hfill⟩ := h.segment hload
    exact ⟨hsub hsetup, ⟨s, hsub hcopy⟩, s', hsub hfill⟩

/-- A step that goes on has done its header, and forgets nothing. -/
theorem copyLoadSegment_done {last i : Nat}
    (h : (copyLoadSegment file l i).status = .running last) :
    (∃ last', l.status = .running last') ∧ l.trace ⊆ (copyLoadSegment file l i).trace ∧
      Done file (copyLoadSegment file l i) i := by
  cases hstatus : l.status with
  | failed e =>
      have hsame : copyLoadSegment file l i = l := by simp only [copyLoadSegment, hstatus]
      rw [hsame, hstatus] at h
      cases h
  | fault =>
      have hsame : copyLoadSegment file l i = l := by simp only [copyLoadSegment, hstatus]
      rw [hsame, hstatus] at h
      cases h
  | running last' =>
      refine ⟨⟨last', rfl⟩, ?_⟩
      by_cases hload : (file.phdr i).pType = ptLoad
      · cases hr : l.machine.setupPageMaps (file.phdr i).pVaddr (file.phdr i).num4kPages false with
        | mk s res =>
            cases res with
            | error e =>
                rw [copyLoadSegment_error hstatus hload hr] at h
                cases h
            | ok u =>
                rw [copyLoadSegment_ok hstatus hload hr] at h ⊢
                obtain ⟨_, hnotes⟩ := writeSegment_copy file
                  ⟨s, .running last', .setup (file.phdr i) ::
                    .header (file.phdrOffset i) :: l.trace⟩ (file.phdr i) (file.phdr i).fillAddr
                  (file.phdr i).fillSize (max last' (file.phdr i).lastAddr)
                obtain ⟨_, s₁, htrace⟩ := hnotes fun heq => by
                  rw [heq] at h
                  cases h
                refine ⟨fun op hop => by rw [htrace]; simp [hop], ?_, fun _ => ?_⟩
                · rw [htrace]
                  simp
                · rw [htrace]
                  exact ⟨by simp, ⟨s, by simp⟩, s₁, by simp⟩
      · rw [copyLoadSegment_skip hstatus hload]
        exact ⟨List.subset_cons_self _ _, List.mem_cons_self, fun hl => absurd hl hload⟩

/-- A run that goes on has done all of its headers. -/
theorem run_done (is : List Nat) {last : Nat}
    (h : (run (copyLoadSegment file) l is).status = .running last) :
    ∀ i ∈ is, Done file (run (copyLoadSegment file) l is) i := by
  induction is using List.reverseRecOn generalizing last with
  | nil =>
      intro i hi
      cases hi
  | append_singleton is j ih =>
      rw [run_append] at h ⊢
      obtain ⟨⟨last', hlast'⟩, hsub, hdone⟩ := copyLoadSegment_done h
      intro i hi
      rcases List.mem_append.mp hi with hi | hi
      · exact (ih hlast' i hi).mono hsub
      · rw [List.mem_singleton.mp hi]
        exact hdone

end Loader

/-! ## Every file -/

/-- **Loading the file is safe**: whenever `LoadELF` accepts it, all that it does on the way is, and
`last_addr` is the end of the last segment. -/
def LoadSafe (m s : Machine) (file : FileBuf) : Prop :=
  file.Accepted → ∀ is, is <+: List.range file.ehdr.ePhnum →
    Loader.Safe m file (run (Loader.copyLoadSegment file) (.start s) is)

theorem Loader.safe_start (h : Loading m s) : Loader.Safe m file (.start s) where
  ops op hop := by cases hop
  noFault heq := by cases heq
  outside f hf := (h.kept f hf).2
  ends last hrunning ph hph := by cases hph
  last last hrunning := .inl (LoadStatus.running.inj hrunning).symm

theorem Loader.loads_start (h : Loading m s) : Loader.Loads m (.start s) where
  loading := h
  last_lt last hrunning := by
    rw [← LoadStatus.running.inj hrunning]
    decide

/-- **When a safe load succeeds**, the header table and all segments were in their bounds. -/
theorem LoadSafe.success (h : LoadSafe m s file) {last i : Nat}
    (hok : (loadELF s file).status = .running last) (hi : i < file.ehdr.ePhnum) :
    file.phdrOffset i + 56 ≤ file.size ∧ ((file.phdr i).pType = ptLoad →
      kUpperBegin ≤ (file.phdr i).pVaddr ∧
      (file.phdr i).pOffset + (file.phdr i).pFilesz ≤ file.size ∧
      (file.phdr i).pFilesz ≤ (file.phdr i).pMemsz ∧
      (file.phdr i).pVaddr + (file.phdr i).pMemsz ≤ last) := by
  by_cases haccepted : file.Accepted
  · rw [loadELF, if_pos haccepted] at hok
    have hsafe := h haccepted _ (List.prefix_refl _)
    have hdone := Loader.run_done _ hok i (List.mem_range.mpr hi)
    refine ⟨hsafe.ops _ hdone.header, fun hload => ?_⟩
    obtain ⟨hsetup, ⟨s₁, hcopy⟩, s₂, hfill⟩ := hdone.segment hload
    exact ⟨(hsafe.ops _ hsetup).1, (hsafe.ops _ hcopy).1, (hsafe.ops _ hfill).1,
      hsafe.ends last hok _ hsetup⟩
  · rw [loadELF, if_neg haccepted] at hok
    cases hok

/-- **Loading a file is safe exactly when `LoadELF` refuses it or each header that it comes to
fits.** -/
theorem loadELF_safe_iff (file : FileBuf) (hpml4 : m.setupPML4 = (s, .ok T)) :
    LoadSafe m s file ↔
      (file.Accepted → Guarded (Loader.copyLoadSegment file) (Loader.Fits file) (.start s)
        (List.range file.ehdr.ePhnum)) := by
  have hloading := Loading.setupPML4 hpml4
  have hruns := admitted_prefix_iff (Loader.Loads m) (Loader.Safe m file)
    (fun _ _ hj h _ h' => (h.step hj (Loader.Safe.fits hj h')).2)
    (fun _ _ hj h _ => ⟨Loader.Safe.fits hj, fun hfits => (h.step hj hfits).1⟩)
    (Loader.loads_start hloading) (Loader.safe_start hloading)
    (guarded_true (Loader.copyLoadSegment file) _ (List.range file.ehdr.ePhnum))
  exact imp_congr_right fun _ => hruns

/-- A file with one segment, of two pages, at the last page of all. -/
def wrappingFile : FileBuf where
  heap k :=
    if k = 16 then 2 else if k = 32 then 64 else if k = 56 then 1 else if k = 64 then 1
    else if k = 81 then 0xf0 else if 82 ≤ k ∧ k ≤ 87 then 0xff else if k = 105 then 0x20 else 0
  size := 120
  size_lt := by decide

/-- The kernel's tables, with an address space for an image. -/
theorem smallMachine_setup :
    smallMachine.setupPML4 = (smallMachine.setupPML4.1, .ok 2) :=
  setupPML4_of_toOption (by decide +kernel)

theorem loadELF_safe_small :
    LoadSafe smallMachine smallMachine.setupPML4.1 wrappingFile ↔
      (wrappingFile.Accepted → Guarded (Loader.copyLoadSegment wrappingFile)
        (Loader.Fits wrappingFile) (.start smallMachine.setupPML4.1)
        (List.range wrappingFile.ehdr.ePhnum)) :=
  loadELF_safe_iff wrappingFile smallMachine_setup

/-- **The segment goes on at address 0.** -/
theorem wrappingFile_unsafe : ¬LoadSafe smallMachine smallMachine.setupPML4.1 wrappingFile := by
  intro h
  have hsafe := h (by decide +kernel) [0] (by decide +kernel)
  rw [run_cons, run_nil] at hsafe
  have hfits := hsafe.fits (Loader.loads_start (.setupPML4 smallMachine_setup))
  have hload : (wrappingFile.phdr 0).pType = ptLoad := by decide +kernel
  have hend := (hfits.2 hload).2.1
  revert hend
  decide +kernel

end Laplus.Terminal
