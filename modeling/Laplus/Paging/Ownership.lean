/-
# `Laplus.Paging.Ownership` — which frames the end of a task frees

`LoadApp` keeps an image: a map whose leaves are read-only.  A task gets a copy
of the map, and pages of its own for its arguments, its stack and its faults.
Nothing but the writable bit tells its frames from those of the image, and
`cleanPageMaps_frees` says that the bit is right whenever the task ends.
-/
import Laplus.Paging.Clean
import Laplus.Paging.Task
import Mathlib.Logic.Relation

namespace Laplus.Paging

open Lib

variable {s s' m : Machine} {T P f addr num stack : Nat} {O I : Set Nat} {p : List (Fin 512)}
  {i : Fin 512} {e : PageMapEntry}

/-! ## Calls that succeed -/

theorem eq_of_isOk {r : Machine × Except Error Unit} (h : r.2.isOk = true) : r = (r.1, .ok ()) := by
  obtain ⟨s, _ | _⟩ := r
  · cases h
  · rfl

theorem eq_of_map_isOk {r : Option (Machine × Except Error Unit)} (d : Machine × Except Error Unit)
    (h : r.map (fun r => r.2.isOk) = some true) : r = some ((r.getD d).1, .ok ()) := by
  cases r with
  | none => cases h
  | some r =>
      rw [eq_of_isOk (r := r) (Option.some.inj h)]
      rfl

theorem setupPML4_of_toOption (h : s.setupPML4.2.toOption = some T) :
    s.setupPML4 = (s.setupPML4.1, .ok T) := by
  generalize s.setupPML4 = r at h
  obtain ⟨s', _ | _⟩ := r
  · cases h
  · cases h
    rfl

/-! ## Images -/

namespace Machine

/-- The frames of the leaves of a map. -/
def LeafFrame (s : Machine) (P f : Nat) : Prop :=
  ∃ p i e, p.length = 3 ∧ s.space P p i = some e ∧ e.addr = f

/-- The frames of a map: its root, and what its entries name. -/
def FrameOf (s : Machine) (P f : Nat) : Prop := f = P ∨ ∃ p i e, s.space P p i = some e ∧ e.addr = f

/-- The end of a task in `ExecuteFile`, and the frames that it frees. -/
def cleanUp (s : Machine) (pml4Table : Nat) : Machine × List Nat :=
  let pages := s.cleanPageMaps kUpperBegin
  let root := pages.1.freePML4 pml4Table
  (root.1, pages.2 ++ root.2)

end Machine

/-- What `LoadELF` does to the map of an image; all pages lie below the page `stack`. -/
inductive ImageStep (stack : Nat) (s : Machine) : Machine → Prop where
  | segment {addr num : Nat} {s' : Machine} : Upper addr → addr / 4096 + num ≤ stack →
      s.setupPageMaps addr num false = (s', .ok ()) → ImageStep stack s s'
  | write {addr : Nat} {t : Mapping} (words : Fin 512 → PageMapEntry) : Upper addr →
      translate s.mem s.cr3 (path addr) = some t → ImageStep stack s (s.fill t.frame words)

/-- `P` is the map of an image.  After it was loaded, whatever happens to the machine leaves its
tables as they are, and its frames allocated. -/
inductive Loaded (stack P : Nat) : Machine → Prop where
  | new {s s' : Machine} : s.setupPML4 = (s', .ok P) → Loaded stack P s'
  | load {s s' : Machine} : Loaded stack P s → s.cr3 = P → ImageStep stack s s' → Loaded stack P s'
  | other {s s' : Machine} : Loaded stack P s → (∀ f, s.FrameOf P f → s'.Allocated f) →
      (∀ p f, s.TableAt P p f → s'.mem f = s.mem f) → Loaded stack P s'

/-- The number of the first page, as `number` counts them modulo `2 ^ 36`. -/
def firstPage : Nat := 0xffff000000000

theorem number_upper (h : Upper addr) : number (path addr) + firstPage = addr / 4096 := by
  obtain ⟨h1, h2⟩ := h
  rw [number_path, firstPage]
  omega

/-- What holds of the map of an image. -/
structure Image (stack : Nat) (s : Machine) (P : Nat) : Prop where
  space : ∃ O, Space s P O (s.LeafFrame P)
  readOnly : ∀ p i e, p.length = 3 → s.space P p i = some e → e.writable = false
  below : ∀ p i e, p.length = 3 → s.space P p i = some e → number (p ++ [i]) + firstPage < stack

/-- The shared frames of a map without writable leaves are those of its leaves. -/
theorem Space.leafFrames (h : Space s P O I)
    (hro : ∀ p i e, p.length = 3 → s.space P p i = some e → e.writable = false) :
    Space s P O (s.LeafFrame P) := by
  have hsub : ∀ f, s.LeafFrame P f → f ∈ I := by
    rintro f ⟨p, i, e, hp, he, rfl⟩
    exact h.owns.share he (hro p i e hp he)
  refine ⟨⟨h.owns.root, h.owns.user, h.owns.table, h.owns.own, fun {p i e} he hw => ?_, h.owns.once,
    h.owns.all, fun f hf hl => h.owns.apart f hf (hsub f hl)⟩,
    fun f hf => h.allocated f (hf.imp_right (hsub f)), h.small⟩
  obtain ⟨g, hg, -⟩ := table_of_space he
  have hlen : p.length < 4 := hg.depth
  have hleaf : ¬p.length < 3 := fun hlt => by
    rw [h.owns.table he hlt] at hw
    cases hw
  exact ⟨p, i, e, by omega, he, rfl⟩

/-- The frames that a space owns are frames of its map. -/
theorem Space.frameOf (h : Space s P O I) (hf : f ∈ O ∨ s.LeafFrame P f) : s.FrameOf P f := by
  rcases hf with hf | ⟨p, i, e, -, he, ha⟩
  · rcases h.owns.all f hf with rfl | ⟨p, i, e, he, -, ha⟩
    · exact .inl rfl
    · exact .inr ⟨p, i, e, he, ha⟩
  · exact .inr ⟨p, i, e, he, ha⟩

/-- A leaf that the processor finds. -/
theorem leaf_of_translate {t : Mapping} (h : Space s T O I) (haddr : Upper addr)
    (ht : translate s.mem T (path addr) = some t) :
    ∃ e, s.leaf T addr = some e ∧ e.mapping = t := by
  rw [translate_upper h haddr] at ht
  exact Option.map_eq_some_iff.mp ht

theorem Image.step (h : Image stack s P) (hcr3 : s.cr3 = P) (hstep : ImageStep stack s s') :
    Image stack s' P ∧ s'.cr3 = P := by
  subst hcr3
  obtain ⟨O, hspace⟩ := h.space
  cases hstep with
  | @segment addr num s' haddr hbelow hr =>
      obtain ⟨O', I', hgrows, hwithin, -⟩ := setupPageMaps_grows hspace haddr
        (fun q i e hq _ _ he => h.readOnly q i e hq he) hr
      have hro : ∀ p i e, p.length = 3 → s'.space s.cr3 p i = some e → e.writable = false :=
        fun p i e hp he => by
          cases hs : s.space s.cr3 p i with
          | none => exact hgrows.leaf p i e hp hs he
          | some x =>
              have hx := hgrows.keep p i x hs
              rw [he] at hx
              cases hx
              exact h.readOnly p i e hp hs
      refine ⟨⟨⟨O', hgrows.space.leafFrames hro⟩, hro, fun p i e hp he => ?_⟩, hgrows.cr3⟩
      cases hs : s.space s.cr3 p i with
      | none =>
          have hin := hwithin p i hp hs (by rw [he]; exact Option.some_ne_none e)
          have hnum := number_upper haddr
          omega
      | some x => exact h.below p i x hp hs
  | @write addr t words haddr ht =>
      obtain ⟨e, he, rfl⟩ := leaf_of_translate hspace haddr ht
      obtain ⟨hfill, heq⟩ := hspace.fill_leaf he rfl words
      have hro : ∀ p i x, p.length = 3 → (s.fill e.addr words).space s.cr3 p i = some x →
          x.writable = false := fun p i x hp hx => h.readOnly p i x hp (heq ▸ hx)
      exact ⟨⟨⟨O, hfill.leafFrames hro⟩, hro, fun p i x hp hx => h.below p i x hp (heq ▸ hx)⟩, rfl⟩

/-- An image whose tables stay as they are, and its frames in use. -/
theorem Image.congr (h : Image stack s P) (halloc : ∀ f, s.FrameOf P f → s'.Allocated f)
    (hmem : ∀ p f, s.TableAt P p f → s'.mem f = s.mem f) :
    Image stack s' P ∧ s'.space P = s.space P := by
  obtain ⟨O, hspace⟩ := h.space
  have heq : s'.space P = s.space P := Radix.look_congr hmem
  have hcongr := hspace.congr_tables hmem fun f hf => halloc f (hspace.frameOf hf)
  have hro : ∀ p i x, p.length = 3 → s'.space P p i = some x → x.writable = false :=
    fun p i x hp hx => h.readOnly p i x hp (heq ▸ hx)
  exact ⟨⟨⟨O, hcongr.leafFrames hro⟩, hro, fun p i x hp hx => h.below p i x hp (heq ▸ hx)⟩, heq⟩

/-- **Images.** -/
theorem Loaded.image (h : Loaded stack P m) : Image stack m P := by
  induction h with
  | @new s s' hr =>
      obtain ⟨hspace, hnone, -⟩ := setupPML4_space (I := ∅) (fun f hf => hf.elim) hr
      have hno : ∀ p i e, p.length = 3 → s'.space P p i = some e → e.writable = false :=
        fun p i e _ he => by rw [hnone p i] at he; cases he
      refine ⟨⟨_, hspace.leafFrames hno⟩, hno, fun p i e _ he => ?_⟩
      rw [hnone] at he
      cases he
  | load _ hcr3 hstep ih => exact (ih.step hcr3 hstep).1
  | other _ halloc hmem ih => exact (ih.congr halloc hmem).1

/-! ## Tasks -/

/-- The read-only leaves of a map lie below the page `stack`. -/
def Machine.Under (stack : Nat) (s : Machine) (T : Nat) : Prop :=
  ∀ p k e, p.length = 3 → s.space T p k = some e → e.writable = false →
    number (p ++ [k]) + firstPage < stack

theorem Works.under (h : Works s s' T O O' I) (hu : s.Under stack T) : s'.Under stack T :=
  fun p k e hp he hw => hu p k e hp (h.shared p k e hp he hw) hw

/-- Pages for arguments and stack. -/
theorem setup_works (num : Nat) (h : Space s s.cr3 O I) (hu : s.Under stack s.cr3)
    (haddr : Upper addr) (hstack : stack ≤ addr / 4096) :
    ∃ O', Works s (s.setupPageMaps addr num true).1 s.cr3 O O' I := by
  have hnum := number_upper haddr
  refine setupPageMaps_works h haddr (fun q k e hq h1 _ he => ?_) rfl
  by_contra hro
  have hlt := hu q k e hq he (by simpa using hro)
  omega

/-- What happens to the map of a task, all allocations succeeding; the pages of its arguments and
its stack lie from the page `stack` on. -/
inductive TaskStep (stack : Nat) (s : Machine) : Machine → Prop where
  | setup {addr num : Nat} {s' : Machine} : Upper addr → stack ≤ addr / 4096 →
      s.setupPageMaps addr num true = (s', .ok ()) → TaskStep stack s s'
  | fault {addr : Nat} {a : Access} {code : ErrorCode} {s' : Machine} (task : Task) : Upper addr →
      s.fault addr a = some code → s.handlePageFault task code addr = some (s', .ok ()) →
      TaskStep stack s s'
  | write {addr : Nat} {t : Mapping} (words : Fin 512 → PageMapEntry) : Upper addr →
      translate s.mem s.cr3 (path addr) = some t → TaskStep stack s (s.fill t.frame words)

/-- A frame that was allocated between two machines. -/
def New (m s : Machine) (f : Nat) : Prop := s.Allocated f ∧ ¬m.Allocated f

/-- The task below `T` owns what was allocated since `m`, and shares the frames `I`. -/
structure Owned (stack : Nat) (m s : Machine) (T : Nat) (I : Set Nat) : Prop where
  space : Space s T {f | New m s f} I
  cr3 : s.cr3 = T
  kept : ∀ f, m.Allocated f → s.Allocated f
  below : ∀ p i e, p.length = 3 → s.space T p i = some e → e.writable = false →
    number (p ++ [i]) + firstPage < stack

theorem Owned.works (h : Owned stack m s T I) {O' : Set Nat}
    (hw : Works s s' T {f | New m s f} O' I) : Owned stack m s' T I := by
  have hO' : O' = {f | New m s' f} := by
    ext f
    constructor
    · intro hf
      refine ⟨(hw.allocated f).mpr (.inr hf), fun hm => ?_⟩
      exact (hw.old f hf (h.kept f hm)).2 hm
    · rintro ⟨hs, hm⟩
      exact ((hw.allocated f).mp hs).elim (fun hs => hw.own ⟨hs, hm⟩) id
  refine ⟨hO' ▸ hw.space, hw.cr3.trans h.cr3, fun f hm => ?_, fun p i e hp he hro => ?_⟩
  · exact (hw.allocated f).mpr (.inl (h.kept f hm))
  · exact hw.under h.below p i e hp he hro

/-- **One step of a task.** -/
theorem Owned.step (h : Owned stack m s T I) (hstep : TaskStep stack s s') :
    Owned stack m s' T I := by
  obtain rfl := h.cr3
  cases hstep with
  | @setup addr num s' haddr hstack hr =>
      obtain ⟨O', hw⟩ := setup_works num h.space h.below haddr hstack
      rw [hr] at hw
      exact h.works hw
  | @fault addr a code s' task haddr hf hr =>
      obtain ⟨O', hw, -⟩ := handlePageFault_works h.space haddr hf hr
      exact h.works hw
  | @write addr t words haddr ht =>
      obtain ⟨e, he, rfl⟩ := leaf_of_translate h.space haddr ht
      obtain ⟨hfill, heq⟩ := h.space.fill_leaf he rfl words
      exact ⟨hfill, rfl, h.kept, fun p i x hp hx => h.below p i x hp (heq ▸ hx)⟩

/-- The copy of an image. -/
theorem Image.copy {s₁ : Machine} (h : Image stack m P) (hpml4 : m.setupPML4 = (s₁, .ok T))
    (hcopy : s₁.copyPageMaps 4 T P 256 = (s, .ok ())) :
    Owned stack m s T {f | m.LeafFrame P f} := by
  obtain ⟨OP, hP⟩ := h.space
  obtain ⟨hT, hnone, hfree, halloc, hmem, hcr3, -⟩ :=
    setupPML4_space (I := {f | m.LeafFrame P f}) (fun f hf => hP.allocated f (.inr hf)) hpml4
  have hne : ∀ f, m.Allocated f → f ≠ T := fun f hf he => hfree (he ▸ hf)
  have hmemP : ∀ f ∈ OP, s₁.mem f = m.mem f := fun f hf => hmem f (hne f (hP.allocated f (.inl hf)))
  have hP₁ := hP.congr hmemP fun f hf => (halloc f).mpr (.inr (hP.allocated f hf))
  have heq := hP.space_congr hmemP
  obtain ⟨O', hgrows, hleaves⟩ := copyPageMaps_grows hT hP₁
    (fun f hf he => hne f (hP.allocated f (.inl hf)) he)
    (fun q i e hq he => ⟨q, i, e, hq, heq ▸ he, rfl⟩) (hnone []) hcopy
  have hO' : O' = {f | New m s f} := by
    ext f
    constructor
    · intro hf
      refine ⟨(hgrows.allocated f).mpr (.inr (.inl hf)), fun hm => ?_⟩
      exact hne f hm ((hgrows.old f ((halloc f).mpr (.inr hm))).1 hf)
    · rintro ⟨hs, hm⟩
      rcases (hgrows.allocated f).mp hs with hs | hO | hI
      · exact hgrows.own (((halloc f).mp hs).resolve_right hm)
      · exact hO
      · exact absurd (hP.allocated f (.inr hI)) hm
  refine ⟨hO' ▸ hgrows.space, hgrows.cr3.trans hcr3, fun f hm => ?_, fun p i e hp he _ => ?_⟩
  · exact (hgrows.allocated f).mpr (.inl ((halloc f).mpr (.inr hm)))
  · rw [hleaves rfl p i hp, heq] at he
    obtain ⟨x, hx, -⟩ := Option.map_eq_some_iff.mp he
    exact h.below p i x hp hx

/-- **A run of a task.** -/
theorem Owned.run (h : Owned stack m s T I) (hrun : Relation.ReflTransGen (TaskStep stack) s s') :
    Owned stack m s' T I := by
  induction hrun with
  | refl => exact h
  | tail _ hstep ih => exact ih.step hstep

/-- What the writable bit of a leaf says. -/
theorem Owned.leaf (h : Owned stack m s T I) (he : s.space T p i = some e) :
    (e.writable = true ↔ New m s e.addr) ∧ (e.writable = false → e.addr ∈ I) := by
  refine ⟨⟨fun hw => (h.space.owns.own he hw).1, fun hn => ?_⟩, fun hw => h.space.owns.share he hw⟩
  by_contra hw
  exact h.space.owns.apart _ hn (h.space.owns.share he (by simpa using hw))

/-- A frame has one writable leaf or table entry. -/
theorem Owned.once (h : Owned stack m s T I) {q : List (Fin 512)} {j : Fin 512} {e' : PageMapEntry}
    (he : s.space T p i = some e) (he' : s.space T q j = some e')
    (hw : e.writable = true ∨ p.length < 3) (hw' : e'.writable = true ∨ q.length < 3)
    (ha : e.addr = e'.addr) : p = q ∧ i = j :=
  h.space.owns.once he he' (hw.elim id (h.space.owns.table he))
    (hw'.elim id (h.space.owns.table he')) ha

/-- `FreePML4` frees the root. -/
theorem freePML4_allocated (s : Machine) (pml4Table : Nat) :
    (s.freePML4 pml4Table).1.Allocated f ↔ s.Allocated f ∧ f ≠ s.cr3 :=
  Machine.free_allocated

theorem freePML4_mem (s : Machine) (pml4Table : Nat) : (s.freePML4 pml4Table).1.mem = s.mem := rfl

/-- **The end of a task** frees the frames that its map owns, each once. -/
theorem Space.cleanUp (h : Space s s.cr3 O I) (pml4Table : Nat) :
    (s.cleanUp pml4Table).2.Nodup ∧ (∀ f, f ∈ (s.cleanUp pml4Table).2 ↔ f ∈ O) ∧
      (∀ f, (s.cleanUp pml4Table).1.Allocated f ↔ s.Allocated f ∧ f ∉ O) ∧
      ∀ f, f ∉ O → (s.cleanUp pml4Table).1.mem f = s.mem f := by
  obtain ⟨hclean, hfreed⟩ := cleanPageMaps_cleaned h
  have hmem : ∀ f, f ∈ (s.cleanUp pml4Table).2 ↔ f ∈ O := fun f => by
    rw [Machine.cleanUp, Machine.freePML4, List.mem_append, hfreed, hclean.cr3, List.mem_singleton]
    constructor
    · rintro (⟨hf, -⟩ | rfl)
      · exact hf
      · exact h.owns.root
    · intro hf
      by_cases hT : f = s.cr3
      · exact .inr hT
      · exact .inl ⟨hf, hT⟩
  refine ⟨?_, hmem, fun f => ?_, fun f hf => ?_⟩
  · rw [Machine.cleanUp, Machine.freePML4, hclean.cr3]
    refine List.nodup_append'.mpr ⟨hclean.nodup, List.nodup_singleton _, fun f hf hT => ?_⟩
    exact ((hfreed f).mp hf).2 (List.mem_singleton.mp hT)
  · have hall : (s.cleanUp pml4Table).1.Allocated f ↔
        (s.cleanPageMaps kUpperBegin).1.Allocated f ∧ f ≠ s.cr3 := by
      rw [Machine.cleanUp, freePML4_allocated, hclean.cr3]
    rw [hall, hclean.allocated, hfreed]
    constructor
    · exact fun ⟨⟨hs, hf⟩, hT⟩ => ⟨hs, fun hO => hf ⟨hO, hT⟩⟩
    · exact fun ⟨hs, hO⟩ => ⟨⟨hs, fun hf => hO hf.1⟩, fun hT => hO (hT ▸ h.owns.root)⟩
  · rw [Machine.cleanUp, freePML4_mem, hclean.mem f hf]

/-- What is freed is what came since `m`. -/
theorem Owned.cleanUp (h : Owned stack m s T I) (pml4Table : Nat) :
    (s.cleanUp pml4Table).2.Nodup ∧ (∀ f, f ∈ (s.cleanUp pml4Table).2 ↔ New m s f) ∧
      ∀ f, (s.cleanUp pml4Table).1.Allocated f ↔ m.Allocated f := by
  obtain rfl := h.cr3
  obtain ⟨hnodup, hmem, hall, -⟩ := h.space.cleanUp pml4Table
  refine ⟨hnodup, hmem, fun f => (hall f).trans ?_⟩
  constructor
  · rintro ⟨hs, hf⟩
    by_contra hm
    exact hf ⟨hs, hm⟩
  · exact fun hm => ⟨h.kept f hm, fun hf => hf.2 hm⟩

/-- **Ownership.**  However a task runs, a leaf is writable iff its frame was allocated for the
task, its other leaves are those of the image, and a frame has one writable leaf or table entry;
and the end of the task frees the frames that were allocated for it, each once, and none of
the image. -/
theorem task_frames_freed {s₁ s₂ : Machine} (pml4Table : Nat) (hload : Loaded stack P m)
    (hpml4 : m.setupPML4 = (s₁, .ok T)) (hcopy : s₁.copyPageMaps 4 T P 256 = (s₂, .ok ()))
    (hrun : Relation.ReflTransGen (TaskStep stack) s₂ s) :
    (∀ p i e, p.length = 3 → s.space T p i = some e →
      (e.writable = true ↔ New m s e.addr) ∧ (e.writable = false → m.LeafFrame P e.addr)) ∧
    (∀ p i e q j e', s.space T p i = some e → s.space T q j = some e' →
      e.writable = true ∨ p.length < 3 → e'.writable = true ∨ q.length < 3 → e.addr = e'.addr →
        p = q ∧ i = j) ∧
    (s.cleanUp pml4Table).2.Nodup ∧ (∀ f, f ∈ (s.cleanUp pml4Table).2 ↔ New m s f) ∧
    (∀ f ∈ (s.cleanUp pml4Table).2, ¬m.FrameOf P f) ∧
    ∀ f, (s.cleanUp pml4Table).1.Allocated f ↔ m.Allocated f := by
  have himage := hload.image
  have h := (himage.copy hpml4 hcopy).run hrun
  obtain ⟨hnodup, hmem, hall⟩ := h.cleanUp pml4Table
  obtain ⟨OP, hP⟩ := himage.space
  refine ⟨fun p i e _ he => h.leaf he, fun p i e q j e' he he' hw hw' ha => h.once he he' hw hw' ha,
    hnodup, hmem, fun f hf hP' => ((hmem f).mp hf).2 ?_, hall⟩
  rcases hP' with rfl | ⟨p, i, e, he, rfl⟩
  · exact hP.allocated f (.inl hP.owns.root)
  · cases hw : e.writable with
    | true => exact hP.allocated _ (.inl (hP.owns.own he hw).1)
    | false => exact hP.allocated _ (.inr (hP.owns.share he hw))

/-! ## A run -/

/-- A machine with 62 free frames. -/
def smallMachine : Machine :=
  ⟨fun _ _ => .zero, ⟨fun f => decide (f < 2), 2, 64, by decide⟩, 1⟩

/-- An image of one page. -/
def smallImage : Machine := (smallMachine.setupPML4.1.setupPageMaps kUpperBegin 1 false).1

/-- A task of the image. -/
def smallTask : Machine := (smallImage.setupPML4.1.copyPageMaps 4 7 2 256).1

/-- A task without demand paging and files. -/
def noTask : Task := ⟨0, 0, [], fun _ _ words => words⟩

/-- The task has written to its page. -/
def smallWritten : Machine :=
  ((smallTask.handlePageFault noTask ⟨true, true, true⟩ kUpperBegin).getD (smallTask, .ok ())).1

theorem kUpperBegin_upper : Upper kUpperBegin := ⟨by decide, by decide⟩

theorem smallImage_loaded : Loaded 0xfffffffffffef 2 smallImage :=
  .load (.new (setupPML4_of_toOption (s := smallMachine) (by decide +kernel))) (by decide +kernel)
    (.segment kUpperBegin_upper (by decide) (eq_of_isOk (by decide +kernel)))

theorem task_frames_freed_small :
    (smallWritten.cleanUp 1).2.Nodup ∧ (smallWritten.cleanUp 1).2 = [11, 10, 9, 8, 7] ∧
      ∀ f, f ∈ (smallWritten.cleanUp 1).2 ↔ New smallImage smallWritten f := by
  have hwritten : smallTask.handlePageFault noTask ⟨true, true, true⟩ kUpperBegin =
      some (smallWritten, .ok ()) := eq_of_map_isOk _ (by decide +kernel)
  have hfault : smallTask.fault kUpperBegin ⟨true, true⟩ = some ⟨true, true, true⟩ := by
    decide +kernel
  have h := task_frames_freed 1 smallImage_loaded (setupPML4_of_toOption (by decide +kernel))
    (eq_of_isOk (by decide +kernel)) (.single (.fault noTask kUpperBegin_upper hfault hwritten))
  exact ⟨h.2.2.1, by decide +kernel, h.2.2.2.1⟩

end Laplus.Paging
