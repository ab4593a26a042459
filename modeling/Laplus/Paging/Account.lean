/-
# `Laplus.Paging.Account` — the frames that a map accounts for

A frame that `SetupPageMaps` takes is named by an entry of the map.  So when an image has been
loaded, the frames in use are those that were in use before and those of its map; and whatever a
task does with its own map, the map of the image stays.
-/
import Laplus.Paging.Isolation

namespace Laplus.Paging

open Lib

variable {w b : Bool} {s s' s'' m : Machine} {T P f g addr num first stack : Nat}
  {O O' I : Set Nat} {p q : List (Fin 512)} {i : Fin 512} {e : PageMapEntry}

/-! ## Calls that take frames -/

/-- The map in use is the same, and the frames in use stay in use. -/
structure Onward (s s' : Machine) : Prop where
  cr3 : s'.cr3 = s.cr3
  kept : ∀ f, s.Allocated f → s'.Allocated f

theorem Onward.refl (s : Machine) : Onward s s := ⟨rfl, fun _ hf => hf⟩

theorem Onward.trans (h : Onward s s') (h' : Onward s' s'') : Onward s s'' :=
  ⟨h'.cr3.trans h.cr3, fun f hf => h'.kept f (h.kept f hf)⟩

theorem Onward.store (h : Onward s s') (f : Nat) (i : Fin 512) (e : PageMapEntry) :
    Onward s (s'.store f i e) := ⟨h.cr3, h.kept⟩

theorem newPageMap_onward (s : Machine) : Onward s s.newPageMap.1 := by
  cases hr : s.newPageMap with
  | mk s' r =>
      cases r with
      | error e =>
          obtain rfl := Machine.newPageMap_error hr
          exact .refl _
      | ok g =>
          obtain ⟨hn, -⟩ := fresh_of_newPageMap hr
          exact ⟨hn.cr3, fun f hf => (hn.allocated f).mpr (.inr hf)⟩

theorem setupEntry_onward (s : Machine) (f : Nat) (i : Fin 512) (b : Bool) :
    Onward s (s.setupEntry f i b).1 := by
  rw [Machine.setupEntry, Machine.setNewPageMapIfNotPresent]
  by_cases hp : (s.mem f i).present
  · rw [if_pos hp]
    exact (Onward.refl s).store _ _ _
  · rw [if_neg hp]
    have hnew := newPageMap_onward s
    cases hr : s.newPageMap with
    | mk s₁ r =>
        rw [hr] at hnew
        cases r with
        | error e => exact hnew
        | ok g => exact (hnew.store _ _ _).store _ _ _

theorem setupLoop_onward {level : Nat}
    {child : Machine → Nat → List (Fin 512) → Nat → Machine × Except Error Nat}
    (hchild : ∀ s map below num, Onward s (child s map below num).1) (f : Nat)
    (is : List (Fin 512)) (s : Machine) (below : List (Fin 512)) (num : Nat) :
    Onward s (Machine.setupLoop w level child f s is below num).1 := by
  induction is generalizing s below num with
  | nil => exact .refl s
  | cons i is ih =>
      rw [Machine.setupLoop]
      split
      · exact .refl s
      · have hentry := setupEntry_onward s f i (level ≠ 1 || w)
        cases hr : s.setupEntry f i (level ≠ 1 || w) with
        | mk s₁ r =>
            rw [hr] at hentry
            cases r with
            | error e => exact hentry
            | ok map =>
                dsimp only
                split
                · exact hentry.trans (ih ..)
                · have hbelow := hchild s₁ map below num
                  cases hc : child s₁ map below num with
                  | mk s₂ r =>
                      rw [hc] at hbelow
                      cases r with
                      | error e => exact hentry.trans hbelow
                      | ok remain => exact (hentry.trans hbelow).trans (ih ..)

theorem setupPageMap_onward (level : Nat) (s : Machine) (f : Nat) (r : List (Fin 512))
    (num : Nat) : Onward s (Machine.setupPageMap w level s f r num).1 := by
  induction level generalizing s f r num with
  | zero => exact .refl s
  | succ level ih => exact setupLoop_onward ih f _ s _ num

/-- `SetupPageMaps`, of any pages. -/
theorem setupPageMaps_onward (s : Machine) (addr num : Nat) (w : Bool) :
    Onward s (s.setupPageMaps addr num w).1 := by
  have hcall := setupPageMap_onward (w := w) 4 s s.cr3 (path addr) num
  rw [Machine.setupPageMaps]
  cases hr : Machine.setupPageMap w 4 s s.cr3 (path addr) num with
  | mk s₁ r =>
      rw [hr] at hcall
      cases r with
      | error e => exact hcall
      | ok remain => exact hcall

theorem copyLoop_onward {part : Nat}
    {child : Machine → Nat → Nat → Machine × Except Error Unit}
    (hchild : ∀ s table below, Onward s (child s table below).1) (dest src : Nat)
    (is : List (Fin 512)) (s : Machine) :
    Onward s (Machine.copyLoop part child dest src s is).1 := by
  induction is generalizing s with
  | nil => exact .refl s
  | cons i is ih =>
      rw [Machine.copyLoop]
      split
      · exact ih s
      · split
        · exact ((Onward.refl s).store _ _ _).trans (ih _)
        · have hnew := newPageMap_onward s
          cases hr : s.newPageMap with
          | mk s₁ r =>
              rw [hr] at hnew
              cases r with
              | error e => exact hnew
              | ok table =>
                  dsimp only
                  have hstore := hnew.store dest i ((s₁.mem src i).setPointer table)
                  have hbelow := hchild (s₁.store dest i ((s₁.mem src i).setPointer table)) table
                    (s₁.mem src i).addr
                  cases hc : child (s₁.store dest i ((s₁.mem src i).setPointer table)) table
                      (s₁.mem src i).addr with
                  | mk s₂ r =>
                      rw [hc] at hbelow
                      cases r with
                      | error e => exact hstore.trans hbelow
                      | ok u => exact (hstore.trans hbelow).trans (ih s₂)

/-- `CopyPageMaps`, of any map. -/
theorem copyPageMaps_onward (part : Nat) (s : Machine) (dest src : Nat) (start : Fin 512) :
    Onward s (s.copyPageMaps part dest src start).1 := by
  induction part generalizing s dest src start with
  | zero => exact .refl s
  | succ part ih => exact copyLoop_onward (fun s table below => ih s table below 0) dest src _ s

/-! ## What is taken is named -/

/-- The frames that are new are named by entries. -/
def Named (s s' : Machine) (T : Nat) : Prop :=
  ∀ f, s'.Allocated f → s.Allocated f ∨ ∃ p i e, s'.space T p i = some e ∧ e.addr = f

theorem setupEntry_takes (hr : s.setupEntry f i b = (s', .ok g)) {f' : Nat}
    (hf : s'.Allocated f') : s.Allocated f' ∨ f' = g := by
  rw [Machine.setupEntry, Machine.setNewPageMapIfNotPresent] at hr
  by_cases hp : (s.mem f i).present
  · rw [if_pos hp] at hr
    cases hr
    exact .inl hf
  · rw [if_neg hp] at hr
    cases hnew : s.newPageMap with
    | mk s₁ r =>
        rw [hnew] at hr
        cases r with
        | error e => cases hr
        | ok g' =>
            cases hr
            obtain ⟨hn, -⟩ := fresh_of_newPageMap hnew
            exact ((hn.allocated f').mp hf).symm

/-- `Named` follows a call along, beside `Grows`. -/
theorem named_rule (w : Bool) (T first num : Nat) :
    SetupRule w T (fun s => (∃ O I, Space s T O I) ∧ LeavesAre w s T first num)
      (fun s s' => (∀ O I, Space s T O I →
        ∃ O' I', Grows w s s' T O I O' I' ∧ Within s s' T first num) ∧
          ((∃ O I, Space s T O I) → Named s s' T))
      (fun q i => q.length = 3 → first ≤ number (q ++ [i]) ∧ number (q ++ [i]) < first + num)
      (fun s q i => s.space T q i ≠ none) where
  refl hgood := ⟨(grows_rule w T first num).refl hgood, fun _ _ hf => .inl hf⟩
  trans h h' := by
    refine ⟨(grows_rule w T first num).trans h.1 h'.1, fun ⟨O, I, hs⟩ f hf => ?_⟩
    obtain ⟨O₁, I₁, h₁, -⟩ := h.1 O I hs
    obtain ⟨O₂, I₂, h₂, -⟩ := h'.1 O₁ I₁ h₁.space
    rcases h'.2 ⟨O₁, I₁, h₁.space⟩ f hf with hf | hf
    · exact (h.2 ⟨O, I, hs⟩ f hf).imp_right fun ⟨p, i, e, he, ha⟩ =>
        ⟨p, i, e, h₂.keep p i e he, ha⟩
    · exact .inr hf
  good hgood h := (grows_rule w T first num).good hgood h.1
  table hgood h hf := (grows_rule w T first num).table hgood h.1 hf
  entered hgood h hsome := (grows_rule w T first num).entered hgood h.1 hsome
  entry hgood hf hi hok hr := by
    obtain ⟨hext, hentered, e, he, hg⟩ := (grows_rule w T first num).entry hgood hf hi hok hr
    refine ⟨⟨hext, fun _ f' hf' => ?_⟩, hentered, e, he, hg⟩
    exact (setupEntry_takes hr hf').imp_right fun heq => ⟨_, _, e, he, hg.trans heq.symm⟩

/-- **The frames that `SetupPageMaps` takes** are named by entries. -/
theorem setupPageMaps_named {res : Except Error Unit} (h : Space s s.cr3 O I)
    (haddr : Upper addr) (hleaf : LeavesAre w s s.cr3 (number (path addr)) num)
    (hr : s.setupPageMaps addr num w = (s', res)) : Named s s' s.cr3 := by
  rw [Machine.setupPageMaps] at hr
  cases hcall : Machine.setupPageMap w 4 s s.cr3 (path addr) num with
  | mk s₁ r =>
      rw [hcall] at hr
      obtain ⟨⟨-, hnamed⟩, -⟩ := (named_rule w s.cr3 (number (path addr)) num).followed 4
        ⟨⟨O, I, h⟩, hleaf⟩ (tableAt_root s s.cr3) rfl rfl (fun _ => haddr.part)
        (onTheWay_pages [] _ num) hcall
      cases r with
      | error e =>
          cases hr
          exact hnamed ⟨O, I, h⟩
      | ok remain =>
          cases hr
          exact hnamed ⟨O, I, h⟩

/-! ## An image that is loaded -/

/-- The image below `P` has taken all frames that came since `m`. -/
structure Taken (stack : Nat) (m s : Machine) (P : Nat) : Prop where
  image : Image stack s P
  cr3 : s.cr3 = P
  fresh : ∀ f, s.FrameOf P f → ¬m.Allocated f
  frames : ∀ f, s.Allocated f ↔ m.Allocated f ∨ s.FrameOf P f
  mem : ∀ f, m.Allocated f → s.mem f = m.mem f

theorem Image.allocated (h : Image stack s P) (hf : s.FrameOf P f) : s.Allocated f := by
  obtain ⟨O, hspace⟩ := h.space
  exact hspace.allocated f (hspace.mem_of_frameOf hf)

/-- The map of an image that has no pages yet. -/
theorem Taken.new (h : m.setupPML4 = (s, .ok P)) : Taken stack m s P := by
  obtain ⟨hspace, hnone, hfree, halloc, hmem, hcr3, -⟩ :=
    setupPML4_space (I := ∅) (fun f hf => hf.elim) h
  have hroot : ∀ f, s.FrameOf P f ↔ f = P := fun f => by
    refine or_iff_left ?_
    rintro ⟨p, i, e, he, -⟩
    rw [hnone] at he
    cases he
  refine ⟨(Loaded.new h).image, hcr3, fun f hf => ?_, fun f => ?_, fun f hf => hmem f ?_⟩
  · rw [(hroot f).mp hf]
    exact hfree
  · rw [halloc, hroot, or_comm]
  · rintro rfl
    exact hfree hf

/-- **Loading goes on.** -/
theorem Taken.step (h : Taken stack m s P) (hstep : ImageStep stack s s') :
    Taken stack m s' P := by
  obtain ⟨himage, hcr3⟩ := h.image.step h.cr3 hstep
  obtain ⟨O, hspace⟩ := h.image.space
  have hold : ∀ f, m.Allocated f → s.Allocated f := fun f hf => (h.frames f).mpr (.inl hf)
  obtain rfl := h.cr3
  cases hstep with
  | @segment addr num s' haddr hbelow hr =>
      have hleaf : LeavesAre false s s.cr3 (number (path addr)) num :=
        fun q i e hq _ _ he => h.image.readOnly q i e hq he
      obtain ⟨O', I', hgrows, -⟩ := setupPageMaps_grows hspace haddr hleaf hr
      have hnamed := setupPageMaps_named hspace haddr hleaf hr
      have hkeep : ∀ f, s.FrameOf s.cr3 f → s'.FrameOf s.cr3 f := fun f hf =>
        hf.imp_right fun ⟨p, i, e, he, ha⟩ => ⟨p, i, e, hgrows.keep p i e he, ha⟩
      refine ⟨himage, hcr3, fun f hf hm => ?_, fun f => ?_, fun f hf => ?_⟩
      · -- a frame of the map that was in use is one that it had
        rcases hgrows.space.mem_of_frameOf hf with hO | hI
        · exact h.fresh f (hspace.frameOf (.inl ((hgrows.old f (hold f hm)).1 hO))) hm
        · exact h.fresh f (hspace.frameOf (.inr ((hgrows.old f (hold f hm)).2 hI))) hm
      · constructor
        · intro hf
          rcases hnamed f hf with hf | hf
          · exact ((h.frames f).mp hf).imp_right (hkeep f)
          · exact .inr (.inr hf)
        · rintro (hf | hf)
          · exact (hgrows.allocated f).mpr (.inl (hold f hf))
          · exact himage.allocated hf
      · refine (hgrows.mem f (hold f hf) fun hO => ?_).trans (h.mem f hf)
        exact h.fresh f (hspace.frameOf (.inl hO)) hf
  | @write addr t words haddr ht =>
      obtain ⟨e, he, rfl⟩ := leaf_of_translate hspace haddr ht
      obtain ⟨-, heq⟩ := hspace.fill_leaf he rfl words
      have hframe : ∀ f, (s.fill e.addr words).FrameOf s.cr3 f ↔ s.FrameOf s.cr3 f := fun f => by
        rw [Machine.FrameOf, Machine.FrameOf, heq]
      refine ⟨himage, hcr3, fun f hf => h.fresh f ((hframe f).mp hf),
        fun f => (h.frames f).trans (or_congr_right (hframe f).symm), fun f hf => ?_⟩
      · have hne : f ≠ e.addr := by
          rintro rfl
          exact h.fresh _ (.inr ⟨_, _, e, he, rfl⟩) hf
        exact (Function.update_of_ne hne _ _).trans (h.mem f hf)

theorem Taken.run (h : Taken stack m s P) (hrun : Relation.ReflTransGen (ImageStep stack) s s') :
    Taken stack m s' P := by
  induction hrun with
  | refl => exact h
  | tail _ hstep ih => exact ih.step hstep

/-! ## A task that runs the image -/

/-- The task below `T` runs the image below `P`: of the frames in use at `m`, only pages of the image
have been written to. -/
structure Served (stack : Nat) (m s : Machine) (T P : Nat) : Prop where
  owned : Owned stack m s T {f | m.LeafFrame P f}
  mem : ∀ f, m.Allocated f → ¬m.LeafFrame P f → s.mem f = m.mem f

/-- The copy of an image. -/
theorem Image.served {s₁ : Machine} (h : Image stack m P) (hpml4 : m.setupPML4 = (s₁, .ok T))
    (hcopy : s₁.copyPageMaps 4 T P 256 = (s, .ok ())) : Served stack m s T P := by
  obtain ⟨OP, hP⟩ := h.space
  obtain ⟨O', hm, -⟩ := copied_moves hP h.readOnly hpml4 hcopy
  exact ⟨h.copy hpml4 hcopy, fun f hf _ => hm.mem f hf id⟩

namespace Served

theorem works (h : Served stack m s T P)
    (hw : Works s s' T {f | New m s f} O' {f | m.LeafFrame P f}) : Served stack m s' T P where
  owned := h.owned.works hw
  mem f hf hl := (hw.mem f (h.owned.kept f hf) fun hn => hn.2 hf).trans (h.mem f hf hl)

/-- A page of the task is written to. -/
theorem fill {t : Mapping} (h : Served stack m s T P) (haddr : Upper addr)
    (ht : translate s.mem s.cr3 (path addr) = some t) (words : Fin 512 → PageMapEntry) :
    Served stack m (s.fill t.frame words) T P := by
  refine ⟨h.owned.step (.write words haddr ht), fun f hf hl => ?_⟩
  obtain rfl := h.owned.cr3
  obtain ⟨e, he, rfl⟩ := leaf_of_translate h.owned.space haddr ht
  refine (Function.update_of_ne ?_ _ _).trans (h.mem f hf hl)
  rintro rfl
  obtain ⟨hnew, hshared⟩ := h.owned.leaf he
  cases hw : e.writable with
  | true => exact (hnew.mp hw).2 hf
  | false => exact hl (hshared hw)

/-- Pages for arguments and stack. -/
theorem setup {res : Except Error Unit} (h : Served stack m s T P) (haddr : Upper addr)
    (hstack : stack ≤ addr / 4096) (hr : s.setupPageMaps addr num true = (s', res)) :
    Served stack m s' T P := by
  obtain rfl := h.owned.cr3
  obtain ⟨O', hw⟩ := setup_works num h.owned.space h.owned.below haddr hstack
  rw [hr] at hw
  exact h.works hw

/-- An access of the program, or of the kernel for it. -/
theorem access {a : Access} {task : Task} {words : Fin 512 → PageMapEntry}
    (h : Served stack m s T P) (haddr : Upper addr)
    (hr : s.access addr a task words = some s') : Served stack m s' T P := by
  rcases access_cases hr with ⟨code, res, hf, hhandle⟩ | rfl | ⟨t, -, -, ht, rfl⟩
  · obtain rfl := h.owned.cr3
    obtain ⟨O', hw, -⟩ := handlePageFault_works h.owned.space haddr hf hhandle
    exact h.works hw
  · exact h
  · exact h.fill haddr ht words

/-- **The end of the task** leaves what was there before it. -/
theorem cleanUp (h : Served stack m s T P) (pml4Table : Nat) :
    (∀ f, (s.cleanUp pml4Table).1.Allocated f ↔ m.Allocated f) ∧
      ∀ f, m.Allocated f → ¬m.LeafFrame P f → (s.cleanUp pml4Table).1.mem f = m.mem f := by
  refine ⟨(h.owned.cleanUp pml4Table).2.2, fun f hf hl => ?_⟩
  obtain rfl := h.owned.cr3
  have hm := cleanUp_moves h.owned.space pml4Table
  exact (hm.mem f (h.owned.kept f hf) fun hn => hn.2 hf).trans (h.mem f hf hl)

end Served

/-! ## Images that are kept -/

/-- The maps `K` are those of images; no table of one is a page of another. -/
structure Images (stack : Nat) (s : Machine) (K : Set Nat) : Prop where
  image : ∀ P ∈ K, Image stack s P
  apart : ∀ P ∈ K, ∀ Q ∈ K, ∀ p f, s.TableAt Q p f → ¬s.LeafFrame P f

theorem Image.tableFrame (h : Image stack s P) (hf : s.TableAt P p f) :
    s.FrameOf P f ∧ ¬s.LeafFrame P f := by
  obtain ⟨O, hspace⟩ := h.space
  have hO := hspace.mem_table hf
  exact ⟨hspace.frameOf (.inl hO), hspace.owns.apart f hO⟩

theorem leafFrame_congr (h : s'.space P = s.space P) : s'.LeafFrame P f ↔ s.LeafFrame P f := by
  rw [Machine.LeafFrame, Machine.LeafFrame, h]

theorem frameOf_congr (h : s'.space P = s.space P) : s'.FrameOf P f ↔ s.FrameOf P f := by
  rw [Machine.FrameOf, Machine.FrameOf, h]

theorem Machine.LeafFrame.frameOf (h : s.LeafFrame P f) : s.FrameOf P f := by
  obtain ⟨p, i, e, -, he, ha⟩ := h
  exact .inr ⟨p, i, e, he, ha⟩

namespace Images

variable {K : Set Nat}

/-- The images stay when their tables do. -/
theorem moved (h : Images stack s K) (halloc : ∀ f, s.Allocated f → s'.Allocated f)
    (hmem : ∀ P ∈ K, ∀ p f, s.TableAt P p f → s'.mem f = s.mem f) :
    Images stack s' K ∧ ∀ P ∈ K, s'.space P = s.space P := by
  have hcongr : ∀ P ∈ K, Image stack s' P ∧ s'.space P = s.space P := fun P hP =>
    (h.image P hP).congr (fun f hf => halloc f ((h.image P hP).allocated hf)) (hmem P hP)
  refine ⟨⟨fun P hP => (hcongr P hP).1, fun P hP Q hQ p f hf hl => ?_⟩, fun P hP => (hcongr P hP).2⟩
  exact h.apart P hP Q hQ p f ((Space.table_of_eq (hcongr Q hQ).2).mp hf)
    ((leafFrame_congr (hcongr P hP).2).mp hl)

/-- **An image more.** -/
theorem insert (h : Images stack m K) (hnew : Taken stack m s P) :
    Images stack s (insert P K) := by
  have hframes : ∀ Q ∈ K, ∀ p f, m.TableAt Q p f → m.Allocated f := fun Q hQ p f hf =>
    (h.image Q hQ).allocated ((h.image Q hQ).tableFrame hf).1
  obtain ⟨hold, hspace⟩ : Images stack s K ∧ ∀ Q ∈ K, s.space Q = m.space Q :=
    h.moved (fun f hf => (hnew.frames f).mpr (.inl hf))
      fun Q hQ p f hf => hnew.mem f (hframes Q hQ p f hf)
  refine ⟨?_, ?_⟩
  · rintro Q (rfl | hQ)
    · exact hnew.image
    · exact hold.image Q hQ
  · rintro Q (rfl | hQ) R (rfl | hR) p f hf hl
    · exact (hnew.image.tableFrame hf).2 hl
    · have hused := hframes R hR p f ((Space.table_of_eq (hspace R hR)).mp hf)
      exact hnew.fresh f hl.frameOf hused
    · have hused := (h.image Q hQ).allocated ((leafFrame_congr (hspace Q hQ)).mp hl).frameOf
      exact hnew.fresh f (hnew.image.tableFrame hf).1 hused
    · exact hold.apart Q hQ R hR p f hf hl

/-- **A task comes and goes.** -/
theorem served (h : Images stack m K) (hP : P ∈ K) (ht : Served stack m s T P)
    (pml4Table : Nat) : Images stack (s.cleanUp pml4Table).1 K ∧
      ∀ Q ∈ K, (s.cleanUp pml4Table).1.space Q = m.space Q := by
  obtain ⟨halloc, hmem⟩ := ht.cleanUp pml4Table
  refine h.moved (fun f hf => (halloc f).mpr hf) fun Q hQ p f hf => hmem f ?_ ?_
  · exact (h.image Q hQ).allocated ((h.image Q hQ).tableFrame hf).1
  · exact h.apart P hP Q hQ p f hf

end Images

end Laplus.Paging
