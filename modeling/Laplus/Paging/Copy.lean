/-
# `Laplus.Paging.Copy` — what `CopyPageMaps` adds

`CopyPageMaps` gives the destination tables of its own, and for each leaf of
the source a read-only leaf with the same frame.  `Copied` says what the leaves
are then; that the tables are new frames is `Grows` again.
-/
import Laplus.Paging.Setup

namespace Laplus.Paging

open Lib

variable {s s' s₁ : Machine} {T P f g : Nat} {O I O' O₁ OP IP : Set Nat}
  {p q x : List (Fin 512)} {i : Fin 512} {j : Nat}

/-- `x` goes through the table at `p`, at entry `j` or after it. -/
def Below (p : List (Fin 512)) (j : Nat) (x : List (Fin 512)) : Prop :=
  ∃ k : Fin 512, j ≤ k ∧ p ++ [k] <+: x

theorem not_below_end : ¬Below p 512 x := fun ⟨k, hk, _⟩ => absurd k.isLt (by omega)

theorem below_iff (hj : j < 512) : Below p j x ↔ p ++ [⟨j, hj⟩] <+: x ∨ Below p (j + 1) x := by
  constructor
  · rintro ⟨k, hk, hx⟩
    by_cases hkj : k.val = j
    · obtain rfl : k = ⟨j, hj⟩ := Fin.ext hkj
      exact .inl hx
    · exact .inr ⟨k, by omega, hx⟩
  · rintro (hx | ⟨k, hk, hx⟩)
    · exact ⟨⟨j, hj⟩, le_rfl, hx⟩
    · exact ⟨k, by omega, hx⟩

/-- An entry of a table has one number. -/
theorem not_below_succ {hj : j < 512} (hx : p ++ [⟨j, hj⟩] <+: x) : ¬Below p (j + 1) x := by
  rintro ⟨k, hk, hx'⟩
  have heq := List.prefix_of_prefix_length_le hx hx' (by simp)
  have hk' := List.append_cancel_left (heq.eq_of_length (by simp))
  obtain rfl : (⟨j, hj⟩ : Fin 512) = k := by simpa using hk'
  exact absurd hk (by simp)

theorem below_zero (hx : p <+: x) (hlt : p.length < x.length) : Below p 0 x := by
  obtain ⟨r, rfl⟩ := hx
  cases r with
  | nil => simp at hlt
  | cons k r => exact ⟨k, Nat.zero_le _, r, by simp⟩

theorem not_below_self : ¬Below p j p := fun ⟨_, _, hx⟩ => absurd hx.length_le (by simp)

theorem below_extends (h : Below p j x) : p <+: x := by
  obtain ⟨k, -, hx⟩ := h
  exact (List.prefix_append p [k]).trans hx

/-! ## Copies -/

/-- An entry of a copy. -/
def PageMapEntry.readOnly (e : PageMapEntry) : PageMapEntry := { e with writable := false }

/-- The leaves of `P` have been copied to `T`, for the paths in `D`. -/
structure Copied (s s' : Machine) (T P : Nat) (D : List (Fin 512) → Prop) : Prop where
  inside : ∀ q i, q.length = 3 → D (q ++ [i]) →
    s'.space T q i = (s.space P q i).map PageMapEntry.readOnly
  outside : ∀ q i, ¬D (q ++ [i]) → s'.space T q i = s.space T q i

/-- One entry of a table, and the entries after it. -/
theorem Copied.cons {hj : j < 512} (h : Copied s s₁ T P (p ++ [⟨j, hj⟩] <+: ·))
    (h' : Copied s₁ s' T P (Below p (j + 1))) (hP : s₁.space P = s.space P) :
    Copied s s' T P (Below p j) where
  inside q i hq hx := by
    rcases (below_iff hj).mp hx with hx | hx
    · rw [h'.outside q i (not_below_succ hx), h.inside q i hq hx]
    · rw [h'.inside q i hq hx, hP]
  outside q i hx := by
    rw [below_iff hj, not_or] at hx
    rw [h'.outside q i hx.2, h.outside q i hx.1]

/-- What a call of `CopyPageMaps` for a table below the root gives, and what it keeps if it
fails. -/
def CopySpec (part : Nat) : Prop :=
  ∀ {s s' : Machine} {T P f g : Nat} {O I OP IP : Set Nat} {p : List (Fin 512)}
    {res : Except Error Unit},
    Space s T O I → Space s P OP IP → (∀ f ∈ OP, f ∉ O) →
    (∀ q i e, q.length = 3 → s.space P q i = some e → e.addr ∈ I) →
    s.TableAt T p f → s.TableAt P p g → p.length + part = 4 → p ≠ [] →
    (∀ k, s.space T p k = none) → s.copyPageMaps part f g 0 = (s', res) →
    ∃ O', Grows false s s' T O I O' I ∧ (res = .ok () → Copied s s' T P (Below p 0))

/-- A leaf of another space is shared. -/
theorem Grows.of_share {e : PageMapEntry} (hs : Space s T O I) (h : Space (s.store f i e) T O I)
    (ht : s.TableAt T p f) (hi : radix.top (p.headD i) = true)
    (hspace : (s.store f i e).space T = (s.space T).update p i (some e))
    (hM : s.space T p i = none) (hw : e.writable = false) :
    Grows false s (s.store f i e) T O I O I where
  space := h
  own := subset_rfl
  share := subset_rfl
  shared _ := rfl
  allocated f := ⟨.inl, fun hf => hf.elim id (hs.allocated f)⟩
  old _ _ := ⟨id, id⟩
  mem f' _ hO := by
    have hne : f' ≠ f := fun he => hO (by rw [he]; exact hs.mem_table ht)
    rw [Machine.store_mem, Radix.set_frame _ _ _ hne]
  cr3 := rfl
  low k hk := by
    rw [Machine.store_mem, Radix.set_of_ne]
    rintro ⟨rfl, rfl⟩
    exact absurd (hs.root_entry ht hi rfl) (by omega)
  keep q k e' he := by
    rw [hspace]
    exact PageMap.update_keep hM he
  leaf q k e' _ hnone he := by
    rw [hspace] at he
    obtain ⟨-, hx⟩ := PageMap.update_new hnone he
    cases hx
    exact hw

/-- A space that another one grows beside. -/
theorem Space.beside {w : Bool} {I' : Set Nat} (hP : Space s P OP IP)
    (hg : Grows w s s' T O I O' I') (hdisj : ∀ f ∈ OP, f ∉ O) :
    Space s' P OP IP ∧ s'.space P = s.space P ∧ ∀ f ∈ OP, f ∉ O' := by
  have hmem : ∀ f ∈ OP, s'.mem f = s.mem f := fun f hf =>
    hg.mem f (hP.allocated f (.inl hf)) (hdisj f hf)
  refine ⟨hP.congr hmem fun f hf => (hg.allocated f).mpr (.inl (hP.allocated f hf)),
    hP.space_congr hmem, fun f hf hO' => ?_⟩
  exact hdisj f hf ((hg.old f (hP.allocated f (.inl hf))).1 hO')

/-! ## The loop of `CopyPageMaps` -/

/-- The entries of a table of the source, read where the source's table is. -/
theorem copyPageMaps_entry (hP : Space s P OP IP) (hg : s.TableAt P p g)
    (hi : radix.top (p.headD i) = true) (hp : (s.mem g i).present = true) :
    s.space P p i = some (s.mem g i) ∧ (s.mem g i).user = true ∧ (s.mem g i).hugePage = false ∧
      (p.length < 3 → (s.mem g i).writable = true) := by
  have hspace := space_of_table hg hi
  rw [hp, if_pos rfl] at hspace
  exact ⟨hspace, hP.owns.user hspace, hP.small hg i hi, hP.owns.table hspace⟩

/-- What `CopyPageMaps` does with an entry of the source, for a table the call below it
included, before it goes on or fails. -/
theorem copyEntry_grows {part : Nat} (ih : CopySpec part) {is : List (Fin 512)}
    {res : Except Error Unit}
    (hT : Space s T O I) (hP : Space s P OP IP) (hdisj : ∀ f ∈ OP, f ∉ O)
    (hleaf : ∀ q i e, q.length = 3 → s.space P q i = some e → e.addr ∈ I)
    (hf : s.TableAt T p f) (hg : s.TableAt P p g) (hlen : p.length + (part + 1) = 4)
    (hi : radix.top (p.headD i) = true) (hnone : s.space T p i = none)
    (hr : Machine.copyLoop (part + 1) (fun s t b => s.copyPageMaps part t b 0) f g s (i :: is) =
      (s', res)) :
    ∃ s₁ O₁, Grows false s s₁ T O I O₁ I ∧ ((s₁ = s' ∧ ∃ e, res = .error e) ∨
      Copied s s₁ T P (p ++ [i] <+: ·) ∧
        Machine.copyLoop (part + 1) (fun s t b => s.copyPageMaps part t b 0) f g s₁ is =
          (s', res)) := by
  rw [Machine.copyLoop] at hr
  cases hp : (s.mem g i).present with
  | false =>
      rw [hp, Bool.not_false, if_pos rfl] at hr
      have hsrc : s.space P p i = none := by
        rw [space_of_table hg hi, hp, if_neg Bool.false_ne_true]
      refine ⟨s, O, .refl hT, .inr ⟨⟨fun q k _ hx => ?_, fun _ _ _ => rfl⟩, hr⟩⟩
      rw [Space.at_none hi hnone hx, Space.at_none hi hsrc hx, Option.map_none]
  | true =>
      rw [hp, Bool.not_true, if_neg Bool.false_ne_true] at hr
      obtain ⟨hsrc, hu, hs, hw⟩ := copyPageMaps_entry hP hg hi hp
      by_cases hpart : part = 0
      · -- a leaf
        subst hpart
        rw [if_pos rfl] at hr
        have hp3 : p.length = 3 := by omega
        have haddr : (s.mem g i).readOnly.addr ∈ I := hleaf p i (s.mem g i) hp3 hsrc
        obtain ⟨hspace, hupd⟩ := hT.link_share (fun _ _ => rfl) subset_rfl hT.owns.apart hT.allocated
          hf hp3 hi hnone (x := (s.mem g i).readOnly) hp ⟨hu, rfl⟩ hs haddr
        refine ⟨_, O, .of_share hT hspace hf hi hupd hnone rfl,
          .inr ⟨⟨fun q k hq hx => ?_, fun q k hx => ?_⟩, hr⟩⟩
        · have heq := hx.eq_of_length (by simp only [List.length_append, List.length_singleton]; omega)
          obtain ⟨rfl, hik⟩ := List.append_inj' heq rfl
          cases hik
          rw [hupd, PageMap.update_self, hsrc, Option.map_some]
        · rw [hupd, PageMap.update_of_ne]
          rintro ⟨rfl, rfl⟩
          exact hx (List.prefix_refl _)
      · -- a table
        rw [if_neg (by omega)] at hr
        have hp2 : p.length < 3 := by omega
        cases hnew : s.newPageMap with
        | mk s₀ r =>
            rw [hnew] at hr
            cases r with
            | error e =>
                cases hr
                obtain rfl := Machine.newPageMap_error hnew
                exact ⟨_, O, .refl hT, .inl ⟨rfl, e, rfl⟩⟩
            | ok t =>
                obtain ⟨hn, hzero⟩ := fresh_of_newPageMap hnew
                have hgt : g ≠ t := fun he =>
                  hn.free (he ▸ hP.allocated g (.inl (hP.mem_table hg)))
                simp only [hn.mem g hgt] at hr
                have haddr := hn.setPointer (s.mem g i)
                obtain ⟨hspace, hupd⟩ := hT.link hn hf hi (.inl hnone) (fun _ => hzero)
                  (x := (s.mem g i).setPointer t) hp ⟨hu, hw hp2⟩ hs haddr
                have h₁ : Grows false s (s₀.store f i ((s.mem g i).setPointer t)) T O I
                    (insert t O) I :=
                  .of_update hT hspace hn (.inl ⟨rfl, rfl⟩) rfl hf hi hupd hnone
                    (fun h3 => by omega)
                obtain ⟨hP₁, hPeq, hdisj₁⟩ := hP.beside h₁ hdisj
                have hself : (s₀.store f i ((s.mem g i).setPointer t)).space T p i =
                    some ((s.mem g i).setPointer t) := by
                  rw [hupd, PageMap.update_self]
                have hf₁ := (Radix.table_snoc hi).mpr
                  ⟨Nat.succ_lt_succ hp2, _, hself, radix_next_some.mpr ⟨hp, haddr⟩⟩
                have hg₁ := (Radix.table_snoc hi).mpr
                  ⟨Nat.succ_lt_succ hp2, _, (congrFun (congrFun hPeq p) i).trans hsrc,
                    radix_next_some.mpr ⟨hp, rfl⟩⟩
                cases hchild : Machine.copyPageMaps part
                    (s₀.store f i ((s.mem g i).setPointer t)) t (s.mem g i).addr 0 with
                | mk s₂ r =>
                    rw [hchild] at hr
                    obtain ⟨O₂, h₂, hcopy⟩ := ih hspace hP₁ hdisj₁
                      (fun q k e hq he => hleaf q k e hq (hPeq ▸ he)) hf₁ hg₁
                      (by rw [List.length_append, List.length_singleton]; omega) (by simp)
                      (fun k => by
                        rw [hupd, PageMap.update_of_ne (by simp),
                          Space.below_none hi hnone (List.prefix_refl _)]) hchild
                    cases r with
                    | error e =>
                        cases hr
                        exact ⟨_, O₂, h₁.trans h₂, .inl ⟨rfl, e, rfl⟩⟩
                    | ok u =>
                        have hcopy := hcopy rfl
                        refine ⟨s₂, O₂, h₁.trans h₂,
                          .inr ⟨⟨fun q k hq hx => ?_, fun q k hx => ?_⟩, hr⟩⟩
                        · have hlen' : (p ++ [i]).length < (q ++ [k]).length := by
                            simp only [List.length_append, List.length_singleton]
                            omega
                          rw [hcopy.inside q k hq (below_zero hx hlen'), hPeq]
                        · rw [hcopy.outside q k fun h => hx (below_extends h), hupd,
                            PageMap.update_of_ne]
                          rintro ⟨rfl, rfl⟩
                          exact hx (List.prefix_refl _)

/-- The loop of `CopyPageMaps` from an entry of a table on. -/
theorem copyLoop_grows {part : Nat} (ih : CopySpec part) {d : Nat} :
    ∀ {j : Nat}, d + j = 512 → ∀ {s s' : Machine} {O : Set Nat} {res : Except Error Unit},
    Space s T O I → Space s P OP IP → (∀ f ∈ OP, f ∉ O) →
    (∀ q i e, q.length = 3 → s.space P q i = some e → e.addr ∈ I) →
    s.TableAt T p f → s.TableAt P p g → p.length + (part + 1) = 4 → (p = [] → 256 ≤ j) →
    (∀ k : Fin 512, j ≤ k → s.space T p k = none) →
    Machine.copyLoop (part + 1) (fun s t b => s.copyPageMaps part t b 0) f g s (entriesFrom j) =
      (s', res) →
    ∃ O', Grows false s s' T O I O' I ∧ (res = .ok () → Copied s s' T P (Below p j)) := by
  induction d with
  | zero =>
      intro j hj s s' O res hT _ _ _ _ _ _ _ _ hr
      obtain rfl : j = 512 := by omega
      rw [entriesFrom_end, Machine.copyLoop] at hr
      cases hr
      exact ⟨O, .refl hT, fun _ => ⟨fun q i _ hx => absurd hx not_below_end, fun _ _ _ => rfl⟩⟩
  | succ d ihd =>
      intro j hj s s' O res hT hP hdisj hleaf hf hg hlen htop hnone hr
      have hj512 : j < 512 := by omega
      rw [entriesFrom_lt hj512] at hr
      have hi : radix.top (p.headD ⟨j, hj512⟩) = true := by
        cases p with
        | nil => simpa [radix] using htop rfl
        | cons k p => exact hf.top k rfl
      obtain ⟨s₁, O₁, h₁, hr⟩ := copyEntry_grows ih hT hP hdisj hleaf hf hg hlen hi
        (hnone ⟨j, hj512⟩ le_rfl) hr
      rcases hr with ⟨rfl, e, rfl⟩ | ⟨hcopy, hr⟩
      · exact ⟨O₁, h₁, fun he => by cases he⟩
      obtain ⟨hP₁, hPeq, hdisj₁⟩ := hP.beside h₁ hdisj
      have hg₁ := (hP.table_congr fun f hf =>
        h₁.mem f (hP.allocated f (.inl hf)) (hdisj f hf)).mpr hg
      obtain ⟨O', h', hcopy'⟩ := ihd (by omega) h₁.space hP₁ hdisj₁
        (fun q k e hq he => hleaf q k e hq (hPeq ▸ he)) (h₁.table hf) hg₁ hlen
        (fun hp => by have := htop hp; omega)
        (fun k hk => by
          rw [hcopy.outside p k, hnone k (by omega)]
          intro hx
          have heq := List.append_cancel_left (hx.eq_of_length (by simp))
          obtain rfl : (⟨j, hj512⟩ : Fin 512) = k := by simpa using heq
          exact absurd hk (by simp)) hr
      exact ⟨O', h₁.trans h', fun he => hcopy.cons (hcopy' he) hPeq⟩

/-- A table below the root is copied. -/
theorem copyPageMaps_spec (part : Nat) : CopySpec part := by
  induction part with
  | zero =>
      intro s s' T P f g O I OP IP p res _ _ _ _ hf _ hlen
      have hdepth : p.length < 4 := hf.depth
      omega
  | succ part ih =>
      intro s s' T P f g O I OP IP p res hT hP hdisj hleaf hf hg hlen hp hnone hr
      exact copyLoop_grows ih (d := 512) (j := 0) rfl hT hP hdisj hleaf hf hg hlen
        (fun h => absurd h hp) (fun k _ => hnone k) hr

/-- **`CopyPageMaps`, to an empty upper half.** -/
theorem copyPageMaps_grows {res : Except Error Unit} (hT : Space s T O I) (hP : Space s P OP IP)
    (hdisj : ∀ f ∈ OP, f ∉ O)
    (hleaf : ∀ q i e, q.length = 3 → s.space P q i = some e → e.addr ∈ I)
    (hnone : ∀ k, s.space T [] k = none) (hr : s.copyPageMaps 4 T P 256 = (s', res)) :
    ∃ O', Grows false s s' T O I O' I ∧ (res = .ok () →
      ∀ q i, q.length = 3 → s'.space T q i = (s.space P q i).map PageMapEntry.readOnly) := by
  obtain ⟨O', h, hcopy⟩ := copyLoop_grows (copyPageMaps_spec 3) (d := 256) (j := 256) rfl hT hP hdisj
    hleaf (tableAt_root s T) (tableAt_root s P) rfl (fun _ => le_rfl) (fun k _ => hnone k) hr
  refine ⟨O', h, fun hok q i hq => ?_⟩
  cases q with
  | nil => cases hq
  | cons k q =>
      by_cases hk : 256 ≤ k.val
      · exact (hcopy hok).inside _ i hq ⟨k, hk, _, rfl⟩
      · -- not in the upper half
        have hlow : ∀ {s : Machine} {R : Nat}, s.space R (k :: q) i = none := fun {s R} =>
          if_neg fun ⟨_, h⟩ => hk (of_decide_eq_true h)
        rw [hlow, hlow, Option.map_none]

end Laplus.Paging
