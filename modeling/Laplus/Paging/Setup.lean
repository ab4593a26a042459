/-
# `Laplus.Paging.Setup` — what `SetupPageMaps` adds

`SetupPageMaps` only adds entries to an address space: tables that are new
frames, and leaves that are new frames too.  `Grows` says this for any function that
adds entries; `setupPageMap_grows` adds which pages are mapped after a call that
succeeds.
-/
import Laplus.Paging.Space

namespace Laplus.Paging

open Lib

/-- The space has grown: by frames that were free, and by leaves with the writable bit `w`.
What it had is as it was. -/
structure Grows (w : Bool) (s s' : Machine) (T : Nat) (O I O' I' : Set Nat) : Prop where
  space : Space s' T O' I'
  own : O ⊆ O'
  share : I ⊆ I'
  shared : w = true → I' = I
  allocated : ∀ f, s'.Allocated f ↔ s.Allocated f ∨ f ∈ O' ∨ f ∈ I'
  old : ∀ f, s.Allocated f → (f ∈ O' → f ∈ O) ∧ (f ∈ I' → f ∈ I)
  mem : ∀ f, s.Allocated f → f ∉ O → s'.mem f = s.mem f
  cr3 : s'.cr3 = s.cr3
  low : ∀ k : Fin 512, k.val < 256 → s'.mem T k = s.mem T k
  keep : ∀ p i e, s.space T p i = some e → s'.space T p i = some e
  leaf : ∀ p i e, p.length = 3 → s.space T p i = none → s'.space T p i = some e → e.writable = w

variable {w : Bool} {s s' s'' : Machine} {T f g : Nat} {O I O' I' O'' I'' : Set Nat}
  {p : List (Fin 512)} {i : Fin 512}

namespace Grows

theorem refl (h : Space s T O I) : Grows w s s T O I O I where
  space := h
  own := subset_rfl
  share := subset_rfl
  shared _ := rfl
  allocated f := ⟨.inl, fun hf => hf.elim id (h.allocated f)⟩
  old _ _ := ⟨id, id⟩
  mem _ _ _ := rfl
  cr3 := rfl
  low _ _ := rfl
  keep _ _ _ := id
  leaf p i e _ hn hs := by
    rw [hn] at hs
    cases hs

theorem trans (h : Grows w s s' T O I O' I') (h' : Grows w s' s'' T O' I' O'' I'') :
    Grows w s s'' T O I O'' I'' where
  space := h'.space
  own := h.own.trans h'.own
  share := h.share.trans h'.share
  shared hw := (h'.shared hw).trans (h.shared hw)
  allocated f := by
    rw [h'.allocated, h.allocated]
    constructor
    · rintro ((hs | hf | hf) | hf)
      · exact .inl hs
      · exact .inr (.inl (h'.own hf))
      · exact .inr (.inr (h'.share hf))
      · exact .inr hf
    · rintro (hs | hf)
      · exact .inl (.inl hs)
      · exact .inr hf
  old f hf := by
    have hf' := (h.allocated f).mpr (.inl hf)
    obtain ⟨hO, hI⟩ := h.old f hf
    obtain ⟨hO', hI'⟩ := h'.old f hf'
    exact ⟨fun hm => hO (hO' hm), fun hm => hI (hI' hm)⟩
  mem f hf hO := by
    have hf' := (h.allocated f).mpr (.inl hf)
    rw [h'.mem f hf' fun hm => hO ((h.old f hf).1 hm), h.mem f hf hO]
  cr3 := h'.cr3.trans h.cr3
  low k hk := (h'.low k hk).trans (h.low k hk)
  keep p i e he := h'.keep p i e (h.keep p i e he)
  leaf p i e hp hn he := by
    cases hm : s'.space T p i with
    | none => exact h'.leaf p i e hp hm he
    | some x =>
        have hx := h'.keep p i x hm
        rw [he] at hx
        cases hx
        exact h.leaf p i e hp hn hm

/-- The tables of the space stay. -/
theorem table (h : Grows w s s' T O I O' I') (hf : s.TableAt T p f) : s'.TableAt T p f := by
  cases p using List.reverseRecOn with
  | nil => exact ⟨hf.depth, hf.top, hf.walk⟩
  | append_singleton p i =>
      have hi := hf.init.1
      obtain ⟨hlt, e, he, hn⟩ := (Radix.table_snoc hi).mp hf
      exact (Radix.table_snoc hi).mpr ⟨hlt, e, h.keep p i e he, hn⟩

/-- A new entry makes the space grow. -/
theorem of_update {x : PageMapEntry} (hs : Space s T O I) (h : Space s' T O' I') (hn : Fresh s s'' g)
    (hsub : (O' = insert g O ∧ I' = I) ∨ (w = false ∧ O' = O ∧ I' = insert g I))
    (hs' : s' = s''.store f i x) (ht : s.TableAt T p f) (hi : radix.top (p.headD i) = true)
    (hspace : s'.space T = (s.space T).update p i (some x))
    (hM : s.space T p i = none) (hw : p.length = 3 → x.writable = w) :
    Grows w s s' T O I O' I' where
  space := h
  own := by
    rcases hsub with ⟨rfl, -⟩ | ⟨-, rfl, -⟩
    · exact Set.subset_insert g O
    · exact subset_rfl
  share := by
    rcases hsub with ⟨-, rfl⟩ | ⟨-, -, rfl⟩
    · exact subset_rfl
    · exact Set.subset_insert g I
  shared hw := by
    rcases hsub with ⟨-, h⟩ | ⟨hw', -, -⟩
    · exact h
    · rw [hw] at hw'
      cases hw'
  allocated f' := by
    have ha : s'.Allocated f' ↔ f' = g ∨ s.Allocated f' := hs' ▸ hn.allocated f'
    rw [ha]
    have hold := hs.allocated f'
    rcases hsub with ⟨rfl, rfl⟩ | ⟨-, rfl, rfl⟩ <;> simp only [Set.mem_insert_iff] <;> tauto
  old f' hf' := by
    have hne : f' ≠ g := fun he => hn.free (he ▸ hf')
    rcases hsub with ⟨rfl, rfl⟩ | ⟨-, rfl, rfl⟩ <;> simp only [Set.mem_insert_iff] <;> tauto
  mem f' hf' hO := by
    have hne : f' ≠ g := fun he => hn.free (he ▸ hf')
    have hne' : f' ≠ f := fun he => hO (by rw [he]; exact hs.mem_table ht)
    rw [hs', Machine.store_mem, Radix.set_frame _ _ _ hne', hn.mem f' hne]
  cr3 := by
    rw [hs']
    exact hn.cr3
  low k hk := by
    have hTg : T ≠ g := fun he => hn.free (he ▸ hs.allocated T (.inl hs.owns.root))
    rw [hs', Machine.store_mem, Radix.set_of_ne, hn.mem T hTg]
    rintro ⟨rfl, rfl⟩
    exact absurd (hs.root_entry ht hi rfl) (by omega)
  keep q j e he := by
    rw [hspace]
    exact PageMap.update_keep hM he
  leaf q j e hq hnone he := by
    rw [hspace] at he
    obtain ⟨⟨rfl, -⟩, hx⟩ := PageMap.update_new hnone he
    cases hx
    exact hw hq

end Grows

/-! ## One entry of `SetupPageMap` -/

/-- The entry for a new frame. -/
def PageMapEntry.made (e : PageMapEntry) (g : Nat) (writable : Bool) : PageMapEntry :=
  { e.setPointer g with present := true, user := true, writable }

/-- The place of a table's entry that is not present gets a new frame. -/
theorem made_grows (h : Space s T O I) (hf : s.TableAt T p f) (hi : radix.top (p.headD i) = true)
    (hM : s.space T p i = none) (hn : Fresh s s' g) (hzero : s'.mem g = fun _ => .zero) :
    ∃ O' I', ∃ s₁, s₁ = s'.store f i ((s'.mem f i).made g (p.length ≠ 3 || w)) ∧
      Grows w s s₁ T O I O' I' ∧
        ∃ e, e.addr = g ∧ s₁.space T = (s.space T).update p i (some e) := by
  have hfO := h.mem_table hf
  have hdepth : p.length < 4 := hf.depth
  have hg : ∀ {f}, f ∈ O ∨ f ∈ I → f ≠ g := fun hf he => hn.free (he ▸ h.allocated _ hf)
  have hsmall : (s'.mem f i).hugePage = false := by
    rw [hn.mem f (hg (.inl hfO))]
    exact h.small hf i hi
  have haddr : ∀ b, ((s'.mem f i).made g b).addr = g := fun _ => hn.setPointer (s'.mem f i)
  cases hw : (decide (p.length ≠ 3) || w) with
  | true =>
      obtain ⟨hs, hupd⟩ := h.link hn hf hi (.inl hM) (fun _ => hzero)
        (x := (s'.mem f i).made g true) rfl ⟨rfl, rfl⟩ hsmall (haddr true)
      refine ⟨insert g O, I, _, rfl, .of_update h hs hn (.inl ⟨rfl, rfl⟩) rfl hf hi hupd hM
        fun h3 => ?_, _, haddr true, hupd⟩
      have hw : w = true := by simpa [h3] using hw
      exact hw.symm
  | false =>
      obtain ⟨h3, rfl⟩ : p.length = 3 ∧ w = false := by simpa using hw
      have hmem : ∀ f ∈ O, s'.mem f = s.mem f := fun f hf => hn.mem f (hg (.inl hf))
      have hapart : ∀ f ∈ O, f ∉ insert g I := fun f hf hfI =>
        hfI.elim (hg (.inl hf)) (h.owns.apart f hf)
      have halloc : ∀ f, f ∈ O ∨ f ∈ insert g I → s'.Allocated f := fun f hf => by
        refine (hn.allocated f).mpr ?_
        rcases hf with hf | rfl | hf
        · exact .inr (h.allocated f (.inl hf))
        · exact .inl rfl
        · exact .inr (h.allocated f (.inr hf))
      obtain ⟨hs, hupd⟩ := h.link_share hmem (Set.subset_insert g I) hapart halloc hf h3 hi hM
        (x := (s'.mem f i).made g false) rfl ⟨rfl, rfl⟩ hsmall (.inl (haddr false))
      exact ⟨O, insert g I, _, rfl, .of_update h hs hn (.inr ⟨rfl, rfl, rfl⟩) rfl hf hi hupd hM
        fun _ => rfl, _, haddr false, hupd⟩

/-- The entry is there, or a new frame comes. -/
theorem setupEntry_grows (h : Space s T O I) (hf : s.TableAt T p f)
    (hi : radix.top (p.headD i) = true)
    (hleaf : p.length = 3 → ∀ e, s.space T p i = some e → e.writable = w)
    (hr : s.setupEntry f i (p.length ≠ 3 || w) = (s', .ok g)) :
    ∃ O' I', Grows w s s' T O I O' I' ∧ (∃ e, s'.space T p i = some e ∧ e.addr = g) ∧
      ∀ q k, s.space T q k = none → s'.space T q k ≠ none → q = p ∧ k = i := by
  have hspace := space_of_table hf hi
  have hdepth : p.length < 4 := hf.depth
  rw [Machine.setupEntry, Machine.setNewPageMapIfNotPresent] at hr
  cases hp : (s.mem f i).present with
  | true =>
      -- the bits are as they would be written
      rw [hp, if_pos rfl] at hspace
      have hsame : { s.mem f i with user := true, writable := p.length ≠ 3 || w } = s.mem f i := by
        have hu := h.owns.user hspace
        have hw : (s.mem f i).writable = (p.length ≠ 3 || w) := by
          by_cases h3 : p.length = 3
          · simpa [h3] using hleaf h3 _ hspace
          · simpa [h3] using h.owns.table hspace (by omega)
        rw [← hu, ← hw]
      rw [if_pos hp] at hr
      simp only [hsame] at hr
      cases hr
      have hself : s.store f i (s.mem f i) = s := by
        rw [Machine.store, Radix.set_eq_self]
      rw [hself]
      exact ⟨O, I, .refl h, ⟨_, hspace, rfl⟩, fun q k hn hs => absurd hn hs⟩
  | false =>
      rw [hp, if_neg Bool.false_ne_true] at hspace
      rw [if_neg (by rw [hp]; exact Bool.false_ne_true)] at hr
      cases hnew : s.newPageMap with
      | mk s₁ r =>
          rw [hnew] at hr
          cases r with
          | error e => cases hr
          | ok g' =>
              cases hr
              obtain ⟨hn, hzero⟩ := fresh_of_newPageMap hnew
              rw [Machine.store_store, Machine.store_mem, Radix.set_self]
              obtain ⟨O', I', s', hs', hgrows, e, he, hupd⟩ :=
                made_grows (w := w) h hf hi hspace hn hzero
              rw [PageMapEntry.made] at hs'
              simp only [← hs']
              refine ⟨O', I', hgrows, ⟨e, ?_, he⟩, fun q k hnone hsome => ?_⟩
              · rw [hupd, PageMap.update_self]
              · by_contra hne
                rw [hupd, PageMap.update_of_ne hne] at hsome
                exact hsome hnone

theorem setupEntry_error {b : Bool} {e : Error} (hr : s.setupEntry f i b = (s', .error e)) :
    s' = s := by
  rw [Machine.setupEntry, Machine.setNewPageMapIfNotPresent] at hr
  by_cases hp : (s.mem f i).present
  · rw [if_pos hp] at hr
    cases hr
  · rw [if_neg hp] at hr
    cases hnew : s.newPageMap with
    | mk s₁ r =>
        rw [hnew] at hr
        cases r with
        | error e =>
            cases hr
            exact Machine.newPageMap_error hnew
        | ok g => cases hr

/-! ## The loop over a table -/

/-- The entries of a table from a number on. -/
def entriesFrom (n : Nat) : List (Fin 512) := (List.finRange 512).drop n

theorem entriesFrom_lt {n : Nat} (h : n < 512) : entriesFrom n = ⟨n, h⟩ :: entriesFrom (n + 1) := by
  rw [entriesFrom, entriesFrom, List.drop_eq_getElem_cons (by simpa using h)]
  simp

theorem entriesFrom_end : entriesFrom 512 = [] := by
  rw [entriesFrom, List.drop_eq_nil_iff]
  simp

/-- The leaves of these pages have the writable bit `w`, if they are present. -/
def LeavesAre (w : Bool) (s : Machine) (T first num : Nat) : Prop :=
  ∀ q i e, q.length = 3 → first ≤ number (q ++ [i]) → number (q ++ [i]) < first + num →
    s.space T q i = some e → e.writable = w

/-- The pages below `p` are mapped. -/
def Mapped (s : Machine) (T : Nat) (p : List (Fin 512)) (first num : Nat) : Prop :=
  ∀ q i, q.length = 3 → p <+: q ++ [i] → first ≤ number (q ++ [i]) →
    number (q ++ [i]) < first + num → s.space T q i ≠ none

/-- The pages that have come are of these. -/
def Within (s s' : Machine) (T first num : Nat) : Prop :=
  ∀ q i, q.length = 3 → s.space T q i = none → s'.space T q i ≠ none →
    first ≤ number (q ++ [i]) ∧ number (q ++ [i]) < first + num

theorem Within.refl {first num : Nat} : Within s s T first num :=
  fun _ _ _ hn hs => absurd hn hs

theorem Within.trans {first num : Nat} (h : Within s s' T first num)
    (h' : Within s' s'' T first num) : Within s s'' T first num := fun q i hq hn hs => by
  by_cases hm : s'.space T q i = none
  · exact h' q i hq hm hs
  · exact h q i hq hn hm

theorem LeavesAre.grows {first num : Nat} (h : LeavesAre w s T first num)
    (hg : Grows w s s' T O I O' I') : LeavesAre w s' T first num := fun q i e hq h1 h2 he => by
  cases hs : s.space T q i with
  | none => exact hg.leaf q i e hq hs he
  | some x =>
      have hx := hg.keep q i x hs
      rw [he] at hx
      cases hx
      exact h q i e hq h1 h2 hs

/-- The outcome of a call for `num` pages from `first` on, which can do `most` of them below
`p`.  A call that fails keeps what it has done. -/
def SetUp (w : Bool) (s s' : Machine) (T : Nat) (O I : Set Nat) (p : List (Fin 512))
    (first num most : Nat) (res : Except Error Nat) : Prop :=
  ∃ O' I', Grows w s s' T O I O' I' ∧ Within s s' T first num ∧
    ∀ remain, res = .ok remain → remain = num - most ∧ Mapped s' T p first num

/-- What a call of `SetupPageMap` at a level gives. -/
def SetupSpec (w : Bool) (level : Nat) : Prop :=
  ∀ {s s' : Machine} {T f : Nat} {O I : Set Nat} {p r : List (Fin 512)} {n : Nat}
    {res : Except Error Nat},
    Space s T O I → s.TableAt T p f → p.length + level = 4 → r.length = level →
    (p = [] → 256 ≤ (r.headD 0).val) → LeavesAre w s T (number (p ++ r)) n →
    Machine.setupPageMap w level s f r n = (s', res) →
    SetUp w s s' T O I p (number (p ++ r)) n (512 ^ level - number r) res

theorem number_place (p : List (Fin 512)) (j : Fin 512) (b : List (Fin 512)) :
    number (p ++ j :: b) = (number p * 512 + j) * 512 ^ b.length + number b := by
  rw [number_append, number, List.length_cons, Nat.pow_succ', Nat.add_mul, Nat.mul_assoc,
    Nat.add_assoc]

/-- A page is below the entry that its number says. -/
theorem prefix_of_number {level : Nat} {x : List (Fin 512)} {j : Fin 512} (hp : p <+: x)
    (hlen : x.length = p.length + 1 + level)
    (h1 : (number p * 512 + j) * 512 ^ level ≤ number x)
    (h2 : number x < (number p * 512 + (j + 1)) * 512 ^ level) : p ++ [j] <+: x := by
  obtain ⟨r, rfl⟩ := hp
  cases r with
  | nil =>
      rw [List.length_append, List.length_nil] at hlen
      omega
  | cons k r =>
      have hr : r.length = level := by
        simp only [List.length_append, List.length_cons] at hlen
        omega
      have hlt := number_lt r
      rw [hr] at hlt
      rw [number_place, hr] at h1 h2
      have hj : number p * 512 + j < number p * 512 + k + 1 := by
        refine Nat.lt_of_mul_lt_mul_right (a := 512 ^ level) ?_
        rw [Nat.add_mul _ 1, Nat.one_mul]
        omega
      have hk : number p * 512 + k < number p * 512 + (j + 1) := by
        refine Nat.lt_of_mul_lt_mul_right (a := 512 ^ level) ?_
        omega
      obtain rfl : j = k := Fin.ext (by omega)
      exact ⟨r, by simp⟩

/-! ### The rule -/

/-- The places on the way to these pages, from the table of `p` on. -/
def OnTheWay (A : List (Fin 512) → Fin 512 → Prop) (p : List (Fin 512)) (first num : Nat) : Prop :=
  ∀ x, x.length = 4 → first ≤ number x → number x < first + num →
    ∀ q i, p <+: q → q ++ [i] <+: x → A q i

/-- What it takes to follow a call of `SetupPageMap` along: `Ext` compares the machine before with
a later one, `Ok` are the places that the call may come to, and `Entered` says that it was at
one. -/
structure SetupRule (w : Bool) (T : Nat) (Good : Machine → Prop) (Ext : Machine → Machine → Prop)
    (Ok : List (Fin 512) → Fin 512 → Prop)
    (Entered : Machine → List (Fin 512) → Fin 512 → Prop) : Prop where
  refl : ∀ {s}, Good s → Ext s s
  trans : ∀ {s s' s''}, Ext s s' → Ext s' s'' → Ext s s''
  good : ∀ {s s'}, Good s → Ext s s' → Good s'
  table : ∀ {s s' p f}, Good s → Ext s s' → s.TableAt T p f → s'.TableAt T p f
  entered : ∀ {s s' p i}, Good s → Ext s s' → Entered s p i → Entered s' p i
  entry : ∀ {s s' p i f g}, Good s → s.TableAt T p f → radix.top (p.headD i) = true → Ok p i →
    s.setupEntry f i (p.length ≠ 3 || w) = (s', .ok g) →
      Ext s s' ∧ Entered s' p i ∧ ∃ e, s'.space T p i = some e ∧ e.addr = g

section
variable {Good : Machine → Prop} {Ext : Machine → Machine → Prop}
  {Ok : List (Fin 512) → Fin 512 → Prop} {Entered : Machine → List (Fin 512) → Fin 512 → Prop}
  {A : List (Fin 512) → Fin 512 → Prop} {first num : Nat}

theorem OnTheWay.below (h : OnTheWay A p first num) (i : Fin 512) :
    OnTheWay A (p ++ [i]) first num :=
  fun x hx h1 h2 r k hr => h x hx h1 h2 r k ((List.prefix_append p [i]).trans hr)

/-- The outcome of a call for `num` pages, which can do `most` of them below `p`.  A call that fails
keeps what it has done. -/
def Followed (Ext : Machine → Machine → Prop)
    (Entered : Machine → List (Fin 512) → Fin 512 → Prop) (s s' : Machine) (p : List (Fin 512))
    (first num most : Nat) (res : Except Error Nat) : Prop :=
  Ext s s' ∧ ∀ remain, res = .ok remain →
    remain = num - most ∧ OnTheWay (Entered s') p first num

/-- What the rule says of a level. -/
def FollowedSpec (w : Bool) (T : Nat) (Good : Machine → Prop) (Ext : Machine → Machine → Prop)
    (Ok : List (Fin 512) → Fin 512 → Prop)
    (Entered : Machine → List (Fin 512) → Fin 512 → Prop) (level : Nat) : Prop :=
  ∀ {s s' : Machine} {f : Nat} {p r : List (Fin 512)} {n : Nat} {res : Except Error Nat},
    Good s → s.TableAt T p f → p.length + level = 4 → r.length = level →
    (p = [] → 256 ≤ (r.headD 0).val) → OnTheWay Ok p (number (p ++ r)) n →
    Machine.setupPageMap w level s f r n = (s', res) →
    Followed Ext Entered s s' p (number (p ++ r)) n (512 ^ level - number r) res

/-- What `SetupPageMap` does below an entry, a page or a table of pages, before it goes on or
fails. -/
theorem SetupRule.below (h : SetupRule w T Good Ext Ok Entered) {level : Nat}
    (ih : FollowedSpec w T Good Ext Ok Entered level) {is b : List (Fin 512)} {n : Nat}
    {res : Except Error Nat} {e : PageMapEntry} (hgood : Good s)
    (he : s.space T p i = some e) (hlen : p.length + (level + 1) = 4) (hb : b.length = level)
    (hok : OnTheWay Ok p (number (p ++ i :: b)) n)
    (hr : (if level + 1 = 1 then
        Machine.setupLoop w (level + 1) (Machine.setupPageMap w level) f s is
          (List.replicate b.length 0) (n - 1)
      else
        match Machine.setupPageMap w level s e.addr b n with
        | (s, .error e) => (s, .error e)
        | (s, .ok remain) =>
            Machine.setupLoop w (level + 1) (Machine.setupPageMap w level) f s is
              (List.replicate b.length 0) remain) = (s', res)) :
    ∃ s₂, Ext s s₂ ∧ ((s₂ = s' ∧ ∃ e, res = .error e) ∨
      OnTheWay (Entered s₂) (p ++ [i]) (number (p ++ i :: b)) n ∧
        Machine.setupLoop w (level + 1) (Machine.setupPageMap w level) f s₂ is
          (List.replicate b.length 0) (n - (512 ^ level - number b)) = (s', res)) := by
  obtain ⟨f', -, hi, hpres, -⟩ := table_of_space he
  by_cases hl : level = 0
  · -- a page has no places below it
    subst hl
    obtain rfl := List.length_eq_zero_iff.mp hb
    rw [if_pos rfl] at hr
    refine ⟨s, h.refl hgood, .inr ⟨fun x hx _ _ q k hq hk => ?_, by simpa [number] using hr⟩⟩
    have hqlen := hq.length_le
    have hklen := hk.length_le
    rw [List.length_append, List.length_singleton] at hqlen hklen
    omega
  · rw [if_neg (by omega)] at hr
    have htable : s.TableAt T (p ++ [i]) e.addr :=
      (Radix.table_snoc hi).mpr ⟨by simp only [radix]; omega, e, he, radix_next_some.mpr ⟨hpres, rfl⟩⟩
    have happ : p ++ [i] ++ b = p ++ i :: b := by simp
    cases hchild : Machine.setupPageMap w level s e.addr b n with
    | mk s₂ r =>
        rw [hchild] at hr
        have hcall := ih hgood htable (by rw [List.length_append, List.length_singleton]; omega) hb
          (by simp) (by rw [happ]; exact hok.below i) hchild
        rw [happ] at hcall
        obtain ⟨hext, hdone⟩ := hcall
        cases r with
        | error e =>
            cases hr
            exact ⟨_, hext, .inl ⟨rfl, e, rfl⟩⟩
        | ok n₂ =>
            obtain ⟨rfl, hway⟩ := hdone n₂ rfl
            exact ⟨s₂, hext, .inr ⟨hway, hr⟩⟩

/-- The loop of `SetupPageMap` from an entry of a table on. -/
theorem SetupRule.loop (h : SetupRule w T Good Ext Ok Entered) {level : Nat}
    (ih : FollowedSpec w T Good Ext Ok Entered level) {d : Nat} :
    ∀ {j : Nat}, d + j = 512 → ∀ {s s' : Machine} {b : List (Fin 512)} {n : Nat}
      {res : Except Error Nat},
    Good s → s.TableAt T p f → p.length + (level + 1) = 4 → b.length = level →
    (j = 512 → number b = 0) → (p = [] → 256 ≤ j) →
    OnTheWay Ok p ((number p * 512 + j) * 512 ^ level + number b) n →
    Machine.setupLoop w (level + 1) (Machine.setupPageMap w level) f s (entriesFrom j) b n =
      (s', res) →
    Followed Ext Entered s s' p ((number p * 512 + j) * 512 ^ level + number b) n
      ((512 - j) * 512 ^ level - number b) res := by
  induction d with
  | zero =>
      intro j hj s s' b n res hgood hf hlen hb hj0 _ _ hr
      obtain rfl : j = 512 := by omega
      rw [entriesFrom_end, Machine.setupLoop] at hr
      cases hr
      refine ⟨h.refl hgood, fun n' hn' => ?_⟩
      cases hn'
      refine ⟨by simp, fun x hx h1 _ q i hq hi => ?_⟩
      -- the table has no more pages
      obtain ⟨r, rfl⟩ := hq.trans ((List.prefix_append q [i]).trans hi)
      have hrlen : r.length = level + 1 := by
        rw [List.length_append] at hx
        omega
      have hlt := number_lt r
      rw [number_append, hrlen, Nat.pow_succ'] at h1
      rw [hrlen, Nat.pow_succ'] at hlt
      rw [Nat.add_mul, Nat.mul_assoc] at h1
      omega
  | succ d ihd =>
      intro j hj s s' b n res hgood hf hlen hb hj0 htop hok hr
      have hj512 : j < 512 := by omega
      rw [entriesFrom_lt hj512, Machine.setupLoop] at hr
      split at hr
      next h0 =>
        cases hr
        refine ⟨h.refl hgood, fun n' hn' => ?_⟩
        cases hn'
        exact ⟨by omega, fun x _ h1 h2 => by omega⟩
      next h0 =>
        have hwb : (decide (level + 1 ≠ 1) || w) = (decide (p.length ≠ 3) || w) := by
          congr 2
          exact propext (by omega)
        rw [hwb] at hr
        have hi : radix.top (p.headD ⟨j, hj512⟩) = true := by
          cases p with
          | nil => simpa [radix] using htop rfl
          | cons k p => exact hf.top k rfl
        have hblt := number_lt b
        rw [hb] at hblt
        have hnext : (number p * 512 + (j + 1)) * 512 ^ level =
            (number p * 512 + j) * 512 ^ level + 512 ^ level := by
          rw [← Nat.add_assoc, Nat.succ_mul]
        have hcount : (512 - j) * 512 ^ level = (512 - (j + 1)) * 512 ^ level + 512 ^ level := by
          rw [← Nat.succ_mul]
          congr 1
          omega
        have hzeros : number (List.replicate level 0) = 0 := number_zeros _
        have hhere : number (p ++ ⟨j, hj512⟩ :: b) =
            (number p * 512 + j) * 512 ^ level + number b := by rw [number_place, hb]
        cases hentry : s.setupEntry f ⟨j, hj512⟩ (p.length ≠ 3 || w) with
        | mk s₁ r =>
            rw [hentry] at hr
            cases r with
            | error e =>
                cases hr
                obtain rfl := setupEntry_error hentry
                exact ⟨h.refl hgood, fun n' hn' => by cases hn'⟩
            | ok g =>
                have hokHere : Ok p ⟨j, hj512⟩ := hok (p ++ ⟨j, hj512⟩ :: b)
                  (by rw [List.length_append, List.length_cons]; omega) (by rw [hhere])
                  (by rw [hhere]; omega) p _ List.prefix_rfl ⟨b, by simp⟩
                obtain ⟨h₁, hentered, e, he, hg⟩ := h.entry hgood hf hi hokHere hentry
                have hgood₁ := h.good hgood h₁
                obtain ⟨s₂, h₂, hr⟩ := h.below ih hgood₁ he hlen hb (by rw [hhere]; exact hok)
                  (hg ▸ hr)
                have hgood₂ := h.good hgood₁ h₂
                have h₁₂ := h.trans h₁ h₂
                rcases hr with ⟨rfl, e, rfl⟩ | ⟨hway, hr⟩
                · exact ⟨h₁₂, fun n' hn' => by cases hn'⟩
                have hokRest : OnTheWay Ok p ((number p * 512 + (j + 1)) * 512 ^ level +
                    number (List.replicate level 0)) (n - (512 ^ level - number b)) :=
                  fun x hx h1 h2 => hok x hx (by omega) (by omega)
                rw [hb] at hr
                obtain ⟨h', hdone⟩ := ihd (j := j + 1) (by omega) hgood₂ (h.table hgood h₁₂ hf) hlen
                  List.length_replicate (fun _ => hzeros) (fun hp => by have := htop hp; omega)
                  hokRest hr
                refine ⟨h.trans h₁₂ h', fun n' hn' => ?_⟩
                obtain ⟨rfl, hrest⟩ := hdone n' hn'
                refine ⟨by omega, fun x hx h1 h2 q k hq hk => ?_⟩
                by_cases hlt : number x < (number p * 512 + (j + 1)) * 512 ^ level
                · -- the page is below this entry
                  have hbelow : p ++ [⟨j, hj512⟩] <+: x :=
                    prefix_of_number (hq.trans ((List.prefix_append q [k]).trans hk)) (by omega)
                      (by dsimp only; omega) hlt
                  have hplace : q = p ∧ k = ⟨j, hj512⟩ ∨ p ++ [⟨j, hj512⟩] <+: q := by
                    rcases List.prefix_or_prefix_of_prefix hbelow hk with hle | hle
                    · rcases List.prefix_concat_iff.mp hle with heq | hle
                      · obtain ⟨rfl, hkj⟩ := List.append_inj' heq rfl
                        cases hkj
                        exact .inl ⟨rfl, rfl⟩
                      · exact .inr hle
                    · have hqp : q = p := by
                        refine (hq.eq_of_length_le ?_).symm
                        have hlen := hle.length_le
                        rw [List.length_append, List.length_append] at hlen
                        exact Nat.le_of_add_le_add_right hlen
                      subst hqp
                      have hkj := List.append_inj' (hle.eq_of_length (by simp)) rfl
                      exact .inl ⟨rfl, List.head_eq_of_cons_eq hkj.2⟩
                  rcases hplace with ⟨rfl, rfl⟩ | hbelow'
                  · exact h.entered hgood₁ (h.trans h₂ h') hentered
                  · exact h.entered hgood₂ h' (hway x hx (le_of_eq_of_le hhere h1)
                      (lt_of_lt_of_eq h2 (congrArg (· + n) hhere.symm)) q k hbelow' hk)
                · exact hrest x hx (by omega) (by omega) q k hq hk

/-- **`SetupPageMap`, followed along.** -/
theorem SetupRule.followed (h : SetupRule w T Good Ext Ok Entered) (level : Nat) :
    FollowedSpec w T Good Ext Ok Entered level := by
  induction level with
  | zero =>
      intro s s' f p r n res _ hf hlen
      have hdepth : p.length < 4 := hf.depth
      omega
  | succ level ih =>
      intro s s' f p r n res hgood hf hlen hr htop hok hcall
      cases r with
      | nil => cases hr
      | cons i b =>
          have hb : b.length = level := Nat.succ.inj hr
          rw [number_place, hb] at hok ⊢
          have hloop := h.loop ih (d := 512 - i) (j := i) (by omega) hgood hf hlen hb
            (fun hi => absurd hi (by omega)) htop hok hcall
          have hmost : (512 - i.val) * 512 ^ level - number b = 512 ^ (level + 1) - number (i :: b) := by
            have hi : (512 - i.val) * 512 ^ level + i * 512 ^ level = 512 * 512 ^ level := by
              rw [← Nat.add_mul]
              congr 1
              omega
            rw [number, hb, Nat.pow_succ']
            omega
          rwa [hmost] at hloop

end

/-! ### What comes -/

/-- `Grows` follows a call along. -/
theorem grows_rule (w : Bool) (T first num : Nat) :
    SetupRule w T (fun s => (∃ O I, Space s T O I) ∧ LeavesAre w s T first num)
      (fun s s' => ∀ O I, Space s T O I → ∃ O' I', Grows w s s' T O I O' I' ∧ Within s s' T first num)
      (fun q i => q.length = 3 → first ≤ number (q ++ [i]) ∧ number (q ++ [i]) < first + num)
      (fun s q i => s.space T q i ≠ none) where
  refl hgood O I hs := ⟨O, I, .refl hs, .refl⟩
  trans h h' O I hs := by
    obtain ⟨O₁, I₁, h₁, hwithin₁⟩ := h O I hs
    obtain ⟨O₂, I₂, h₂, hwithin₂⟩ := h' O₁ I₁ h₁.space
    exact ⟨O₂, I₂, h₁.trans h₂, hwithin₁.trans hwithin₂⟩
  good hgood h := by
    obtain ⟨⟨O, I, hs⟩, hleaf⟩ := hgood
    obtain ⟨O', I', hg, -⟩ := h O I hs
    exact ⟨⟨O', I', hg.space⟩, hleaf.grows hg⟩
  table hgood h hf := by
    obtain ⟨⟨O, I, hs⟩, -⟩ := hgood
    obtain ⟨O', I', hg, -⟩ := h O I hs
    exact hg.table hf
  entered {s s' p i} hgood h hsome := by
    obtain ⟨⟨O, I, hs⟩, -⟩ := hgood
    obtain ⟨O', I', hg, -⟩ := h O I hs
    obtain ⟨e, he⟩ := Option.ne_none_iff_exists'.mp hsome
    rw [hg.keep p i e he]
    exact Option.some_ne_none e
  entry {s s' p i f g} hgood hf hi hok hr := by
    obtain ⟨⟨O, I, hs⟩, hleaf⟩ := hgood
    have hleaf3 : p.length = 3 → ∀ e, s.space T p i = some e → e.writable = w := fun h3 e he =>
      hleaf p i e h3 (hok h3).1 (hok h3).2 he
    obtain ⟨O₁, I₁, -, ⟨e, he, hg⟩, -⟩ := setupEntry_grows hs hf hi hleaf3 hr
    refine ⟨fun O I hs => ?_, by rw [he]; exact Option.some_ne_none e, e, he, hg⟩
    obtain ⟨O', I', hgrows, -, honly⟩ := setupEntry_grows hs hf hi hleaf3 hr
    refine ⟨O', I', hgrows, fun q k hq hn hs' => ?_⟩
    obtain ⟨rfl, rfl⟩ := honly q k hn hs'
    exact hok hq

/-- The pages at the ends of the ways. -/
theorem onTheWay_pages (p : List (Fin 512)) (first num : Nat) :
    OnTheWay (fun q i => q.length = 3 →
      first ≤ number (q ++ [i]) ∧ number (q ++ [i]) < first + num) p first num := by
  intro x hx h1 h2 q i _ hi h3
  have heq := hi.eq_of_length (by
    rw [List.length_append, List.length_singleton]
    omega)
  rw [heq]
  exact ⟨h1, h2⟩

/-- **`SetupPageMap`.** -/
theorem setupPageMap_grows (w : Bool) (level : Nat) : SetupSpec w level := by
  intro s s' T f O I p r n res h hf hlen hr htop hleaf hcall
  have hdepth : p.length < 4 := hf.depth
  obtain ⟨hext, hdone⟩ := (grows_rule w T (number (p ++ r)) n).followed level ⟨⟨O, I, h⟩, hleaf⟩ hf hlen
    hr htop (onTheWay_pages p _ n) hcall
  obtain ⟨O', I', hgrows, hwithin⟩ := hext O I h
  refine ⟨O', I', hgrows, hwithin, fun remain hremain => ?_⟩
  obtain ⟨hcount, hway⟩ := hdone remain hremain
  refine ⟨hcount, fun q i hq hp h1 h2 => hway (q ++ [i]) ?_ h1 h2 q i ?_ List.prefix_rfl⟩
  · rw [List.length_append, List.length_singleton]
    omega
  · rcases List.prefix_concat_iff.mp hp with heq | hp
    · have := congrArg List.length heq
      rw [List.length_append, List.length_singleton] at this
      omega
    · exact hp

/-! ## One page -/

/-- The entries on the way to one page. -/
def Machine.setupPath (w : Bool) : Machine → Nat → List (Fin 512) → Machine × Except Error Unit
  | s, _, [] => (s, .ok ())
  | s, table, i :: p =>
      match s.setupEntry table i (!p.isEmpty || w) with
      | (s, .error e) => (s, .error e)
      | (s, .ok child) => setupPath w s child p

theorem setupLoop_zero (level : Nat)
    (child : Machine → Nat → List (Fin 512) → Nat → Machine × Except Error Nat) (table : Nat)
    (is b : List (Fin 512)) : Machine.setupLoop w level child table s is b 0 = (s, .ok 0) := by
  cases is with
  | nil => rfl
  | cons i is => rfl

theorem indices_cons (i : Fin 512) : ∃ is, indices i = i :: is :=
  ⟨_, entriesFrom_lt i.isLt⟩

/-- `SetupPageMap`, for one page. -/
theorem setupPageMap_one {level : Nat} (hp : p.length = level + 1) :
    Machine.setupPageMap w (level + 1) s f p 1 =
      ((s.setupPath w f p).1, (s.setupPath w f p).2.map fun _ => 0) := by
  induction level generalizing s f p with
  | zero =>
      obtain ⟨i, rfl⟩ := List.length_eq_one_iff.mp hp
      obtain ⟨is, his⟩ := indices_cons i
      rw [Machine.setupPageMap, List.headD_cons, his, Machine.setupLoop, Machine.setupPath]
      cases hentry : s.setupEntry f i w with
      | mk s₁ r =>
          have hbit : (decide (0 + 1 ≠ 1) || w) = w := rfl
          have hbit' : (!([] : List (Fin 512)).isEmpty || w) = w := rfl
          rw [hbit, hbit', hentry]
          cases r with
          | error e => rfl
          | ok g => exact setupLoop_zero ..
  | succ level ih =>
      cases p with
      | nil => cases hp
      | cons i p =>
          have hp : p.length = level + 1 := Nat.succ.inj hp
          obtain ⟨is, his⟩ := indices_cons i
          rw [Machine.setupPageMap, List.headD_cons, his, Machine.setupLoop, Machine.setupPath]
          have hbit : (decide (level + 1 + 1 ≠ 1) || w) = true := by
            rw [decide_eq_true (by omega), Bool.true_or]
          have hbit' : (!p.isEmpty || w) = true := by
            cases p with
            | nil => cases hp
            | cons j p => rfl
          rw [hbit, hbit', if_neg Nat.one_ne_zero]
          cases hentry : s.setupEntry f i true with
          | mk s₁ r =>
              cases r with
              | error e => rfl
              | ok g =>
                  have hlevel : ¬level + 1 + 1 = 1 := by omega
                  simp only [List.tail_cons, if_neg hlevel]
                  rw [ih hp]
                  cases hpath : s₁.setupPath w g p with
                  | mk s₂ r =>
                      cases r with
                      | error e => rfl
                      | ok u => exact setupLoop_zero ..

/-- `SetupPageMaps`, for one page. -/
theorem setupPageMaps_one (s : Machine) (addr : Nat) (w : Bool) :
    s.setupPageMaps addr 1 w = s.setupPath w s.cr3 (path addr) := by
  rw [Machine.setupPageMaps, setupPageMap_one rfl]
  cases s.setupPath w s.cr3 (path addr) with
  | mk s₁ r =>
      cases r with
      | error e => rfl
      | ok u => rfl

/-- A frame that `SetupPageMap` makes is zero. -/
theorem setupEntry_zero {b : Bool} (hf : s.Allocated f) (hnone : (s.mem f i).present = false)
    (hr : s.setupEntry f i b = (s', .ok g)) : s'.mem g = fun _ => .zero := by
  rw [Machine.setupEntry, Machine.setNewPageMapIfNotPresent, hnone,
    if_neg Bool.false_ne_true] at hr
  cases hnew : s.newPageMap with
  | mk s₁ r =>
      rw [hnew] at hr
      cases r with
      | error e => cases hr
      | ok g' =>
          cases hr
          obtain ⟨hn, hzero⟩ := fresh_of_newPageMap hnew
          have hfg : g ≠ f := fun heq => hn.free (heq ▸ hf)
          rw [Machine.store_store, Machine.store_mem, Radix.set_frame _ _ _ hfg]
          exact hzero

/-- **One page that was not there** is zero. -/
theorem setupPath_zero {r : List (Fin 512)} (h : Space s T O I) (hf : s.TableAt T p f)
    (hlen : p.length + r.length = 3) (hi : radix.top ((p ++ r).headD i) = true)
    (hnone : s.space T (p ++ r) i = none) (hr : s.setupPath w f (r ++ [i]) = (s', .ok ())) :
    ∃ e, s'.space T (p ++ r) i = some e ∧ s'.mem e.addr = fun _ => .zero := by
  induction r generalizing s p f O I with
  | nil =>
      simp only [List.append_nil, List.length_nil, Nat.add_zero] at hlen hi hnone ⊢
      rw [List.nil_append, Machine.setupPath] at hr
      cases hentry : s.setupEntry f i (!([] : List (Fin 512)).isEmpty || w) with
      | mk s₁ res =>
          rw [hentry] at hr
          cases res with
          | error e => cases hr
          | ok g =>
              cases hr
              have hspace := space_of_table hf hi
              have hpresent : (s.mem f i).present = false := by
                rw [hnone] at hspace
                by_contra hp
                rw [if_pos (by simpa using hp)] at hspace
                cases hspace
              have hzero := setupEntry_zero (h.allocated f (.inl (h.mem_table hf))) hpresent hentry
              have hbit : (!([] : List (Fin 512)).isEmpty || w) = (decide (p.length ≠ 3) || w) := by
                rw [decide_eq_false (by simpa using hlen)]
                rfl
              rw [hbit] at hentry
              obtain ⟨_, _, _, ⟨e, he, haddr⟩, _⟩ := setupEntry_grows h hf hi
                (fun _ e he => by rw [hnone] at he; cases he) hentry
              exact ⟨e, he, haddr ▸ hzero⟩
  | cons k r ih =>
      have hk : radix.top (p.headD k) = true := by cases p <;> exact hi
      rw [List.cons_append, Machine.setupPath] at hr
      cases hentry : s.setupEntry f k (!(r ++ [i]).isEmpty || w) with
      | mk s₁ res =>
          rw [hentry] at hr
          cases res with
          | error e => cases hr
          | ok g =>
              rw [List.length_cons] at hlen
              have hlt : p.length < 3 := by omega
              have hbit : (!(r ++ [i]).isEmpty || w) = (decide (p.length ≠ 3) || w) := by
                rw [decide_eq_true (by omega)]
                cases r <;> rfl
              rw [hbit] at hentry
              obtain ⟨O', I', hgrows, ⟨e, he, haddr⟩, honly⟩ := setupEntry_grows h hf hk
                (fun h3 => by omega) hentry
              obtain ⟨_, _, _, hpresent, _⟩ := table_of_space he
              have htable := (Radix.table_snoc hk).mpr
                ⟨Nat.succ_lt_succ hlt, e, he, radix_next_some.mpr ⟨hpresent, haddr⟩⟩
              have happ : p ++ [k] ++ r = p ++ k :: r := by simp
              have hstill : s₁.space T (p ++ k :: r) i = none := by
                by_contra hsome
                have hlength := congrArg List.length (honly _ _ hnone hsome).1
                simp at hlength
              rw [← happ] at hi hstill ⊢
              refine ih hgrows.space htable ?_ hi hstill hr
              rw [List.length_append, List.length_singleton]
              omega

/-- The first part of an address of the upper half. -/
theorem Upper.part {addr : Nat} (h : Upper addr) : 256 ≤ ((path addr).headD 0).val := by
  obtain ⟨h1, h2⟩ := h
  have hpart : ((path addr).headD 0).val = addr / 2 ^ 39 % 512 := rfl
  omega

/-- **`SetupPageMaps`.** -/
theorem setupPageMaps_grows {addr n : Nat} {res : Except Error Unit} (h : Space s s.cr3 O I)
    (haddr : Upper addr) (hleaf : LeavesAre w s s.cr3 (number (path addr)) n)
    (hr : s.setupPageMaps addr n w = (s', res)) :
    ∃ O' I', Grows w s s' s.cr3 O I O' I' ∧ Within s s' s.cr3 (number (path addr)) n ∧
      (res = .ok () → Mapped s' s.cr3 [] (number (path addr)) n) := by
  rw [Machine.setupPageMaps] at hr
  cases hcall : Machine.setupPageMap w 4 s s.cr3 (path addr) n with
  | mk s₁ r =>
      rw [hcall] at hr
      have hroot := tableAt_root s s.cr3
      obtain ⟨O', I', hgrows, hwithin, hok⟩ :=
        setupPageMap_grows w 4 h hroot rfl rfl (fun _ => haddr.part) hleaf hcall
      cases r with
      | error e =>
          cases hr
          exact ⟨O', I', hgrows, hwithin, fun he => by cases he⟩
      | ok n' =>
          cases hr
          exact ⟨O', I', hgrows, hwithin, fun _ => (hok n' rfl).2⟩

end Laplus.Paging
