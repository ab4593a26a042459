/-
# `Laplus.Paging.Exact` — which pages `SetupPageMaps` maps

A call goes down and up through four levels at once.  `Exact` says of every step what it
does to the entries of the upper half, whoever owns their frames; the rule for
`SetupPageMap` makes of it what a call does.
-/
import Laplus.Paging.Ownership

namespace Laplus.Paging

open Lib

variable {w : Bool} {s s' s'' : Machine} {T f g first num : Nat} {p q : List (Fin 512)}
  {i j : Fin 512} {e e' : PageMapEntry}

/-! ## Trees of tables -/

/-- The tables of the upper half: they are allocated, each is reached by one path, and no entry
above the last level has the bit of a large page. -/
structure Tree (s : Machine) (T : Nat) : Prop where
  once : ∀ {p q f}, s.TableAt T p f → s.TableAt T q f → q = p
  allocated : ∀ {p f}, s.TableAt T p f → s.Allocated f
  small : ∀ {p f}, s.TableAt T p f → p.length < 3 → ∀ i, radix.top (p.headD i) = true →
    (s.mem f i).hugePage = false

/-- The entry on the way to a page, or the page's own. -/
def PageMapEntry.opened (e : PageMapEntry) (writable : Bool) : PageMapEntry :=
  { e with user := true, writable }

theorem opened_opened (e : PageMapEntry) (b : Bool) : (e.opened b).opened b = e.opened b := rfl

theorem table_snoc (hi : radix.top (p.headD i) = true) : s.TableAt T (p ++ [i]) g ↔
    p.length < 3 ∧ ∃ e, s.space T p i = some e ∧ e.addr = g := by
  rw [Machine.TableAt, Radix.table_snoc hi]
  constructor
  · rintro ⟨hlt, e, he, hn⟩
    exact ⟨Nat.lt_of_succ_lt_succ hlt, e, he, (radix_next_some.mp hn).2⟩
  · rintro ⟨hlt, e, he, ha⟩
    obtain ⟨-, -, -, hpres, -⟩ := table_of_space he
    exact ⟨Nat.succ_lt_succ hlt, e, he, radix_next_some.mpr ⟨hpres, ha⟩⟩

/-- A table with a path that is not the root's is named by an entry. -/
theorem table_cases (hf : s.TableAt T p f) : p = [] ∧ f = T ∨
    ∃ q i e, p = q ++ [i] ∧ q.length < 3 ∧ s.space T q i = some e ∧ e.addr = f := by
  cases p using List.reverseRecOn with
  | nil => exact .inl ⟨rfl, (Option.some.inj hf.walk).symm⟩
  | append_singleton q i =>
      obtain ⟨hlt, e, he, ha⟩ := (table_snoc hf.init.1).mp hf
      exact .inr ⟨q, i, e, rfl, hlt, he, ha⟩

namespace Tree

/-- An entry that is present is opened. -/
theorem opens (h : Tree s T) (hf : s.TableAt T p f) (hi : radix.top (p.headD i) = true)
    (hpres : (s.mem f i).present = true) (b : Bool) :
    (s.store f i ((s.mem f i).opened b)).space T =
        (s.space T).update p i (some ((s.mem f i).opened b)) ∧
      Tree (s.store f i ((s.mem f i).opened b)) T := by
  have hnext : radix.next ((s.mem f i).opened b) = radix.next (s.mem f i) := rfl
  have htable : ∀ {q g}, (s.store f i ((s.mem f i).opened b)).TableAt T q g → s.TableAt T q g :=
    fun {q g} hq => ⟨hq.depth, hq.top,
      (Radix.walk_congr (Radix.next_set hnext) T q).symm.trans hq.walk⟩
  refine ⟨?_, ⟨fun hq hr => h.once (htable hq) (htable hr), fun hq => h.allocated (htable hq),
    fun {q g} hq hlt k hk => ?_⟩⟩
  · funext q k
    have hset := Radix.look_set_same (e := (s.mem f i).opened b) hf (fun q hq => h.once hf hq) hi
      hnext q k
    have hsome : (radix.next ((s.mem f i).opened b)).map (fun _ => (s.mem f i).opened b) =
        some ((s.mem f i).opened b) := by
      rw [hnext, radix_next_some.mpr ⟨hpres, rfl⟩, Option.map_some]
    rw [hsome] at hset
    exact hset
  · rw [Machine.store_mem]
    by_cases hgk : g = f ∧ k = i
    · rw [hgk.1, hgk.2, Radix.set_self]
      exact h.small (hgk.1 ▸ htable hq) hlt i (hgk.2 ▸ hk)
    · rw [Radix.set_of_ne _ _ hgk]
      exact h.small (htable hq) hlt k hk

/-- A place without an entry gets a new frame. -/
theorem links (h : Tree s T) (hf : s.TableAt T p f) (hi : radix.top (p.headD i) = true)
    (hM : s.space T p i = none) (hn : Fresh s s' g) (hzero : s'.mem g = fun _ => .zero)
    {x : PageMapEntry} (hx : x.present = true) (ha : x.addr = g)
    (hsmall : p.length < 3 → x.hugePage = false) :
    (s'.store f i x).space T = (s.space T).update p i (some x) ∧ Tree (s'.store f i x) T := by
  have hg : ∀ {q f'}, s.TableAt T q f' → f' ≠ g := fun hq he => hn.free (he ▸ h.allocated hq)
  have hmem : ∀ q f', s.TableAt T q f' → s'.mem f' = s.mem f' := fun q f' hq => hn.mem f' (hg hq)
  have hspace' : s'.space T = s.space T := Radix.look_congr hmem
  have htable' : ∀ {q f'}, s'.TableAt T q f' ↔ s.TableAt T q f' := Space.table_of_eq hspace'
  have hspace : (s'.store f i x).space T = (s.space T).update p i (some x) := by
    funext q k
    have hset := Radix.look_set (e := x) (htable'.mpr hf) (fun q hq => h.once hf (htable'.mp hq)) hi
      (fun q k hq => ?_) (fun g' hlt hg' => ?_) q k
    · have hsome : (radix.next x).map (fun _ => x) = some x := by
        rw [radix_next_some.mpr ⟨hx, rfl⟩, Option.map_some]
      rw [hsome] at hset
      rw [PageMap.update, ← hspace']
      exact hset
    · have hnone : s.space T q k = none := Space.below_none hi hM hq k
      rwa [← hspace'] at hnone
    · obtain rfl := ha.symm.trans (radix_next_some.mp hg').2
      exact ⟨fun he => hg hf he.symm, fun k => by rw [hzero]; rfl⟩
  -- the tables that were there, and the new one
  have htables : ∀ {q f'}, (s'.store f i x).TableAt T q f' →
      s.TableAt T q f' ∨ p.length < 3 ∧ q = p ++ [i] ∧ f' = g := by
    intro q f' hq
    rcases table_cases hq with ⟨rfl, rfl⟩ | ⟨r, k, y, rfl, hlt, hy, hya⟩
    · exact .inl (tableAt_root s _)
    · rw [hspace, PageMap.update] at hy
      split at hy
      next hrk =>
        cases hy
        obtain ⟨rfl, rfl⟩ := hrk
        exact .inr ⟨hlt, rfl, hya.symm.trans ha⟩
      next => exact .inl ((table_snoc hq.init.1).mpr ⟨hlt, y, hy, hya⟩)
  refine ⟨hspace, ⟨fun {q r f'} hq hr => ?_, fun {q f'} hq => ?_, fun {q f'} hq hlt k hk => ?_⟩⟩
  · rcases htables hq with hq | ⟨-, rfl, rfl⟩
    · rcases htables hr with hr | ⟨-, rfl, rfl⟩
      · exact h.once hq hr
      · exact absurd rfl (hg hq)
    · rcases htables hr with hr | ⟨-, rfl, -⟩
      · exact absurd rfl (hg hr)
      · rfl
  · refine (hn.allocated f').mpr ?_
    rcases htables hq with hq | ⟨-, -, rfl⟩
    · exact .inr (h.allocated hq)
    · exact .inl rfl
  · rw [Machine.store_mem]
    by_cases hfk : f' = f ∧ k = i
    · obtain ⟨rfl, rfl⟩ := hfk
      rw [Radix.set_self]
      rcases htables hq with hq | ⟨-, -, rfl⟩
      · obtain rfl := h.once hf hq
        exact hsmall hlt
      · exact absurd rfl (hg hf)
    · rw [Radix.set_of_ne _ _ hfk]
      rcases htables hq with hq | ⟨-, -, rfl⟩
      · rw [hmem _ _ hq]
        exact h.small hq hlt k hk
      · rw [hzero]
        rfl

end Tree

/-! ## What a call changes -/

/-- What the steps of a call for these pages do to the entries of the upper half. -/
structure Exact (w : Bool) (T first num : Nat) (s s' : Machine) : Prop where
  before : Tree s T
  after : Tree s' T
  cr3 : s'.cr3 = s.cr3
  allocated : ∀ f, s.Allocated f → s'.Allocated f
  keep : ∀ p i e, s.space T p i = some e →
    s'.space T p i = some e ∨ s'.space T p i = some (e.opened (p.length ≠ 3 || w))
  outside : ∀ p i, p.length = 3 →
    ¬(first ≤ number (p ++ [i]) ∧ number (p ++ [i]) < first + num) →
      s'.space T p i = s.space T p i
  new : ∀ p i e, s.space T p i = none → s'.space T p i = some e → ¬s.Allocated e.addr ∧
    s'.Allocated e.addr ∧ (p.length = 3 → s'.mem e.addr = fun _ => .zero)
  once : ∀ p i e q j e', s.space T p i = none → s'.space T p i = some e → s.space T q j = none →
    s'.space T q j = some e' → e.addr = e'.addr → p = q ∧ i = j
  mem : ∀ f, s.Allocated f → (∀ p, ¬s.TableAt T p f) → s'.mem f = s.mem f
  low : ∀ k : Fin 512, k.val < 256 → s'.mem T k = s.mem T k

namespace Exact

theorem refl (h : Tree s T) : Exact w T first num s s where
  before := h
  after := h
  cr3 := rfl
  allocated _ hf := hf
  keep _ _ _ he := .inl he
  outside _ _ _ _ := rfl
  new p i e hn hs := by
    rw [hn] at hs
    cases hs
  once p i e q j e' hn hs _ _ _ := by
    rw [hn] at hs
    cases hs
  mem _ _ _ := rfl
  low _ _ := rfl

/-- What is there stays, with its frame. -/
theorem some_addr (h : Exact w T first num s s') (he : s.space T p i = some e) :
    ∃ e', s'.space T p i = some e' ∧ e'.addr = e.addr := by
  rcases h.keep p i e he with he' | he'
  · exact ⟨e, he', rfl⟩
  · exact ⟨_, he', rfl⟩

theorem table (h : Exact w T first num s s') (hf : s.TableAt T p f) : s'.TableAt T p f := by
  rcases table_cases hf with ⟨rfl, rfl⟩ | ⟨q, i, e, rfl, hlt, he, ha⟩
  · exact tableAt_root s' f
  · obtain ⟨e', he', ha'⟩ := h.some_addr he
    exact (table_snoc hf.init.1).mpr ⟨hlt, e', he', ha'.trans ha⟩

/-- The frame of a new page is no table. -/
theorem leaf_not_table (h : Exact w T first num s s') (hp : p.length = 3)
    (hnone : s.space T p i = none) (he : s'.space T p i = some e) (q : List (Fin 512)) :
    ¬s'.TableAt T q e.addr := by
  obtain ⟨hfree, -, -⟩ := h.new p i e hnone he
  intro hq
  rcases table_cases hq with ⟨rfl, hT⟩ | ⟨r, j, y, rfl, hlt, hy, ha⟩
  · rw [hT] at hfree
    exact hfree (h.before.allocated (tableAt_root s T))
  · cases hr : s.space T r j with
    | none =>
        obtain ⟨rfl, -⟩ := h.once r j y p i e hr hy hnone he ha
        omega
    | some x =>
        obtain ⟨y', hy', ha'⟩ := h.some_addr hr
        rw [hy] at hy'
        cases hy'
        refine hfree (h.before.allocated (p := r ++ [j]) ?_)
        exact (table_snoc hq.init.1).mpr ⟨hlt, x, hr, ha'.symm.trans ha⟩

theorem trans (h : Exact w T first num s s') (h' : Exact w T first num s' s'') :
    Exact w T first num s s'' where
  before := h.before
  after := h'.after
  cr3 := h'.cr3.trans h.cr3
  allocated f hf := h'.allocated f (h.allocated f hf)
  keep p i e he := by
    rcases h.keep p i e he with he₁ | he₁
    · exact h'.keep p i e he₁
    · rcases h'.keep p i _ he₁ with he₂ | he₂
      · exact .inr he₂
      · exact .inr (he₂.trans (congrArg some (opened_opened e _)))
  outside p i hp hout := (h'.outside p i hp hout).trans (h.outside p i hp hout)
  new p i e hn hs := by
    cases hm : s'.space T p i with
    | none =>
        obtain ⟨hfree, halloc, hzero⟩ := h'.new p i e hm hs
        exact ⟨fun hf => hfree (h.allocated _ hf), halloc, hzero⟩
    | some x =>
        obtain ⟨hfree, halloc, hzero⟩ := h.new p i x hn hm
        obtain ⟨e', he', ha⟩ := h'.some_addr hm
        rw [hs] at he'
        cases he'
        rw [ha]
        refine ⟨hfree, h'.allocated _ halloc, fun hp => ?_⟩
        rw [h'.mem _ halloc (h.leaf_not_table hp hn hm), hzero hp]
  once p i e q j e' hn hs hn' hs' ha := by
    -- each of the two came with the first call or with the second
    cases hm : s'.space T p i with
    | none =>
        obtain ⟨hfree, -, -⟩ := h'.new p i e hm hs
        cases hm' : s'.space T q j with
        | none => exact h'.once p i e q j e' hm hs hm' hs' ha
        | some x =>
            obtain ⟨-, halloc, -⟩ := h.new q j x hn' hm'
            obtain ⟨y, hy, hya⟩ := h'.some_addr hm'
            rw [hs'] at hy
            cases hy
            exact absurd (ha.trans hya ▸ halloc) hfree
    | some x =>
        obtain ⟨-, halloc, -⟩ := h.new p i x hn hm
        obtain ⟨y, hy, hya⟩ := h'.some_addr hm
        rw [hs] at hy
        cases hy
        cases hm' : s'.space T q j with
        | none =>
            obtain ⟨hfree, -, -⟩ := h'.new q j e' hm' hs'
            exact absurd (ha.symm.trans hya ▸ halloc) hfree
        | some x' =>
            obtain ⟨y', hy', hya'⟩ := h'.some_addr hm'
            rw [hs'] at hy'
            cases hy'
            exact h.once p i x q j x' hn hm hn' hm' (hya.symm.trans (ha.trans hya'))
  mem f hf hno := by
    rw [h'.mem f (h.allocated f hf) fun p hp => ?_, h.mem f hf hno]
    rcases table_cases hp with ⟨rfl, rfl⟩ | ⟨q, i, y, rfl, hlt, hy, ha⟩
    · exact hno [] (tableAt_root s f)
    · cases hq : s.space T q i with
      | none => exact (h.new q i y hq hy).1 (ha ▸ hf)
      | some x =>
          obtain ⟨y', hy', ha'⟩ := h.some_addr hq
          rw [hy] at hy'
          cases hy'
          exact hno _ ((table_snoc hp.init.1).mpr ⟨hlt, x, hq, ha'.symm.trans ha⟩)
  low k hk := (h'.low k hk).trans (h.low k hk)

/-- An entry is written. -/
theorem of_update {x : PageMapEntry} (h : Tree s T) (h' : Tree s' T) (hf : s.TableAt T p f)
    (hi : radix.top (p.headD i) = true)
    (hin : p.length = 3 → first ≤ number (p ++ [i]) ∧ number (p ++ [i]) < first + num)
    (hupd : s'.space T = (s.space T).update p i (some x))
    (hold : ∀ e, s.space T p i = some e → x = e.opened (p.length ≠ 3 || w))
    (hnew : s.space T p i = none → ¬s.Allocated x.addr ∧ s'.Allocated x.addr ∧
      (p.length = 3 → s'.mem x.addr = fun _ => .zero))
    (hcr3 : s'.cr3 = s.cr3) (halloc : ∀ f', s.Allocated f' → s'.Allocated f')
    (hmem : ∀ f' k, s.Allocated f' → ¬(f' = f ∧ k = i) → s'.mem f' k = s.mem f' k) :
    Exact w T first num s s' where
  before := h
  after := h'
  cr3 := hcr3
  allocated := halloc
  keep q j e he := by
    rw [hupd]
    by_cases hqj : q = p ∧ j = i
    · obtain ⟨rfl, rfl⟩ := hqj
      rw [PageMap.update_self, ← hold e he]
      exact .inr rfl
    · exact .inl ((PageMap.update_of_ne hqj).trans he)
  outside q j hq hout := by
    rw [hupd, PageMap.update_of_ne]
    rintro ⟨rfl, rfl⟩
    exact hout (hin hq)
  new q j e hn hs := by
    rw [hupd] at hs
    obtain ⟨⟨rfl, rfl⟩, hx⟩ := PageMap.update_new hn hs
    cases hx
    exact hnew hn
  once q j e r k e' hn hs hn' hs' _ := by
    rw [hupd] at hs hs'
    obtain ⟨⟨rfl, rfl⟩, -⟩ := PageMap.update_new hn hs
    obtain ⟨⟨rfl, rfl⟩, -⟩ := PageMap.update_new hn' hs'
    exact ⟨rfl, rfl⟩
  mem f' hf' hno := by
    funext k
    refine hmem f' k hf' ?_
    rintro ⟨rfl, -⟩
    exact hno p hf
  low k hk := by
    refine hmem T k (h.allocated (tableAt_root s T)) ?_
    rintro ⟨rfl, rfl⟩
    obtain rfl := h.once hf (tableAt_root s T)
    have htop : 256 ≤ k.val := of_decide_eq_true hi
    omega

/-- One entry. -/
theorem entry (h : Tree s T) (hf : s.TableAt T p f) (hi : radix.top (p.headD i) = true)
    (hin : p.length = 3 → first ≤ number (p ++ [i]) ∧ number (p ++ [i]) < first + num)
    (hr : s.setupEntry f i (p.length ≠ 3 || w) = (s', .ok g)) :
    Exact w T first num s s' ∧
      ∃ e, s'.space T p i = some e ∧ e.addr = g ∧ e.user = true ∧
        e.writable = (p.length ≠ 3 || w) := by
  have hspace := space_of_table hf hi
  rw [Machine.setupEntry, Machine.setNewPageMapIfNotPresent] at hr
  cases hp : (s.mem f i).present with
  | true =>
      rw [hp, if_pos rfl] at hspace
      rw [if_pos hp] at hr
      cases hr
      obtain ⟨hupd, htree⟩ := h.opens hf hi hp (p.length ≠ 3 || w)
      refine ⟨of_update h htree hf hi hin hupd (fun e he => ?_) (fun hn => ?_) rfl (fun _ => id)
        fun f' k _ hne => Radix.set_of_ne _ _ hne, (s.mem f i).opened (p.length ≠ 3 || w), ?_, rfl,
        rfl, rfl⟩
      · rw [hspace] at he
        cases he
        rfl
      · rw [hspace] at hn
        cases hn
      · exact (congrFun (congrFun hupd p) i).trans PageMap.update_self
  | false =>
      rw [hp, if_neg Bool.false_ne_true] at hspace
      rw [if_neg (by rw [hp]; exact Bool.false_ne_true)] at hr
      cases hnew : s.newPageMap with
      | mk s₁ r =>
          rw [hnew] at hr
          cases r with
          | error e => cases hr
          | ok g' =>
              cases hr
              obtain ⟨hn, hzero⟩ := fresh_of_newPageMap hnew
              have hne : f ≠ g := fun he => hn.free (he ▸ h.allocated hf)
              have haddr := hn.setPointer (s₁.mem f i)
              obtain ⟨hupd, htree⟩ := h.links hf hi hspace hn hzero
                (x := (s₁.mem f i).made g (p.length ≠ 3 || w)) rfl haddr fun hlt => by
                  show (s₁.mem f i).hugePage = false
                  rw [hn.mem f hne]
                  exact h.small hf hlt i hi
              have heq : ((s₁.store f i
                  { (s₁.mem f i).setPointer g with present := true }).store f i
                  { (s₁.store f i { (s₁.mem f i).setPointer g with present := true }).mem f i with
                    user := true, writable := p.length ≠ 3 || w }) =
                  s₁.store f i ((s₁.mem f i).made g (p.length ≠ 3 || w)) := by
                rw [Machine.store_store, Machine.store_mem, Radix.set_self]
                rfl
              rw [heq]
              refine ⟨of_update h htree hf hi hin hupd (fun e he => ?_) (fun _ => ?_) hn.cr3
                (fun f' hf' => (hn.allocated f').mpr (.inr hf')) (fun f' k hf' hk => ?_),
                (s₁.mem f i).made g (p.length ≠ 3 || w), ?_, haddr, rfl, rfl⟩
              · rw [hspace] at he
                cases he
              · have haddr' : ((s₁.mem f i).made g (p.length ≠ 3 || w)).addr = g := haddr
                rw [haddr']
                refine ⟨hn.free, (hn.allocated g).mpr (.inl rfl), fun _ => ?_⟩
                exact (Radix.set_frame _ _ _ hne.symm).trans hzero
              · have hfresh : f' ≠ g := fun he => hn.free (he ▸ hf')
                rw [Machine.store_mem, Radix.set_of_ne _ _ hk, hn.mem f' hfresh]
              · rw [hupd, PageMap.update_self]

end Exact

/-- `Exact` follows a call along. -/
theorem exact_rule (w : Bool) (T first num : Nat) :
    SetupRule w T (fun s => Tree s T) (Exact w T first num)
      (fun q i => q.length = 3 → first ≤ number (q ++ [i]) ∧ number (q ++ [i]) < first + num)
      (fun s q i => ∃ e, s.space T q i = some e ∧ e.user = true ∧
        e.writable = (q.length ≠ 3 || w)) where
  refl hgood := .refl hgood
  trans h h' := h.trans h'
  good _ h := h.after
  table _ h hf := h.table hf
  entered {s s' p i} _ h hentered := by
    obtain ⟨e, he, hu, hw⟩ := hentered
    rcases h.keep p i e he with he' | he'
    · exact ⟨e, he', hu, hw⟩
    · exact ⟨_, he', rfl, rfl⟩
  entry {s s' p i f g} hgood hf hi hok hr := by
    obtain ⟨hexact, e, he, ha, hu, hw⟩ := Exact.entry hgood hf hi hok hr
    exact ⟨hexact, ⟨e, he, hu, hw⟩, e, he, ha⟩

/-! ## What the processor finds -/

/-- The entry at the end of the walk of the processor, for a page of any size. -/
def leafEntry (m : Memory) : Nat → List (Fin 512) → Option PageMapEntry
  | _, [] => none
  | f, i :: p =>
      let e := m f i
      if !e.present then none
      else if p = [] ∨ e.hugePage ∧ (p.length = 1 ∨ p.length = 2) then some e
      else leafEntry m e.addr p

/-- The tables that the walk reads below the first one. -/
def tablesRead (m : Memory) : Nat → List (Fin 512) → List Nat
  | _, [] => []
  | f, i :: p =>
      let e := m f i
      if !e.present then []
      else if p = [] ∨ e.hugePage ∧ (p.length = 1 ∨ p.length = 2) then []
      else e.addr :: tablesRead m e.addr p

/-- The entry of an address. -/
def Machine.entryAt (s : Machine) (addr : Nat) : Option PageMapEntry :=
  leafEntry s.mem s.cr3 (path addr)

theorem leafEntry_cons (m : Memory) (f : Nat) (i : Fin 512) (p : List (Fin 512)) :
    leafEntry m f (i :: p) =
      if !(m f i).present then none
      else if p = [] ∨ (m f i).hugePage ∧ (p.length = 1 ∨ p.length = 2) then some (m f i)
      else leafEntry m (m f i).addr p := rfl

/-- A walk that reads the same. -/
theorem leafEntry_congr {m m' : Memory} {r : List (Fin 512)} (hhead : m' f i = m f i)
    (h : ∀ g ∈ tablesRead m f (i :: r), m' g = m g) :
    leafEntry m' f (i :: r) = leafEntry m f (i :: r) := by
  induction r generalizing f i with
  | nil =>
      simp [leafEntry, hhead]
  | cons j r ih =>
      rw [tablesRead] at h
      rw [leafEntry_cons m, leafEntry_cons m', hhead]
      split
      next => rfl
      next hpres =>
        rw [if_neg hpres] at h
        split
        next => rfl
        next hend =>
          rw [if_neg hend] at h
          have hnext := h _ List.mem_cons_self
          exact ih (congrFun hnext j) fun g hg => h g (List.mem_cons_of_mem _ hg)

namespace Tree

/-- In the upper half the walk ends with the entry of the space. -/
theorem leafEntry (h : Tree s T) {r : List (Fin 512)} (hf : s.TableAt T p f)
    (hlen : p.length + r.length = 3) (htop : radix.top ((p ++ r).headD i) = true) :
    leafEntry s.mem f (r ++ [i]) = s.space T (p ++ r) i := by
  induction r generalizing p f with
  | nil =>
      rw [List.append_nil] at htop ⊢
      rw [space_of_table hf htop, List.nil_append, Paging.leafEntry]
      cases (s.mem f i).present <;> rfl
  | cons j r ih =>
      have hj : radix.top (p.headD j) = true := by
        cases p with
        | nil => exact htop
        | cons k p => exact htop
      have happ : p ++ j :: r = p ++ [j] ++ r := by simp
      have hlt : p.length < 3 := by
        rw [List.length_cons] at hlen
        omega
      have hspace := space_of_table hf hj
      rw [List.cons_append, Paging.leafEntry]
      cases hpres : (s.mem f j).present with
      | false =>
          rw [hpres, if_neg Bool.false_ne_true] at hspace
          have hbelow : p ++ [j] <+: p ++ j :: r := by
            rw [happ]
            exact List.prefix_append _ r
          rw [Space.below_none hj hspace hbelow]
          rfl
      | true =>
          rw [hpres, if_pos rfl] at hspace
          have hsmall := h.small hf hlt j hj
          have htable : s.TableAt T (p ++ [j]) (s.mem f j).addr :=
            (table_snoc hj).mpr ⟨hlt, _, hspace, rfl⟩
          have hrest := ih htable (by
            rw [List.length_append, List.length_singleton]
            rw [List.length_cons] at hlen
            omega) (by rw [← happ]; exact htop)
          rw [happ, ← hrest]
          simp [hsmall]

/-- Where all entries on the way are opened, a program may use the page. -/
theorem translate (h : Tree s T) {r : List (Fin 512)} (hf : s.TableAt T p f)
    (hlen : p.length + r.length = 3) (htop : radix.top ((p ++ r).headD i) = true)
    (hway : ∀ q j, p <+: q → q ++ [j] <+: p ++ (r ++ [i]) →
      ∃ e, s.space T q j = some e ∧ e.user = true ∧ e.writable = (q.length ≠ 3 || w)) :
    ∃ e, s.space T (p ++ r) i = some e ∧ e.user = true ∧ e.writable = w ∧
      translate s.mem f (r ++ [i]) = some ⟨e.addr, true, w⟩ := by
  induction r generalizing p f with
  | nil =>
      rw [List.append_nil] at htop ⊢
      rw [List.length_nil, Nat.add_zero] at hlen
      obtain ⟨e, he, hu, hw⟩ := hway p i List.prefix_rfl List.prefix_rfl
      rw [hlen] at hw
      obtain ⟨f', hf', -, hpres, rfl⟩ := table_of_space he
      obtain rfl := hf.unique hf'
      refine ⟨_, he, hu, hw, ?_⟩
      rw [List.nil_append, Paging.translate]
      simp [hpres, hu, hw, Paging.translate]
  | cons j r ih =>
      have hj : radix.top (p.headD j) = true := by
        cases p with
        | nil => exact htop
        | cons k p => exact htop
      have happ : p ++ j :: r = p ++ [j] ++ r := by simp
      rw [List.length_cons] at hlen
      have hlt : p.length < 3 := by omega
      have hfirst : p ++ [j] <+: p ++ (j :: r ++ [i]) := ⟨r ++ [i], by simp⟩
      obtain ⟨y, hy, hu, hw⟩ := hway p j List.prefix_rfl hfirst
      obtain ⟨f', hf', -, hpres, rfl⟩ := table_of_space hy
      obtain rfl := hf.unique hf'
      have hsmall := h.small hf hlt j hj
      have htable : s.TableAt T (p ++ [j]) (s.mem f j).addr :=
        (table_snoc hj).mpr ⟨hlt, _, hy, rfl⟩
      obtain ⟨e, he, hue, hwe, htrans⟩ := ih htable (by
        rw [List.length_append, List.length_singleton]
        omega) (by rw [← happ]; exact htop) fun q k hq hk => hway q k
          ((List.prefix_append p [j]).trans hq) (by simpa using hk)
      rw [happ]
      refine ⟨e, he, hue, hwe, ?_⟩
      have hw' : (s.mem f j).writable = true := by
        rw [hw]
        simp [Nat.ne_of_lt hlt]
      rw [List.cons_append, Paging.translate]
      simp [hpres, hsmall, htrans, hu, hw']

end Tree

/-! ## The call -/

/-- A page table without large pages in the upper half; the tables below the lower half are its
own. -/
structure PageTable (s : Machine) : Prop where
  upper : Tree s s.cr3
  lower : ∀ a, a < 2 ^ 47 → ∀ g ∈ tablesRead s.mem s.cr3 (path a),
    s.Allocated g ∧ ∀ p, ¬s.TableAt s.cr3 p g

/-- The page of `a` is one of the `num` pages from `addr` on. -/
def Requested (addr num a : Nat) : Prop := addr / 4096 ≤ a / 4096 ∧ a / 4096 < addr / 4096 + num

/-- The requested pages are mapped, and nothing else has changed. -/
structure MapsExactly (s s' : Machine) (addr num : Nat) (w : Bool) : Prop where
  cr3 : s'.cr3 = s.cr3
  mapped : ∀ a, Requested addr num a → ∃ e, s'.entryAt a = some e ∧ e.present = true ∧
    e.user = true ∧ e.writable = w ∧ translate s'.mem s'.cr3 (path a) = some ⟨e.addr, true, w⟩
  kept : ∀ a e, Requested addr num a → s.entryAt a = some e →
    s'.entryAt a = some (e.opened w)
  fresh : ∀ a e, Requested addr num a → s.entryAt a = none → s'.entryAt a = some e →
    ¬s.Allocated e.addr ∧ s'.Allocated e.addr ∧ s'.mem e.addr = fun _ => .zero
  apart : ∀ a b e e', Requested addr num a → s.entryAt a = none → s'.entryAt a = some e →
    Requested addr num b → s.entryAt b = none → s'.entryAt b = some e' → e.addr = e'.addr →
    a / 4096 = b / 4096
  others : ∀ a, Upper a ∨ a < 2 ^ 47 → ¬Requested addr num a → s'.entryAt a = s.entryAt a

/-- In the upper half the entry of an address is that of the space. -/
theorem Tree.entryAt {a : Nat} (h : Tree s s.cr3) (ha : Upper a) :
    s.entryAt a = s.leaf s.cr3 a :=
  h.leafEntry (p := []) (r := (place a).1) (i := (place a).2) (tableAt_root s s.cr3) rfl
    (decide_eq_true ha.part)

/-- A range that does not pass the end lies in the upper half. -/
theorem Requested.upper {addr num a : Nat} (h : Requested addr num a) (haddr : Upper addr)
    (hend : addr / 4096 + num ≤ 2 ^ 52) : Upper a := by
  obtain ⟨h1, h2⟩ := h
  obtain ⟨h3, h4⟩ := haddr
  constructor <;> omega

theorem requested_iff {addr num a : Nat} (haddr : Upper addr) (ha : Upper a) :
    Requested addr num a ↔
      number (path addr) ≤ number (path a) ∧ number (path a) < number (path addr) + num := by
  have h := number_upper haddr
  have h' := number_upper ha
  rw [Requested]
  omega

/-- Addresses of one place are of one page. -/
theorem page_of_place {a b : Nat} (ha : Upper a) (hb : Upper b) (h : (place a).1 = (place b).1)
    (h' : (place a).2 = (place b).2) : a / 4096 = b / 4096 := by
  have hpath : path a = path b := by rw [path_eq, path_eq, h, h']
  rw [← number_upper ha, ← number_upper hb, hpath]

/-- **`SetupPageMaps` maps exactly the requested pages**, from any address of the upper half, as far
as its end. -/
theorem setupPageMaps_exact {addr : Nat} (h : PageTable s) (haddr : Upper addr)
    (hend : addr / 4096 + num ≤ 2 ^ 52) (hr : s.setupPageMaps addr num w = (s', .ok ())) :
    MapsExactly s s' addr num w := by
  rw [Machine.setupPageMaps] at hr
  cases hcall : Machine.setupPageMap w 4 s s.cr3 (path addr) num with
  | mk s₁ r =>
      rw [hcall] at hr
      cases r with
      | error e => cases hr
      | ok remain =>
          cases hr
          obtain ⟨hexact, hdone⟩ := (exact_rule w s.cr3 (number (path addr)) num).followed 4 h.upper
            (tableAt_root s s.cr3) rfl rfl (fun _ => haddr.part) (fun x hx h1 h2 q i _ hi h3 => by
              have heq := hi.eq_of_length (by
                rw [List.length_append, List.length_singleton]
                omega)
              rw [heq]
              exact ⟨h1, h2⟩) hcall
          obtain ⟨-, hway⟩ := hdone remain rfl
          have hcr3 : s'.cr3 = s.cr3 := hexact.cr3
          have hbefore : ∀ {a}, Upper a → s.entryAt a = s.leaf s.cr3 a := fun ha =>
            h.upper.entryAt ha
          have hafter : ∀ {a}, Upper a → s'.entryAt a = s'.leaf s.cr3 a := fun ha => by
            rw [← hcr3]
            exact Tree.entryAt (hcr3 ▸ hexact.after) ha
          -- the pages of the call
          have hupper : ∀ {a}, Requested addr num a → Upper a := fun hreq => hreq.upper haddr hend
          have hmapped : ∀ a, Requested addr num a → ∃ e, s'.leaf s.cr3 a = some e ∧
              e.user = true ∧ e.writable = w ∧
              translate s'.mem s.cr3 (path a) = some ⟨e.addr, true, w⟩ := fun a hreq => by
            have ha := hupper hreq
            obtain ⟨h1, h2⟩ := (requested_iff haddr ha).mp hreq
            exact hexact.after.translate (p := []) (r := (place a).1) (i := (place a).2)
              (tableAt_root s' s.cr3) rfl (decide_eq_true ha.part) fun q j hq hj =>
                hway (path a) rfl h1 h2 q j hq hj
          constructor
          case cr3 => exact hcr3
          case mapped =>
            intro a hreq
            obtain ⟨e, he, hu, hw, htrans⟩ := hmapped a hreq
            obtain ⟨_, _, _, hpres, _⟩ := table_of_space he
            exact ⟨e, (hafter (hupper hreq)).trans he, by simpa using hpres, hu, hw, hcr3 ▸ htrans⟩
          case kept =>
            intro a e hreq he
            rw [hbefore (hupper hreq)] at he
            rw [hafter (hupper hreq)]
            obtain ⟨e', he', hu, hw, -⟩ := hmapped a hreq
            rcases hexact.keep _ _ e he with hk | hk
            · obtain rfl : e' = e := Option.some.inj (he'.symm.trans hk)
              rw [he', PageMapEntry.opened, ← hu, ← hw]
            · exact hk
          case fresh =>
            intro a e hreq hnone he
            rw [hbefore (hupper hreq)] at hnone
            rw [hafter (hupper hreq)] at he
            obtain ⟨hfree, halloc, hzero⟩ := hexact.new _ _ e hnone he
            exact ⟨hfree, halloc, hzero rfl⟩
          case apart =>
            intro a b e e' ha hnone he hb hnone' he' heq
            rw [hbefore (hupper ha)] at hnone
            rw [hafter (hupper ha)] at he
            rw [hbefore (hupper hb)] at hnone'
            rw [hafter (hupper hb)] at he'
            obtain ⟨h1, h2⟩ := hexact.once _ _ e _ _ e' hnone he hnone' he' heq
            exact page_of_place (hupper ha) (hupper hb) h1 h2
          case others =>
            rintro a (ha | ha) hreq
            · rw [hbefore ha, hafter ha]
              exact hexact.outside _ _ rfl fun hin => hreq ((requested_iff haddr ha).mpr hin)
            · have hpart : (part a 4).val < 256 := by
                show a / 2 ^ 39 % 512 < 256
                omega
              rw [Machine.entryAt, Machine.entryAt, hcr3]
              refine leafEntry_congr (hexact.low _ hpart) fun g hg => ?_
              obtain ⟨halloc, hno⟩ := h.lower a ha g hg
              exact hexact.mem g halloc hno

/-- Two pages in two tables. -/
theorem setupPageMaps_exact_small : MapsExactly smallMachine
    (smallMachine.setupPageMaps 0xffff8000001ff123 2 true).1 0xffff8000001ff123 2 true := by
  have hspace : ∀ {q i e}, smallMachine.space 1 q i ≠ some e := fun he => by
    obtain ⟨_, _, _, hpres, rfl⟩ := table_of_space he
    exact absurd hpres Bool.false_ne_true
  have htable : ∀ {q f}, smallMachine.TableAt 1 q f → q = [] ∧ f = 1 := fun hq => by
    rcases table_cases hq with hroot | ⟨q, i, e, -, -, he, -⟩
    · exact hroot
    · exact absurd he hspace
  have hupper : Tree smallMachine smallMachine.cr3 := by
    refine ⟨fun hq hr => ?_, fun hq => ?_, fun _ _ _ _ => rfl⟩
    · rw [(htable hq).1, (htable hr).1]
    · rw [(htable hq).2]
      show decide (1 < 2) = true
      rfl
  exact setupPageMaps_exact ⟨hupper, fun a _ g hg => absurd hg List.not_mem_nil⟩
    ⟨by decide, by decide⟩ (by decide) (eq_of_isOk (by decide +kernel))

end Laplus.Paging
