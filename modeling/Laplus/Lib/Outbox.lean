/-
# `Laplus.Lib.Outbox` — what a sender has to keep to be able to repeat itself

A sender emits a stream of items at consecutive positions, in pieces, and
keeps pieces until the peer has acknowledged them.  `Outbox` is the stream
together with the pieces kept and the pieces shown to the peer so far, and
`Sound` says that everything not yet acknowledged is still kept, as it was
shown.  Sending, repeating and acknowledging keep it, the last one as long
as the queue is popped at a boundary: an acknowledgement strictly inside a
piece loses the rest of that piece.
-/
import Mathlib.Data.List.Basic

namespace Laplus.Lib

variable {α : Type*}

/-! ## Extents -/

/-- Items at consecutive positions from `pos` on. -/
structure Extent (α : Type*) where
  pos : Nat
  items : List α

namespace Extent

/-- The item at position `n`. -/
def find (x : Extent α) (n : Nat) : Option α :=
  if x.pos ≤ n then x.items[n - x.pos]? else none

/-- The first position after the extent. -/
def stop (x : Extent α) : Nat := x.pos + x.items.length

theorem find_isSome {x : Extent α} {n : Nat} : (x.find n).isSome ↔ x.pos ≤ n ∧ n < x.stop := by
  unfold Extent.find stop
  split
  · rename_i h
    rw [isSome_getElem?, and_iff_right h]
    omega
  · rename_i h
    simp [h]

@[simp] theorem find_nil (pos n : Nat) : (⟨pos, []⟩ : Extent α).find n = none := by
  simp [Extent.find]

/-- Position `n` is strictly inside: cutting there would split the extent. -/
def Splits (n : Nat) (x : Extent α) : Prop := x.pos < n ∧ n < x.stop

instance (n : Nat) (x : Extent α) : Decidable (x.Splits n) :=
  inferInstanceAs (Decidable (x.pos < n ∧ n < x.stop))

end Extent

/-- Every item of the extent is where the stream that starts at `base` has it. -/
def Agrees (base : Nat) (stream : List α) (x : Extent α) : Prop :=
  ∀ n a, x.find n = some a → base ≤ n ∧ stream[n - base]? = some a

section Agrees
variable {base : Nat} {stream : List α} {x : Extent α}

theorem Agrees.append (h : Agrees base stream x) (items : List α) :
    Agrees base (stream ++ items) x := by
  intro n a hn
  obtain ⟨hb, hs⟩ := h n a hn
  exact ⟨hb, List.getElem?_append_left (List.getElem?_eq_some_iff.mp hs).1 ▸ hs⟩

/-- A piece put at the end of the stream agrees with it. -/
theorem agrees_pushed (base : Nat) (stream items : List α) :
    Agrees base (stream ++ items) ⟨base + stream.length, items⟩ := by
  intro n a hn
  unfold Extent.find at hn
  split at hn
  · rename_i h
    have h : base + stream.length ≤ n := h
    refine ⟨by omega, ?_⟩
    rw [List.getElem?_append_right (by omega), ← hn]
    congr 1
    change n - base - stream.length = n - (base + stream.length)
    omega
  · cases hn

theorem agrees_empty (pos : Nat) : Agrees base stream ⟨pos, []⟩ := by
  intro n a hn
  simp at hn

/-- The first item of the stream, on its own. -/
theorem agrees_first {a : α} (h : stream[0]? = some a) : Agrees base stream ⟨base, [a]⟩ := by
  intro n b hn
  unfold Extent.find at hn
  split at hn
  · rename_i hle
    have hle : base ≤ n := hle
    obtain ⟨hlt, hb⟩ := List.getElem?_eq_some_iff.mp hn
    have hz : n - base = 0 := by
      simpa using hlt
    refine ⟨hle, ?_⟩
    rw [hz, h, ← hn]
    simp [hz]
  · cases hn

theorem Agrees.stop_le (h : Agrees base stream x) (hx : x.items ≠ []) :
    base ≤ x.pos ∧ x.stop ≤ base + stream.length := by
  have hpos : 0 < x.items.length := List.length_pos_iff.mpr hx
  have hval (n : Nat) (h₁ : x.pos ≤ n) (h₂ : n < x.stop) :
      base ≤ n ∧ n - base < stream.length := by
    obtain ⟨a, ha⟩ := Option.isSome_iff_exists.mp (Extent.find_isSome.mpr ⟨h₁, h₂⟩)
    obtain ⟨hb, hs⟩ := h n a ha
    exact ⟨hb, (List.getElem?_eq_some_iff.mp hs).1⟩
  have hstop : x.stop = x.pos + x.items.length := rfl
  have hfirst := hval x.pos (Nat.le_refl _) (by omega)
  have hlast := hval (x.stop - 1) (by omega) (by omega)
  omega

end Agrees

/-- Drop the leading extents that start below `n`. -/
def popBelow (n : Nat) (xs : List (Extent α)) : List (Extent α) :=
  xs.dropWhile fun x => x.pos < n

theorem popBelow_subset (n : Nat) (xs : List (Extent α)) : popBelow n xs ⊆ xs :=
  (List.dropWhile_suffix _).subset

/-- What starts at `n` or later is not dropped. -/
theorem mem_popBelow {n : Nat} {x : Extent α} {xs : List (Extent α)} (hx : x ∈ xs)
    (hn : n ≤ x.pos) : x ∈ popBelow n xs := by
  induction xs with
  | nil => cases hx
  | cons y ys ih =>
      unfold popBelow
      rw [List.dropWhile_cons]
      split
      · rename_i hy
        rcases List.mem_cons.mp hx with rfl | hx
        · simp only [decide_eq_true_eq] at hy
          omega
        · exact ih hx
      · exact hx

theorem head_popBelow {n : Nat} {x : Extent α} {xs : List (Extent α)}
    (hx : x ∈ (popBelow n xs).head?) : n ≤ x.pos := by
  have h := List.head?_dropWhile_not (fun y : Extent α => decide (y.pos < n)) xs
  rw [popBelow, Option.mem_def] at hx
  rw [hx] at h
  simpa using h

/-! ## The outbox -/

/-- A stream that starts at position `base`, everything below `una`
acknowledged, with the pieces kept and the pieces shown. -/
structure Outbox (α : Type*) where
  base : Nat
  stream : List α
  una : Nat
  queue : List (Extent α)
  sent : List (Extent α)

namespace Outbox

/-- The first position not yet used. -/
def nxt (b : Outbox α) : Nat := b.base + b.stream.length

/-- **Nothing is lost.**  What is kept and what was shown is the stream;
everything shown is the whole stream, everything kept covers what is not yet
acknowledged. -/
structure Sound (b : Outbox α) : Prop where
  low : b.base ≤ b.una
  high : b.una ≤ b.nxt
  kept : ∀ x ∈ b.queue, Agrees b.base b.stream x
  told : ∀ x ∈ b.sent, Agrees b.base b.stream x
  filled : ∀ x ∈ b.queue, x.items ≠ []
  covered : ∀ n, b.una ≤ n → n < b.nxt → ∃ x ∈ b.queue, (x.find n).isSome
  shown : ∀ n, b.base ≤ n → n < b.nxt → ∃ x ∈ b.sent, (x.find n).isSome
  head : ∀ x ∈ b.queue.head?, b.una ≤ x.pos

/-- A first item goes out; what was shown before says nothing. -/
def opened (base : Nat) (a : α) (sent : List (Extent α)) : Outbox α :=
  ⟨base, [a], base, [⟨base, [a]⟩], sent ++ [⟨base, [a]⟩]⟩

/-- New items go out at the end of the stream and are kept. -/
def push (b : Outbox α) (items : List α) : Outbox α :=
  { b with
    stream := b.stream ++ items
    queue := b.queue ++ [⟨b.nxt, items⟩]
    sent := b.sent ++ [⟨b.nxt, items⟩] }

/-- A piece of the stream goes out once more and is kept once more. -/
def again (b : Outbox α) (x : Extent α) : Outbox α :=
  { b with queue := b.queue ++ [x], sent := b.sent ++ [x] }

/-- Pieces go out that are not kept: what has been shown becomes `xs`. -/
def tell (b : Outbox α) (xs : List (Extent α)) : Outbox α :=
  { b with sent := xs }

/-- Everything below `m` is acknowledged. -/
def ack (b : Outbox α) (m : Nat) : Outbox α :=
  { b with una := m, queue := popBelow m b.queue }

variable {b : Outbox α}

theorem sound_opened (base : Nat) (a : α) {sent : List (Extent α)}
    (h : ∀ x ∈ sent, x.items = []) : (opened base a sent).Sound := by
  have hfirst : Agrees base [a] ⟨base, [a]⟩ := agrees_first rfl
  have hat (n : Nat) (h₁ : base ≤ n) (h₂ : n < base + 1) :
      ((⟨base, [a]⟩ : Extent α).find n).isSome := Extent.find_isSome.mpr ⟨h₁, h₂⟩
  refine ⟨Nat.le_refl _, Nat.le_add_right _ _, ?_, ?_, ?_, ?_, ?_, ?_⟩
  · intro x hx
    obtain rfl := List.mem_singleton.mp hx
    exact hfirst
  · intro x hx
    rcases List.mem_append.mp hx with hx | hx
    · have hx' : x = ⟨x.pos, []⟩ := by
        cases x
        simpa using h _ hx
      rw [hx']
      exact agrees_empty _
    · obtain rfl := List.mem_singleton.mp hx
      exact hfirst
  · intro x hx
    obtain rfl := List.mem_singleton.mp hx
    simp
  · intro n h₁ h₂
    exact ⟨_, List.mem_singleton.mpr rfl, hat n h₁ h₂⟩
  · intro n h₁ h₂
    exact ⟨_, List.mem_append_right _ (List.mem_singleton.mpr rfl), hat n h₁ h₂⟩
  · intro x hx
    obtain rfl : _ = x := by simpa [opened] using hx
    exact Nat.le_refl _

/-- What a queue that grows at its end still has at its head. -/
theorem head_append {xs : List (Extent α)} {x : Extent α} {m : Nat}
    (h : ∀ y ∈ xs.head?, m ≤ y.pos) (hx : m ≤ x.pos) : ∀ y ∈ (xs ++ [x]).head?, m ≤ y.pos := by
  intro y hy
  cases xs with
  | nil =>
      obtain rfl : x = y := by simpa using hy
      exact hx
  | cons z zs => exact h y (by simpa using hy)

theorem Sound.push (h : b.Sound) {items : List α} (hne : items ≠ []) : (b.push items).Sound := by
  have hnxt : (b.push items).nxt = b.nxt + items.length := by
    simp only [Outbox.push, nxt, List.length_append]
    omega
  have hagree : Agrees b.base (b.stream ++ items) ⟨b.nxt, items⟩ :=
    agrees_pushed b.base b.stream items
  have hat (n : Nat) (h₁ : b.nxt ≤ n) (h₂ : n < b.nxt + items.length) :
      ((⟨b.nxt, items⟩ : Extent α).find n).isSome := Extent.find_isSome.mpr ⟨h₁, h₂⟩
  refine ⟨h.low, by rw [hnxt]; exact Nat.le_add_right_of_le h.high, ?_, ?_, ?_, ?_, ?_,
    head_append h.head h.high⟩
  · intro x hx
    rcases List.mem_append.mp hx with hx | hx
    · exact (h.kept x hx).append items
    · obtain rfl := List.mem_singleton.mp hx
      exact hagree
  · intro x hx
    rcases List.mem_append.mp hx with hx | hx
    · exact (h.told x hx).append items
    · obtain rfl := List.mem_singleton.mp hx
      exact hagree
  · intro x hx
    rcases List.mem_append.mp hx with hx | hx
    · exact h.filled x hx
    · obtain rfl := List.mem_singleton.mp hx
      exact hne
  · intro n h₁ h₂
    rw [hnxt] at h₂
    by_cases hn : n < b.nxt
    · obtain ⟨x, hx, hs⟩ := h.covered n h₁ hn
      exact ⟨x, List.mem_append_left _ hx, hs⟩
    · exact ⟨_, List.mem_append_right _ (List.mem_singleton.mpr rfl),
        hat n (Nat.le_of_not_lt hn) h₂⟩
  · intro n h₁ h₂
    rw [hnxt] at h₂
    by_cases hn : n < b.nxt
    · obtain ⟨x, hx, hs⟩ := h.shown n h₁ hn
      exact ⟨x, List.mem_append_left _ hx, hs⟩
    · exact ⟨_, List.mem_append_right _ (List.mem_singleton.mpr rfl),
        hat n (Nat.le_of_not_lt hn) h₂⟩

theorem Sound.tell (h : b.Sound) {xs : List (Extent α)} (hsub : b.sent ⊆ xs)
    (hxs : ∀ x ∈ xs, Agrees b.base b.stream x) : (b.tell xs).Sound where
  low := h.low
  high := h.high
  kept := h.kept
  told := hxs
  filled := h.filled
  covered := h.covered
  shown n h₁ h₂ := by
    obtain ⟨x, hx, hs⟩ := h.shown n h₁ h₂
    exact ⟨x, hsub hx, hs⟩
  head := h.head

theorem Sound.again (h : b.Sound) {x : Extent α} (hx : Agrees b.base b.stream x)
    (hne : x.items ≠ []) (hpos : b.una ≤ x.pos) : (b.again x).Sound := by
  have hs : (b.tell (b.sent ++ [x])).Sound := by
    refine h.tell (List.subset_append_left _ _) fun y hy => ?_
    rcases List.mem_append.mp hy with hy | hy
    · exact h.told y hy
    · obtain rfl := List.mem_singleton.mp hy
      exact hx
  refine ⟨h.low, h.high, ?_, hs.told, ?_, ?_, hs.shown, head_append h.head hpos⟩
  · intro y hy
    rcases List.mem_append.mp hy with hy | hy
    · exact h.kept y hy
    · obtain rfl := List.mem_singleton.mp hy
      exact hx
  · intro y hy
    rcases List.mem_append.mp hy with hy | hy
    · exact h.filled y hy
    · obtain rfl := List.mem_singleton.mp hy
      exact hne
  · intro n h₁ h₂
    obtain ⟨y, hy, hs⟩ := h.covered n h₁ h₂
    exact ⟨y, List.mem_append_left _ hy, hs⟩

/-- An acknowledgement that splits no piece loses nothing. -/
theorem Sound.ack (h : b.Sound) {m : Nat} (hlo : b.una ≤ m) (hhi : m ≤ b.nxt)
    (hcut : ∀ x ∈ b.queue, ¬ x.Splits m) : (b.ack m).Sound where
  low := Nat.le_trans h.low hlo
  high := hhi
  kept x hx := h.kept x (popBelow_subset _ _ hx)
  told := h.told
  filled x hx := h.filled x (popBelow_subset _ _ hx)
  covered n h₁ h₂ := by
    have h₁ : m ≤ n := h₁
    obtain ⟨x, hx, hs⟩ := h.covered n (Nat.le_trans hlo h₁) h₂
    -- a piece that covers a position from `m` on and is not split at `m` starts there or later
    have hm : m ≤ x.pos := by
      refine Nat.le_of_not_lt fun hlt => hcut x hx ⟨hlt, ?_⟩
      exact Nat.lt_of_le_of_lt h₁ (Extent.find_isSome.mp hs).2
    exact ⟨x, mem_popBelow hx hm, hs⟩
  shown := h.shown
  head x hx := head_popBelow hx

/-- **What `Sound` is for.**  Every position not yet acknowledged is kept with
the item the peer has been shown there, and with no other. -/
theorem Sound.recover (h : b.Sound) {n : Nat} (h₁ : b.una ≤ n) (h₂ : n < b.nxt) :
    ∃ x ∈ b.queue, ∃ a, x.find n = some a ∧ (∃ y ∈ b.sent, y.find n = some a) ∧
      ∀ y ∈ b.sent, ∀ a', y.find n = some a' → a' = a := by
  obtain ⟨x, hx, hs⟩ := h.covered n h₁ h₂
  obtain ⟨a, ha⟩ := Option.isSome_iff_exists.mp hs
  have hstream := (h.kept x hx n a ha).2
  have honly (y : Extent α) (hy : y ∈ b.sent) (a' : α) (ha' : y.find n = some a') : a' = a := by
    have := (h.told y hy n a' ha').2
    rw [hstream] at this
    exact (Option.some.inj this).symm
  obtain ⟨y, hy, hys⟩ := h.shown n (Nat.le_trans h.low h₁) h₂
  obtain ⟨a', ha'⟩ := Option.isSome_iff_exists.mp hys
  exact ⟨x, hx, a, ha, ⟨y, hy, honly y hy a' ha' ▸ ha'⟩, honly⟩

end Outbox

end Laplus.Lib
