/-
# `Laplus.Usb.Descriptor` — the descriptors of a configuration (`usb/descriptor.hpp`, `usb/device.cpp`)

A configuration is a string of descriptors, each with its length in front of its type.  The
reader goes from one to the next by that length, as the device gave it.  A field is read at
its offset, whatever the length says; a read behind the string has no answer.
-/
import Laplus.Lib.Ahead
import Laplus.Lib.Memory

namespace Laplus.Usb

open Lib

/-- `DescriptorType`s -/
def kConfiguration : UInt8 := 2

def kInterface : UInt8 := 4

def kEndpoint : UInt8 := 5

def kHID : UInt8 := 33

/-- CS_INTERFACE, of the functional descriptors. -/
def kFunctional : UInt8 := 36

variable (buf : List UInt8)

/-! ## The reader -/

/-- `ConfigurationDescriptorReader::Next`, behind the descriptor at `p`: the next, or the null
pointer. -/
def Next (p : Nat) : Option (Option Nat) :=
  buf[p]?.map fun length =>
    if p + length.toNat < buf.length then some (p + length.toNat) else none

/-- The type of the descriptor, as `DescriptorDynamicCast` reads it. -/
def descriptorType (d : Nat) : Option UInt8 := buf[d + 1]?

structure InterfaceDescriptor where
  interface_number : UInt8
  num_endpoints : UInt8
  interface_class : UInt8
  interface_sub_class : UInt8
  interface_protocol : UInt8

/-- The fields of an interface that are read. -/
def interfaceAt (d : Nat) : Option InterfaceDescriptor := do
  return ⟨← buf[d + 2]?, ← buf[d + 4]?, ← buf[d + 5]?, ← buf[d + 6]?, ← buf[d + 7]?⟩

structure EndpointConfig where
  ep_id : UInt8
  ep_type : UInt8
  max_packet_size : UInt16
  interval : UInt8

/-- `MakeEPConfig`. -/
def MakeEPConfig (d : Nat) : Option EndpointConfig := do
  let endpoint_address ← buf[d + 2]?
  let attributes ← buf[d + 3]?
  let low ← buf[d + 4]?
  let high ← buf[d + 5]?
  let interval ← buf[d + 6]?
  return ⟨(endpoint_address &&& 0x0f) <<< 1 ||| endpoint_address >>> 7, attributes &&& 0x03,
    high.toUInt16 <<< 8 ||| low.toUInt16, interval⟩

/-- `Log` of a HID descriptor: its release, and the type and the length of every class descriptor
behind it. -/
def logHID (d : Nat) : Option Unit := do
  let _ ← buf[d + 2]?
  let _ ← buf[d + 3]?
  let num_descriptors ← buf[d + 5]?
  (List.range num_descriptors.toNat).forM fun index => do
    let _ ← buf[d + 6 + 3 * index]?
    let _ ← buf[d + 6 + 3 * index + 1]?
    let _ ← buf[d + 6 + 3 * index + 2]?

/-- The casts and the `Log`s of a descriptor that is no endpoint, in a communication device. -/
def logFunctional (d : Nat) : Option Unit := do
  if (← descriptorType buf d) = kFunctional then
    let descriptor_subtype ← buf[d + 2]?
    if descriptor_subtype = 0 then
      let _ ← buf[d + 3]?
      let _ ← buf[d + 4]?
    else if descriptor_subtype = 1 then
      let _ ← buf[d + 3]?
      let _ ← buf[d + 4]?
    else if descriptor_subtype = 2 ∨ descriptor_subtype = 6 then
      let _ ← buf[d + 3]?

/-- Whether `NewClassDriver` has a driver: a keyboard or a mouse at boot. -/
def InterfaceDescriptor.hasDriver (d : InterfaceDescriptor) : Bool :=
  d.interface_class = 3 && d.interface_sub_class = 1 &&
    (d.interface_protocol = 1 || d.interface_protocol = 2)

/-! ## What is read -/

/-- The descriptor behind the one at `p`. -/
def behind (p : Nat) : Option Nat := (Next buf p).join

variable {buf} {p n d : Nat}

theorem Next_eq (hp : p < buf.length) : Next buf p = some (behind buf p) := by
  rw [behind, Next, List.getElem?_eq_getElem hp]
  rfl

theorem behind_eq_some : behind buf p = some n ↔
    ∃ length, buf[p]? = some length ∧ n = p + length.toNat ∧ n < buf.length := by
  rw [behind, Next]
  cases hl : buf[p]? with
  | none => exact iff_of_false (fun h => by cases h) fun ⟨_, h, _⟩ => by cases h
  | some length =>
      rw [Option.map_some, Option.join_some]
      split
      next hlt =>
          rw [Option.some.injEq]
          exact ⟨fun h => ⟨length, rfl, h.symm, h ▸ hlt⟩, fun ⟨_, hl, h, _⟩ => by cases hl; exact h.symm⟩
      next hge =>
          refine iff_of_false (fun h => by cases h) ?_
          rintro ⟨_, hl, rfl, hlt⟩
          cases hl
          exact hge hlt

theorem behind_lt (h : behind buf p = some n) : n < buf.length := by
  obtain ⟨_, -, -, hlt⟩ := behind_eq_some.mp h
  exact hlt

theorem onward_behind : Onward (behind buf) := fun p n h => by
  obtain ⟨length, -, rfl, -⟩ := behind_eq_some.mp h
  exact Nat.le_add_right p _

theorem getElem?_isSome_iff {i : Nat} : (∃ c, buf[i]? = some c) ↔ i < buf.length := by
  rw [← Option.isSome_iff_exists, isSome_getElem?]

theorem interfaceAt_isSome : (∃ i, interfaceAt buf d = some i) ↔ d + 8 ≤ buf.length := by
  simp only [interfaceAt, Option.pure_def, Option.bind_eq_bind, Option.bind_eq_some_iff]
  constructor
  · rintro ⟨_, _, -, _, -, _, -, _, -, c, hc, -⟩
    exact getElem?_isSome_iff.mp ⟨c, hc⟩
  · intro h
    have hget : ∀ k, k < 8 → ∃ c, buf[d + k]? = some c := fun k hk =>
      getElem?_isSome_iff.mpr (by omega)
    obtain ⟨c2, h2⟩ := hget 2 (by omega)
    obtain ⟨c4, h4⟩ := hget 4 (by omega)
    obtain ⟨c5, h5⟩ := hget 5 (by omega)
    obtain ⟨c6, h6⟩ := hget 6 (by omega)
    obtain ⟨c7, h7⟩ := hget 7 (by omega)
    exact ⟨_, c2, h2, c4, h4, c5, h5, c6, h6, c7, h7, rfl⟩

theorem MakeEPConfig_isSome : (∃ c, MakeEPConfig buf d = some c) ↔ d + 7 ≤ buf.length := by
  simp only [MakeEPConfig, Option.pure_def, Option.bind_eq_bind, Option.bind_eq_some_iff]
  constructor
  · rintro ⟨_, _, -, _, -, _, -, _, -, c, hc, -⟩
    exact getElem?_isSome_iff.mp ⟨c, hc⟩
  · intro h
    have hget : ∀ k, k < 7 → ∃ c, buf[d + k]? = some c := fun k hk =>
      getElem?_isSome_iff.mpr (by omega)
    obtain ⟨c2, h2⟩ := hget 2 (by omega)
    obtain ⟨c3, h3⟩ := hget 3 (by omega)
    obtain ⟨c4, h4⟩ := hget 4 (by omega)
    obtain ⟨c5, h5⟩ := hget 5 (by omega)
    obtain ⟨c6, h6⟩ := hget 6 (by omega)
    exact ⟨_, c2, h2, c3, h3, c4, h4, c5, h5, c6, h6, rfl⟩

/-- The class descriptors of a HID descriptor are in the string. -/
def HIDInside (buf : List UInt8) (d : Nat) : Prop :=
  ∃ num, buf[d + 5]? = some num ∧ d + 6 + 3 * num.toNat ≤ buf.length

/-- The fields of a functional descriptor are in the string. -/
def FunctionalInside (buf : List UInt8) (d : Nat) : Prop :=
  ∃ subtype, buf[d + 2]? = some subtype ∧ (subtype = 0 ∨ subtype = 1 → d + 5 ≤ buf.length) ∧
    (subtype = 2 ∨ subtype = 6 → d + 4 ≤ buf.length)

theorem forM_eq_some {α : Type} {f : α → Option Unit} {l : List α} :
    l.forM f = some () ↔ ∀ a ∈ l, f a = some () := by
  induction l with
  | nil => exact iff_of_true rfl fun a ha => absurd ha List.not_mem_nil
  | cons a l ih =>
      rw [List.forall_mem_cons, ← ih]
      show (f a).bind (fun _ => l.forM f) = some () ↔ _
      rw [Option.bind_eq_some_iff]
      exact ⟨fun ⟨_, ha, hl⟩ => ⟨ha, hl⟩, fun ⟨ha, hl⟩ => ⟨(), ha, hl⟩⟩

theorem logHID_eq : logHID buf d = some () ↔ HIDInside buf d := by
  simp only [logHID, HIDInside, Option.bind_eq_bind, Option.bind_eq_some_iff, forM_eq_some,
    List.mem_range, Option.pure_def]
  constructor
  · rintro ⟨_, -, _, -, num, hnum, hall⟩
    refine ⟨num, hnum, ?_⟩
    have h5 := getElem?_isSome_iff.mp ⟨num, hnum⟩
    rcases Nat.eq_zero_or_pos num.toNat with h0 | hpos
    · omega
    · obtain ⟨_, -, _, -, c, hc, -⟩ := hall (num.toNat - 1) (by omega)
      have hlast := getElem?_isSome_iff.mp ⟨c, hc⟩
      omega
  · rintro ⟨num, hnum, hle⟩
    have hget : ∀ k, k < buf.length → ∃ c, buf[k]? = some c := fun k hk =>
      getElem?_isSome_iff.mpr hk
    obtain ⟨c2, h2⟩ := hget (d + 2) (by omega)
    obtain ⟨c3, h3⟩ := hget (d + 3) (by omega)
    refine ⟨c2, h2, c3, h3, num, hnum, fun index hi => ?_⟩
    obtain ⟨a, ha⟩ := hget (d + 6 + 3 * index) (by omega)
    obtain ⟨b, hb⟩ := hget (d + 6 + 3 * index + 1) (by omega)
    obtain ⟨c, hc⟩ := hget (d + 6 + 3 * index + 2) (by omega)
    exact ⟨a, ha, b, hb, c, hc, trivial⟩

theorem read_eq {i : Nat} {f : UInt8 → Option Unit} (hf : ∀ c, buf[i]? = some c → f c = some ()) :
    buf[i]?.bind f = some () ↔ i < buf.length := by
  rw [Option.bind_eq_some_iff, ← getElem?_isSome_iff]
  exact exists_congr fun c => and_iff_left_of_imp (hf c)

theorem logFunctional_eq {t : UInt8} (ht : descriptorType buf d = some t) :
    logFunctional buf d = some () ↔ (t = kFunctional → FunctionalInside buf d) := by
  have htwo : (buf[d + 3]?.bind fun _ => buf[d + 4]?.bind fun _ => some ()) = some () ↔
      d + 5 ≤ buf.length := by
    constructor
    · intro h
      obtain ⟨_, -, h4⟩ := Option.bind_eq_some_iff.mp h
      exact (read_eq fun _ _ => rfl).mp h4
    · intro h
      exact (read_eq fun _ _ => (read_eq fun _ _ => rfl).mpr h).mpr (Nat.lt_of_succ_lt h)
  have hone : (buf[d + 3]?.bind fun _ => some ()) = some () ↔ d + 4 ≤ buf.length :=
    read_eq fun _ _ => rfl
  by_cases hk : t = kFunctional
  · simp only [logFunctional, ht, hk, Option.bind_eq_bind, Option.bind_some, if_true, forall_const,
      Option.bind_eq_some_iff, FunctionalInside]
    refine exists_congr fun subtype => and_congr_right fun hsub => ?_
    have hpure : (pure () : Option Unit) = some () := rfl
    rw [hpure]
    by_cases h01 : subtype = 0 ∨ subtype = 1
    · have h26 : ¬(subtype = 2 ∨ subtype = 6) := by rcases h01 with rfl | rfl <;> decide
      simp only [h01, h26, forall_const, false_implies, and_true]
      rw [← htwo]
      rcases h01 with rfl | rfl
      · rw [if_pos rfl]
      · rw [if_neg (by decide), if_pos rfl]
    · obtain ⟨h0, h1⟩ := not_or.mp h01
      simp only [h0, h1, if_false, or_self, false_implies, true_and]
      by_cases h26 : subtype = 2 ∨ subtype = 6
      · rw [if_pos h26, hone]
        exact ⟨fun h _ => h, fun h => h h26⟩
      · rw [if_neg h26]
        exact iff_of_true rfl fun h => absurd h h26
  · simp only [logFunctional, ht, hk, Option.bind_eq_bind, Option.bind_some, if_false,
      false_implies, iff_true]
    rfl

end Laplus.Usb
