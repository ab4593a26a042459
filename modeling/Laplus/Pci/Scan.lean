/-
# `Laplus.Pci.Scan` — the functions on the buses (`pci.cpp`)

`ScanAllBus` lists functions in `devices`, and goes over a bridge to the bus behind it.
It does not look whether it has been there: a bridge to its own bus, or to one above,
fills the table.  Functions of a device other than its first are asked for only when
the first one says that there are several.
-/
import Laplus.Lib.Preorder
import Mathlib.Data.Set.Card

namespace Laplus.Pci

open Lib

/-! ## The configuration space -/

/-- What the data register reads, by the address register. -/
abbrev ConfigSpace := UInt32 → UInt32

structure ClassCode where
  base : UInt8
  sub : UInt8
  interface : UInt8
deriving DecidableEq

/-- `ClassCode::Match`, of the base and the subclass. -/
def ClassCode.Match (c : ClassCode) (b s : UInt8) : Bool := b = c.base && s = c.sub

structure Device where
  bus : UInt8
  device : UInt8
  function : UInt8
  header_type : UInt8
  class_code : ClassCode
deriving DecidableEq

/-- Where a function is. -/
def Device.address (dev : Device) : UInt8 × UInt8 × UInt8 := (dev.bus, dev.device, dev.function)

def MakeAddress (bus device function reg_addr : UInt8) : UInt32 :=
  ((1 : UInt32) <<< 31) ||| (bus.toUInt32 <<< 16) ||| (device.toUInt32 <<< 11) |||
    (function.toUInt32 <<< 8) ||| (reg_addr.toUInt32 &&& 0xfc)

section
variable (cfg : ConfigSpace)

def ReadVendorId (bus device function : UInt8) : UInt16 :=
  (cfg (MakeAddress bus device function 0x00) &&& 0xffff).toUInt16

def ReadHeaderType (bus device function : UInt8) : UInt8 :=
  ((cfg (MakeAddress bus device function 0x0c) >>> 16) &&& 0xff).toUInt8

def ReadClassCode (bus device function : UInt8) : ClassCode :=
  let reg := cfg (MakeAddress bus device function 0x08)
  ⟨((reg >>> 24) &&& 0xff).toUInt8, ((reg >>> 16) &&& 0xff).toUInt8, ((reg >>> 8) &&& 0xff).toUInt8⟩

def ReadBusNumbers (bus device function : UInt8) : UInt32 :=
  cfg (MakeAddress bus device function 0x18)

def IsSingleFunctionDevice (header_type : UInt8) : Bool := header_type &&& 0x80 = 0

/-- The bus behind a bridge. -/
def secondaryBus (bus device function : UInt8) : UInt8 :=
  ((ReadBusNumbers cfg bus device function >>> 8) &&& 0xff).toUInt8

/-- What the table holds of a function. -/
def readDevice (bus device function : UInt8) : Device :=
  ⟨bus, device, function, ReadHeaderType cfg bus device function,
    ReadClassCode cfg bus device function⟩

/-! ## The scan -/

/-- The size of `devices`. -/
def kNumDevices : Nat := 32

/-- `for(uint8_t i = first; i < last; ++i)` -/
def bytes (first last : Nat) : List UInt8 := (List.range' first (last - first)).map UInt8.ofNat

/-- `ScanDevice`, with the `ScanFunction` it calls. -/
def ScanDevice (scanFunction : UInt8 → UInt8 → UInt8 → List Device → Outcome Device)
    (bus device : UInt8) (devices : List Device) : Outcome Device :=
  match scanFunction bus device 0 devices with
  | some (.ok devices) =>
      if IsSingleFunctionDevice (ReadHeaderType cfg bus device 0) then some (.ok devices)
      else
        each (fun function devices =>
          if ReadVendorId cfg bus device function = 0xffff then some (.ok devices)
          else scanFunction bus device function devices) (bytes 1 8) devices
  | r => r

/-- `ScanBus`. -/
def ScanBus (scanFunction : UInt8 → UInt8 → UInt8 → List Device → Outcome Device) (bus : UInt8)
    (devices : List Device) : Outcome Device :=
  each (fun device devices =>
    if ReadVendorId cfg bus device 0 = 0xffff then some (.ok devices)
    else ScanDevice cfg scanFunction bus device devices) (bytes 0 32) devices

/-- `ScanFunction`, and `AddDevice` in it; the fuel is for the bridges in one another. -/
def ScanFunction : Nat → UInt8 → UInt8 → UInt8 → List Device → Outcome Device
  | 0, _, _, _, _ => none
  | fuel + 1, bus, device, function, devices =>
      let dev := readDevice cfg bus device function
      if devices.length = kNumDevices then some (.error devices)
      else if dev.class_code.Match 0x06 0x04 then
        ScanBus cfg (ScanFunction fuel) (secondaryBus cfg bus device function) (devices ++ [dev])
      else some (.ok (devices ++ [dev]))

/-- `ScanAllBus`. -/
def ScanAllBus (fuel : Nat) : Outcome Device :=
  if IsSingleFunctionDevice (ReadHeaderType cfg 0 0 0) then
    ScanBus cfg (ScanFunction cfg fuel) 0 []
  else
    each (fun function devices =>
      if ReadVendorId cfg 0 0 function = 0xffff then some (.ok devices)
      else ScanBus cfg (ScanFunction cfg fuel) function devices) (bytes 0 8) []

/-! ## What there is -/

/-- A function answers. -/
def Answers (bus device function : UInt8) : Prop :=
  device < 32 ∧ function < 8 ∧ ReadVendorId cfg bus device function ≠ 0xffff

/-- A function is there: it answers, and is the first of its device or one of several. -/
def Present (bus device function : UInt8) : Prop :=
  Answers cfg bus device 0 ∧ Answers cfg bus device function ∧
    (function = 0 ∨ IsSingleFunctionDevice (ReadHeaderType cfg bus device 0) = false)

/-- A bus of a host bridge. -/
def HostBus (bus : UInt8) : Prop :=
  if IsSingleFunctionDevice (ReadHeaderType cfg 0 0 0) then bus = 0 else Answers cfg 0 0 bus

/-- A bridge between two buses. -/
def IsBridge (bus device function : UInt8) : Prop :=
  (ReadClassCode cfg bus device function).Match 0x06 0x04 = true

instance decAnswers (bus device function : UInt8) : Decidable (Answers cfg bus device function) :=
  inferInstanceAs (Decidable (_ ∧ _ ∧ _))

instance decPresent (bus device function : UInt8) : Decidable (Present cfg bus device function) :=
  inferInstanceAs (Decidable (_ ∧ _ ∧ _))

instance decHostBus (bus : UInt8) : Decidable (HostBus cfg bus) :=
  inferInstanceAs (Decidable
    (if IsSingleFunctionDevice (ReadHeaderType cfg 0 0 0) then bus = 0 else Answers cfg 0 0 bus))

instance decIsBridge (bus device function : UInt8) : Decidable (IsBridge cfg bus device function) :=
  inferInstanceAs (Decidable (_ = _))

/-- A function is reached over bridges from a host bus. -/
inductive Reached (present : UInt8 → UInt8 → UInt8 → Prop) : UInt8 → UInt8 → UInt8 → Prop
  | host {b d f : UInt8} : HostBus cfg b → present b d f → Reached present b d f
  | bridge {b d f d' f' : UInt8} : Reached present b d f → IsBridge cfg b d f →
      present (secondaryBus cfg b d f) d' f' → Reached present (secondaryBus cfg b d f) d' f'

/-- The bridges form a tree: no bus is behind two, and no host bus behind one. -/
structure BridgeTree (present : UInt8 → UInt8 → UInt8 → Prop) : Prop where
  host : ∀ b d f, Reached cfg present b d f → IsBridge cfg b d f →
    ¬ HostBus cfg (secondaryBus cfg b d f)
  parent : ∀ b d f b' d' f', Reached cfg present b d f → IsBridge cfg b d f →
    Reached cfg present b' d' f' → IsBridge cfg b' d' f' →
    secondaryBus cfg b d f = secondaryBus cfg b' d' f' → (b, d, f) = (b', d', f')

end

/-! ## The lists that are gone through -/

section
variable (cfg : ConfigSpace)

/-- The functions of a device, in the order of `ScanDevice`. -/
def deviceFunctions (bus device : UInt8) : List Device :=
  readDevice cfg bus device 0 ::
    if IsSingleFunctionDevice (ReadHeaderType cfg bus device 0) then []
    else ((bytes 1 8).filter fun function => ReadVendorId cfg bus device function ≠ 0xffff).map
      (readDevice cfg bus device)

/-- The functions of a bus. -/
def busFunctions (bus : UInt8) : List Device :=
  ((bytes 0 32).filter fun device => ReadVendorId cfg bus device 0 ≠ 0xffff).flatMap
    (deviceFunctions cfg bus)

/-- The functions behind a bridge. -/
def behind (dev : Device) : List Device :=
  if dev.class_code.Match 0x06 0x04 then
    busFunctions cfg (secondaryBus cfg dev.bus dev.device dev.function)
  else []

/-- The buses of the host bridges. -/
def hostBuses : List UInt8 :=
  if IsSingleFunctionDevice (ReadHeaderType cfg 0 0 0) then [0]
  else (bytes 0 8).filter fun function => ReadVendorId cfg 0 0 function ≠ 0xffff

/-- The functions on them. -/
def hostFunctions : List Device := (hostBuses cfg).flatMap (busFunctions cfg)

end

variable {cfg : ConfigSpace} {bus device function : UInt8} {devices : List Device} {fuel : Nat}
  {scanFunction : UInt8 → UInt8 → UInt8 → List Device → Outcome Device}
  {v : Device → List Device → Outcome Device}

/-- A loop over those that answer. -/
theorem each_answers (answer : UInt8 → UInt16) (body : UInt8 → List Device → Outcome Device)
    (l : List UInt8) (devices : List Device) :
    each (fun i devices => if answer i = 0xffff then some (.ok devices) else body i devices) l
      devices = each body (l.filter fun i => answer i ≠ 0xffff) devices := by
  rw [each_filter]
  refine each_congr (fun i _ devices => ?_) devices
  by_cases h : answer i = 0xffff
  · rw [if_pos h, if_neg (by simpa using h)]
  · rw [if_neg h, if_pos (by simpa using h)]

theorem ScanDevice_eq (h : ∀ b d f t, scanFunction b d f t = v (readDevice cfg b d f) t) :
    ScanDevice cfg scanFunction bus device devices =
      each v (deviceFunctions cfg bus device) devices := by
  rw [ScanDevice, deviceFunctions, each, h]
  rcases v (readDevice cfg bus device 0) devices with _ | _ | devices'
  · rfl
  · rfl
  · by_cases hsingle : IsSingleFunctionDevice (ReadHeaderType cfg bus device 0) = true
    · simp only [if_pos hsingle, each]
    · simp only [if_neg hsingle]
      rw [each_answers, each_map]
      exact each_congr (fun f _ t => h bus device f t) devices'

theorem ScanBus_eq (h : ∀ b d f t, scanFunction b d f t = v (readDevice cfg b d f) t) :
    ScanBus cfg scanFunction bus devices = each v (busFunctions cfg bus) devices := by
  rw [ScanBus, busFunctions, each_flatMap, each_answers]
  exact each_congr (fun d _ t => ScanDevice_eq h) devices

/-- **`ScanFunction` is a walk.** -/
theorem ScanFunction_eq (fuel : Nat) (bus device function : UInt8) (devices : List Device) :
    ScanFunction cfg fuel bus device function devices =
      visit (behind cfg) kNumDevices fuel (readDevice cfg bus device function) devices := by
  induction fuel generalizing bus device function devices with
  | zero => rfl
  | succ fuel ih =>
      rw [ScanFunction, visit, behind]
      split
      next => rfl
      next =>
          split
          next => exact ScanBus_eq ih
          next => rfl

theorem ScanAllBus_eq (cfg : ConfigSpace) (fuel : Nat) :
    ScanAllBus cfg fuel = each (visit (behind cfg) kNumDevices fuel) (hostFunctions cfg) [] := by
  have hbus : ∀ b t, ScanBus cfg (ScanFunction cfg fuel) b t =
      each (visit (behind cfg) kNumDevices fuel) (busFunctions cfg b) t :=
    fun b t => ScanBus_eq (ScanFunction_eq fuel)
  rw [ScanAllBus, hostFunctions, each_flatMap, hostBuses]
  split
  next =>
      rw [hbus, each]
      rcases each (visit (behind cfg) kNumDevices fuel) (busFunctions cfg 0) [] with _ | _ | _ <;> rfl
  next =>
      rw [each_answers]
      exact each_congr (fun b _ t => hbus b t) []

/-- **It ends**, with no more functions than there is room for. -/
theorem ScanAllBus_within (cfg : ConfigSpace) :
    ∃ r, (∀ fuel, kNumDevices < fuel → ScanAllBus cfg fuel = some r) ∧ Within kNumDevices 0 r := by
  obtain ⟨r, hr, hwithin⟩ := each_within
    (v := visit (behind cfg) kNumDevices (kNumDevices + 1))
    (fun x (_ : x ∈ hostFunctions cfg) _ _ ht => visit_within x ht (by omega))
    (Nat.le_refl ([] : List Device).length) (Nat.zero_le kNumDevices)
  refine ⟨r, fun fuel hfuel => ?_, hwithin⟩
  rw [ScanAllBus_eq]
  exact each_mono (fun _ _ _ h => visit_mono hfuel h) hr

/-! ## What is in the lists -/

theorem mem_bytes {first last : Nat} (h : last ≤ 256) (i : UInt8) :
    i ∈ bytes first last ↔ first ≤ i.toNat ∧ i.toNat < last := by
  rw [bytes, List.mem_map]
  constructor
  · rintro ⟨n, hn, rfl⟩
    rw [List.mem_range'_1] at hn
    rw [UInt8.toNat_ofNat_of_lt' (by omega : n < 256)]
    omega
  · intro hi
    exact ⟨i.toNat, List.mem_range'_1.mpr (by omega), UInt8.ofNat_toNat⟩

theorem nodup_bytes {first last : Nat} (h : last ≤ 256) : (bytes first last).Nodup := by
  refine List.Nodup.map_on (fun n hn m hm he => ?_) List.nodup_range'
  rw [List.mem_range'_1] at hn hm
  have hval := congrArg UInt8.toNat he
  rwa [UInt8.toNat_ofNat_of_lt' (by omega : n < 256),
    UInt8.toNat_ofNat_of_lt' (by omega : m < 256)] at hval

theorem readDevice_inj {b d f b' d' f' : UInt8}
    (h : readDevice cfg b d f = readDevice cfg b' d' f') : b = b' ∧ d = d' ∧ f = f' :=
  ⟨congrArg Device.bus h, congrArg Device.device h, congrArg Device.function h⟩

theorem mem_filter_answers {first last : Nat} (h : last ≤ 256) (answer : UInt8 → UInt16) {i : UInt8} :
    i ∈ (bytes first last).filter (fun i => answer i ≠ 0xffff) ↔
      (first ≤ i.toNat ∧ i.toNat < last) ∧ answer i ≠ 0xffff := by
  rw [List.mem_filter, mem_bytes h, decide_eq_true_eq]

theorem mem_deviceFunctions {dev : Device} (h : Answers cfg bus device 0) :
    dev ∈ deviceFunctions cfg bus device ↔
      ∃ f, Present cfg bus device f ∧ dev = readDevice cfg bus device f := by
  rw [deviceFunctions, List.mem_cons]
  have hzero : (0 : UInt8) < 8 := by decide
  constructor
  · rintro (rfl | hmem)
    · exact ⟨0, ⟨h, h, .inl rfl⟩, rfl⟩
    · by_cases hsingle : IsSingleFunctionDevice (ReadHeaderType cfg bus device 0) = true
      · rw [if_pos hsingle] at hmem
        cases hmem
      · rw [if_neg hsingle, List.mem_map] at hmem
        obtain ⟨f, hf, rfl⟩ := hmem
        obtain ⟨⟨-, hlt⟩, hanswer⟩ := (mem_filter_answers (by decide) _).mp hf
        exact ⟨f, ⟨h, ⟨h.1, UInt8.lt_iff_toNat_lt.mpr hlt, hanswer⟩,
          .inr (Bool.eq_false_iff.mpr hsingle)⟩, rfl⟩
  · rintro ⟨f, ⟨-, ⟨-, hlt, hanswer⟩, hor⟩, rfl⟩
    by_cases hf : f = 0
    · exact .inl (by rw [hf])
    · have hpos : 1 ≤ f.toNat := Nat.one_le_iff_ne_zero.mpr fun h0 => hf (UInt8.toNat_inj.mp h0)
      rw [if_neg (Bool.eq_false_iff.mp (hor.resolve_left hf))]
      exact .inr (List.mem_map_of_mem ((mem_filter_answers (by decide) _).mpr
        ⟨⟨hpos, UInt8.lt_iff_toNat_lt.mp hlt⟩, hanswer⟩))

theorem mem_busDevices :
    device ∈ (bytes 0 32).filter (fun device => ReadVendorId cfg bus device 0 ≠ 0xffff) ↔
      Answers cfg bus device 0 := by
  have hzero : (0 : UInt8) < 8 := by decide
  rw [mem_filter_answers (by decide)]
  exact ⟨fun h => ⟨UInt8.lt_iff_toNat_lt.mpr h.1.2, hzero, h.2⟩,
    fun h => ⟨⟨Nat.zero_le _, UInt8.lt_iff_toNat_lt.mp h.1⟩, h.2.2⟩⟩

theorem mem_busFunctions {dev : Device} :
    dev ∈ busFunctions cfg bus ↔ ∃ d f, Present cfg bus d f ∧ dev = readDevice cfg bus d f := by
  rw [busFunctions, List.mem_flatMap]
  constructor
  · rintro ⟨d, hd, hmem⟩
    obtain ⟨f, hf, rfl⟩ := (mem_deviceFunctions (mem_busDevices.mp hd)).mp hmem
    exact ⟨d, f, hf, rfl⟩
  · rintro ⟨d, f, hf, rfl⟩
    exact ⟨d, mem_busDevices.mpr hf.1, (mem_deviceFunctions hf.1).mpr ⟨f, hf, rfl⟩⟩

theorem nodup_deviceFunctions (bus device : UInt8) : (deviceFunctions cfg bus device).Nodup := by
  rw [deviceFunctions]
  split
  next => exact List.nodup_singleton _
  next =>
      refine List.nodup_cons.mpr ⟨fun hmem => ?_, ?_⟩
      · obtain ⟨f, hf, heq⟩ := List.mem_map.mp hmem
        obtain ⟨⟨hpos, -⟩, -⟩ := (mem_filter_answers (by decide) _).mp hf
        rw [(readDevice_inj heq).2.2] at hpos
        exact absurd hpos (by decide)
      · exact ((nodup_bytes (by decide)).filter _).map fun f f' heq => (readDevice_inj heq).2.2

theorem nodup_busFunctions (bus : UInt8) : (busFunctions cfg bus).Nodup := by
  refine List.nodup_flatMap.mpr ⟨fun d _ => nodup_deviceFunctions bus d, ?_⟩
  refine ((nodup_bytes (by decide)).filter _).imp_of_mem fun {d d'} hd hd' hne dev hmem hmem' => ?_
  obtain ⟨f, -, rfl⟩ := (mem_deviceFunctions (mem_busDevices.mp hd)).mp hmem
  obtain ⟨f', -, heq⟩ := (mem_deviceFunctions (mem_busDevices.mp hd')).mp hmem'
  exact hne (readDevice_inj heq).2.1

theorem mem_hostBuses : bus ∈ hostBuses cfg ↔ HostBus cfg bus := by
  rw [hostBuses, HostBus]
  split
  next => exact List.mem_singleton
  next =>
      have hzero : (0 : UInt8) < 32 := by decide
      rw [mem_filter_answers (by decide)]
      exact ⟨fun h => ⟨hzero, UInt8.lt_iff_toNat_lt.mpr h.1.2, h.2⟩,
        fun h => ⟨⟨Nat.zero_le _, UInt8.lt_iff_toNat_lt.mp h.2.1⟩, h.2.2⟩⟩

theorem nodup_hostBuses (cfg : ConfigSpace) : (hostBuses cfg).Nodup := by
  rw [hostBuses]
  split
  next => exact List.nodup_singleton _
  next => exact (nodup_bytes (by decide)).filter _

theorem mem_hostFunctions {dev : Device} :
    dev ∈ hostFunctions cfg ↔
      ∃ b d f, HostBus cfg b ∧ Present cfg b d f ∧ dev = readDevice cfg b d f := by
  rw [hostFunctions, List.mem_flatMap]
  constructor
  · rintro ⟨b, hb, hmem⟩
    obtain ⟨d, f, hf, rfl⟩ := mem_busFunctions.mp hmem
    exact ⟨b, d, f, mem_hostBuses.mp hb, hf, rfl⟩
  · rintro ⟨b, d, f, hb, hf, rfl⟩
    exact ⟨b, mem_hostBuses.mpr hb, mem_busFunctions.mpr ⟨d, f, hf, rfl⟩⟩

theorem nodup_hostFunctions (cfg : ConfigSpace) : (hostFunctions cfg).Nodup := by
  refine List.nodup_flatMap.mpr ⟨fun b _ => nodup_busFunctions b, ?_⟩
  refine (nodup_hostBuses cfg).imp fun {b b'} hne dev hmem hmem' => ?_
  obtain ⟨d, f, -, rfl⟩ := mem_busFunctions.mp hmem
  obtain ⟨d', f', -, heq⟩ := mem_busFunctions.mp hmem'
  exact hne (readDevice_inj heq).1

theorem mem_behind {b d f : UInt8} {dev : Device} :
    dev ∈ behind cfg (readDevice cfg b d f) ↔ IsBridge cfg b d f ∧
      ∃ d' f', Present cfg (secondaryBus cfg b d f) d' f' ∧
        dev = readDevice cfg (secondaryBus cfg b d f) d' f' := by
  rw [behind, IsBridge]
  split
  next h => rw [mem_busFunctions]; exact (and_iff_right h).symm
  next h => exact iff_of_false List.not_mem_nil fun hb => h hb.1

/-! ## The tree -/

/-- What the walk reaches is what is reached. -/
theorem reach_iff {dev : Device} :
    Reach (behind cfg) (hostFunctions cfg) dev ↔
      ∃ b d f, Reached cfg (Present cfg) b d f ∧ dev = readDevice cfg b d f := by
  constructor
  · rintro ⟨x, hx, hdesc⟩
    induction hdesc with
    | refl =>
        obtain ⟨b, d, f, hb, hf, rfl⟩ := mem_hostFunctions.mp hx
        exact ⟨b, d, f, .host hb hf, rfl⟩
    | tail _ hnext ih =>
        obtain ⟨b, d, f, hreached, rfl⟩ := ih
        obtain ⟨hbridge, d', f', hf', rfl⟩ := mem_behind.mp hnext
        exact ⟨_, d', f', .bridge hreached hbridge hf', rfl⟩
  · rintro ⟨b, d, f, hreached, rfl⟩
    induction hreached with
    | host hb hf => exact ⟨_, mem_hostFunctions.mpr ⟨_, _, _, hb, hf, rfl⟩, .refl⟩
    | bridge _ hbridge hf ih => exact ih.desc (.single (mem_behind.mpr ⟨hbridge, _, _, hf, rfl⟩))

/-- An entry is told by where its function is. -/
theorem address_inj {x y : Device} (hx : Reach (behind cfg) (hostFunctions cfg) x)
    (hy : Reach (behind cfg) (hostFunctions cfg) y) (h : x.address = y.address) : x = y := by
  obtain ⟨b, d, f, -, rfl⟩ := reach_iff.mp hx
  obtain ⟨b', d', f', -, rfl⟩ := reach_iff.mp hy
  cases h
  rfl

/-- A tree of bridges makes a forest of functions. -/
theorem BridgeTree.forest (h : BridgeTree cfg (Present cfg)) :
    Forest (behind cfg) (hostFunctions cfg) where
  nodup_roots := nodup_hostFunctions cfg
  nodup_next dev _ := by
    rw [behind]
    split
    next => exact nodup_busFunctions _
    next => exact List.nodup_nil
  root x hx y hy hroot := by
    obtain ⟨b, d, f, hreached, rfl⟩ := reach_iff.mp hx
    obtain ⟨hbridge, d', f', -, rfl⟩ := mem_behind.mp hy
    obtain ⟨b', _, _, hb', -, heq⟩ := mem_hostFunctions.mp hroot
    exact h.host b d f hreached hbridge ((readDevice_inj heq).1 ▸ hb')
  parent x x' hx hx' y hy hy' := by
    obtain ⟨b, d, f, hreached, rfl⟩ := reach_iff.mp hx
    obtain ⟨b', d', f', hreached', rfl⟩ := reach_iff.mp hx'
    obtain ⟨hbridge, _, _, -, rfl⟩ := mem_behind.mp hy
    obtain ⟨hbridge', _, _, -, heq⟩ := mem_behind.mp hy'
    cases h.parent b d f b' d' f' hreached hbridge hreached' hbridge' (readDevice_inj heq).1
    rfl

/-! ## Spaces of some functions -/

/-- The parts of an address. -/
def addressParts (a : UInt32) : UInt8 × UInt8 × UInt8 × UInt8 :=
  ((a >>> 16).toUInt8, (a >>> 11).toUInt8 &&& 31, (a >>> 8).toUInt8 &&& 7, a.toUInt8)

theorem byte_cases {P : UInt8 → Prop} (h : ∀ n < 256, P (UInt8.ofNat n)) (x : UInt8) : P x := by
  have hx := h x.toNat x.toNat_lt
  rwa [UInt8.ofNat_toNat] at hx

theorem or_mask (x y m : UInt8) : (x ||| y) &&& m = (x &&& m) ||| (y &&& m) := by
  rw [← UInt8.toNat_inj]
  simp only [UInt8.toNat_and, UInt8.toNat_or]
  exact Nat.and_or_distrib_right ..

/-- **Each function has its own registers.** -/
theorem addressParts_MakeAddress {device function : UInt8} (bus reg_addr : UInt8)
    (hd : device < 32) (hf : function < 8) :
    addressParts (MakeAddress bus device function reg_addr) =
      (bus, device, function, reg_addr &&& 0xfc) := by
  have hbus : ∀ b : UInt8, (b.toUInt32 <<< 16 >>> 16).toUInt8 = b ∧
      (b.toUInt32 <<< 16 >>> 11).toUInt8 &&& 31 = 0 ∧ (b.toUInt32 <<< 16 >>> 8).toUInt8 &&& 7 = 0 ∧
      (b.toUInt32 <<< 16).toUInt8 = 0 := byte_cases (by decide +kernel)
  have hdevice : ∀ d : UInt8, d < 32 → (d.toUInt32 <<< 11 >>> 16).toUInt8 = 0 ∧
      (d.toUInt32 <<< 11 >>> 11).toUInt8 &&& 31 = d ∧ (d.toUInt32 <<< 11 >>> 8).toUInt8 &&& 7 = 0 ∧
      (d.toUInt32 <<< 11).toUInt8 = 0 := byte_cases (by decide +kernel)
  have hfunction : ∀ f : UInt8, f < 8 → (f.toUInt32 <<< 8 >>> 16).toUInt8 = 0 ∧
      (f.toUInt32 <<< 8 >>> 11).toUInt8 &&& 31 = 0 ∧ (f.toUInt32 <<< 8 >>> 8).toUInt8 &&& 7 = f ∧
      (f.toUInt32 <<< 8).toUInt8 = 0 := byte_cases (by decide +kernel)
  have hreg : ∀ r : UInt8, ((r.toUInt32 &&& 0xfc) >>> 16).toUInt8 = 0 ∧
      ((r.toUInt32 &&& 0xfc) >>> 11).toUInt8 &&& 31 = 0 ∧
      ((r.toUInt32 &&& 0xfc) >>> 8).toUInt8 &&& 7 = 0 ∧
      (r.toUInt32 &&& 0xfc).toUInt8 = r &&& 0xfc := byte_cases (by decide +kernel)
  obtain ⟨hb₁, hb₂, hb₃, hb₄⟩ := hbus bus
  obtain ⟨hd₁, hd₂, hd₃, hd₄⟩ := hdevice device hd
  obtain ⟨hf₁, hf₂, hf₃, hf₄⟩ := hfunction function hf
  obtain ⟨hr₁, hr₂, hr₃, hr₄⟩ := hreg reg_addr
  have hone : ((1 : UInt32) <<< 31 >>> 16).toUInt8 = 0 ∧ ((1 : UInt32) <<< 31 >>> 11).toUInt8 = 0 ∧
      ((1 : UInt32) <<< 31 >>> 8).toUInt8 = 0 ∧ ((1 : UInt32) <<< 31).toUInt8 = 0 := by decide
  simp only [addressParts, MakeAddress, UInt32.shiftRight_or, UInt32.toUInt8_or,
    or_mask, hone, hb₁, hb₂, hb₃, hb₄, hd₁, hd₂, hd₃, hd₄, hf₁, hf₂, hf₃, hf₄, hr₁, hr₂,
    hr₃, hr₄]
  simp
/-- These functions answer, each with its registers. -/
def ofFunctions (fs : List ((UInt8 × UInt8 × UInt8) × (UInt8 → UInt32))) : ConfigSpace := fun a =>
  match fs.lookup ((addressParts a).1, (addressParts a).2.1, (addressParts a).2.2.1) with
  | some regs => regs (addressParts a).2.2.2
  | none => 0xffffffff

/-- Nothing else does. -/
theorem mem_of_answers {fs : List ((UInt8 × UInt8 × UInt8) × (UInt8 → UInt32))}
    (h : Answers (ofFunctions fs) bus device function) :
    (bus, device, function) ∈ fs.map (·.1) := by
  obtain ⟨hd, hf, hanswer⟩ := h
  by_contra hnot
  have hnone : fs.lookup (bus, device, function) = none := by
    rw [List.lookup_eq_none_iff]
    intro p hp
    exact bne_iff_ne.mpr fun heq => hnot (heq ▸ List.mem_map_of_mem hp)
  refine hanswer ?_
  rw [ReadVendorId, ofFunctions, addressParts_MakeAddress bus 0 hd hf, hnone]
  exact (by decide : ((0xffffffff : UInt32) &&& 0xffff).toUInt16 = 0xffff)

section
variable {fs : List ((UInt8 × UInt8 × UInt8) × (UInt8 → UInt32))}
  {present : UInt8 → UInt8 → UInt8 → Prop}

theorem Reached.mem (hp : ∀ b d f, present b d f → Answers (ofFunctions fs) b d f)
    (h : Reached (ofFunctions fs) present bus device function) :
    (bus, device, function) ∈ fs.map (·.1) := by
  cases h with
  | host _ hpresent => exact mem_of_answers (hp _ _ _ hpresent)
  | bridge _ _ hpresent => exact mem_of_answers (hp _ _ _ hpresent)

theorem encard_reached_le (hp : ∀ b d f, present b d f → Answers (ofFunctions fs) b d f) :
    {a : UInt8 × UInt8 × UInt8 | Reached (ofFunctions fs) present a.1 a.2.1 a.2.2}.encard ≤
      fs.length := by
  have hsub : {a : UInt8 × UInt8 × UInt8 | Reached (ofFunctions fs) present a.1 a.2.1 a.2.2} ⊆
      ((fs.map (·.1)).toFinset : Set _) := fun a ha => by
    rw [Finset.mem_coe, List.mem_toFinset]
    exact Reached.mem hp ha
  have hle := Set.encard_le_encard hsub
  rw [Set.encard_coe_eq_coe_finsetCard] at hle
  refine hle.trans (Nat.cast_le.mpr ?_)
  exact (List.toFinset_card_le _).trans (List.length_map _).le

end

/-! ## All buses -/

/-- **`ScanAllBus`.**  It ends for every configuration space, with at most 32 functions; and where
the bridges form a tree, and no more than 32 functions are reached, each of them is listed once. -/
theorem scanAllBus_lists (cfg : ConfigSpace) :
    (∃ r devices, (∀ fuel, kNumDevices < fuel → ScanAllBus cfg fuel = some r) ∧
      (r = .ok devices ∨ r = .error devices) ∧ devices.length ≤ 32) ∧
    (BridgeTree cfg (Present cfg) →
      {a : UInt8 × UInt8 × UInt8 | Reached cfg (Present cfg) a.1 a.2.1 a.2.2}.encard ≤ 32 →
      ∃ devices, (∀ fuel, kNumDevices < fuel → ScanAllBus cfg fuel = some (.ok devices)) ∧
        (devices.map Device.address).Nodup ∧
        ∀ dev, dev ∈ devices ↔
          ∃ b d f, Reached cfg (Present cfg) b d f ∧ dev = readDevice cfg b d f) := by
  obtain ⟨r, hr, devices, hor, -, hlen⟩ := ScanAllBus_within cfg
  refine ⟨⟨r, devices, hr, hor, hlen⟩, fun htree hcard => ?_⟩
  have hroom : ∀ l : List Device, l.Nodup → (∀ x ∈ l, Reach (behind cfg) (hostFunctions cfg) x) →
      l.length ≤ kNumDevices := by
    intro l hl hmem
    have hnd : (l.map Device.address).Nodup :=
      List.Nodup.map_on (fun x hx y hy => address_inj (hmem x hx) (hmem y hy)) hl
    have hsub : ((l.map Device.address).toFinset : Set _) ⊆
        {a : UInt8 × UInt8 × UInt8 | Reached cfg (Present cfg) a.1 a.2.1 a.2.2} := by
      intro a ha
      rw [Finset.mem_coe, List.mem_toFinset, List.mem_map] at ha
      obtain ⟨x, hx, rfl⟩ := ha
      obtain ⟨b, d, f, hreached, rfl⟩ := reach_iff.mp (hmem x hx)
      exact hreached
    have hle := (Set.encard_le_encard hsub).trans hcard
    rw [Set.encard_coe_eq_coe_finsetCard, List.toFinset_card_of_nodup hnd, List.length_map] at hle
    exact_mod_cast hle
  have heq := hr (kNumDevices + 1) (Nat.lt_succ_self _)
  rw [ScanAllBus_eq] at heq
  obtain ⟨s, rfl, hs, hmem⟩ := each_forest htree.forest hroom heq
  exact ⟨s, hr, List.Nodup.map_on
    (fun x hx y hy => address_inj ((hmem x).mp hx) ((hmem y).mp hy)) hs,
    fun dev => (hmem dev).trans reach_iff⟩

/-- A host bridge, a bridge to bus 1, and a card behind it. -/
def oneBridge : ConfigSpace :=
  ofFunctions
    [((0, 0, 0), fun r => if r = 0 then 0x12378086 else if r = 8 then 0x06000002 else 0),
      ((0, 1, 0), fun r =>
        if r = 0 then 0x00011b36 else if r = 8 then 0x06040000 else if r = 0x18 then 0x00010100
        else 0x00010000),
      ((1, 0, 0), fun r => if r = 0 then 0x100e8086 else if r = 8 then 0x02000003 else 0)]

theorem scanAllBus_lists_card :
    ∃ devices, (∀ fuel, kNumDevices < fuel → ScanAllBus oneBridge fuel = some (.ok devices)) ∧
      readDevice oneBridge 1 0 0 ∈ devices := by
  have hanswers : ∀ b d f, Present oneBridge b d f → Answers oneBridge b d f := fun _ _ _ h => h.2.1
  have hbridge : ∀ b d f, Reached oneBridge (Present oneBridge) b d f → IsBridge oneBridge b d f →
      (b, d, f) = (0, 1, 0) := by
    intro b d f h hb
    rcases List.mem_cons.mp (h.mem hanswers) with heq | hmem
    · cases heq
      exact absurd hb (by decide +kernel)
    · rcases List.mem_cons.mp hmem with heq | hmem
      · exact heq
      · cases List.mem_singleton.mp hmem
        exact absurd hb (by decide +kernel)
  have htree : BridgeTree oneBridge (Present oneBridge) := by
    constructor
    · intro b d f h hb
      cases hbridge b d f h hb
      decide +kernel
    · intro b d f b' d' f' h hb h' hb' _
      rw [hbridge b d f h hb, hbridge b' d' f' h' hb']
  have hcard := (encard_reached_le hanswers).trans (by decide : _ ≤ ((32 : ℕ) : ℕ∞))
  obtain ⟨devices, hscan, -, hmem⟩ := (scanAllBus_lists oneBridge).2 htree hcard
  refine ⟨devices, hscan, (hmem _).mpr ⟨1, 0, 0, ?_, rfl⟩⟩
  have hroot : Reached oneBridge (Present oneBridge) 0 1 0 :=
    .host (by decide +kernel) (by decide +kernel)
  exact Reached.bridge hroot (by decide +kernel) (by decide +kernel)

/-- A host bridge that says that it is alone, and a function beside it. -/
def beside : ConfigSpace :=
  ofFunctions
    [((0, 0, 0), fun r => if r = 0 then 0x12378086 else if r = 8 then 0x06000002 else 0),
      ((0, 0, 1), fun r => if r = 0 then 0x70008086 else if r = 8 then 0x06010000 else 0)]

/-- A function that answers is passed over. -/
theorem scanAllBus_passes_over : ¬ ∀ cfg : ConfigSpace, BridgeTree cfg (Answers cfg) →
    {a : UInt8 × UInt8 × UInt8 | Reached cfg (Answers cfg) a.1 a.2.1 a.2.2}.encard ≤ 32 →
    ∃ devices, (∀ fuel, kNumDevices < fuel → ScanAllBus cfg fuel = some (.ok devices)) ∧
      ∀ b d f, Reached cfg (Answers cfg) b d f → readDevice cfg b d f ∈ devices := by
  intro h
  have hanswers : ∀ b d f, Answers beside b d f → Answers beside b d f := fun _ _ _ h => h
  have hbridge : ∀ b d f, Reached beside (Answers beside) b d f → ¬ IsBridge beside b d f := by
    intro b d f h
    rcases List.mem_cons.mp (h.mem hanswers) with heq | hmem
    · cases heq
      decide +kernel
    · cases List.mem_singleton.mp hmem
      decide +kernel
  have htree : BridgeTree beside (Answers beside) :=
    ⟨fun b d f h hb => absurd hb (hbridge b d f h),
      fun b d f _ _ _ h hb => absurd hb (hbridge b d f h)⟩
  have hcard := (encard_reached_le hanswers).trans (by decide : _ ≤ ((32 : ℕ) : ℕ∞))
  obtain ⟨devices, hscan, hmem⟩ := h beside htree hcard
  have hlast : Reached beside (Answers beside) 0 0 1 :=
    .host (by decide +kernel) (by decide +kernel)
  have hrun : ScanAllBus beside 33 = some (.ok [readDevice beside 0 0 0]) := by rfl
  have hin := hmem 0 0 1 hlast
  cases (hscan 33 (by decide)).symm.trans hrun
  rw [List.mem_singleton] at hin
  exact absurd (readDevice_inj hin).2.2 (by decide)

end Laplus.Pci
