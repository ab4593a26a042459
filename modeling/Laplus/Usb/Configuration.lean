/-
# `Laplus.Usb.Configuration` — the second phase of a device (`usb/device.cpp`)

`InitializePhase2` walks over the configuration that the device sent.  For a device that
names no class it takes the first interface that has a driver, and as many endpoint
descriptors behind it as the interface says.  For a communication device it takes every
interface, and looks at as many descriptors behind it, endpoints or not.  Neither loop
looks at the null pointer before it reads a type.
-/
import Laplus.Lib.Loop
import Laplus.Usb.Descriptor

namespace Laplus.Usb

open Lib

/-! ## The source -/

/-- What `InitializePhase2` returns: success without a driver, or the configuration that it asks
for. -/
inductive Phase2 where
  | kInvalidDescriptor
  | kNotImplemented
  | noClassDriver
  | setConfiguration (configuration_value : UInt8)
deriving DecidableEq

/-- Where a walk is: before it, on the way to an interface, or behind one, with so many counted. -/
inductive Control where
  | start
  | interfaces
  | endpoints (if_desc : InterfaceDescriptor) (i : Nat)

/-- The reader, and `ep_configs_`. -/
structure Walk where
  control : Control
  p : Nat
  ep_configs : List EndpointConfig

/-- A round of a walk. -/
abbrev Step := Round Walk (Phase2 × List EndpointConfig)

/-- A read, and what is done with it. -/
def Step.read {α : Type} (a : Option α) (f : α → Step) : Step :=
  match a with
  | none => .fault
  | some a => f a

section
variable (buf : List UInt8)

/-- `SetConfiguration`. -/
def configured (ep_configs : List EndpointConfig) : Step :=
  .read buf[5]? fun configuration_value => .done (.setConfiguration configuration_value, ep_configs)

/-- A round of `Next<InterfaceDescriptor>`. -/
def nextInterface (w : Walk) (null : Step) (found : Nat → InterfaceDescriptor → Step) : Step :=
  .read (Next buf w.p) fun
    | none => null
    | some n => .read (descriptorType buf n) fun type =>
        if type = kInterface then .read (interfaceAt buf n) (found n)
        else .again ⟨.interfaces, n, w.ep_configs⟩

/-- The loops of `InitializePhase2` for a device that names no class. -/
def hidRound (w : Walk) : Step :=
  match w.control with
  | .endpoints if_desc ep_index =>
      if ep_index < if_desc.num_endpoints.toNat then
        .read (Next buf w.p) fun
          | none => .fault
          | some n => .read (descriptorType buf n) fun type =>
              if type = kEndpoint then
                .read (MakeEPConfig buf n) fun conf =>
                  .again ⟨.endpoints if_desc (ep_index + 1), n, w.ep_configs ++ [conf]⟩
              else if type = kHID then
                .read (logHID buf n) fun _ => .again ⟨.endpoints if_desc ep_index, n, w.ep_configs⟩
              else .again ⟨.endpoints if_desc ep_index, n, w.ep_configs⟩
      else configured buf w.ep_configs
  | _ => nextInterface buf w (.done (.noClassDriver, w.ep_configs)) fun n if_desc =>
      .again ⟨if if_desc.hasDriver then .endpoints if_desc 0 else .interfaces, n, w.ep_configs⟩

/-- The loops of `NewClassDriver` for a communication device. -/
def cdcRound (w : Walk) : Step :=
  match w.control with
  | .endpoints if_desc i =>
      if i < if_desc.num_endpoints.toNat then
        .read (Next buf w.p) fun
          | none => .fault
          | some n => .read (descriptorType buf n) fun type =>
              if type = kEndpoint then
                .read (MakeEPConfig buf n) fun conf =>
                  .again ⟨.endpoints if_desc (i + 1), n, w.ep_configs ++ [conf]⟩
              else .read (logFunctional buf n) fun _ =>
                .again ⟨.endpoints if_desc (i + 1), n, w.ep_configs⟩
      else .again ⟨.interfaces, w.p, w.ep_configs⟩
  | _ => nextInterface buf w (configured buf w.ep_configs) fun n if_desc =>
      .again ⟨.endpoints if_desc 0, n, w.ep_configs⟩

/-- `InitializePhase2`. -/
def phase2Round (device_class : UInt8) (w : Walk) : Step :=
  match w.control with
  | .start => .read (descriptorType buf 0) fun type =>
      if type ≠ kConfiguration then .done (.kInvalidDescriptor, w.ep_configs)
      else if device_class = 0 ∨ device_class = 2 then .again ⟨.interfaces, 0, w.ep_configs⟩
      else .done (.kNotImplemented, w.ep_configs)
  | _ => if device_class = 0 then hidRound buf w else cdcRound buf w

/-! ## What is meant -/

/-- A descriptor is of a type. -/
def Is (type : UInt8) (d : Nat) : Prop := descriptorType buf d = some type

/-- An interface that has a driver. -/
def HasDriver (i : Nat) : Prop :=
  Is buf kInterface i ∧ ∃ if_desc, interfaceAt buf i = some if_desc ∧ if_desc.hasDriver = true

/-- The interface that is chosen: the first one with a driver, or every one of a communication
device. -/
def Chosen (device_class : UInt8) (i : Nat) : Prop :=
  Ahead (behind buf) (fun _ => True) 0 i ∧
    if device_class = 0 then HasDriver buf i ∧
      ∀ j < i, Ahead (behind buf) (fun _ => True) 0 j → ¬ HasDriver buf j
    else Is buf kInterface i

/-- An endpoint that follows an interface, before the next. -/
def Follows (i e : Nat) : Prop :=
  Is buf kEndpoint e ∧ Ahead (behind buf) (fun d => ¬ Is buf kInterface d) i e

/-- These are the endpoints that follow the chosen interface, each once, in their order. -/
structure Exact (device_class : UInt8) (ep_configs : List EndpointConfig) (es : List Nat) : Prop where
  sorted : es.Pairwise (· < ·)
  mem : ∀ e, e ∈ es ↔ ∃ i, Chosen buf device_class i ∧ Follows buf i e
  configs : es.mapM (MakeEPConfig buf) = some ep_configs

/-- `InitializePhase2` ends without a read behind the string or at the null pointer, and if it
succeeds, `ep_configs_` is what is meant. -/
def Meets (device_class : UInt8) : Prop :=
  ∃ r ep_configs, Yields (phase2Round buf device_class) ⟨.start, 0, []⟩ (r, ep_configs) ∧
    (r ≠ .kInvalidDescriptor → r ≠ .kNotImplemented → ∃ es, Exact buf device_class ep_configs es)

/-! ## When it is met -/

/-- What is read of a descriptor on the way to an interface. -/
def Header (d : Nat) : Prop := d + 2 ≤ buf.length ∧ (Is buf kInterface d → d + 8 ≤ buf.length)

/-- What is read of a descriptor behind an interface. -/
def Inside (d : Nat) : Prop :=
  d + 2 ≤ buf.length ∧ (Is buf kEndpoint d → d + 7 ≤ buf.length) ∧ (Is buf kHID d → HIDInside buf d)

/-- No interface has a driver, and the walk comes to the end of the string. -/
def NoDriver : Prop :=
  ∃ ds, Chain (behind buf) 0 (0 :: ds) ∧ ∀ d ∈ ds, Header buf d ∧ ¬ HasDriver buf d

/-- As many endpoints as the chosen interface says follow it, and what is read up to the last of
them is in the string. -/
structure HasEndpoints (i : Nat) (if_desc : InterfaceDescriptor) (es : List Nat) : Prop where
  chosen : Chosen buf 0 i
  header : ∀ j ≤ i, Ahead (behind buf) (fun _ => True) 0 j → Header buf j
  desc : interfaceAt buf i = some if_desc
  sorted : es.Pairwise (· < ·)
  mem : ∀ e, e ∈ es ↔ Follows buf i e
  count : es.length = if_desc.num_endpoints.toNat
  inside : ∀ e ∈ es, ∀ d, Ahead (behind buf) (fun d => ¬ Is buf kInterface d) i d → d ≤ e →
    Inside buf d

/-- The descriptors of a communication device, with so many still to be counted, and the endpoints
among those that the counts reach. -/
inductive CdcRead : Nat → List Nat → List Nat → Prop
  | nil : CdcRead 0 [] []
  | pass {d : Nat} {ds es : List Nat} (hd : d + 2 ≤ buf.length) (hi : ¬ Is buf kInterface d)
      (h : CdcRead 0 ds es) : CdcRead 0 (d :: ds) es
  | interface {d : Nat} {ds es : List Nat} {if_desc : InterfaceDescriptor} (hi : Is buf kInterface d)
      (hd : interfaceAt buf d = some if_desc) (h : CdcRead if_desc.num_endpoints.toNat ds es) :
      CdcRead 0 (d :: ds) es
  | endpoint {k d : Nat} {ds es : List Nat} (he : Is buf kEndpoint d) (hd : d + 7 ≤ buf.length)
      (h : CdcRead k ds es) : CdcRead (k + 1) (d :: ds) (d :: es)
  | other {k d : Nat} {ds es : List Nat} (he : ¬ Is buf kEndpoint d) (hd : d + 2 ≤ buf.length)
      (hf : Is buf kFunctional d → FunctionalInside buf d) (h : CdcRead k ds es) :
      CdcRead (k + 1) (d :: ds) es

/-- The walk comes to the end of the string, and the counts reach every endpoint that follows an
interface. -/
def CdcConfiguration : Prop :=
  6 ≤ buf.length ∧ ∃ ds es, Chain (behind buf) 0 (0 :: ds) ∧ CdcRead buf 0 ds es ∧
    ∀ i e, Chosen buf 2 i → Follows buf i e → e ∈ es

/-- A string of descriptors that can be walked over. -/
def WellFormed (device_class : UInt8) : Prop :=
  2 ≤ buf.length ∧ (Is buf kConfiguration 0 →
    (device_class = 0 → NoDriver buf ∨ ∃ i if_desc es, HasEndpoints buf i if_desc es) ∧
      (device_class = 2 → CdcConfiguration buf))

end

/-! ## A round -/

variable {buf : List UInt8} {p n d i k : Nat} {eps : List EndpointConfig} {w : Walk}
  {if_desc : InterfaceDescriptor} {device_class : UInt8} {ds es : List Nat}
  {r : Phase2 × List EndpointConfig}

@[simp] theorem Step.read_some {α : Type} (a : α) (f : α → Step) : Step.read (some a) f = f a := rfl

@[simp] theorem Step.read_none {α : Type} (f : α → Step) : Step.read none f = .fault := rfl

theorem descriptorType_isSome : (∃ t, descriptorType buf d = some t) ↔ d + 2 ≤ buf.length :=
  getElem?_isSome_iff

theorem not_is {t t' : UInt8} (h : Is buf t d) (hne : t ≠ t') : ¬ Is buf t' d := fun h' =>
  hne (Option.some.inj (h.symm.trans h'))

/-- A round of the way to an interface. -/
theorem nextInterface_eq {null : Step} {found : Nat → InterfaceDescriptor → Step}
    (hp : w.p < buf.length) (hn : behind buf w.p = some n) :
    nextInterface buf w null found =
      .read (descriptorType buf n) fun type =>
        if type = kInterface then .read (interfaceAt buf n) (found n)
        else .again ⟨.interfaces, n, w.ep_configs⟩ := by
  rw [nextInterface, Next_eq hp, hn]
  rfl

theorem nextInterface_null {null : Step} {found : Nat → InterfaceDescriptor → Step}
    (hp : w.p < buf.length) (hn : behind buf w.p = none) : nextInterface buf w null found = null := by
  rw [nextInterface, Next_eq hp, hn]
  rfl

theorem nextInterface_pass {null : Step} {found : Nat → InterfaceDescriptor → Step}
    (hp : w.p < buf.length) (hn : behind buf w.p = some n) (hd : n + 2 ≤ buf.length)
    (hi : ¬ Is buf kInterface n) :
    nextInterface buf w null found = .again ⟨.interfaces, n, w.ep_configs⟩ := by
  obtain ⟨t, ht⟩ := descriptorType_isSome.mpr hd
  have hne : t ≠ kInterface := fun he => hi (he ▸ ht)
  rw [nextInterface_eq hp hn, ht, Step.read_some, if_neg hne]

theorem nextInterface_found {null : Step} {found : Nat → InterfaceDescriptor → Step}
    (hp : w.p < buf.length) (hn : behind buf w.p = some n) (hi : Is buf kInterface n)
    (hd : interfaceAt buf n = some if_desc) : nextInterface buf w null found = found n if_desc := by
  rw [nextInterface_eq hp hn, hi, Step.read_some, if_pos rfl, hd, Step.read_some]

theorem nextInterface_fault {null : Step} {found : Nat → InterfaceDescriptor → Step}
    (hp : w.p < buf.length) (hn : behind buf w.p = some n) (hd : ¬ Header buf n) :
    nextInterface buf w null found = .fault := by
  rw [nextInterface_eq hp hn]
  cases ht : descriptorType buf n with
  | none => rfl
  | some t =>
      have h2 := descriptorType_isSome.mp ⟨t, ht⟩
      have hi : t = kInterface ∧ ¬ n + 8 ≤ buf.length := by
        constructor
        · by_contra hne
          exact hd ⟨h2, fun hi => absurd (Option.some.inj (ht.symm.trans hi)) hne⟩
        · exact fun h8 => hd ⟨h2, fun _ => h8⟩
      have hnone : interfaceAt buf n = none := by
        cases h : interfaceAt buf n with
        | none => rfl
        | some if_desc => exact absurd (interfaceAt_isSome.mp ⟨_, h⟩) hi.2
      rw [Step.read_some, if_pos hi.1, hnone, Step.read_none]

/-! ## A device that names no class -/

theorem hid_interfaces (p : Nat) (eps : List EndpointConfig) :
    phase2Round buf 0 ⟨.interfaces, p, eps⟩ =
      nextInterface buf ⟨.interfaces, p, eps⟩ (.done (.noClassDriver, eps)) fun n if_desc =>
        .again ⟨if if_desc.hasDriver then .endpoints if_desc 0 else .interfaces, n, eps⟩ := rfl

/-- An interface without a driver is passed. -/
theorem hid_interfaces_pass (hp : p < buf.length) (hn : behind buf p = some n) (hd : Header buf n)
    (ht : ¬ HasDriver buf n) :
    phase2Round buf 0 ⟨.interfaces, p, eps⟩ = .again ⟨.interfaces, n, eps⟩ := by
  rw [hid_interfaces]
  by_cases hi : Is buf kInterface n
  · obtain ⟨if_desc, hdesc⟩ := interfaceAt_isSome.mpr (hd.2 hi)
    rw [nextInterface_found hp hn hi hdesc, if_neg fun h => ht ⟨hi, if_desc, hdesc, h⟩]
  · exact nextInterface_pass hp hn hd.1 hi

theorem hid_interfaces_found (hp : p < buf.length) (hn : behind buf p = some n)
    (ht : HasDriver buf n) (hdesc : interfaceAt buf n = some if_desc) :
    phase2Round buf 0 ⟨.interfaces, p, eps⟩ = .again ⟨.endpoints if_desc 0, n, eps⟩ := by
  obtain ⟨hi, if_desc', hdesc', hdriver⟩ := ht
  cases hdesc.symm.trans hdesc'
  rw [hid_interfaces, nextInterface_found hp hn hi hdesc, if_pos hdriver]

/-- **The way to an interface** ends at the end of the string, or at the first with a driver. -/
theorem hid_interfaces_iff (hp : p < buf.length) :
    Yields (phase2Round buf 0) ⟨.interfaces, p, eps⟩ r ↔
      (∃ ds, Chain (behind buf) p (p :: ds) ∧ (∀ d ∈ ds, Header buf d ∧ ¬ HasDriver buf d) ∧
        r = (.noClassDriver, eps)) ∨
      ∃ i if_desc, Counted (behind buf) (HasDriver buf) (Header buf) p 1 [i] ∧
        interfaceAt buf i = some if_desc ∧
        Yields (phase2Round buf 0) ⟨.endpoints if_desc 0, i, eps⟩ r := by
  constructor
  · rintro ⟨m, hm⟩
    induction m generalizing p with
    | zero => cases hm
    | succ m ih =>
        cases hn : behind buf p with
        | none =>
            have hround := (hid_interfaces p eps).trans (nextInterface_null hp hn)
            rw [rounds_done hround] at hm
            cases hm
            exact .inl ⟨[], .last hn, fun d hd => absurd hd List.not_mem_nil, rfl⟩
        | some n =>
            by_cases hd : Header buf n
            · by_cases ht : HasDriver buf n
              · obtain ⟨if_desc, hdesc⟩ := interfaceAt_isSome.mpr (hd.2 ht.1)
                rw [rounds_again (hid_interfaces_found hp hn ht hdesc)] at hm
                exact .inr ⟨n, if_desc, .hit hn hd ht (.zero n), hdesc, m, hm⟩
              · rw [rounds_again (hid_interfaces_pass hp hn hd ht)] at hm
                rcases ih (behind_lt hn) hm with ⟨ds, hds, hall, hr⟩ | ⟨i, if_desc, hi, hdesc, hr⟩
                · exact .inl ⟨n :: ds, .cons hn hds, List.forall_mem_cons.mpr ⟨⟨hd, ht⟩, hall⟩, hr⟩
                · exact .inr ⟨i, if_desc, .pass hn hd ht hi, hdesc, hr⟩
            · have hround := (hid_interfaces p eps).trans (nextInterface_fault hp hn hd)
              rw [rounds_fault hround] at hm
              cases hm
  · rintro (⟨ds, hds, hall, rfl⟩ | ⟨i, if_desc, hi, hdesc, hr⟩)
    · induction ds generalizing p with
      | nil =>
          cases hds with
          | last hn => exact .of_done ((hid_interfaces p eps).trans (nextInterface_null hp hn))
          | cons hn hds => exact absurd rfl hds.ne_nil
      | cons n ds ih =>
          cases hds with
          | cons hn hds =>
              obtain ⟨t, heq⟩ := hds.head
              cases heq
              obtain ⟨⟨hd, ht⟩, hall⟩ := List.forall_mem_cons.mp hall
              exact (yields_again (hid_interfaces_pass hp hn hd ht)).mpr (ih (behind_lt hn) hds hall)
    · generalize hk : 1 = k at hi
      generalize hes : [i] = es at hi
      induction hi with
      | zero => cases hk
      | hit hn hd ht _ _ =>
          cases hk
          cases hes
          exact (yields_again (hid_interfaces_found hp hn ht hdesc)).mpr hr
      | pass hn hd ht _ ih =>
          exact (yields_again (hid_interfaces_pass hp hn hd ht)).mpr (ih (behind_lt hn) hk hes)

/-- A round behind the interface. -/
theorem hid_endpoints (hi : i < if_desc.num_endpoints.toNat) (hp : p < buf.length)
    (hn : behind buf p = some n) :
    phase2Round buf 0 ⟨.endpoints if_desc i, p, eps⟩ =
      .read (descriptorType buf n) fun type =>
        if type = kEndpoint then
          .read (MakeEPConfig buf n) fun conf => .again ⟨.endpoints if_desc (i + 1), n, eps ++ [conf]⟩
        else if type = kHID then
          .read (logHID buf n) fun _ => .again ⟨.endpoints if_desc i, n, eps⟩
        else .again ⟨.endpoints if_desc i, n, eps⟩ := by
  have hround : phase2Round buf 0 ⟨.endpoints if_desc i, p, eps⟩ =
      hidRound buf ⟨.endpoints if_desc i, p, eps⟩ := rfl
  rw [hround, hidRound]
  simp only [if_pos hi, Next_eq hp, hn, Step.read_some]

theorem hid_endpoints_null (hi : i < if_desc.num_endpoints.toNat) (hp : p < buf.length)
    (hn : behind buf p = none) :
    phase2Round buf 0 ⟨.endpoints if_desc i, p, eps⟩ = .fault := by
  have hround : phase2Round buf 0 ⟨.endpoints if_desc i, p, eps⟩ =
      hidRound buf ⟨.endpoints if_desc i, p, eps⟩ := rfl
  rw [hround, hidRound]
  simp only [if_pos hi, Next_eq hp, hn, Step.read_some]

theorem hid_endpoints_hit {conf : EndpointConfig} (hi : i < if_desc.num_endpoints.toNat)
    (hp : p < buf.length) (hn : behind buf p = some n) (ht : Is buf kEndpoint n)
    (hconf : MakeEPConfig buf n = some conf) :
    phase2Round buf 0 ⟨.endpoints if_desc i, p, eps⟩ =
      .again ⟨.endpoints if_desc (i + 1), n, eps ++ [conf]⟩ := by
  rw [hid_endpoints hi hp hn, ht, Step.read_some, if_pos rfl, hconf, Step.read_some]

theorem hid_endpoints_pass (hi : i < if_desc.num_endpoints.toNat) (hp : p < buf.length)
    (hn : behind buf p = some n) (hd : Inside buf n) (ht : ¬ Is buf kEndpoint n) :
    phase2Round buf 0 ⟨.endpoints if_desc i, p, eps⟩ = .again ⟨.endpoints if_desc i, n, eps⟩ := by
  obtain ⟨t, htype⟩ := descriptorType_isSome.mpr hd.1
  have hne : t ≠ kEndpoint := fun he => ht (he ▸ htype)
  rw [hid_endpoints hi hp hn, htype, Step.read_some, if_neg hne]
  by_cases hhid : t = kHID
  · rw [if_pos hhid, logHID_eq.mpr (hd.2.2 (hhid ▸ htype)), Step.read_some]
  · rw [if_neg hhid]

theorem hid_endpoints_fault (hi : i < if_desc.num_endpoints.toNat) (hp : p < buf.length)
    (hn : behind buf p = some n) (hd : ¬ Inside buf n) :
    phase2Round buf 0 ⟨.endpoints if_desc i, p, eps⟩ = .fault := by
  rw [hid_endpoints hi hp hn]
  cases ht : descriptorType buf n with
  | none => rfl
  | some t =>
      have h2 := descriptorType_isSome.mp ⟨t, ht⟩
      rw [Step.read_some]
      by_cases hep : t = kEndpoint
      · rw [if_pos hep]
        cases hconf : MakeEPConfig buf n with
        | none => rfl
        | some conf =>
            refine absurd ⟨h2, fun _ => MakeEPConfig_isSome.mp ⟨conf, hconf⟩, fun hhid => ?_⟩ hd
            exact absurd hhid (not_is (hep ▸ ht) (by decide))
      · rw [if_neg hep]
        have hno : ¬ Is buf kEndpoint n := fun h => hep (Option.some.inj (ht.symm.trans h))
        by_cases hhid : t = kHID
        · rw [if_pos hhid]
          cases hlog : logHID buf n with
          | none => rfl
          | some u => exact absurd ⟨h2, fun h => absurd h hno, fun _ => logHID_eq.mp hlog⟩ hd
        · refine absurd ⟨h2, fun h => absurd h hno, fun h => ?_⟩ hd
          exact absurd (Option.some.inj (ht.symm.trans h)) hhid

theorem configured_eq {v : UInt8} (hv : buf[5]? = some v) :
    configured buf eps = .done (.setConfiguration v, eps) := by
  rw [configured, hv, Step.read_some]

theorem mapM_cons_eq {configs : List EndpointConfig} :
    (n :: es).mapM (MakeEPConfig buf) = some configs ↔ ∃ conf configs',
      MakeEPConfig buf n = some conf ∧ es.mapM (MakeEPConfig buf) = some configs' ∧
        configs = conf :: configs' := by
  rw [List.mapM_cons]
  constructor
  · intro h
    obtain ⟨conf, hconf, h⟩ := Option.bind_eq_some_iff.mp h
    obtain ⟨configs', hmap, h⟩ := Option.bind_eq_some_iff.mp h
    exact ⟨conf, configs', hconf, hmap, (Option.some.inj h).symm⟩
  · rintro ⟨conf, configs', hconf, hmap, rfl⟩
    rw [hconf, hmap]
    rfl

theorem hid_endpoints_last (hi : ¬ i < if_desc.num_endpoints.toNat) :
    phase2Round buf 0 ⟨.endpoints if_desc i, p, eps⟩ = configured buf eps := by
  have hround : phase2Round buf 0 ⟨.endpoints if_desc i, p, eps⟩ =
      hidRound buf ⟨.endpoints if_desc i, p, eps⟩ := rfl
  rw [hround, hidRound]
  exact if_neg hi

/-- **The way behind the interface** comes to as many endpoints as it says. -/
theorem hid_endpoints_iff (hp : p < buf.length) (hi : i ≤ if_desc.num_endpoints.toNat) :
    Yields (phase2Round buf 0) ⟨.endpoints if_desc i, p, eps⟩ r ↔
      ∃ es configs v, Counted (behind buf) (Is buf kEndpoint) (Inside buf) p
        (if_desc.num_endpoints.toNat - i) es ∧ es.mapM (MakeEPConfig buf) = some configs ∧
        buf[5]? = some v ∧ r = (.setConfiguration v, eps ++ configs) := by
  constructor
  · rintro ⟨m, hm⟩
    induction m generalizing p i eps with
    | zero => cases hm
    | succ m ih =>
        by_cases hlt : i < if_desc.num_endpoints.toNat
        · cases hn : behind buf p with
          | none =>
              rw [rounds_fault (hid_endpoints_null hlt hp hn)] at hm
              cases hm
          | some n =>
              by_cases hd : Inside buf n
              · by_cases ht : Is buf kEndpoint n
                · obtain ⟨conf, hconf⟩ := MakeEPConfig_isSome.mpr (hd.2.1 ht)
                  rw [rounds_again (hid_endpoints_hit hlt hp hn ht hconf)] at hm
                  obtain ⟨es, configs, v, hes, hmap, hv, rfl⟩ := ih (behind_lt hn) hlt hm
                  refine ⟨n :: es, conf :: configs, v, ?_,
                    mapM_cons_eq.mpr ⟨conf, configs, hconf, hmap, rfl⟩, hv, ?_⟩
                  · rw [← Nat.sub_add_cancel (Nat.sub_pos_of_lt hlt)]
                    exact .hit hn hd ht hes
                  · rw [List.append_assoc, List.singleton_append]
                · rw [rounds_again (hid_endpoints_pass hlt hp hn hd ht)] at hm
                  obtain ⟨es, configs, v, hes, hrest⟩ := ih (behind_lt hn) hi hm
                  refine ⟨es, configs, v, ?_, hrest⟩
                  rw [← Nat.sub_add_cancel (Nat.sub_pos_of_lt hlt)] at hes ⊢
                  exact .pass hn hd ht hes
              · rw [rounds_fault (hid_endpoints_fault hlt hp hn hd)] at hm
                cases hm
        · have hround : phase2Round buf 0 ⟨.endpoints if_desc i, p, eps⟩ = configured buf eps :=
            hid_endpoints_last hlt
          cases hv : buf[5]? with
          | none =>
              rw [configured, hv, Step.read_none] at hround
              rw [rounds_fault hround] at hm
              cases hm
          | some v =>
              rw [rounds_done (hround.trans (configured_eq hv))] at hm
              cases hm
              refine ⟨[], [], v, ?_, rfl, rfl, by rw [List.append_nil]⟩
              rw [Nat.sub_eq_zero_of_le (Nat.le_of_not_lt hlt)]
              exact .zero p
  · rintro ⟨es, configs, v, hes, hmap, hv, rfl⟩
    generalize hk : if_desc.num_endpoints.toNat - i = k at hes
    induction hes generalizing i eps configs with
    | zero p =>
        obtain rfl : configs = [] := Option.some.inj (hmap.symm.trans List.mapM_nil)
        rw [List.append_nil]
        exact .of_done ((hid_endpoints_last (by omega)).trans (configured_eq hv))
    | hit hn hd ht _ ih =>
        obtain ⟨conf, configs', hconf, hmap', rfl⟩ := mapM_cons_eq.mp hmap
        refine (yields_again (hid_endpoints_hit (by omega) hp hn ht hconf)).mpr ?_
        rw [List.append_cons eps conf configs']
        exact ih (behind_lt hn) (by omega) _ hmap' (by omega)
    | pass hn hd ht _ ih =>
        exact (yields_again (hid_endpoints_pass (by omega) hp hn hd ht)).mpr
          (ih (behind_lt hn) hi _ hmap hk)

theorem MakeEPConfig_all (h : ∀ e ∈ es, e + 7 ≤ buf.length) :
    ∃ configs, es.mapM (MakeEPConfig buf) = some configs := by
  induction es with
  | nil => exact ⟨[], rfl⟩
  | cons e es ih =>
      obtain ⟨he, hes⟩ := List.forall_mem_cons.mp h
      obtain ⟨conf, hconf⟩ := MakeEPConfig_isSome.mpr he
      obtain ⟨configs, hconfigs⟩ := ih hes
      exact ⟨conf :: configs, mapM_cons_eq.mpr ⟨conf, configs, hconf, hconfigs, rfl⟩⟩

theorem mapM_length {configs : List EndpointConfig} (h : es.mapM (MakeEPConfig buf) = some configs) :
    configs.length = es.length := by
  induction es generalizing configs with
  | nil =>
      obtain rfl : configs = [] := Option.some.inj (h.symm.trans List.mapM_nil)
      rfl
  | cons e es ih =>
      obtain ⟨conf, configs', -, h', rfl⟩ := mapM_cons_eq.mp h
      rw [List.length_cons, List.length_cons, ih h']

/-- The chosen interface is one. -/
theorem Chosen.unique {j : Nat} (hi : Chosen buf 0 i) (hj : Chosen buf 0 j) : i = j := by
  obtain ⟨hai, hi⟩ := hi
  obtain ⟨haj, hj⟩ := hj
  rw [if_pos rfl] at hi hj
  rcases Nat.lt_trichotomy i j with hlt | heq | hlt
  · exact absurd hi.1 (hj.2 i hlt hai)
  · exact heq
  · exact absurd hj.1 (hi.2 j hlt haj)

/-- **A device that names no class.** -/
theorem hid_meets_iff (h2 : 2 ≤ buf.length) (hconf : Is buf kConfiguration 0) :
    (∃ r eps, Yields (phase2Round buf 0) ⟨.interfaces, 0, []⟩ (r, eps) ∧ ∃ es, Exact buf 0 eps es) ↔
      NoDriver buf ∨ ∃ i if_desc es, HasEndpoints buf i if_desc es := by
  have h0 : ¬ HasDriver buf 0 := fun h => not_is hconf (by decide) h.1
  constructor
  · rintro ⟨r, eps, hr, es', hexact⟩
    rcases (hid_interfaces_iff (by omega)).mp hr with ⟨ds, hds, hall, -⟩ | ⟨i, if_desc, hi, hdesc, hr⟩
    · exact .inl ⟨ds, hds, hall⟩
    · obtain ⟨ht, ha, hbefore⟩ := (counted_one onward_behind h0).mp hi
      have hchosen : Chosen buf 0 i := by
        refine ⟨ha, ?_⟩
        rw [if_pos rfl]
        exact ⟨ht, fun j hj haj hd => absurd ((hbefore j haj hj.le).2 hd) hj.ne⟩
      have hlt : i < buf.length := by
        have h8 := interfaceAt_isSome.mp ⟨if_desc, hdesc⟩
        omega
      obtain ⟨es, configs, v, hes, hmap, hv, heq⟩ := (hid_endpoints_iff hlt (Nat.zero_le _)).mp hr
      obtain rfl : eps = configs := (congrArg Prod.snd heq).trans (List.nil_append configs)
      have hmem : ∀ e, e ∈ es' ↔ Follows buf i e := fun e => by
        rw [hexact.mem]
        exact ⟨fun ⟨j, hj, he⟩ => hchosen.unique hj ▸ he, fun he => ⟨i, hchosen, he⟩⟩
      have hlen : es'.length = if_desc.num_endpoints.toNat := by
        rw [← mapM_length hexact.configs, mapM_length hmap]
        exact hes.length_eq
      rw [Nat.sub_zero, ← hlen, counted_iff onward_behind hexact.sorted hmem] at hes
      exact .inr ⟨i, if_desc, es', hchosen, fun j hj haj => (hbefore j haj hj).1, hdesc,
        hexact.sorted, hmem, hlen, hes.2⟩
  · rintro (⟨ds, hds, hall⟩ | ⟨i, if_desc, es, h⟩)
    · refine ⟨.noClassDriver, [], (hid_interfaces_iff (by omega)).mpr
        (.inl ⟨ds, hds, hall, rfl⟩), [], .nil, fun e => ?_, rfl⟩
      refine iff_of_false List.not_mem_nil fun ⟨i, ⟨ha, hi⟩, _⟩ => ?_
      rw [if_pos rfl] at hi
      exact (hall i ((mem_chain_iff onward_behind hds).mpr ha)).2 hi.1
    · obtain ⟨ha, hdriver⟩ := h.chosen
      rw [if_pos rfl] at hdriver
      have h8 := interfaceAt_isSome.mp ⟨if_desc, h.desc⟩
      have hcounted : Counted (behind buf) (HasDriver buf) (Header buf) 0 1 [i] := by
        refine (counted_one onward_behind h0).mpr ⟨hdriver.1, ha, fun j haj hj => ⟨h.header j hj haj,
          fun hd => ?_⟩⟩
        by_contra hne
        exact hdriver.2 j (Nat.lt_of_le_of_ne hj hne) haj hd
      have hinside : ∀ e ∈ es, e + 7 ≤ buf.length := fun e he => by
        obtain ⟨hep, hahead⟩ := (h.mem e).mp he
        exact (h.inside e he e hahead (Nat.le_refl e)).2.1 hep
      obtain ⟨configs, hconfigs⟩ := MakeEPConfig_all hinside
      obtain ⟨v, hv⟩ := getElem?_isSome_iff.mpr (show 5 < buf.length by omega)
      have hes : Counted (behind buf) (Is buf kEndpoint) (Inside buf) i
          (if_desc.num_endpoints.toNat - 0) es := by
        rw [Nat.sub_zero, ← h.count, counted_iff onward_behind h.sorted h.mem]
        exact ⟨rfl, h.inside⟩
      refine ⟨.setConfiguration v, configs, (hid_interfaces_iff (by omega)).mpr (.inr ⟨i, if_desc,
        hcounted, h.desc, (hid_endpoints_iff (by omega) (Nat.zero_le _)).mpr
          ⟨es, configs, v, hes, hconfigs, hv, rfl⟩⟩), es, h.sorted, fun e => ?_, hconfigs⟩
      rw [h.mem]
      exact ⟨fun he => ⟨i, h.chosen, he⟩, fun ⟨j, hj, he⟩ => h.chosen.unique hj ▸ he⟩

/-! ## A communication device -/

theorem cdc_interfaces (p : Nat) (eps : List EndpointConfig) :
    phase2Round buf 2 ⟨.interfaces, p, eps⟩ =
      nextInterface buf ⟨.interfaces, p, eps⟩ (configured buf eps) fun n if_desc =>
        .again ⟨.endpoints if_desc 0, n, eps⟩ := rfl

theorem cdc_endpoints (hi : i < if_desc.num_endpoints.toNat) (hp : p < buf.length)
    (hn : behind buf p = some n) (eps : List EndpointConfig) :
    phase2Round buf 2 ⟨.endpoints if_desc i, p, eps⟩ =
      .read (descriptorType buf n) fun type =>
        if type = kEndpoint then
          .read (MakeEPConfig buf n) fun conf => .again ⟨.endpoints if_desc (i + 1), n, eps ++ [conf]⟩
        else .read (logFunctional buf n) fun _ => .again ⟨.endpoints if_desc (i + 1), n, eps⟩ := by
  have hround : phase2Round buf 2 ⟨.endpoints if_desc i, p, eps⟩ =
      cdcRound buf ⟨.endpoints if_desc i, p, eps⟩ := rfl
  rw [hround, cdcRound]
  simp only [if_pos hi, Next_eq hp, hn, Step.read_some]

theorem cdc_endpoints_null (hi : i < if_desc.num_endpoints.toNat) (hp : p < buf.length)
    (hn : behind buf p = none) :
    phase2Round buf 2 ⟨.endpoints if_desc i, p, eps⟩ = .fault := by
  have hround : phase2Round buf 2 ⟨.endpoints if_desc i, p, eps⟩ =
      cdcRound buf ⟨.endpoints if_desc i, p, eps⟩ := rfl
  rw [hround, cdcRound]
  simp only [if_pos hi, Next_eq hp, hn, Step.read_some]

theorem cdc_endpoints_last (hi : ¬ i < if_desc.num_endpoints.toNat) :
    phase2Round buf 2 ⟨.endpoints if_desc i, p, eps⟩ = .again ⟨.interfaces, p, eps⟩ := by
  have hround : phase2Round buf 2 ⟨.endpoints if_desc i, p, eps⟩ =
      cdcRound buf ⟨.endpoints if_desc i, p, eps⟩ := rfl
  rw [hround, cdcRound]
  exact if_neg hi

theorem cdc_endpoints_hit {conf : EndpointConfig} (hi : i < if_desc.num_endpoints.toNat)
    (hp : p < buf.length) (hn : behind buf p = some n) (ht : Is buf kEndpoint n)
    (hconf : MakeEPConfig buf n = some conf) :
    phase2Round buf 2 ⟨.endpoints if_desc i, p, eps⟩ =
      .again ⟨.endpoints if_desc (i + 1), n, eps ++ [conf]⟩ := by
  rw [cdc_endpoints hi hp hn eps, ht, Step.read_some, if_pos rfl, hconf, Step.read_some]

/-- A descriptor that is no endpoint counts as one. -/
theorem cdc_endpoints_other (hi : i < if_desc.num_endpoints.toNat) (hp : p < buf.length)
    (hn : behind buf p = some n) (ht : ¬ Is buf kEndpoint n) (hd : n + 2 ≤ buf.length)
    (hf : Is buf kFunctional n → FunctionalInside buf n) :
    phase2Round buf 2 ⟨.endpoints if_desc i, p, eps⟩ = .again ⟨.endpoints if_desc (i + 1), n, eps⟩ := by
  obtain ⟨t, htype⟩ := descriptorType_isSome.mpr hd
  have hne : t ≠ kEndpoint := fun he => ht (he ▸ htype)
  rw [cdc_endpoints hi hp hn eps, htype, Step.read_some, if_neg hne,
    (logFunctional_eq htype).mpr fun he => hf (he ▸ htype), Step.read_some]

/-- So many descriptors are still to be counted. -/
def Left : Control → Nat → Prop
  | .start, _ => False
  | .interfaces, k => k = 0
  | .endpoints if_desc i, k => if_desc.num_endpoints.toNat - i = k

variable {c : Control}

theorem left_interfaces : Left .interfaces 0 := rfl

theorem left_found (if_desc : InterfaceDescriptor) :
    Left (.endpoints if_desc 0) if_desc.num_endpoints.toNat := Nat.sub_zero _

theorem Left.next (h : Left (.endpoints if_desc i) (k + 1)) :
    i < if_desc.num_endpoints.toNat ∧ Left (.endpoints if_desc (i + 1)) k := by
  rw [Left] at h ⊢
  omega

/-- One is to be counted only behind an interface. -/
theorem Left.exists (h : Left c (k + 1)) : ∃ if_desc i, c = .endpoints if_desc i := by
  cases c with
  | start => exact h.elim
  | interfaces => cases h
  | endpoints if_desc i => exact ⟨if_desc, i, rfl⟩

theorem cdc_left_zero (hc : Left c 0) : Yields (phase2Round buf 2) ⟨c, p, eps⟩ r ↔
    Yields (phase2Round buf 2) ⟨.interfaces, p, eps⟩ r := by
  cases c with
  | start => exact hc.elim
  | interfaces => exact Iff.rfl
  | endpoints if_desc i => exact yields_again (cdc_endpoints_last (by rw [Left] at hc; omega))

theorem chain_cons (h : Chain (behind buf) p (p :: n :: ds)) :
    behind buf p = some n ∧ Chain (behind buf) n (n :: ds) := by
  cases h with
  | cons hn h =>
      obtain ⟨t, heq⟩ := h.head
      cases heq
      exact ⟨hn, h⟩

/-- What a round on the way to an interface comes to. -/
theorem cdc_interfaces_cases (hp : p < buf.length) (eps : List EndpointConfig) :
    phase2Round buf 2 ⟨.interfaces, p, eps⟩ = .fault ∨
      (behind buf p = none ∧ ∃ v, buf[5]? = some v ∧
        phase2Round buf 2 ⟨.interfaces, p, eps⟩ = .done (.setConfiguration v, eps)) ∨
      ∃ n, behind buf p = some n ∧
        ((∃ if_desc, Is buf kInterface n ∧ interfaceAt buf n = some if_desc ∧
            phase2Round buf 2 ⟨.interfaces, p, eps⟩ = .again ⟨.endpoints if_desc 0, n, eps⟩) ∨
          (n + 2 ≤ buf.length ∧ ¬ Is buf kInterface n ∧
            phase2Round buf 2 ⟨.interfaces, p, eps⟩ = .again ⟨.interfaces, n, eps⟩)) := by
  rw [cdc_interfaces]
  cases hn : behind buf p with
  | none =>
      rw [nextInterface_null hp hn]
      cases hv : buf[5]? with
      | none =>
          rw [configured, hv, Step.read_none]
          exact .inl rfl
      | some v => exact .inr (.inl ⟨rfl, v, rfl, configured_eq hv⟩)
  | some n =>
      by_cases hd : Header buf n
      · refine .inr (.inr ⟨n, rfl, ?_⟩)
        by_cases hi : Is buf kInterface n
        · obtain ⟨if_desc, hdesc⟩ := interfaceAt_isSome.mpr (hd.2 hi)
          exact .inl ⟨if_desc, hi, hdesc, nextInterface_found hp hn hi hdesc⟩
        · exact .inr ⟨hd.1, hi, nextInterface_pass hp hn hd.1 hi⟩
      · exact .inl (nextInterface_fault hp hn hd)

/-- What a round behind an interface comes to, while endpoints are to be counted. -/
theorem cdc_endpoints_cases (hi : i < if_desc.num_endpoints.toNat) (hp : p < buf.length)
    (eps : List EndpointConfig) :
    phase2Round buf 2 ⟨.endpoints if_desc i, p, eps⟩ = .fault ∨
      ∃ n, behind buf p = some n ∧
        ((Is buf kEndpoint n ∧ ∃ conf, MakeEPConfig buf n = some conf ∧
            phase2Round buf 2 ⟨.endpoints if_desc i, p, eps⟩ =
              .again ⟨.endpoints if_desc (i + 1), n, eps ++ [conf]⟩) ∨
          (¬ Is buf kEndpoint n ∧ n + 2 ≤ buf.length ∧
            (Is buf kFunctional n → FunctionalInside buf n) ∧
            phase2Round buf 2 ⟨.endpoints if_desc i, p, eps⟩ =
              .again ⟨.endpoints if_desc (i + 1), n, eps⟩)) := by
  cases hn : behind buf p with
  | none => exact .inl (cdc_endpoints_null hi hp hn)
  | some n =>
      have hround := cdc_endpoints hi hp hn eps
      cases htype : descriptorType buf n with
      | none =>
          rw [htype, Step.read_none] at hround
          exact .inl hround
      | some t =>
          by_cases ht : Is buf kEndpoint n
          · cases hconf : MakeEPConfig buf n with
            | none =>
                rw [ht, Step.read_some, if_pos rfl, hconf, Step.read_none] at hround
                exact .inl hround
            | some conf =>
                exact .inr ⟨n, rfl, .inl ⟨ht, conf, hconf, cdc_endpoints_hit hi hp hn ht hconf⟩⟩
          · have hne : t ≠ kEndpoint := fun he => ht (he ▸ htype)
            have hd := descriptorType_isSome.mp ⟨t, htype⟩
            cases hlog : logFunctional buf n with
            | none =>
                rw [htype, Step.read_some, if_neg hne, hlog, Step.read_none] at hround
                exact .inl hround
            | some u =>
                have hf : Is buf kFunctional n → FunctionalInside buf n := fun h =>
                  (logFunctional_eq htype).mp hlog (Option.some.inj (htype.symm.trans h))
                exact .inr ⟨n, rfl, .inr ⟨ht, hd, hf, cdc_endpoints_other hi hp hn ht hd hf⟩⟩

/-- What a walk that is left has read. -/
theorem cdcRead_of_rounds {m : Nat} (hp : p < buf.length) (hc : Left c k)
    (hm : rounds (phase2Round buf 2) m ⟨c, p, eps⟩ = .done r) :
    ∃ ds es configs v, Chain (behind buf) p (p :: ds) ∧ CdcRead buf k ds es ∧
      es.mapM (MakeEPConfig buf) = some configs ∧ buf[5]? = some v ∧
      r = (.setConfiguration v, eps ++ configs) := by
  induction m generalizing c k p eps with
  | zero => cases hm
  | succ m ih =>
      cases c with
      | start => exact hc.elim
      | interfaces =>
          obtain rfl : k = 0 := hc
          rcases cdc_interfaces_cases hp eps with hround | ⟨hn, v, hv, hround⟩ |
            ⟨n, hn, ⟨if_desc, hi, hdesc, hround⟩ | ⟨hd, hi, hround⟩⟩
          · rw [rounds_fault hround] at hm
            cases hm
          · rw [rounds_done hround] at hm
            cases hm
            exact ⟨[], [], [], v, .last hn, .nil, rfl, hv, by rw [List.append_nil]⟩
          · rw [rounds_again hround] at hm
            obtain ⟨ds, es, configs, v, hds, hes, hrest⟩ := ih (behind_lt hn) (left_found if_desc) hm
            exact ⟨n :: ds, es, configs, v, .cons hn hds, .interface hi hdesc hes, hrest⟩
          · rw [rounds_again hround] at hm
            obtain ⟨ds, es, configs, v, hds, hes, hrest⟩ := ih (behind_lt hn) left_interfaces hm
            exact ⟨n :: ds, es, configs, v, .cons hn hds, .pass hd hi hes, hrest⟩
      | endpoints if_desc i =>
          cases k with
          | zero =>
              rw [rounds_again (cdc_endpoints_last (by rw [Left] at hc; omega))] at hm
              exact ih hp left_interfaces hm
          | succ k =>
              obtain ⟨hi, hc⟩ := hc.next
              rcases cdc_endpoints_cases hi hp eps with hround |
                ⟨n, hn, ⟨ht, conf, hconf, hround⟩ | ⟨ht, hd, hf, hround⟩⟩
              · rw [rounds_fault hround] at hm
                cases hm
              · rw [rounds_again hround] at hm
                obtain ⟨ds, es, configs, v, hds, hes, hmap, hv, rfl⟩ := ih (behind_lt hn) hc hm
                refine ⟨n :: ds, n :: es, conf :: configs, v, .cons hn hds,
                  .endpoint ht (MakeEPConfig_isSome.mp ⟨conf, hconf⟩) hes,
                  mapM_cons_eq.mpr ⟨conf, configs, hconf, hmap, rfl⟩, hv, ?_⟩
                rw [List.append_assoc, List.singleton_append]
              · rw [rounds_again hround] at hm
                obtain ⟨ds, es, configs, v, hds, hes, hrest⟩ := ih (behind_lt hn) hc hm
                exact ⟨n :: ds, es, configs, v, .cons hn hds, .other ht hd hf hes, hrest⟩

/-- What can be read is read. -/
theorem CdcRead.yields {ds : List Nat} {configs : List EndpointConfig} {v : UInt8}
    (hes : CdcRead buf k ds es) (hp : p < buf.length) (hc : Left c k)
    (hds : Chain (behind buf) p (p :: ds)) (hmap : es.mapM (MakeEPConfig buf) = some configs)
    (hv : buf[5]? = some v) :
    Yields (phase2Round buf 2) ⟨c, p, eps⟩ (.setConfiguration v, eps ++ configs) := by
  induction hes generalizing c p eps configs with
  | nil =>
      obtain rfl : configs = [] := Option.some.inj (hmap.symm.trans List.mapM_nil)
      rw [cdc_left_zero hc, List.append_nil]
      cases hds with
      | last hn =>
          have hround := (cdc_interfaces p eps).trans (nextInterface_null hp hn)
          exact .of_done (hround.trans (configured_eq hv))
      | cons _ hds => exact absurd rfl hds.ne_nil
  | pass hd hi _ ih =>
      obtain ⟨hn, hds⟩ := chain_cons hds
      rw [cdc_left_zero hc,
        yields_again ((cdc_interfaces p eps).trans (nextInterface_pass hp hn hd hi))]
      exact ih (behind_lt hn) left_interfaces hds hmap
  | interface hi hdesc _ ih =>
      obtain ⟨hn, hds⟩ := chain_cons hds
      rw [cdc_left_zero hc,
        yields_again ((cdc_interfaces p eps).trans (nextInterface_found hp hn hi hdesc))]
      exact ih (behind_lt hn) (left_found _) hds hmap
  | endpoint ht hd _ ih =>
      obtain ⟨hn, hds⟩ := chain_cons hds
      obtain ⟨if_desc, i, rfl⟩ := hc.exists
      obtain ⟨hi, hc⟩ := hc.next
      obtain ⟨conf, configs', hconf, hmap', rfl⟩ := mapM_cons_eq.mp hmap
      rw [yields_again (cdc_endpoints_hit hi hp hn ht hconf), List.append_cons eps conf configs']
      exact ih (behind_lt hn) hc hds hmap'
  | other ht hd hf _ ih =>
      obtain ⟨hn, hds⟩ := chain_cons hds
      obtain ⟨if_desc, i, rfl⟩ := hc.exists
      obtain ⟨hi, hc⟩ := hc.next
      rw [yields_again (cdc_endpoints_other hi hp hn ht hd hf)]
      exact ih (behind_lt hn) hc hds hmap

/-- **The walk over a communication device.** -/
theorem cdc_iff (hp : p < buf.length) (hc : Left c k) :
    Yields (phase2Round buf 2) ⟨c, p, eps⟩ r ↔
      ∃ ds es configs v, Chain (behind buf) p (p :: ds) ∧ CdcRead buf k ds es ∧
        es.mapM (MakeEPConfig buf) = some configs ∧ buf[5]? = some v ∧
        r = (.setConfiguration v, eps ++ configs) := by
  constructor
  · rintro ⟨m, hm⟩
    exact cdcRead_of_rounds hp hc hm
  · rintro ⟨ds, es, configs, v, hds, hes, hmap, hv, rfl⟩
    exact hes.yields hp hc hds hmap hv

theorem CdcRead.sublist (h : CdcRead buf k ds es) : es.Sublist ds := by
  induction h with
  | nil => exact List.Sublist.slnil
  | pass _ _ _ ih => exact ih.cons _
  | interface _ _ _ ih => exact ih.cons _
  | endpoint _ _ _ ih => exact ih.cons_cons _
  | other _ _ _ _ ih => exact ih.cons _

theorem CdcRead.inside (h : CdcRead buf k ds es) : ∀ e ∈ es, e + 7 ≤ buf.length := by
  induction h with
  | nil => exact fun e he => absurd he List.not_mem_nil
  | pass _ _ _ ih => exact ih
  | interface _ _ _ ih => exact ih
  | endpoint _ hd _ ih => exact List.forall_mem_cons.mpr ⟨hd, ih⟩
  | other _ _ _ _ ih => exact ih

/-- What is reached follows an interface. -/
theorem CdcRead.follows (h : CdcRead buf k ds es) (hds : Chain (behind buf) p (p :: ds))
    (hp : Leads (behind buf) (fun _ => True) 0 p)
    (hk : 0 < k → ∃ i, Chosen buf 2 i ∧ Leads (behind buf) (fun d => ¬ Is buf kInterface d) i p) :
    ∀ e ∈ es, ∃ i, Chosen buf 2 i ∧ Follows buf i e := by
  have hstep : ∀ {n ds p}, Leads (behind buf) (fun _ => True) 0 p →
      Chain (behind buf) p (p :: n :: ds) →
      behind buf p = some n ∧ p < n ∧ Chain (behind buf) n (n :: ds) ∧
        Ahead (behind buf) (fun _ => True) 0 n := fun hp hds => by
    obtain ⟨hn, hds'⟩ := chain_cons hds
    have hlt := ((mem_chain_iff onward_behind hds).mp List.mem_cons_self).1
    exact ⟨hn, hlt, hds', Nat.lt_of_le_of_lt (Nat.zero_le _) hlt, hp.tail hn trivial⟩
  induction h generalizing p with
  | nil => exact fun e he => absurd he List.not_mem_nil
  | pass hd hi _ ih =>
      obtain ⟨-, -, hds, ha⟩ := hstep hp hds
      exact ih hds ha.2 fun h => absurd h (Nat.lt_irrefl 0)
  | interface hi hdesc _ ih =>
      obtain ⟨-, -, hds, ha⟩ := hstep hp hds
      exact ih hds ha.2 fun _ => ⟨_, ⟨ha, hi⟩, .refl _⟩
  | endpoint ht hd _ ih =>
      obtain ⟨hn, hlt, hds, ha⟩ := hstep hp hds
      obtain ⟨i, hi, hl⟩ := hk (Nat.succ_pos _)
      have hl' := hl.tail hn (not_is ht (by decide))
      refine List.forall_mem_cons.mpr ⟨⟨i, hi, ht, ?_, hl'⟩, ih hds ha.2 fun _ => ⟨i, hi, hl'⟩⟩
      exact Nat.lt_of_le_of_lt (hl.le onward_behind) hlt
  | @other k n ds es ht hd hf _ ih =>
      obtain ⟨hn, -, hds, ha⟩ := hstep hp hds
      by_cases hint : Is buf kInterface n
      · exact ih hds ha.2 fun _ => ⟨n, ⟨ha, hint⟩, .refl n⟩
      · obtain ⟨i, hi, hl⟩ := hk (Nat.succ_pos _)
        exact ih hds ha.2 fun _ => ⟨i, hi, hl.tail hn hint⟩

/-- **A communication device.** -/
theorem cdc_meets_iff (h2 : 2 ≤ buf.length) :
    (∃ r eps, Yields (phase2Round buf 2) ⟨.interfaces, 0, []⟩ (r, eps) ∧ ∃ es, Exact buf 2 eps es) ↔
      CdcConfiguration buf := by
  have hfollows : ∀ {ds es}, Chain (behind buf) 0 (0 :: ds) → CdcRead buf 0 ds es →
      ∀ e ∈ es, ∃ i, Chosen buf 2 i ∧ Follows buf i e := fun hds hes =>
    hes.follows hds (.refl 0) fun h => absurd h (Nat.lt_irrefl 0)
  have hsorted : ∀ {ds es}, Chain (behind buf) 0 (0 :: ds) → CdcRead buf 0 ds es →
      es.Pairwise (· < ·) := fun hds hes =>
    (List.pairwise_cons.mp (chain_sorted onward_behind hds)).2.sublist hes.sublist
  constructor
  · rintro ⟨r, eps, hr, es', hexact⟩
    obtain ⟨ds, es, configs, v, hds, hes, hmap, hv, heq⟩ :=
      (cdc_iff (by omega) left_interfaces).mp hr
    obtain rfl : eps = configs := (congrArg Prod.snd heq).trans (List.nil_append configs)
    have hlen : es'.length = es.length := by
      rw [← mapM_length hexact.configs, mapM_length hmap]
    have hsub : es ⊆ es' := fun e he => (hexact.mem e).mpr (hfollows hds hes e he)
    have hnodup : es.Nodup := (hsorted hds hes).imp fun h => h.ne
    have hperm := (hnodup.subperm hsub).perm_of_length_le hlen.le
    exact ⟨getElem?_isSome_iff.mp ⟨v, hv⟩, ds, es, hds, hes, fun i e hi he =>
      hperm.mem_iff.mpr ((hexact.mem e).mpr ⟨i, hi, he⟩)⟩
  · rintro ⟨h6, ds, es, hds, hes, hall⟩
    obtain ⟨configs, hconfigs⟩ := MakeEPConfig_all hes.inside
    obtain ⟨v, hv⟩ := getElem?_isSome_iff.mpr (show 5 < buf.length from h6)
    refine ⟨.setConfiguration v, configs, (cdc_iff (by omega) left_interfaces).mpr
      ⟨ds, es, configs, v, hds, hes, hconfigs, hv, rfl⟩, es, hsorted hds hes, fun e => ?_, hconfigs⟩
    exact ⟨hfollows hds hes e, fun ⟨i, hi, he⟩ => hall i e hi he⟩

/-! ## The phase -/

/-- A phase that is not an error has met what was meant when its walk has. -/
theorem meets_again (h : phase2Round buf device_class ⟨.start, 0, []⟩ = .again ⟨.interfaces, 0, []⟩)
    (hwalk : ∀ r eps, Yields (phase2Round buf device_class) ⟨.interfaces, 0, []⟩ (r, eps) →
      r ≠ .kInvalidDescriptor ∧ r ≠ .kNotImplemented) :
    Meets buf device_class ↔ ∃ r eps, Yields (phase2Round buf device_class) ⟨.interfaces, 0, []⟩
      (r, eps) ∧ ∃ es, Exact buf device_class eps es := by
  refine exists_congr fun r => exists_congr fun eps => ?_
  rw [yields_again h]
  refine and_congr_right fun hr => ?_
  obtain ⟨h1, h2⟩ := hwalk r eps hr
  exact ⟨fun h => h h1 h2, fun h _ _ => h⟩

/-- **When a configuration is parsed safely.** -/
theorem initializePhase2_meets (buf : List UInt8) (device_class : UInt8) :
    Meets buf device_class ↔ WellFormed buf device_class := by
  have hstart : phase2Round buf device_class ⟨.start, 0, []⟩ =
      .read (descriptorType buf 0) fun type =>
        if type ≠ kConfiguration then .done (.kInvalidDescriptor, [])
        else if device_class = 0 ∨ device_class = 2 then .again ⟨.interfaces, 0, []⟩
        else .done (.kNotImplemented, []) := rfl
  cases htype : descriptorType buf 0 with
  | none =>
      rw [htype, Step.read_none] at hstart
      refine iff_of_false ?_ fun h => ?_
      · rintro ⟨r, eps, hr, -⟩
        exact not_ends_of_fault hstart ⟨_, hr⟩
      · obtain ⟨t, ht⟩ := descriptorType_isSome.mpr h.1
        cases htype.symm.trans ht
  | some t =>
      have h2 : 2 ≤ buf.length := descriptorType_isSome.mp ⟨t, htype⟩
      rw [htype, Step.read_some] at hstart
      by_cases ht : t = kConfiguration
      · have hconf : Is buf kConfiguration 0 := ht ▸ htype
        rw [if_neg (not_not.mpr ht)] at hstart
        rw [WellFormed, and_iff_right h2, forall_prop_of_true hconf]
        by_cases h0 : device_class = 0
        · subst h0
          rw [if_pos (.inl rfl)] at hstart
          rw [meets_again hstart, hid_meets_iff h2 hconf]
          · exact ⟨fun h => ⟨fun _ => h, fun h02 => absurd h02 (by decide)⟩, fun h => h.1 rfl⟩
          · intro r eps hr
            rcases (hid_interfaces_iff (by omega)).mp hr with ⟨_, _, _, heq⟩ | ⟨i, if_desc, -, hdesc, hr⟩
            · cases heq
              exact ⟨by decide, by decide⟩
            · have h8 := interfaceAt_isSome.mp ⟨if_desc, hdesc⟩
              obtain ⟨es, configs, v, -, -, -, heq⟩ :=
                (hid_endpoints_iff (by omega) (Nat.zero_le _)).mp hr
              cases heq
              exact ⟨Phase2.noConfusion, Phase2.noConfusion⟩
        · by_cases hcdc : device_class = 2
          · subst hcdc
            rw [if_pos (.inr rfl)] at hstart
            rw [meets_again hstart, cdc_meets_iff h2]
            · exact ⟨fun h => ⟨fun h02 => absurd h02 (by decide), fun _ => h⟩, fun h => h.2 rfl⟩
            · intro r eps hr
              obtain ⟨ds, es, configs, v, -, -, -, -, heq⟩ :=
                (cdc_iff (by omega) left_interfaces).mp hr
              cases heq
              exact ⟨Phase2.noConfusion, Phase2.noConfusion⟩
          · rw [if_neg (not_or.mpr ⟨h0, hcdc⟩)] at hstart
            refine iff_of_true ⟨_, _, .of_done hstart, fun _ h => absurd rfl h⟩ ?_
            exact ⟨fun h => absurd h h0, fun h => absurd h hcdc⟩
      · rw [if_pos ht] at hstart
        refine iff_of_true ⟨_, _, .of_done hstart, fun h => absurd rfl h⟩ ⟨h2, fun hconf => ?_⟩
        exact absurd (Option.some.inj (htype.symm.trans hconf)) ht

/-- A configuration with a descriptor of no length behind it. -/
def zeroLength : List UInt8 := [9, 2, 11, 0, 1, 1, 0, 128, 50, 0, 0]

/-- The walk does not get past it. -/
theorem initializePhase2_hangs : ¬ Ends (phase2Round zeroLength 0) ⟨.start, 0, []⟩ ∧
    ¬ Meets zeroLength 0 := by
  have hends : ¬ Ends (phase2Round zeroLength 0) ⟨.start, 0, []⟩ := by
    have hstart : phase2Round zeroLength 0 ⟨.start, 0, []⟩ = .again ⟨.interfaces, 0, []⟩ := rfl
    have hfirst : phase2Round zeroLength 0 ⟨.interfaces, 0, []⟩ = .again ⟨.interfaces, 9, []⟩ := rfl
    have hsecond : phase2Round zeroLength 0 ⟨.interfaces, 9, []⟩ = .again ⟨.interfaces, 9, []⟩ := rfl
    rw [ends_again hstart, ends_again hfirst]
    exact (hangs_self hsecond).1
  exact ⟨hends, fun ⟨r, eps, hr, _⟩ => hends ⟨(r, eps), hr⟩⟩

end Laplus.Usb
