/-
# `Laplus.Net.Arp` — address resolution (`arp.c`)

The cache is a table of 32 entries that `arp_input`, `arp_resolve` and
`arp_timer` share.  An entry is updated by every message of its protocol
address, created by a message for this host or by a request, and deleted when
it is more than thirty seconds old.  When no entry is free, the one with the
oldest time stamp is used again; a request leaves the hardware address it
finds there.

The time is an input of every step.  What the functions send is the frame the
driver gets.
-/
import Laplus.Net.Ethernet
import Laplus.Net.Time

namespace Laplus.Net

/-! ## Devices and interfaces -/

def netDeviceTypeEthernet : UInt16 := 0x0002
def netDeviceFlagUp : UInt16 := 0x0001
def netDeviceFlagNeedArp : UInt16 := 0x0100
def netIfaceFamilyIp : Int := 2

/-- `struct net_device`; its addresses have the six bytes `ether_setup_helper` sets. -/
structure Device where
  type : UInt16
  mtu : UInt16
  flags : UInt16
  addr : EtherAddr
  broadcast : EtherAddr
deriving DecidableEq

/-- `struct ip_iface`, which starts with its `struct net_iface`. -/
structure Iface where
  dev : Device
  family : Int
  addr : IfaceAddr
deriving DecidableEq

/-- `net_device_output`, with the frame the driver gets. -/
def Device.output (dev : Device) (type : UInt16) (data : List UInt8) (dst : EtherAddr) :
    Option (List UInt8) :=
  if dev.flags &&& netDeviceFlagUp = 0 then none
  else if data.length > dev.mtu.toNat then none
  else some (etherTransmitHelper dev.addr type data dst)

/-! ## Messages -/

def netProtocolTypeArp : UInt16 := 0x0806

def arpHrdEther : UInt16 := 0x0001
def arpProIp : UInt16 := 0x0800
def arpOpRequest : UInt16 := 1
def arpOpReply : UInt16 := 2

/-- `struct arp_ether`. -/
structure ArpEther where
  hrd : UInt16
  pro : UInt16
  hln : UInt8
  pln : UInt8
  op : UInt16
  sha : EtherAddr
  spa : IpAddr
  tha : EtherAddr
  tpa : IpAddr
deriving DecidableEq

/-- The message in memory. -/
def ArpEther.bytes (msg : ArpEther) : List UInt8 :=
  store16 msg.hrd ++ (store16 msg.pro ++ ([msg.hln, msg.pln] ++ (store16 msg.op ++
    (msg.sha.bytes ++ (store32 msg.spa ++ (msg.tha.bytes ++ store32 msg.tpa))))))

/-- `(struct arp_ether *)data`, when the 28 bytes are there. -/
def arpEther : List UInt8 → Option ArpEther
  | h₀ :: h₁ :: p₀ :: p₁ :: hln :: pln :: o₀ :: o₁ :: s₀ :: s₁ :: s₂ :: s₃ :: s₄ :: s₅ ::
      a₀ :: a₁ :: a₂ :: a₃ :: t₀ :: t₁ :: t₂ :: t₃ :: t₄ :: t₅ :: b₀ :: b₁ :: b₂ :: b₃ :: _ =>
      some
        { hrd := load16 h₀ h₁
          pro := load16 p₀ p₁
          hln
          pln
          op := load16 o₀ o₁
          sha := ⟨s₀, s₁, s₂, s₃, s₄, s₅⟩
          spa := load32 a₀ a₁ a₂ a₃
          tha := ⟨t₀, t₁, t₂, t₃, t₄, t₅⟩
          tpa := load32 b₀ b₁ b₂ b₃ }
  | _ => none

/-- The message, if it passes the checks of `arp_input`. -/
def arpMessage (data : List UInt8) : Option ArpEther :=
  if data.length < 28 then none
  else
    match arpEther data with
    | none => none
    | some msg =>
        if ntoh16 msg.hrd ≠ arpHrdEther ∨ msg.hln ≠ 6 then none
        else if ntoh16 msg.pro ≠ arpProIp ∨ msg.pln ≠ 4 then none
        else some msg

/-- The message of `arp_request` and `arp_reply`. -/
def arpOutput (op : UInt16) (iface : Iface) (tha : EtherAddr) (tpa : IpAddr) : ArpEther where
  hrd := hton16 arpHrdEther
  pro := hton16 arpProIp
  hln := 6
  pln := 4
  op := hton16 op
  sha := iface.dev.addr
  spa := iface.addr.unicast
  tha
  tpa

/-- `arp_request`. -/
def arpRequest (iface : Iface) (tpa : IpAddr) : Option (List UInt8) :=
  iface.dev.output netProtocolTypeArp (arpOutput arpOpRequest iface ⟨0, 0, 0, 0, 0, 0⟩ tpa).bytes
    iface.dev.broadcast

/-- `arp_reply`. -/
def arpReply (iface : Iface) (tha : EtherAddr) (tpa : IpAddr) (dst : EtherAddr) :
    Option (List UInt8) :=
  iface.dev.output netProtocolTypeArp (arpOutput arpOpReply iface tha tpa).bytes dst

@[simp] theorem arpEther_bytes (msg : ArpEther) (rest : List UInt8) :
    arpEther (msg.bytes ++ rest) = some msg := by
  simp [ArpEther.bytes, EtherAddr.bytes, store16, store32, arpEther]

/-- What a host sends passes the checks of its peers. -/
theorem arpMessage_output (op : UInt16) (iface : Iface) (tha : EtherAddr) (tpa : IpAddr)
    (rest : List UInt8) :
    arpMessage ((arpOutput op iface tha tpa).bytes ++ rest) =
      some (arpOutput op iface tha tpa) := by
  have hlong : ¬ ((arpOutput op iface tha tpa).bytes ++ rest).length < 28 := by
    have hlen : (arpOutput op iface tha tpa).bytes.length = 28 := rfl
    rw [List.length_append, hlen]
    omega
  rw [arpMessage, if_neg hlong, arpEther_bytes]
  simp [arpOutput]

/-! ## The cache -/

/-- `ARP_CACHE_STATE_*`. -/
inductive ArpState where
  | free | incomplete | resolved | static
deriving DecidableEq

/-- `struct arp_cache`. -/
structure ArpCache where
  state : ArpState
  pa : IpAddr
  ha : EtherAddr
  timestamp : Timeval
deriving DecidableEq

/-- An index into `caches[ARP_CACHE_SIZE]`. -/
abbrev CacheId := Fin 32

abbrev Caches := CacheId → ArpCache

/-- What `arp_cache_delete` leaves, and what the table is filled with at the start. -/
def ArpCache.clear : ArpCache := ⟨.free, 0, ⟨0, 0, 0, 0, 0, 0⟩, .zero⟩

/-- The loop of `arp_cache_alloc`. -/
def arpCacheAllocFrom (t : Caches) : Option CacheId → List CacheId → Option CacheId
  | oldest, [] => oldest
  | oldest, i :: rest =>
      if (t i).state = .free then some i
      else
        match oldest with
        | none => arpCacheAllocFrom t (some i) rest
        | some o =>
            if (t o).timestamp.gt (t i).timestamp then arpCacheAllocFrom t (some i) rest
            else arpCacheAllocFrom t (some o) rest

/-- `arp_cache_alloc`. -/
def arpCacheAlloc (t : Caches) : Option CacheId := arpCacheAllocFrom t none (List.finRange 32)

/-- `arp_cache_select`. -/
def arpCacheSelect (t : Caches) (pa : IpAddr) : Option CacheId :=
  (List.finRange 32).find? fun i => (t i).state ≠ .free ∧ (t i).pa = pa

/-- `arp_cache_update`. -/
def arpCacheUpdate (t : Caches) (now : Timeval) (pa : IpAddr) (ha : EtherAddr) : Option Caches :=
  (arpCacheSelect t pa).map fun i =>
    Function.update t i { t i with state := .resolved, ha, timestamp := now }

/-- `arp_cache_insert`. -/
def arpCacheInsert (t : Caches) (now : Timeval) (pa : IpAddr) (ha : EtherAddr) : Option Caches :=
  (arpCacheAlloc t).map fun i => Function.update t i ⟨.resolved, pa, ha, now⟩

/-- `arp_input`: the table, and the reply.  `iface` is what `net_device_get_iface` answers, an
interface of the device the message came from. -/
def arpInput (t : Caches) (now : Timeval) (data : List UInt8) (iface : Option Iface) :
    Caches × Option (List UInt8) :=
  match arpMessage data with
  | none => (t, none)
  | some msg =>
      let updated := arpCacheUpdate t now msg.spa msg.sha
      let t := updated.getD t
      match iface with
      | none => (t, none)
      | some iface =>
          if iface.addr.unicast = msg.tpa then
            let t := if updated.isSome then t else (arpCacheInsert t now msg.spa msg.sha).getD t
            (t, if ntoh16 msg.op = arpOpRequest then arpReply iface msg.sha msg.spa msg.sha
              else none)
          else (t, none)

/-- `ARP_RESOLVE_*`, with what is copied to `ha`. -/
inductive ArpResolve where
  | error
  | incomplete
  | found (ha : EtherAddr)
deriving DecidableEq

/-- `arp_resolve`: the table, the answer, and the request. -/
def arpResolve (t : Caches) (now : Timeval) (iface : Iface) (pa : IpAddr) :
    Caches × ArpResolve × Option (List UInt8) :=
  if iface.dev.type ≠ netDeviceTypeEthernet then (t, .error, none)
  else if iface.family ≠ netIfaceFamilyIp then (t, .error, none)
  else
    match arpCacheSelect t pa with
    | none =>
        match arpCacheAlloc t with
        | none => (t, .error, none)
        | some i =>
            (Function.update t i { t i with state := .incomplete, pa, timestamp := now },
              .incomplete, arpRequest iface pa)
    | some i =>
        if (t i).state = .incomplete then (t, .incomplete, arpRequest iface pa)
        else (t, .found (t i).ha, none)

/-- `ARP_CACHE_TIMEOUT`, in seconds. -/
def arpCacheTimeout : Int := 30

/-- The loop body of `arp_timer`. -/
def ArpCache.expire (now : Timeval) (entry : ArpCache) : ArpCache :=
  if entry.state ≠ .free ∧ entry.state ≠ .static then
    if (now.sub entry.timestamp).tvSec > arpCacheTimeout then .clear else entry
  else entry

/-- `arp_timer`. -/
def arpTimer (t : Caches) (now : Timeval) : Caches := fun i => (t i).expire now

end Laplus.Net
