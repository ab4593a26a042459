/-
# `Laplus.Paging.Map` — `paging.cpp`

`SetupPageMap`, `CleanPageMap` and `CopyPageMaps` run through the entries of a
table and call themselves for the tables below; each is a loop over the entries
of one level, with the function for the next level as a parameter.  Failures
keep what was done before them, so a function returns the machine in either
case.

The functions take their addresses in parts, as `LinearAddress4Level` does: the
part of their own level first.
-/
import Laplus.Paging.Memory

namespace Laplus.Paging

/-- The entries from an index to the end of a table. -/
def indices (i : Fin 512) : List (Fin 512) := (List.finRange 512).drop i

/-- `FileMapping`. -/
structure FileMapping where
  fd : Nat
  vaddrBegin : Nat
  vaddrEnd : Nat

/-- What `HandlePageFault` asks of the current task; `load` is what `FileDescriptor::Load`
leaves in a page, for a descriptor, an offset and the page as it was. -/
structure Task where
  dpagingBegin : Nat
  dpagingEnd : Nat
  fileMaps : List FileMapping
  load : Nat → Nat → (Fin 512 → PageMapEntry) → Fin 512 → PageMapEntry

namespace Machine

/-! ## `SetupPageMaps` -/

/-- `SetNewPageMapIfNotPresent`. -/
def setNewPageMapIfNotPresent (s : Machine) (table : Nat) (i : Fin 512) :
    Machine × Except Error Nat :=
  if (s.mem table i).present then (s, .ok (s.mem table i).addr)
  else
    match s.newPageMap with
    | (s, .error e) => (s, .error e)
    | (s, .ok child) =>
        (s.store table i { (s.mem table i).setPointer child with present := true }, .ok child)

/-- What `SetupPageMap` does with an entry before it goes on. -/
def setupEntry (s : Machine) (table : Nat) (i : Fin 512) (writable : Bool) :
    Machine × Except Error Nat :=
  match s.setNewPageMapIfNotPresent table i with
  | (s, .error e) => (s, .error e)
  | (s, .ok child) => (s.store table i { s.mem table i with user := true, writable }, .ok child)

/-- The loop of `SetupPageMap` over the entries of a table; `below` are the parts of the
address for the levels below. -/
def setupLoop (writable : Bool) (level : Nat)
    (child : Machine → Nat → List (Fin 512) → Nat → Machine × Except Error Nat) (table : Nat) :
    Machine → List (Fin 512) → List (Fin 512) → Nat → Machine × Except Error Nat
  | s, [], _, num => (s, .ok num)
  | s, i :: is, below, num =>
      if num = 0 then (s, .ok 0)
      else
        match s.setupEntry table i (level ≠ 1 || writable) with
        | (s, .error e) => (s, .error e)
        | (s, .ok map) =>
            if level = 1 then
              setupLoop writable level child table s is (List.replicate below.length 0) (num - 1)
            else
              match child s map below num with
              | (s, .error e) => (s, .error e)
              | (s, .ok remain) =>
                  setupLoop writable level child table s is (List.replicate below.length 0) remain

/-- `SetupPageMap`. -/
def setupPageMap (writable : Bool) :
    Nat → Machine → Nat → List (Fin 512) → Nat → Machine × Except Error Nat
  | 0, s, _, _, num => (s, .ok num)
  | level + 1, s, table, addr, num =>
      setupLoop writable (level + 1) (setupPageMap writable level) table s
        (indices (addr.headD 0)) addr.tail num

/-- `SetupPageMaps`. -/
def setupPageMaps (s : Machine) (addr num : Nat) (writable : Bool) : Machine × Except Error Unit :=
  match setupPageMap writable 4 s s.cr3 (path addr) num with
  | (s, .error e) => (s, .error e)
  | (s, .ok _) => (s, .ok ())

/-! ## `CleanPageMaps` -/

/-- The loop of `CleanPageMap` over the entries of a table, and the frames that it frees. -/
def cleanLoop (level : Nat) (child : Machine → Nat → Machine × List Nat) (table : Nat) :
    Machine → List (Fin 512) → Machine × List Nat
  | s, [] => (s, [])
  | s, i :: is =>
      let entry := s.mem table i
      if !entry.present then cleanLoop level child table s is
      else
        let below := if level > 1 then child s entry.addr else (s, [])
        let freed := if entry.writable then (below.1.free entry.addr, [entry.addr]) else (below.1, [])
        let rest := cleanLoop level child table (freed.1.store table i .zero) is
        (rest.1, below.2 ++ freed.2 ++ rest.2)

/-- `CleanPageMap`. -/
def cleanPageMap : Nat → Machine → Nat → List (Fin 512) → Machine × List Nat
  | 0, s, _, _ => (s, [])
  | level + 1, s, table, addr =>
      cleanLoop (level + 1) (fun s map => cleanPageMap level s map addr.tail) table s
        (indices (addr.headD 0))

/-- `CleanPageMaps`. -/
def cleanPageMaps (s : Machine) (addr : Nat) : Machine × List Nat :=
  cleanPageMap 4 s s.cr3 (path addr)

/-! ## `CopyPageMaps` -/

/-- The loop of `CopyPageMaps` over the entries of a table. -/
def copyLoop (part : Nat) (child : Machine → Nat → Nat → Machine × Except Error Unit)
    (dest src : Nat) : Machine → List (Fin 512) → Machine × Except Error Unit
  | s, [] => (s, .ok ())
  | s, i :: is =>
      if !(s.mem src i).present then copyLoop part child dest src s is
      else if part = 1 then
        copyLoop part child dest src
          (s.store dest i { s.mem src i with writable := false }) is
      else
        match s.newPageMap with
        | (s, .error e) => (s, .error e)
        | (s, .ok table) =>
            match child (s.store dest i ((s.mem src i).setPointer table)) table
              (s.mem src i).addr with
            | (s, .error e) => (s, .error e)
            | (s, .ok _) => copyLoop part child dest src s is

/-- `CopyPageMaps`. -/
def copyPageMaps : Nat → Machine → Nat → Nat → Fin 512 → Machine × Except Error Unit
  | 0, s, _, _, _ => (s, .ok ())
  | part + 1, s, dest, src, start =>
      copyLoop (part + 1) (fun s table below => copyPageMaps part s table below 0) dest src s
        (indices start)

/-! ## `HandlePageFault` -/

/-- `SetPageContent`. -/
def setPageContent (s : Machine) (table : Nat) : List (Fin 512) → Nat → Machine
  | [], _ => s
  | [i], content =>
      s.store table i { (s.mem table i).setPointer content with writable := true }
  | i :: p, content => s.setPageContent (s.mem table i).addr p content

/-- `CopyOnePage`; there is no outcome if the kernel cannot read the page. -/
def copyOnePage (s : Machine) (addr : Nat) : Option (Machine × Except Error Unit) :=
  match s.newPageMap with
  | (s, .error e) => some (s, .error e)
  | (s, .ok p) => do
      let page ← translate s.mem s.cr3 (path addr)
      let s := s.fill p (s.mem page.frame)
      return (s.setPageContent s.cr3 (path addr) p, .ok ())

/-- `FindFileMapping`. -/
def findFileMapping (fmaps : List FileMapping) (addr : Nat) : Option FileMapping :=
  fmaps.find? fun m => m.vaddrBegin ≤ addr ∧ addr < m.vaddrEnd

/-- `PreparePageCache`; there is no outcome if the kernel cannot write the page. -/
def preparePageCache (s : Machine) (task : Task) (m : FileMapping) (addr : Nat) :
    Option (Machine × Except Error Unit) :=
  let page := addr / 4096 * 4096
  match s.setupPageMaps page 1 true with
  | (s, .error e) => some (s, .error e)
  | (s, .ok _) => do
      let cache ← translate s.mem s.cr3 (path page)
      let content := task.load m.fd ((page + 2 ^ 64 - m.vaddrBegin) % 2 ^ 64) (s.mem cache.frame)
      return (s.fill cache.frame content, .ok ())

/-- `HandlePageFault`. -/
def handlePageFault (s : Machine) (task : Task) (code : ErrorCode) (addr : Nat) :
    Option (Machine × Except Error Unit) :=
  if code.present && code.rw && code.user then s.copyOnePage addr
  else if code.present then some (s, .error .kAlreadyAllocated)
  else if task.dpagingBegin ≤ addr ∧ addr < task.dpagingEnd then
    some (s.setupPageMaps addr 1 true)
  else
    match findFileMapping task.fileMaps addr with
    | some m => s.preparePageCache task m addr
    | none => some (s, .error .kIndexOutOfRange)

/-! ## Address spaces -/

/-- `SetupPML4`: the lower half is that of the current map. -/
def setupPML4 (s : Machine) : Machine × Except Error Nat :=
  match s.newPageMap with
  | (s, .error e) => (s, .error e)
  | (s, .ok pml4) =>
      ({ s.fill pml4 fun i => if i < 256 then s.mem s.cr3 i else s.mem pml4 i with cr3 := pml4 },
        .ok pml4)

/-- `FreePML4`, and the frame that it frees; `pml4Table` is the kernel's own map.  The field
`cr3` of the context is what `SetupPML4` has put into the register. -/
def freePML4 (s : Machine) (pml4Table : Nat) : Machine × List Nat :=
  ({ s.free s.cr3 with cr3 := pml4Table }, [s.cr3])

end Machine

end Laplus.Paging
