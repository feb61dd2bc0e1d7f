import PandaOS.Kernel.Fault
import PandaOS.Kernel.Syscall

/-!
# brk and mmap

The memory system calls of `main.rs`, on the calling process's address-space
fields. Both clear a fresh page through its physical address as if it were
mapped one to one; in a user address space that store goes through the page
tables like any other (`kernelZeroPage`).

A failed allocation ends the call with ENOMEM; pages mapped before stay.
-/

namespace PandaOS.Kernel

open Lib

/-- A user page for a system call: allocate, map, clear. -/
def mapUserPage (p : ProcMem) (flags : Word) (va : Nat) : KM Unit := do
  match ← allocateFrame with
  | none => throwErr "ENOMEM"
  | some f =>
    mapPage p.pageTablePhys va f flags
    kernelZeroPage p (f * 4096)

/-- `map_err(|_| ENOMEM)?` on the rest of a handler. -/
def orEnomem {α : Type} (x : KM (Except ErrorCode α)) : KM (Except ErrorCode α) :=
  tryCatch x fun fault =>
    match fault with
    | .err _ => return .error .enomem
    | .panic e => throwPanic e

/-- One page of a shrinking heap. A page that is not mapped is skipped. -/
def unmapHeapPage (p : ProcMem) (va : Nat) : KM Unit := do
  let frame ← tryCatch (some <$> unmapPage p.pageTablePhys va) fun fault =>
    match fault with
    | .err _ => return none
    | .panic e => throwPanic e
  match frame with
  | none => pure ()
  | some f => deallocateFrame f

/-- The flags of heap pages. -/
def heapFlags : Word :=
  Pte.PRESENT ||| Pte.WRITABLE ||| Pte.USER_ACCESSIBLE ||| Pte.NO_EXECUTE

/-- The part of `brk_handler` after its checks. -/
def moveBreak (p : ProcMem) (newBreak : Nat) : KM (ProcMem × Except ErrorCode Nat) := do
  let oldBreak := p.heap.heapEnd
  let moved := { p with heap := { p.heap with heapEnd := newBreak } }
  if newBreak > oldBreak then
    let r ← orEnomem do
      forRange 0 ((newBreak - oldBreak) / 4096) fun i =>
        mapUserPage p heapFlags (oldBreak + i * 4096)
      return .ok newBreak
    return (if r matches .ok _ then moved else p, r)
  else if newBreak < oldBreak then
    forRange 0 ((oldBreak - newBreak) / 4096) fun i =>
      unmapHeapPage p (newBreak + i * 4096)
    return (moved, .ok newBreak)
  else return (p, .ok newBreak)

/-- `brk_handler`. -/
def brkHandler (p : ProcMem) (addr : Nat) : KM (ProcMem × Except ErrorCode Nat) := do
  if addr = 0 then return (p, .ok p.heap.heapEnd)
  else if addr < p.heap.heapStart ∨ addr > p.heap.heapLimit then return (p, .ok p.heap.heapEnd)
  else if addr > p.mmapBase then return (p, .error .enomem)
  else
    let rounded ← addU64 addr 0xFFF
    moveBreak p (pageOf rounded)

/-- Where an `mmap` goes, and the process after its base has moved. -/
def chooseAddr (p : ProcMem) (addr size : Nat) : ProcMem × Except ErrorCode Nat :=
  if addr = 0 then ({ p with mmapBase := p.mmapBase - size }, .ok (p.mmapBase - size))
  else if addr % 4096 ≠ 0 then (p, .error .einval)
  else (p, .ok addr)

/-- The part of `mmap_handler` after the choice of the address. -/
def mapAnonymous (p : ProcMem) (mapAddr size : Nat) (prot flags : BitVec 32) :
    KM (ProcMem × Except ErrorCode Nat) := do
  if mapAddr ≥ userSpaceMax then return (p, .error .einval)
  else if mapAddr < p.heap.heapEnd then return (p, .error .enomem)
  else
    let r ← orEnomem do
      forRange 0 (size / 4096) fun i => mapUserPage p (protFlags prot) (mapAddr + i * 4096)
      return .ok mapAddr
    let mapping : MemoryMapping := ⟨mapAddr, size, prot, flags⟩
    return (if r matches .ok _ then { p with mappings := p.mappings ++ [mapping] } else p, r)

/-- `mmap_handler`: PROT_WRITE is 2, PROT_EXEC 4, MAP_PRIVATE 2, MAP_ANONYMOUS
0x20. -/
def mmapHandler (p : ProcMem) (addr length : Nat) (prot flags : BitVec 32) (fd : Int) :
    KM (ProcMem × Except ErrorCode Nat) :=
  let size := pageOf (length + 0xFFF)
  if length = 0 ∨ length > 0x4000_0000 then return (p, .error .einval)
  else if flags &&& 0x20 = 0 ∨ flags &&& 2 = 0 then return (p, .error .einval)
  else if fd ≠ -1 then return (p, .error .einval)
  else if prot &&& 2 ≠ 0 ∧ prot &&& 4 ≠ 0 then return (p, .error .einval)
  else
    match chooseAddr p addr size with
    | (p, .error e) => return (p, .error e)
    | (p, .ok mapAddr) => mapAnonymous p mapAddr size prot flags

end PandaOS.Kernel
