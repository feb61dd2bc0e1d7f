import Mathlib.Data.Nat.Digits.Defs
import PandaOS.Hal.FrameAllocator
import PandaOS.Kernel.Process
import PandaOS.Lib.Run

/-!
# Page tables

`paging.rs`: four-level page tables in physical memory. A frame holds 512
words; the kernel reaches every frame through the bootloader's mapping of
physical memory, so tables are read and written by frame number. A physical
address of a table or a page is a multiple of the frame size, and is kept as
its frame number; entries hold the 64-bit encoding.

`Err` results are `Fault.err` with the source's text, panics are
`Fault.panic`. State changes made before either of them stay.
-/

namespace PandaOS.Kernel

open Hal Lib

/-- How kernel code stops early. -/
inductive Fault
  | err (msg : String)
  | panic (msg : String)
  deriving DecidableEq, Repr

/-- Physical memory and the kernel state that paging uses. -/
structure KMem where
  mem : Nat → Nat → Word
  frames : FrameAllocator
  /-- The frames of `page_table_tracker`; `None` until its `init`. -/
  tracker : Option (List Nat)
  /-- The frame of the active L4 table. -/
  cr3 : Nat
  /-- A debug build, where debug assertions and overflow checks panic. -/
  debug : Bool

abbrev KM := EStateM Fault KMem

def throwErr {α : Type} (msg : String) : KM α := throw (.err msg)

def throwPanic {α : Type} (msg : String) : KM α := throw (.panic msg)

/-- `a + b` on `u64`: a debug build panics on overflow, a release build wraps.
Irreducible, so that no proof counts up to a large number to see its outcome. -/
@[irreducible] def addU64 (a b : Nat) : KM Nat := do
  if a + b < 2 ^ 64 then return a + b
  else if (← get).debug then throwPanic "attempt to add with overflow"
  else return (a + b) % 2 ^ 64

/-- `a - b` on `u64`. -/
@[irreducible] def subU64 (a b : Nat) : KM Nat := do
  if b ≤ a then return a - b
  else if (← get).debug then throwPanic "attempt to subtract with overflow"
  else return a + 2 ^ 64 - b

/-! ## Entries -/

namespace Pte

def PRESENT : Word := 1
def WRITABLE : Word := 2
def USER_ACCESSIBLE : Word := 4
def HUGE_PAGE : Word := 0x80
def COPY_ON_WRITE : Word := 0x200
def NO_EXECUTE : Word := 0x8000_0000_0000_0000

def addrMask : Word := 0x000F_FFFF_FFFF_F000

def isPresent (e : Word) : Bool := e &&& PRESENT != 0

/-- `flags()`: the low twelve bits; NO_EXECUTE is not among them. -/
def flags (e : Word) : Word := e &&& 0xFFF

def addr (e : Word) : Word := e &&& addrMask

/-- `contains` of a flag set. -/
def has (flags other : Word) : Bool := flags &&& other == other

/-- The entry `set(addr, flags)` stores. -/
def make (addr flags : Word) : Word := (addr &&& addrMask) ||| flags

/-- The frame an entry points at. -/
def frame (e : Word) : Nat := (addr e).toNat / 4096

/-- The flags of an entry for a lower-level table. -/
def tableFlags : Word := PRESENT ||| WRITABLE ||| USER_ACCESSIBLE

end Pte

/-- `frame as u64 * FRAME_SIZE`. -/
def frameAddr (f : Nat) : Word := BitVec.ofNat 64 (f * 4096)

/-! ## Virtual addresses -/

def p4Index (va : Nat) : Nat := va / 2 ^ 39 % 512
def p3Index (va : Nat) : Nat := va / 2 ^ 30 % 512
def p2Index (va : Nat) : Nat := va / 2 ^ 21 % 512
def p1Index (va : Nat) : Nat := va / 2 ^ 12 % 512

def pageSize : Nat := 4096

/-- An address rounded down to its page (`& !0xFFF`). -/
def pageOf (a : Nat) : Nat := a / pageSize * pageSize

def kernelStackPages : Nat := 4

def userSpaceMax : Nat := 0x0000_8000_0000_0000

/-! ## Memory and frames -/

def readEntry (t i : Nat) : KM Word := do return (← get).mem t i

/-- Memory with one word replaced. -/
def KMem.setEntry (s : KMem) (t i : Nat) (w : Word) : KMem :=
  { s with mem := fun f => if f = t then fun j => if j = i then w else s.mem t j else s.mem f }

/-- Memory with one frame cleared. -/
def KMem.zeroFrame (s : KMem) (t : Nat) : KMem :=
  { s with mem := fun f => if f = t then fun _ => 0 else s.mem f }

def writeEntry (t i : Nat) (w : Word) : KM Unit := modify (·.setEntry t i w)

def zeroFrame (t : Nat) : KM Unit := modify (·.zeroFrame t)

/-- Byte `j` of a word, the lowest first. -/
def byteOf (w : Word) (j : Nat) : Nat := w.toNat / 256 ^ j % 256

/-- Physical memory after bytes are stored from a physical address on. -/
def storeBytes (mem : Nat → Nat → Word) (addr : Nat) (src : List (BitVec 8)) : Nat → Nat → Word :=
  fun f i =>
    if i < 512 then
      BitVec.ofNat 64 <| Nat.ofDigits 256 <| (List.range 8).map fun j =>
        let a := f * 4096 + i * 8 + j
        if addr ≤ a ∧ a < addr + src.length then (src.getD (a - addr) 0).toNat
        else byteOf (mem f i) j
    else mem f i

def writeBytes (addr : Nat) (src : List (BitVec 8)) : KM Unit :=
  modify fun s => { s with mem := storeBytes s.mem addr src }

/-- `memory::allocate_frame`. -/
def allocateFrame : KM (Option Nat) := do
  let (f, frames) := (← get).frames.allocateFrame
  modify fun s => { s with frames := frames }
  return f

/-- `memory::deallocate_frame`. -/
def deallocateFrame (f : Nat) : KM Unit := do
  let s ← get
  match s.frames.deallocateFrame s.debug f with
  | some frames => set { s with frames := frames }
  | none => throwPanic "Deallocating unallocated frame"

def incFrameRefcount (f : Nat) : KM Unit :=
  modify fun s => { s with frames := (s.frames.incRefcount f).2 }

def decFrameRefcount (f : Nat) : KM Unit :=
  modify fun s => { s with frames := (s.frames.decRefcount f).2 }

/-- `track_frame`. -/
def trackFrame (f : Nat) (frames : List Nat) : List Nat :=
  if f ∈ frames then frames else frames ++ [f]

/-- `is_page_table_frame`. -/
def KMem.isPageTableFrame (s : KMem) (f : Nat) : Bool :=
  s.tracker.any fun frames => decide (f ∈ frames)

/-- `allocate_page_table_frame`, with the caller's text for `None`. -/
def allocatePageTableFrame (msg : String) : KM Nat := do
  match ← allocateFrame with
  | none => throwErr msg
  | some f =>
    modify fun s => { s with tracker := s.tracker.map (trackFrame f) }
    return f

/-! ## Building tables -/

/-- The table below entry `i` of `t`, created if it is missing. -/
def ensureTable (t i : Nat) (msg : String) : KM Nat := do
  if !Pte.isPresent (← readEntry t i) then
    let f ← allocatePageTableFrame msg
    zeroFrame f
    writeEntry t i (Pte.make (frameAddr f) Pte.tableFlags)
  return Pte.frame (← readEntry t i)

/-- `create_user_page_table`: the upper half is copied from the active table. -/
def createUserPageTable : KM Nat := do
  let l4 ← allocatePageTableFrame "Failed to allocate L4 page table"
  zeroFrame l4
  let current := (← get).cr3
  forRange 256 256 fun i => do
    writeEntry l4 i (← readEntry current i)
  return l4

/-- A number as `{:#x}` prints it. -/
def hex (n : Nat) : String := "0x" ++ String.ofList (Nat.toDigits 16 n)

/-- The text of `map_page`'s panic. -/
def remapText (va : Nat) (existing requested : Word) : String :=
  "Page already mapped to different frame: VA=" ++ hex va ++
    ", existing_frame=" ++ hex existing.toNat ++ ", requested_frame=" ++ hex requested.toNat

/-- `map_page`. Mapping a page again to the same frame replaces its flags. -/
def mapPage (pt va f : Nat) (flags : Word) : KM Unit := do
  let l3 ← ensureTable pt (p4Index va) "Failed to allocate L3 page table"
  let l2 ← ensureTable l3 (p3Index va) "Failed to allocate L2 page table"
  let l1 ← ensureTable l2 (p2Index va) "Failed to allocate L1 page table"
  let e ← readEntry l1 (p1Index va)
  if Pte.isPresent e && Pte.addr e != frameAddr f then
    throwPanic (remapText va (Pte.addr e) (frameAddr f))
  else writeEntry l1 (p1Index va) (Pte.make (frameAddr f) flags)

/-- The table below a present entry. -/
def tableAt (mem : Nat → Nat → Word) (t i : Nat) : Option Nat :=
  if Pte.isPresent (mem t i) then some (Pte.frame (mem t i)) else none

/-- The L1 table for an address, if every level above it is present. -/
def leafTable (mem : Nat → Nat → Word) (pt va : Nat) : Option Nat := do
  let l3 ← tableAt mem pt (p4Index va)
  let l2 ← tableAt mem l3 (p3Index va)
  tableAt mem l2 (p2Index va)

/-- `walk_page_table`: the place of the entry of a mapped page. -/
def walkPageTable (mem : Nat → Nat → Word) (pt va : Nat) : Option (Nat × Nat) := do
  let l1 ← leafTable mem pt va
  if Pte.isPresent (mem l1 (p1Index va)) then some (l1, p1Index va) else none

/-- The table below an entry that has to be present. -/
def requireTable (t i : Nat) (msg : String) : KM Nat := do
  match tableAt (← get).mem t i with
  | some f => return f
  | none => throwErr msg

/-- The addresses `x86_64::VirtAddr::new` accepts. -/
def canonical (va : Nat) : Bool := va < 2 ^ 47 || 2 ^ 64 - 2 ^ 47 ≤ va

/-- `tlb::flush` of one page: only the conversion of its address can fail. -/
def flushPage (va : Nat) : KM Unit :=
  if canonical va then pure ()
  else throwPanic "virtual address must be sign extended in bits 48 to 64"

/-- `unmap_page`; the result is the frame that was mapped. The entry is already
cleared when the flush of a non-canonical address panics. -/
def unmapPage (pt va : Nat) : KM Nat := do
  let l3 ← requireTable pt (p4Index va) "Page not mapped (L4 entry missing)"
  let l2 ← requireTable l3 (p3Index va) "Page not mapped (L3 entry missing)"
  let l1 ← requireTable l2 (p2Index va) "Page not mapped (L2 entry missing)"
  let f ← requireTable l1 (p1Index va) "Page not mapped (L1 entry missing)"
  writeEntry l1 (p1Index va) 0
  flushPage va
  return f

/-- The loop of `allocate_user_stack` and `allocate_kernel_stack`. -/
def allocateStack (flags : Word) (pt stackTop numPages : Nat) : KM Unit :=
  forRange 0 numPages fun i => do
    match ← allocateFrame with
    | none => throwErr "Failed to allocate stack frame"
    | some f =>
      mapPage pt (stackTop - (i + 1) * pageSize) f flags
      zeroFrame f

def allocateUserStack : Nat → Nat → Nat → KM Unit :=
  allocateStack (Pte.PRESENT ||| Pte.WRITABLE ||| Pte.USER_ACCESSIBLE ||| Pte.NO_EXECUTE)

def allocateKernelStack : Nat → Nat → Nat → KM Unit :=
  allocateStack (Pte.PRESENT ||| Pte.WRITABLE ||| Pte.NO_EXECUTE)

/-! ## Freeing an address space -/

/-- One level of `free_process_address_space`: free what is below each present
entry, then the table it points at, then the entry. -/
def freeEntries (t count : Nat) (below : Word → KM Unit) : KM Unit :=
  forRange 0 count fun i => do
    let e ← readEntry t i
    if Pte.isPresent e then
      below e
      deallocateFrame (Pte.frame e)
      writeEntry t i 0

/-- The innermost level: a page loses one reference. -/
def freeLeaves (l1 : Nat) : KM Unit :=
  forRange 0 512 fun i => do
    let e ← readEntry l1 i
    if Pte.isPresent e then
      decFrameRefcount (Pte.frame e)
      writeEntry l1 i 0

/-- `lookup_phys_addr`, as a frame. -/
def lookupFrame (mem : Nat → Nat → Word) (pt va : Nat) : Option Nat := do
  let l3 ← tableAt mem pt (p4Index va)
  let l2 ← tableAt mem l3 (p3Index va)
  let l1 ← tableAt mem l2 (p2Index va)
  if Pte.has (Pte.flags (mem l2 (p2Index va))) Pte.HUGE_PAGE then none
  else tableAt mem l1 (p1Index va)

/-- `free_kernel_stack_pages`. -/
def freeKernelStackPages (pt : Nat) : KM Unit :=
  forRange 0 kernelStackPages fun i => do
    match lookupFrame (← get).mem pt (kernelStackTop - (i + 1) * pageSize) with
    | none => throwErr "Kernel stack page not mapped"
    | some f => deallocateFrame f

/-- `free_process_address_space`. -/
def freeProcessAddressSpace (pt : Nat) (freeKernelStack : Bool) : KM Unit := do
  freeEntries pt 256 fun e4 =>
    freeEntries (Pte.frame e4) 512 fun e3 =>
      freeEntries (Pte.frame e3) 512 fun e2 =>
        if Pte.has (Pte.flags e2) Pte.HUGE_PAGE then
          throwErr "Huge pages not supported in cleanup"
        else freeLeaves (Pte.frame e2)
  if freeKernelStack then freeKernelStackPages pt
  deallocateFrame pt

/-! ## Cloning an address space -/

/-- One level of `clone_user_address_space`: for each present entry of the
parent's table make sure the child has a table there, and go on below. -/
def cloneEntries (parent child count : Nat) (msg : String) (check : Word → KM Unit)
    (below : Nat → Nat → KM Unit) : KM Unit :=
  forRange 0 count fun i => do
    let e ← readEntry parent i
    if Pte.isPresent e then
      check e
      let c ← ensureTable child i msg
      below (Pte.frame e) c

/-- The flags a shared page gets: a writable page becomes read-only and
copy-on-write, any other keeps what `flags()` shows of it. -/
def cowFlags (flags : Word) : Word :=
  if Pte.has flags Pte.WRITABLE then (flags &&& ~~~Pte.WRITABLE) ||| Pte.COPY_ON_WRITE else flags

/-- The innermost level: share each page. -/
def cloneLeaves (parent child : Nat) : KM Unit :=
  forRange 0 512 fun i => do
    let e ← readEntry parent i
    if Pte.isPresent e then
      let flags := cowFlags (Pte.flags e)
      if Pte.has (Pte.flags e) Pte.WRITABLE then
        writeEntry parent i (Pte.make (Pte.addr e) flags)
      writeEntry child i (Pte.make (Pte.addr e) flags)
      incFrameRefcount (Pte.frame e)

def checkNotHuge (e : Word) : KM Unit :=
  if Pte.has (Pte.flags e) Pte.HUGE_PAGE then throwErr "Huge pages not supported in fork"
  else pure ()

/-- `clone_user_address_space`. -/
def cloneUserAddressSpace (parent : Nat) : KM Nat := do
  let child ← createUserPageTable
  cloneEntries parent child 256 "Failed to allocate L3 for clone" (fun _ => pure ())
    fun parentL3 childL3 =>
      cloneEntries parentL3 childL3 512 "Failed to allocate L2 for clone" (fun _ => pure ())
        fun parentL2 childL2 =>
          cloneEntries parentL2 childL2 512 "Failed to allocate L1 for clone" checkNotHuge
            cloneLeaves
  return child

end PandaOS.Kernel
