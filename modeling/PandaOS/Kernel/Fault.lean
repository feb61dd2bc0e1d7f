import PandaOS.Kernel.Paging

/-!
# Page faults and the MMU

`interrupts.rs`: `page_fault_handler` with demand paging and copy-on-write.
The memory management unit is modelled as far as the kernel relies on it: an
access goes through when every level is present and permits it, and otherwise
raises a fault with the error bits the handler reads. The tables the kernel
builds hold no huge pages, so only the four-level walk is modelled. CR0.WP is
set by the bootloader, so the kernel's own stores respect read-only pages.
-/

namespace PandaOS.Kernel

open Lib

/-! ## The MMU -/

/-- What the MMU finds for a mapped address. -/
structure Translation where
  frame : Nat
  writable : Bool
  user : Bool
  deriving DecidableEq, Repr

/-- The four-level walk. A page may be written, or reached from user mode, if
every level says so. -/
def translate (mem : Nat → Nat → Word) (pt va : Nat) : Option Translation := do
  let l3 ← tableAt mem pt (p4Index va)
  let l2 ← tableAt mem l3 (p3Index va)
  let l1 ← tableAt mem l2 (p2Index va)
  let f ← tableAt mem l1 (p1Index va)
  let every (flag : Word) : Bool :=
    Pte.has (mem pt (p4Index va)) flag && Pte.has (mem l3 (p3Index va)) flag
      && Pte.has (mem l2 (p2Index va)) flag && Pte.has (mem l1 (p1Index va)) flag
  some ⟨f, every Pte.WRITABLE, every Pte.USER_ACCESSIBLE⟩

/-- Whether instructions may be fetched from a mapped page: one level with
NO_EXECUTE is enough to forbid it. -/
def executable (mem : Nat → Nat → Word) (pt va : Nat) : Option Bool := do
  let l3 ← tableAt mem pt (p4Index va)
  let l2 ← tableAt mem l3 (p3Index va)
  let l1 ← tableAt mem l2 (p2Index va)
  let _ ← tableAt mem l1 (p1Index va)
  let forbids (e : Word) : Bool := Pte.has e Pte.NO_EXECUTE
  some !(forbids (mem pt (p4Index va)) || forbids (mem l3 (p3Index va))
    || forbids (mem l2 (p2Index va)) || forbids (mem l1 (p1Index va)))

/-! ## The handlers -/

/-- `expect` on a `Result`. -/
def expectOk {α : Type} (msg : String) (x : KM α) : KM α :=
  tryCatch x fun fault =>
    match fault with
    | .err e => throwPanic (msg ++ ": \"" ++ e ++ "\"")
    | .panic e => throwPanic e

/-- The leaf flags for PROT bits: PROT_WRITE is 2, PROT_EXEC is 4. -/
def protFlags (prot : BitVec 32) : Word :=
  Pte.PRESENT ||| Pte.USER_ACCESSIBLE
    ||| (if prot &&& 2 ≠ 0 then Pte.WRITABLE else 0)
    ||| (if prot &&& 4 = 0 then Pte.NO_EXECUTE else 0)

/-- The flags of a page mapped on demand: those of its region, or read and
write without execution where no region is tracked. -/
def demandFlags (p : ProcMem) (pageAddr : Nat) : Word :=
  match p.vmRegions.find? fun r => pageAddr ≥ r.startAddr && pageAddr < r.endAddr with
  | some region => protFlags region.flags
  | none => Pte.PRESENT ||| Pte.USER_ACCESSIBLE ||| Pte.WRITABLE ||| Pte.NO_EXECUTE

/-- `handle_demand_paging`. -/
def handleDemandPaging (p : ProcMem) (cr2 : Nat) : KM Unit := do
  match ← allocateFrame with
  | none => throwPanic "Failed to allocate frame for demand paging"
  | some f =>
    expectOk "Failed to map page for demand paging"
      (mapPage p.pageTablePhys (pageOf cr2) f (demandFlags p (pageOf cr2)))
    zeroFrame f

/-- Memory with one frame copied over another. -/
def KMem.copyFrame (s : KMem) (src dst : Nat) : KMem :=
  { s with mem := fun f => if f = dst then s.mem src else s.mem f }

/-- The flags after a copy-on-write fault: WRITABLE set, COPY_ON_WRITE cleared. -/
def resolvedFlags (flags : Word) : Word :=
  (flags ||| Pte.WRITABLE) &&& ~~~Pte.COPY_ON_WRITE

/-- `handle_cow_fault`. -/
def handleCowFault (p : ProcMem) (cr2 : Nat) : KM Unit := do
  match walkPageTable (← get).mem p.pageTablePhys (pageOf cr2) with
  | none => throwPanic "Page table walk failed despite present bit set"
  | some (l1, i) =>
    let e ← readEntry l1 i
    if !Pte.has (Pte.flags e) Pte.COPY_ON_WRITE then
      throwPanic "Write to read-only page (not COW)"
    else
      match ← allocateFrame with
      | none => throwPanic "Failed to allocate frame for COW"
      | some f =>
        modify (·.copyFrame (Pte.frame e) f)
        writeEntry l1 i (Pte.make (frameAddr f) (resolvedFlags (Pte.flags e)))
        flushPage (pageOf cr2)
        decFrameRefcount (Pte.frame e)

/-- `page_fault_handler`, from the error code's bits. -/
def pageFaultHandler (current : Option ProcMem) (cr2 : Nat) (present write user : Bool) : KM Unit :=
  match current with
  | none => throwPanic "PAGE FAULT in kernel space"
  | some p =>
    if !present && user then handleDemandPaging p cr2
    else if present && write && user then handleCowFault p cr2
    else if !present && !user && decide (cr2 < userSpaceMax) then handleDemandPaging p cr2
    else throwPanic "Unhandled page fault type"

/-! ## Accesses -/

/-- The kernel clears a page through its virtual address: if the page is
missing the fault is handled first, if it is read-only the fault is fatal. A
page that is still missing after the handler faults once more. The processor
refuses an address that is not canonical, and no handler is there for that. -/
def kernelZeroPage (p : ProcMem) (va : Nat) : KM Unit := do
  failIf (!canonical va) (.panic "EXCEPTION: DOUBLE FAULT")
  if (translate (← get).mem (← get).cr3 va).isNone then
    pageFaultHandler (some p) va false true false
  match translate (← get).mem (← get).cr3 va with
  | none => pageFaultHandler (some p) va false true false
  | some t =>
    if t.writable then zeroFrame t.frame
    else pageFaultHandler (some p) va true true false

end PandaOS.Kernel
