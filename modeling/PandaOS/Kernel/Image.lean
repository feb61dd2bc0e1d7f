import PandaOS.Kernel.Elf

/-!
# Process images

`process.rs`: building a process from an ELF file, building the image that
replaces it and forking it. Descriptor tables, credentials and the environment
are not part of the model; the descriptor copy of `fork_from` is a parameter that
says whether it succeeds. The selectors of the GDT are parameters too.
-/

namespace PandaOS.Kernel

/-- The user code and data selectors. -/
structure Selectors where
  userCs : Word
  userSs : Word
  deriving DecidableEq, Repr

/-- `HeapInfo::new`. -/
def HeapInfo.new (heapStart : Nat) : KM HeapInfo := do
  let rounded ← addU64 heapStart 0xFFF
  let limit ← addU64 (pageOf rounded) 0x4000_0000
  return ⟨pageOf rounded, pageOf rounded, limit⟩

/-- Top of the user stack. -/
def userStackTop : Nat := 0x7FFF_FFFF_F000

def userStackPages : Nat := 4

/-- Where `mmap` without an address starts, growing down. -/
def initialMmapBase : Nat := 0x7FFF_0000_0000

/-- `Process::new`; the identifier was allocated before. -/
def Process.new (sel : Selectors) (info : ElfInfo) (data : List Byte) (pid : Pid) : KM Process := do
  let pt ← createUserPageTable
  loadElfSegments info data pt
  allocateUserStack pt userStackTop userStackPages
  allocateKernelStack pt kernelStackTop kernelStackPages
  let heapStart ← calculateHeapStart info
  let heap ← HeapInfo.new heapStart
  return {
    pid := pid
    pgid := pid
    parentPid := none
    state := .ready
    waitState := .notWaiting
    entryPoint := BitVec.ofNat 64 info.entryPoint
    userStackPtr := BitVec.ofNat 64 userStackTop
    kernelStackPtr := BitVec.ofNat 64 kernelStackTop
    pageTablePhys := pt
    context := CpuContext.newUser (BitVec.ofNat 64 info.entryPoint)
      (BitVec.ofNat 64 userStackTop) sel.userCs sel.userSs
    pendingSignals := 0
    heap := heap
    mappings := []
    mmapBase := initialMmapBase
    vmRegions := [] }

/-- The new image of `replace_image`, in a page table made for it. -/
def buildImage (p : Process) (sel : Selectors) (info : ElfInfo) (data : List Byte) (pt : Nat) :
    KM Process := do
  loadElfSegments info data pt
  allocateUserStack pt userStackTop userStackPages
  let heapStart ← calculateHeapStart info
  let heap ← HeapInfo.new heapStart
  return p.withImage
    { p.toProcMem with
      entryPoint := BitVec.ofNat 64 info.entryPoint
      userStackPtr := BitVec.ofNat 64 userStackTop
      pageTablePhys := pt
      heap := heap
      mappings := []
      vmRegions := [] }
    (CpuContext.newUser (BitVec.ofNat 64 info.entryPoint) (BitVec.ofNat 64 userStackTop)
      sel.userCs sel.userSs)

/-- The first part of `replace_image`: a new table with the new image. A failed
load frees the new table; the kernel stack is kept. -/
def Process.newImage (p : Process) (sel : Selectors) (info : ElfInfo) (data : List Byte) :
    KM Process := do
  let pt ← createUserPageTable
  tryCatch (buildImage p sel info data pt) fun fault =>
    match fault with
    | .err e => do
      freeProcessAddressSpace pt false
      throwErr e
    | .panic e => throwPanic e

/-- `fork_from`. `fdsCopied` says whether the descriptor table can be copied. -/
def Process.forkFrom (p : Process) (childPid : Pid) (fdsCopied : Bool) : KM Process := do
  let child ← cloneUserAddressSpace p.pageTablePhys
  allocateKernelStack child kernelStackTop kernelStackPages
  if fdsCopied then return p.child childPid child
  else throwErr "Failed to fork FD table"

end PandaOS.Kernel
