import PandaOS.Hal.FrameAllocator

/-!
# Memory initialisation

`memory.rs`: the bootloader's memory map is copied into a buffer of 64 regions,
and the frame allocator is given the one interval from the first usable frame
to the last. Frame 0, the kernel image, the boot information and the active
level-4 table are reserved in it.

`AllocOp` are the allocator's operations as the rest of the kernel calls them.
-/

namespace PandaOS.Kernel

open Hal

/-- `MemoryRegionType`, as far as it is told apart: everything the bootloader
does not call usable becomes `reserved`. -/
inductive MemoryRegionType
  | usable
  | reserved
  deriving DecidableEq, Repr

/-- `MemoryRegion`; the addresses are bytes. -/
structure MemoryRegion where
  startAddr : Nat
  endAddr : Nat
  regionType : MemoryRegionType
  deriving DecidableEq, Repr

/-- The size of `MemoryMapInfo`'s buffer. -/
def maxMapRegions : Nat := 64

/-- `MAX_TRACKED_FRAMES`. -/
def maxTrackedFrames : Nat := 1048576

/-- `add_region`: regions that do not fit are dropped. -/
def addRegion (map : List MemoryRegion) (r : MemoryRegion) : List MemoryRegion :=
  if map.length < maxMapRegions then map ++ [r] else map

/-- The map as the kernel keeps it. -/
def memoryMapInfo (bootMap : List MemoryRegion) : List MemoryRegion := bootMap.foldl addRegion []

def usableRegions (map : List MemoryRegion) : List MemoryRegion :=
  map.filter (·.regionType = .usable)

/-- `find_first_usable_frame`. -/
def findFirstUsableFrame (map : List MemoryRegion) : Nat :=
  max ((((usableRegions map).map fun r => r.startAddr / frameSize).min?).getD 1) 1

/-- `find_last_usable_frame`. -/
def findLastUsableFrame (map : List MemoryRegion) : Nat :=
  (((usableRegions map).map fun r => r.endAddr / frameSize).max?).getD 0

/-- `usable_memory`, printed only. In a debug build a region that ends before
it starts panics, and so does a sum of more than 64 bits. -/
def usableMemoryPanics (debug : Bool) (map : List MemoryRegion) : Bool :=
  debug && ((usableRegions map).any (fun r => r.endAddr < r.startAddr) ||
    2 ^ 64 ≤ ((usableRegions map).map fun r => r.endAddr - r.startAddr).sum)

/-- `kernel_phys_start` as a frame. -/
def kernelStartFrame : Nat := 0x100000 / frameSize

/-- `kernel_phys_end` as a frame. -/
def kernelEndFrame : Nat := (8 * 1024 * 1024 + frameSize - 1) / frameSize

/-- `init_from_bootloader`, where `bootInfoFrame` and `l4Frame` are the frames of
the boot information and of the table in CR3; `none` is a panic. An interval
that ends before it starts panics in `total_frames` in a debug build and in
`set_refcount_storage` otherwise. -/
def initFromBootloader (debug : Bool) (bootMap : List MemoryRegion) (bootInfoFrame l4Frame : Nat) :
    Option FrameAllocator :=
  let map := memoryMapInfo bootMap
  let first := findFirstUsableFrame map
  let last := findLastUsableFrame map
  if maxTrackedFrames < last - first then none
  else do
    let a ← (FrameAllocator.new first last).reserveRange 0 1 .nullFrame
    let a ← a.reserveRange kernelStartFrame kernelEndFrame .kernelImage
    let a ← a.reserveRange bootInfoFrame (bootInfoFrame + 1) .bootloader
    let a ← a.reserveRange l4Frame (l4Frame + 1) .pageTables
    if usableMemoryPanics debug map || last < first then none
    else a.setRefcountStorage maxTrackedFrames

/-- The whole frame lies in a region the bootloader calls usable. -/
def InUsableRegion (bootMap : List MemoryRegion) (f : Nat) : Prop :=
  ∃ r ∈ bootMap, r.regionType = .usable ∧ r.startAddr ≤ f * frameSize ∧
    (f + 1) * frameSize ≤ r.endAddr

/-- The allocator's operations. -/
inductive AllocOp
  | reserve (startFrame endFrame : Nat) (reason : ReservationReason)
  | allocate
  | deallocate (f : Nat)
  | inc (f : Nat)
  | dec (f : Nat)
  deriving DecidableEq, Repr

/-- One operation; `none` is a panic. A debug build asserts that `next_frame` has
not passed the end. -/
def AllocOp.step (debug : Bool) (a : FrameAllocator) : AllocOp → Option FrameAllocator
  | .reserve startFrame endFrame reason => a.reserveRange startFrame endFrame reason
  | .allocate => if debug ∧ a.endFrame < a.nextFrame then none else some a.allocateFrame.2
  | .deallocate f => a.deallocateFrame debug f
  | .inc f => some (a.incRefcount f).2
  | .dec f => some (a.decRefcount f).2

/-- The allocator after some operations. -/
def AllocOp.run (debug : Bool) (a : FrameAllocator) (ops : List AllocOp) : Option FrameAllocator :=
  ops.foldlM (AllocOp.step debug) a

end PandaOS.Kernel
