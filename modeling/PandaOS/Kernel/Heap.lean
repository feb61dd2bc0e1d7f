import PandaOS.Kernel.Paging

/-!
# The kernel heap

`heap.rs`: `map_heap` takes 26 frames one by one and reserves each of them. The heap
is then the range of that size from the first frame on, through the bootloader's
mapping of physical memory.
-/

namespace PandaOS.Kernel

open Hal Lib

/-- `HEAP_SIZE`. -/
def heapSize : Nat := 26 * 4096

/-- What the heap has room for while a call runs. Where an allocation fails,
`alloc_error_handler` panics. -/
structure HeapRoom where
  /-- Whether the vector at hand can be grown to this length, by its capacity or by the
  allocator. -/
  grows : Nat → Bool
  /-- Whether a map can take another key. -/
  inserts : Bool
  grows_le : ∀ len, grows len = true → len ≤ heapSize

/-- Whether there is room to write `count` bytes at `offset` into a vector of `len` bytes:
it is grown to `offset` first, and then to the end of the write. -/
def HeapRoom.holds (heap : HeapRoom) (len offset count : Nat) : Bool :=
  (offset ≤ len || heap.grows offset) &&
    (offset + count ≤ max len offset || heap.grows (offset + count))

/-- A heap with nothing in it. -/
def emptyHeap : HeapRoom := ⟨fun len => len ≤ heapSize, true, fun _ => of_decide_eq_true⟩

/-- `MAX_HEAP_FRAMES`. -/
def maxHeapFrames : Nat := 32

/-- Code on the global frame allocator. -/
abbrev AllocM := EStateM Fault FrameAllocator

/-- `allocate_frame`, with its debug assertion. -/
def heapAllocate (debug : Bool) : AllocM (Option Nat) := do
  let a ← get
  failIf (debug && decide (a.endFrame < a.nextFrame)) (.panic "Frame allocator corrupted")
  set a.allocateFrame.2
  return a.allocateFrame.1

/-- `reserve_frames` of one frame, with the assertion on the number of regions. -/
def heapReserve (f : Nat) : AllocM Unit := do
  match (← get).reserveRange f (f + 1) .heap with
  | some a => set a
  | none => throw (.panic "Too many reserved regions (max 32)")

/-- The frames for the heap: `n` more, the next one with the number `i`. -/
def heapFrames (debug : Bool) : Nat → Nat → AllocM (List Nat)
  | 0, _ => return []
  | n + 1, i => do
    match ← heapAllocate debug with
    | none => throw (.err "Out of memory: cannot allocate frames for heap")
    | some f =>
      if i < maxHeapFrames then return f :: (← heapFrames debug n (i + 1))
      else throw (.err "Heap too large: exceeds MAX_HEAP_FRAMES")

/-- `map_heap`, with physical memory mapped at `offset`. The result is what it stores in
`ACTUAL_HEAP_START`. -/
def mapHeap (debug : Bool) (offset : Nat) : AllocM Nat := do
  let frames ← heapFrames debug ((heapSize + 4095) / 4096) 0
  let heapStart := frames.headD 0 * 4096 + offset
  frames.forM heapReserve
  return heapStart

end PandaOS.Kernel
