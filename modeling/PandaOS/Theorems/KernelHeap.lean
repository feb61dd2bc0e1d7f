import PandaOS.Kernel.Heap
import PandaOS.Logic.Allocator

/-!
# The frames under the kernel heap

The heap is used as one range, but its frames are allocated one by one. They are
consecutive only if the 25 frames after the first free one are free; otherwise the
range runs over frames that belong to others (`heap_over_reserved`).
-/

namespace PandaOS.Kernel

open Hal Hal.FrameAllocator Lib

variable {debug : Bool} {a a' : FrameAllocator} {n i : Nat}

/-- The frame was allocated by the call that leads from `a` to `a'`, was not reserved
before, is reserved now, and no later allocation hands it out. -/
structure HeapFrame (debug : Bool) (a a' : FrameAllocator) (f : Nat) : Prop where
  before : a.isAllocated f = false
  after : a'.isAllocated f = true
  unreserved : a.isReserved f = false
  reserved : a'.isReserved f = true
  never : ∀ ops a'', AllocOp.run debug a' ops = some a'' → a''.allocateFrame.1 ≠ some f

/-- The frame of a virtual address in the bootloader's mapping. -/
def frameUnder (offset va : Nat) : Nat := (va - offset) / 4096

/-- The first free frame in the allocator's order has 25 free ones after it. -/
def RoomForHeap (a : FrameAllocator) : Prop :=
  ∀ first, a.allocateFrame.1 = some first → ∀ i < 26, a.inRange (first + i) = true ∧
    a.isFree (first + i) = true

/-! ## Allocating the frames -/

theorem heapAllocate_ok {o : Option Nat} (h : Returns (heapAllocate debug) a o a') :
    a.allocateFrame = (o, a') := by
  simp only [heapAllocate, returns_bind, returns_get, returns_set, returns_pure, and_assoc,
    exists_and_left, exists_eq_left] at h
  obtain ⟨_, _, -, rfl, _, rfl⟩ := h
  rfl

/-- One turn of the loop. -/
theorem heapFrames_succ {frames : List Nat} (h : Returns (heapFrames debug (n + 1) i) a frames a') :
    ∃ f a1 rest, a.allocateFrame = (some f, a1) ∧ Returns (heapFrames debug n (i + 1)) a1 rest a' ∧
      frames = f :: rest := by
  simp only [heapFrames, returns_bind] at h
  obtain ⟨o, a1, halloc, h⟩ := h
  cases o with
  | none => exact absurd h not_returns_throw
  | some f =>
    dsimp only at h
    split at h
    · simp only [returns_bind, returns_pure] at h
      obtain ⟨rest, a2, hrest, rfl, rfl⟩ := h
      exact ⟨f, a1, rest, heapAllocate_ok halloc, hrest, rfl⟩
    · exact absurd h not_returns_throw

/-- The frames are in use afterwards, and what was in use still is; the interval is as
before. -/
theorem heapFrames_ok {frames : List Nat} (hs : Regular a)
    (h : Returns (heapFrames debug n i) a frames a') :
    Regular a' ∧ (∀ f, a'.inRange f = a.inRange f) ∧
      ∀ f, a.isAllocated f = true ∨ f ∈ frames → a'.isAllocated f = true := by
  induction n generalizing i a frames with
  | zero =>
    obtain ⟨rfl, rfl⟩ := returns_pure.mp h
    exact ⟨hs, fun _ => rfl, fun f hf => hf.resolve_right List.not_mem_nil⟩
  | succ n ih =>
    obtain ⟨f, a1, rest, halloc, hrest, rfl⟩ := heapFrames_succ h
    have hstep : AllocOp.allocate.step false a = some a1 := by simp [AllocOp.step, halloc]
    obtain ⟨hs', hin, hused⟩ := ih (hs.step hstep) hrest
    obtain ⟨-, -, -, htaken, hother⟩ := allocateFrame_takes halloc
    have hfirst := (AllocOp.step_change hs.nonempty hstep).inRange
    refine ⟨hs', fun g => (hin g).trans (hfirst g), fun g hg => hused g ?_⟩
    by_cases hgf : g = f
    · subst hgf
      exact .inl htaken
    · rw [(hother g hgf).2.1]
      exact hg.imp_right fun hmem => (List.mem_cons.mp hmem).resolve_left hgf

/-- A free frame at the cursor is the next to be handed out. -/
theorem allocateFrame_at_next (hin : a.inRange a.nextFrame = true)
    (hfree : a.isFree a.nextFrame = true) : a.allocateFrame.1 = some a.nextFrame := by
  obtain ⟨hlo, hhi⟩ := inRange_iff.mp hin
  have hstart : a.scanStart = a.nextFrame := by
    unfold scanStart
    rw [if_neg (by omega)]
  have hscan : a.scan a.totalFrames a.scanStart = some a.nextFrame := by
    obtain ⟨k, hk⟩ : ∃ k, a.totalFrames = k + 1 := ⟨a.totalFrames - 1, by unfold totalFrames; omega⟩
    rw [hk, hstart, scan]
    simp only [if_neg (Nat.not_le.mpr hhi), hfree, if_true]
  simp [FrameAllocator.allocateFrame, hscan]

/-- From a cursor with free frames ahead, the frames are consecutive. -/
theorem heapFrames_consecutive {frames : List Nat} (h : Returns (heapFrames debug n i) a frames a')
    (hfree : ∀ j < n, a.inRange (a.nextFrame + j) = true ∧ a.isFree (a.nextFrame + j) = true) :
    frames = List.range' a.nextFrame n := by
  -- by induction on the frames still to come; each allocation moves the cursor by one
  induction n generalizing i a frames with
  | zero => exact (returns_pure.mp h).1
  | succ n ih =>
    obtain ⟨f, a1, rest, halloc, hrest, rfl⟩ := heapFrames_succ h
    have hhere := allocateFrame_at_next (hfree 0 (by omega)).1 (hfree 0 (by omega)).2
    rw [halloc] at hhere
    obtain rfl : f = a.nextFrame := Option.some.inj hhere
    obtain ⟨-, -, -, -, hother⟩ := allocateFrame_takes halloc
    have hnext : a1.nextFrame = a.nextFrame + 1 ∧ ∀ g, a1.inRange g = a.inRange g := by
      obtain ⟨-, -, -, -, rfl⟩ := allocateFrame_some halloc
      exact ⟨rfl, fun _ => rfl⟩
    rw [List.range'_succ, ← hnext.1, ih hrest fun j hj => ?_]
    obtain ⟨hin, hbit⟩ := hfree (j + 1) (by omega)
    have hshift : a1.nextFrame + j = a.nextFrame + (j + 1) := by omega
    obtain ⟨hr, hb, -⟩ := hother (a.nextFrame + (j + 1)) (by omega)
    rw [hshift, hnext.2, isFree, hr, hb]
    exact ⟨hin, hbit⟩

/-- The heap gets the first free frame. -/
theorem heapFrames_head {frames : List Nat} (h : Returns (heapFrames debug (n + 1) i) a frames a') :
    a.allocateFrame.1 = some (frames.headD 0) := by
  obtain ⟨f, a1, rest, halloc, -, rfl⟩ := heapFrames_succ h
  rw [halloc]
  rfl

/-- With room for it, the heap gets consecutive frames. -/
theorem RoomForHeap.frames {i : Nat} {frames : List Nat} (hroom : RoomForHeap a)
    (h : Returns (heapFrames debug 26 i) a frames a') :
    frames = List.range' (frames.headD 0) 26 := by
  have hhead := heapFrames_head h
  obtain ⟨f, a1, rest, halloc, hrest, rfl⟩ := heapFrames_succ h
  have hfree := hroom f hhead
  obtain ⟨-, -, -, -, hother⟩ := allocateFrame_takes halloc
  have hnext : a1.nextFrame = f + 1 ∧ ∀ g, a1.inRange g = a.inRange g := by
    obtain ⟨-, -, -, -, rfl⟩ := allocateFrame_some halloc
    exact ⟨rfl, fun _ => rfl⟩
  show f :: rest = List.range' f 26
  rw [List.range'_succ, ← hnext.1, heapFrames_consecutive hrest fun j hj => ?_]
  obtain ⟨hin, hbit⟩ := hfree (j + 1) (by omega)
  have hshift : a1.nextFrame + j = f + (j + 1) := by omega
  obtain ⟨hr, hb, -⟩ := hother (f + (j + 1)) (by omega)
  rw [hshift, hnext.2, isFree, hr, hb]
  exact ⟨hin, hbit⟩

/-! ## Reserving them -/

theorem heapReserve_ok {f : Nat} (hs : Regular a) (h : Returns (heapReserve f) a () a') :
    Regular a' ∧ a' = { a with reserved := a'.reserved } ∧
      ∀ g, a.isReserved g = true ∨ g = f → a'.isReserved g = true := by
  simp only [heapReserve, returns_bind, returns_get, and_assoc,
    exists_and_left, exists_eq_left] at h
  split at h
  · rename_i a1 hreserve
    obtain rfl := (returns_set.mp h)
    obtain ⟨hres, -, heq⟩ := reserveRange_spec hs.nonempty hreserve
    have hstep : (AllocOp.reserve f (f + 1) .heap).step false a = some a' := hreserve
    refine ⟨hs.step hstep, heq, fun g hg => ?_⟩
    rw [hres g, Bool.or_eq_true, Bool.and_eq_true, decide_eq_true_eq, decide_eq_true_eq]
    exact hg.imp_right fun hgf => by omega
  · exact absurd h not_returns_throw

theorem heapReserve_all {frames : List Nat} (hs : Regular a)
    (h : Returns (frames.forM heapReserve) a () a') :
    Regular a' ∧ a' = { a with reserved := a'.reserved } ∧
      ∀ g, a.isReserved g = true ∨ g ∈ frames → a'.isReserved g = true := by
  induction frames generalizing a with
  | nil =>
    obtain ⟨-, rfl⟩ := returns_pure.mp h
    exact ⟨hs, rfl, fun g hg => hg.resolve_right List.not_mem_nil⟩
  | cons f frames ih =>
    rw [List.forM_eq_forM, List.forM_cons, returns_bind] at h
    obtain ⟨_, a1, hfirst, hrest⟩ := h
    obtain ⟨hs1, heq1, hres1⟩ := heapReserve_ok hs hfirst
    obtain ⟨hs', heq', hres'⟩ := ih hs1 hrest
    refine ⟨hs', ?_, fun g hg => hres' g ?_⟩
    · rw [heq', heq1]
    · rcases hg with hg | hg
      · exact .inl (hres1 g (.inl hg))
      · rcases List.mem_cons.mp hg with rfl | hg
        · exact .inl (hres1 _ (.inr rfl))
        · exact .inr hg

/-! ## The heap -/

theorem reserved_never {f : Nat} (hs : Regular a) (hf : a.isReserved f = true) :
    ∀ ops a'', AllocOp.run debug a ops = some a'' → a''.allocateFrame.1 ≠ some f := by
  intro ops
  induction ops generalizing a with
  | nil =>
    intro a'' hrun hnext
    cases hrun
    have htaken : a.allocateFrame = (some f, a.allocateFrame.2) := Prod.ext hnext rfl
    rw [(allocateFrame_takes htaken).2.1] at hf
    cases hf
  | cons op ops ih =>
    intro a'' hrun
    rw [AllocOp.run, List.foldlM_cons] at hrun
    obtain ⟨a1, hstep, hrest⟩ := Option.bind_eq_some_iff.mp hrun
    exact ih (hs.step hstep) ((AllocOp.step_change hs.nonempty hstep).isReserved hf) a'' hrest

/-- Every frame under the heap belongs to the heap. -/
def HeapOwned (debug : Bool) (offset : Nat) (a a' : FrameAllocator) (heapStart : Nat) : Prop :=
  ∀ va, heapStart ≤ va → va < heapStart + heapSize → HeapFrame debug a a' (frameUnder offset va)

/-- For every state of an allocator: if `map_heap` returns `Ok`, every frame under the
heap was allocated to it, was not reserved before, is reserved and is never handed
out later, exactly if the 25 frames after the first free one are free too. -/
theorem heap_owned_iff {offset heapStart : Nat} (hreached : Reached debug a)
    (h : Returns (mapHeap debug offset) a heapStart a') :
    HeapOwned debug offset a a' heapStart ↔ RoomForHeap a := by
  simp only [mapHeap, returns_bind, returns_pure] at h
  obtain ⟨frames, a₁, hframes, _, a₂, hreserve, rfl, rfl⟩ := h
  obtain ⟨hs₁, hin, hused⟩ := heapFrames_ok hreached.regular hframes
  obtain ⟨hs', heq, hall⟩ := heapReserve_all hs₁ hreserve
  have hhead := heapFrames_head hframes
  have hroomy : RoomForHeap a → frames = List.range' (frames.headD 0) 26 := fun hroom =>
    hroom.frames hframes
  generalize frames.headD 0 = first at *
  constructor
  · intro howned g hg i hi
    -- page `i` of the heap is over the frame `first + i`
    obtain rfl : first = g := by
      rw [hhead] at hg
      exact Option.some.inj hg
    have hframe := howned (first * 4096 + offset + i * 4096) (by omega) (by unfold heapSize; omega)
    have hunder : frameUnder offset (first * 4096 + offset + i * 4096) = first + i := by
      unfold frameUnder
      omega
    rw [hunder] at hframe
    refine ⟨?_, by simp [isFree, hframe.before, hframe.unreserved]⟩
    have hafter := hframe.after
    rw [heq, isAllocated, Bool.and_eq_true] at hafter
    rw [← hin]
    exact hafter.1
  · intro hroom va hlo hhi
    obtain ⟨i, hi, hunder⟩ : ∃ i < 26, frameUnder offset va = first + i := by
      unfold heapSize at hhi
      refine ⟨frameUnder offset va - first, ?_, ?_⟩
      · unfold frameUnder
        omega
      · unfold frameUnder
        omega
    rw [hunder]
    have hmem : first + i ∈ frames := by
      rw [hroomy hroom, List.mem_range'_1]
      omega
    obtain ⟨-, hfree⟩ := hroom first hhead i hi
    simp only [isFree, Bool.and_eq_true, Bool.not_eq_true'] at hfree
    have hreserved := hall _ (.inr hmem)
    refine ⟨hfree.2, ?_, hfree.1, hreserved, reserved_never hs' hreserved⟩
    rw [heq]
    exact hused _ (.inr hmem)

/-! ## Runs -/

/-- The heap in an allocator of 39 frames without reservations. -/
theorem heap_owned_whole : ∃ heapStart a', Returns (mapHeap true 0x1000_0000)
      (FrameAllocator.new 1 40) heapStart a' ∧ RoomForHeap (FrameAllocator.new 1 40) ∧
    HeapOwned true 0x1000_0000 (FrameAllocator.new 1 40) a' heapStart := by
  have hrun : outcome (mapHeap true 0x1000_0000) (FrameAllocator.new 1 40) = .ok 0x1000_1000 := by
    decide +kernel
  obtain ⟨a', hret⟩ := returns_of_outcome hrun
  have hroom : RoomForHeap (FrameAllocator.new 1 40) := by
    intro first hfirst
    obtain rfl : first = 1 := by
      have : (FrameAllocator.new 1 40).allocateFrame.1 = some 1 := by decide
      rw [this] at hfirst
      exact (Option.some.inj hfirst).symm
    decide
  exact ⟨_, a', hret, hroom, (heap_owned_iff (.new (by decide)) hret).mpr hroom⟩

/-- The frames 3 and 4 hold the boot information. The heap gets the frames 1, 2 and 5
to 28, but is used from frame 1 to frame 26. -/
theorem heap_over_reserved : ∃ a heapStart a',
    AllocOp.run true (FrameAllocator.new 1 40) [.reserve 3 5 .bootloader] = some a ∧
    Returns (mapHeap true 0x1000_0000) a heapStart a' ∧
    heapStart ≤ 0x1000_3000 ∧ 0x1000_3000 < heapStart + heapSize ∧
    a.isReserved (frameUnder 0x1000_0000 0x1000_3000) = true ∧
    ¬HeapOwned true 0x1000_0000 a a' heapStart := by
  have hrun : outcome (mapHeap true 0x1000_0000)
      { FrameAllocator.new 1 40 with reserved := [⟨3, 5, .bootloader⟩] } = .ok 0x1000_1000 := by
    decide +kernel
  obtain ⟨a', hret⟩ := returns_of_outcome hrun
  refine ⟨_, _, a', rfl, hret, by decide, by decide, by decide, fun howned => ?_⟩
  have hframe := howned 0x1000_3000 (by decide) (by decide)
  exact absurd hframe.unreserved (by decide)

end PandaOS.Kernel
