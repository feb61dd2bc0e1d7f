import Mathlib.Data.Set.Card
import PandaOS.Logic.Allocator

/-!
# Reservations and the frames they leave

`reserve_range` keeps its regions apart by merging, so they are exactly the union of
the ranges, counted once (`reservations_exact`). `available_frames` subtracts the
reserved and the allocated frames from the total. A reserved frame outside the
interval, such as frame 0 at boot, or one that is also allocated, such as the
frames of the heap, is subtracted although it was not there to be handed out, or
twice; `available_frames_iff` says when the number is right.
-/

namespace PandaOS.Kernel

open Hal Hal.FrameAllocator Lib

/-! ## The union of the ranges -/

/-- A range of frames as `reserve_range` gets it. -/
structure FrameRange where
  startFrame : Nat
  endFrame : Nat
  reason : ReservationReason
  deriving DecidableEq, Repr

/-- The frames of some range. -/
def rangeUnion (ranges : List FrameRange) : Set Nat :=
  { f | ∃ r ∈ ranges, r.startFrame ≤ f ∧ f < r.endFrame }

/-- Some calls of `reserve_range`; `none` if one of them exceeds the number of regions. -/
def reserveAll (a : FrameAllocator) (ranges : List FrameRange) : Option FrameAllocator :=
  ranges.foldlM (fun a r => a.reserveRange r.startFrame r.endFrame r.reason) a

theorem reserveAll_spec {ranges : List FrameRange} {a a' : FrameAllocator}
    (hne : FrameAllocator.Nonempty a.reserved) (hap : a.reserved.Pairwise ReservedRegion.Apart)
    (h : reserveAll a ranges = some a') :
    (∀ f, a'.isReserved f = true ↔ a.isReserved f = true ∨ f ∈ rangeUnion ranges) ∧
      FrameAllocator.Nonempty a'.reserved ∧ a'.reserved.Pairwise ReservedRegion.Apart := by
  induction ranges generalizing a with
  | nil =>
    cases h
    exact ⟨fun f => by simp [rangeUnion], hne, hap⟩
  | cons r ranges ih =>
    rw [reserveAll, List.foldlM_cons] at h
    obtain ⟨a1, hfirst, hrest⟩ := Option.bind_eq_some_iff.mp h
    obtain ⟨hres, hne1, -⟩ := reserveRange_spec hne hfirst
    obtain ⟨hrest, hne', hap'⟩ := ih hne1 (reserveRange_apart hne hap hfirst) hrest
    refine ⟨fun f => ?_, hne', hap'⟩
    rw [hrest f, hres f]
    simp [rangeUnion, or_assoc]

/-! ## Sets of frames -/

/-- The frames of the interval. -/
def interval (a : FrameAllocator) : Finset Nat := Finset.Ico a.startFrame a.endFrame

/-- The reserved frames. -/
def reservedSet (a : FrameAllocator) : Finset Nat :=
  cover ReservedRegion.startFrame ReservedRegion.endFrame a.reserved

/-- The allocated frames. -/
def allocatedSet (a : FrameAllocator) : Finset Nat :=
  (interval a).filter fun f => a.allocated f = true

variable {a : FrameAllocator} {f : Nat} {debug : Bool}

theorem mem_interval : f ∈ interval a ↔ a.inRange f = true := by
  rw [interval, Finset.mem_Ico, inRange_iff]

theorem mem_reservedSet : f ∈ reservedSet a ↔ a.isReserved f = true := by
  simp [reservedSet, mem_cover, isReserved, ReservedRegion.contains]

theorem mem_allocatedSet : f ∈ allocatedSet a ↔ a.isAllocated f = true := by
  rw [allocatedSet, Finset.mem_filter, mem_interval, isAllocated, Bool.and_eq_true]

theorem card_reservedSet (h : a.reserved.Pairwise ReservedRegion.Apart) :
    (reservedSet a).card = a.reservedFrames :=
  card_cover (h.imp fun hapart => hapart.imp Nat.le_of_lt Nat.le_of_lt)

theorem card_allocatedSet (hle : a.startFrame ≤ a.endFrame) :
    (allocatedSet a).card = a.allocatedFrames := by
  rw [allocatedFrames, countP_range_eq_card, totalFrames, Nat.add_sub_cancel' hle]
  rfl

/-- What is left of the interval can be handed out. -/
theorem card_left (a : FrameAllocator) :
    (interval a \ (reservedSet a ∪ allocatedSet a)).card = freeFrames a a.endFrame := by
  rw [freeFrames, Nat.count_eq_card_filter_range]
  congr 1
  ext f
  simp only [Finset.mem_sdiff, Finset.mem_union, mem_interval, mem_reservedSet, mem_allocatedSet,
    Finset.mem_filter, Finset.mem_range, isFree, Bool.and_eq_true, Bool.not_eq_true', not_or,
    Bool.not_eq_true]
  constructor
  · rintro ⟨hin, hfree⟩
    exact ⟨(inRange_iff.mp hin).2, hin, hfree⟩
  · rintro ⟨-, hin, hfree⟩
    exact ⟨hin, hfree⟩

/-- For every sequence of `reserve_range` calls within the number of regions: the
reserved frames are the union of the ranges, the regions are disjoint and not
adjacent, and `reserved_frames` is the size of the union, a 64-bit number if the ranges
are. The loop of `consolidate_reservations` ends on every list, after at most as many
rounds as the list has regions. -/
theorem reservations_exact : (∀ startFrame endFrame ranges a,
      reserveAll (FrameAllocator.new startFrame endFrame) ranges = some a →
        (∀ f, a.isReserved f = true ↔ f ∈ rangeUnion ranges) ∧
        a.reserved.Pairwise ReservedRegion.Apart ∧
        a.reservedFrames = (rangeUnion ranges).ncard ∧
        ((∀ r ∈ ranges, r.endFrame < 2 ^ 64) → a.reservedFrames < 2 ^ 64)) ∧
    ∀ (l : List ReservedRegion) n, l.length ≤ n →
      mergeFirst (consolidate n l) = none ∧ consolidate n l = consolidate l.length l := by
  refine ⟨fun startFrame endFrame ranges a h => ?_,
    fun l n hn => ⟨consolidate_done n hn, consolidate_stops l n hn⟩⟩
  obtain ⟨hres, -, hap⟩ := reserveAll_spec (by simp [FrameAllocator.Nonempty, FrameAllocator.new])
    List.Pairwise.nil h
  have hunion : ∀ f, a.isReserved f = true ↔ f ∈ rangeUnion ranges := by
    intro f
    rw [hres f]
    simp [FrameAllocator.new, isReserved]
  have hset : rangeUnion ranges = ↑(reservedSet a) := by
    ext f
    rw [Finset.mem_coe, mem_reservedSet, hunion f]
  refine ⟨hunion, hap, ?_, fun hfits => ?_⟩
  · rw [hset, Set.ncard_coe_finset, card_reservedSet hap]
  · have hbelow : reservedSet a ⊆ Finset.range (2 ^ 64 - 1) := by
      intro f hf
      rw [mem_reservedSet, hunion f] at hf
      obtain ⟨r, hr, -, hlt⟩ := hf
      have := hfits r hr
      rw [Finset.mem_range]
      omega
    have hcard := Finset.card_le_card hbelow
    rw [card_reservedSet hap, Finset.card_range] at hcard
    omega

/-- Three ranges that become one region. -/
theorem reservations_exact_cascade : ∃ a, reserveAll (FrameAllocator.new 1 16)
      [⟨5, 8, .heap⟩, ⟨1, 3, .kernelImage⟩, ⟨9, 9, .heap⟩, ⟨2, 6, .pageTables⟩] = some a ∧
    a.reserved = [⟨1, 8, .heap⟩] ∧ ∀ f, a.isReserved f = true ↔ f ∈ rangeUnion
      [⟨5, 8, .heap⟩, ⟨1, 3, .kernelImage⟩, ⟨9, 9, .heap⟩, ⟨2, 6, .pageTables⟩] :=
  ⟨_, rfl, by decide, (reservations_exact.1 1 16 _ _ rfl).1⟩

/-! ## The number of frames left -/

/-- `n` further allocations succeed, and none of them panics. -/
def grants (debug : Bool) : Nat → FrameAllocator → Bool
  | 0, _ => true
  | n + 1, a => !(debug && decide (a.endFrame < a.nextFrame)) && a.allocateFrame.1.isSome &&
      grants debug n a.allocateFrame.2

/-- As many allocations succeed as there are frames left. -/
theorem grants_iff {n : Nat} (h : Regular a) : grants debug n a = true ↔
    n ≤ freeFrames a a.endFrame := by
  induction n generalizing a with
  | zero => simp [grants]
  | succ n ih =>
    have hnext : ¬a.endFrame < a.nextFrame := Nat.not_lt.mpr h.next_le
    simp only [grants, hnext, decide_false, Bool.and_false, Bool.not_false,
      Bool.true_and, Bool.and_eq_true]
    rcases halloc : a.allocateFrame with ⟨_ | f, a'⟩
    · -- no frame is free
      have hzero : freeFrames a a.endFrame = 0 := by
        rw [freeFrames, Nat.count_iff_forall_not]
        rintro f - ⟨hin, hfree⟩
        obtain ⟨hlo, hhi⟩ := inRange_iff.mp hin
        rw [(allocateFrame_none halloc).2 f hlo hhi] at hfree
        cases hfree
      simp [hzero]
    · have hstep : AllocOp.allocate.step false a = some a' := by
        simp [AllocOp.step, halloc]
      have htake := freeFrames_take le_rfl halloc
      have hend : a'.endFrame = a.endFrame := by
        obtain ⟨-, -, -, -, rfl⟩ := allocateFrame_some halloc
        rfl
      simp only [Option.isSome_some, true_and, ih (h.step hstep), hend]
      omega

/-- Every reserved frame is one of the interval that is not allocated. -/
def Tidy (a : FrameAllocator) : Prop :=
  ∀ f, a.isReserved f = true → a.inRange f = true ∧ a.isAllocated f = false

theorem tidy_iff : Tidy a ↔ reservedSet a ⊆ interval a ∧
    Disjoint (reservedSet a) (allocatedSet a) := by
  rw [Finset.disjoint_left]
  constructor
  · intro h
    refine ⟨fun f hf => ?_, fun f hf halloc => ?_⟩
    · exact mem_interval.mpr (h f (mem_reservedSet.mp hf)).1
    · have := (h f (mem_reservedSet.mp hf)).2
      rw [mem_allocatedSet.mp halloc] at this
      cases this
  · rintro ⟨hsub, hdisj⟩ f hf
    have hmem := mem_reservedSet.mpr hf
    refine ⟨mem_interval.mp (hsub hmem), ?_⟩
    rw [Bool.eq_false_iff]
    exact fun halloc => hdisj hmem (mem_allocatedSet.mpr halloc)

theorem availableFrames_iff (h : Regular a) :
    a.availableFrames = freeFrames a a.endFrame ↔ Tidy a ∨ freeFrames a a.endFrame = 0 := by
  have hsub : allocatedSet a ⊆ interval a := Finset.filter_subset _ _
  have htotal : (interval a).card = a.totalFrames := Nat.card_Ico _ _
  have hleft := card_left_iff (R := reservedSet a) hsub
  rw [htotal, card_reservedSet h.apart, card_allocatedSet h.le, card_left, ← tidy_iff,
    ← Finset.sdiff_eq_empty_iff_subset, ← Finset.card_eq_zero, card_left] at hleft
  exact hleft

/-- A reservation of frames of the interval that are not allocated. -/
def ReservesFree (a : FrameAllocator) : AllocOp → Prop
  | .reserve startFrame endFrame _ =>
    ∀ f, startFrame ≤ f → f < endFrame → a.inRange f = true ∧ a.isAllocated f = false
  | _ => True

/-- The states of an allocator whose reservations were all of such frames. -/
inductive CarefullyReached (debug : Bool) : FrameAllocator → Prop
  | new {startFrame endFrame : Nat} : startFrame ≤ endFrame →
      CarefullyReached debug (FrameAllocator.new startFrame endFrame)
  | step {a a' : FrameAllocator} {op : AllocOp} : CarefullyReached debug a → ReservesFree a op →
      op.step debug a = some a' → CarefullyReached debug a'
  | storage {a a' : FrameAllocator} {capacity : Nat} : CarefullyReached debug a →
      a.setRefcountStorage capacity = some a' → CarefullyReached debug a'

theorem CarefullyReached.reached (h : CarefullyReached debug a) : Reached debug a := by
  induction h with
  | new hle => exact .new hle
  | step _ _ hstep ih => exact ih.step hstep
  | storage _ hset ih => exact ih.storage hset

/-- Storing to a frame that is not reserved, or without setting its bit. -/
theorem Tidy.store {bit : Bool} {count next : Nat} (h : Tidy a)
    (hbit : bit = true → a.isReserved f = true → a.allocated f = true) :
    Tidy (storeFrame a f bit count next) := by
  intro g hg
  obtain ⟨hin, hfree⟩ := h g hg
  refine ⟨hin, ?_⟩
  have hin' : (storeFrame a f bit count next).inRange g = true := hin
  rw [isAllocated, hin', Bool.true_and]
  rw [isAllocated, hin, Bool.true_and] at hfree
  by_cases hgf : g = f
  · subst hgf
    simp only [storeFrame, if_true]
    rw [Bool.eq_false_iff]
    intro hset
    rw [hbit hset hg] at hfree
    cases hfree
  · simpa [storeFrame, hgf] using hfree

theorem Tidy.step {a' : FrameAllocator} {op : AllocOp} (hs : Regular a) (h : Tidy a)
    (hop : ReservesFree a op) (hstep : op.step debug a = some a') : Tidy a' := by
  rcases AllocOp.step_reserved hstep with ⟨s, e, reason, rfl⟩ | hsame
  · -- a reservation: the new frames are as they should be
    obtain ⟨hres, -, heq⟩ := reserveRange_spec hs.nonempty hstep
    intro f hf
    have hold : a.inRange f = true ∧ a.isAllocated f = false := by
      rw [hres f, Bool.or_eq_true, Bool.and_eq_true, decide_eq_true_eq, decide_eq_true_eq] at hf
      rcases hf with hf | ⟨hlo, hhi⟩
      · exact h f hf
      · exact hop f hlo hhi
    rw [heq]
    exact hold
  · cases AllocOp.step_change hs.nonempty hstep with
    | same => exact h
    | reserve l _ _ =>
      have heq : { a with reserved := l } = a := by rw [show l = a.reserved from hsame]
      rw [heq]
      exact h
    | take f _ hres _ =>
      refine h.store fun _ hf => ?_
      rw [hres] at hf
      cases hf
    | count f n m _ => exact h.store fun hset _ => hset
    | release f _ => exact h.store fun hset => by cases hset

theorem CarefullyReached.tidy (h : CarefullyReached debug a) : Tidy a := by
  induction h with
  | new _ =>
    intro f hf
    simp [FrameAllocator.new, isReserved] at hf
  | step hreached hop hstep ih => exact ih.step hreached.reached.regular hop hstep
  | storage _ hset ih =>
    unfold setRefcountStorage at hset
    split at hset
    · cases hset
      exact ih
    · cases hset

/-- In every state of an allocator, as many further allocations succeed as there are
frames left; `available_frames` is that number exactly if every reserved frame is
one of the interval that is not allocated, or no frame is left. It is right in
every run in which only frames of the interval that are not allocated are reserved. -/
theorem available_frames_iff {debug : Bool} (h : Reached debug a) :
    (∀ n, grants debug n a = true ↔ n ≤ freeFrames a a.endFrame) ∧
    (a.availableFrames = freeFrames a a.endFrame ↔ Tidy a ∨ freeFrames a a.endFrame = 0) ∧
    (CarefullyReached debug a → a.availableFrames = freeFrames a a.endFrame) :=
  ⟨fun _ => grants_iff h.regular, availableFrames_iff h.regular,
    fun hcareful => (availableFrames_iff h.regular).mpr (Or.inl hcareful.tidy)⟩

/-- Four frames, one of them reserved. -/
theorem available_frames_inside : ∃ a, Reached true a ∧
    a.reserved = [⟨2, 3, .heap⟩] ∧ Tidy a ∧ a.availableFrames = freeFrames a a.endFrame := by
  have hreached : Reached true { FrameAllocator.new 1 5 with reserved := [⟨2, 3, .heap⟩] } :=
    (Reached.new (by decide)).step (rfl : (AllocOp.reserve 2 3 .heap).step true _ = some _)
  have htidy : Tidy { FrameAllocator.new 1 5 with reserved := [⟨2, 3, .heap⟩] } := by
    intro f hf
    simp only [isReserved, List.any_cons, List.any_nil, Bool.or_false, ReservedRegion.contains,
      Bool.and_eq_true, decide_eq_true_eq] at hf
    obtain rfl : f = 2 := by omega
    decide
  exact ⟨_, hreached, rfl, htidy, (available_frames_iff hreached).2.1.mpr (Or.inl htidy)⟩

/-- Frame 0 is reserved as at boot, outside the interval: four allocations succeed,
but three frames are reported. Frame 1 is allocated and then reserved as for the
heap: three allocations succeed, but two frames are reported. -/
theorem available_frames_short :
    (∃ a, AllocOp.run true (FrameAllocator.new 1 5) [.reserve 0 1 .nullFrame] = some a ∧
      a.availableFrames = 3 ∧ freeFrames a a.endFrame = 4 ∧ grants true 4 a = true) ∧
    ∃ a, AllocOp.run true (FrameAllocator.new 1 5) [.allocate, .reserve 1 2 .heap] = some a ∧
      a.availableFrames = 2 ∧ freeFrames a a.endFrame = 3 ∧ grants true 3 a = true :=
  ⟨⟨_, rfl, by decide, by decide, by decide⟩, ⟨_, rfl, by decide, by decide, by decide⟩⟩

end PandaOS.Kernel
