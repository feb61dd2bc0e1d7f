import Mathlib.Tactic.Linarith
import Mathlib.Data.List.Basic

/-!
# The physical frame allocator

`hal/src/memory.rs`: a scan over one interval of frames that skips reserved
and allocated ones, with a reference count for each frame. The bitmap and the
count array are functions of the frame number; the code indexes both by the
distance from the start of the interval and looks at neither outside it. Frame
numbers are natural numbers.
-/

namespace PandaOS.Hal

variable {r m : ReservedRegion} {l l' : List ReservedRegion} {a a' : FrameAllocator}

def frameSize : Nat := 4096

def maxReservedRegions : Nat := 32

def maxRefcount : Nat := 65535

/-- Why frames are reserved (`ReservationReason`). -/
inductive ReservationReason
  | kernelImage | bootloader | pageTables | heap | initramfsModule | nullFrame
  deriving DecidableEq, Repr

/-- A reserved interval of frames (`ReservedRegion`). -/
structure ReservedRegion where
  startFrame : Nat
  endFrame : Nat
  reason : ReservationReason
  deriving DecidableEq, Repr

namespace ReservedRegion

def contains (r : ReservedRegion) (f : Nat) : Bool :=
  decide (r.startFrame ≤ f) && decide (f < r.endFrame)

def overlaps (r o : ReservedRegion) : Bool :=
  decide (r.startFrame < o.endFrame) && decide (o.startFrame < r.endFrame)

def adjacent (r o : ReservedRegion) : Bool :=
  r.endFrame == o.startFrame || o.endFrame == r.startFrame

/-- `try_merge`; the reason of the first region is kept. -/
def tryMerge (r o : ReservedRegion) : Option ReservedRegion :=
  if r.adjacent o || r.overlaps o then
    some ⟨min r.startFrame o.startFrame, max r.endFrame o.endFrame, r.reason⟩
  else none

/-- Merging two non-empty regions that touch gives exactly their union. -/
theorem tryMerge_contains {o : ReservedRegion} (hr : r.startFrame < r.endFrame)
    (ho : o.startFrame < o.endFrame) (h : r.tryMerge o = some m) (f : Nat) :
    m.contains f = (r.contains f || o.contains f) := by
  unfold tryMerge at h
  split at h
  · rename_i htouch
    cases h
    simp only [adjacent, overlaps, Bool.or_eq_true, Bool.and_eq_true, beq_iff_eq,
      decide_eq_true_eq] at htouch
    rw [Bool.eq_iff_iff]
    simp only [contains, Bool.or_eq_true, Bool.and_eq_true, decide_eq_true_eq]
    omega
  · cases h

theorem tryMerge_nonempty {o : ReservedRegion} (hr : r.startFrame < r.endFrame)
    (h : r.tryMerge o = some m) : m.startFrame < m.endFrame := by
  unfold tryMerge at h
  split at h
  · cases h
    simp only
    omega
  · cases h

end ReservedRegion

/-- The allocator (`FrameAllocator`). -/
structure FrameAllocator where
  startFrame : Nat
  endFrame : Nat
  nextFrame : Nat
  reserved : List ReservedRegion
  allocated : Nat → Bool
  /-- `None` until `set_refcount_storage`. -/
  refcounts : Option (Nat → Nat)

namespace FrameAllocator

open ReservedRegion

def new (startFrame endFrame : Nat) : FrameAllocator :=
  ⟨startFrame, endFrame, startFrame, [], fun _ => false, none⟩

def totalFrames (a : FrameAllocator) : Nat := a.endFrame - a.startFrame

/-- `set_refcount_storage` with storage for `capacity` frames; `none` is the
failed assertion. -/
def setRefcountStorage (a : FrameAllocator) (capacity : Nat) : Option FrameAllocator :=
  if a.totalFrames ≤ capacity then some { a with refcounts := some fun _ => 0 } else none

/-! ## Reservations -/

/-- Merge the first region of a list that touches `r` into it. -/
def absorb (r : ReservedRegion) : List ReservedRegion →
    Option (ReservedRegion × List ReservedRegion)
  | [] => none
  | o :: rest =>
    match r.tryMerge o with
    | some m => some (m, rest)
    | none => (absorb r rest).map fun (m, rest') => (m, o :: rest')

/-- One round of `consolidate_reservations`: the first pair that can be merged. -/
def mergeFirst : List ReservedRegion → Option (List ReservedRegion)
  | [] => none
  | r :: rest =>
    match absorb r rest with
    | some (m, rest') => some (m :: rest')
    | none => (mergeFirst rest).map (r :: ·)

/-- `consolidate_reservations`; each round shortens the list, so its length is
enough rounds (`consolidate_done`). -/
def consolidate : Nat → List ReservedRegion → List ReservedRegion
  | 0, l => l
  | n + 1, l =>
    match mergeFirst l with
    | some l' => consolidate n l'
    | none => l

/-- The first region in the list that touches `new`, replaced by their merger. -/
def mergeInto (new : ReservedRegion) : List ReservedRegion → Option (List ReservedRegion)
  | [] => none
  | r :: rest =>
    match r.tryMerge new with
    | some m => some (m :: rest)
    | none => (mergeInto new rest).map (r :: ·)

/-- `reserve_range`; `none` is the failed assertion on the number of regions. -/
def reserveRange (a : FrameAllocator) (startFrame endFrame : Nat) (reason : ReservationReason) :
    Option FrameAllocator :=
  if endFrame ≤ startFrame then some a
  else
    match mergeInto ⟨startFrame, endFrame, reason⟩ a.reserved with
    | some l => some { a with reserved := consolidate l.length l }
    | none =>
      if a.reserved.length < maxReservedRegions then
        some { a with reserved := a.reserved ++ [⟨startFrame, endFrame, reason⟩] }
      else none

def isReserved (a : FrameAllocator) (f : Nat) : Bool := a.reserved.any (·.contains f)

/-! ## Allocation -/

/-- `frame_index(frame).is_some()`. -/
def inRange (a : FrameAllocator) (f : Nat) : Bool :=
  decide (a.startFrame ≤ f) && decide (f < a.endFrame)

def isAllocated (a : FrameAllocator) (f : Nat) : Bool := a.inRange f && a.allocated f

def setAllocated (a : FrameAllocator) (f : Nat) (b : Bool) : FrameAllocator :=
  if a.inRange f then { a with allocated := fun g => if g = f then b else a.allocated g } else a

/-- A store to the count array, if there is one. -/
def setRefcount (a : FrameAllocator) (f : Nat) (n : Nat) : FrameAllocator :=
  if a.inRange f then { a with refcounts := a.refcounts.map fun r g => if g = f then n else r g }
  else a

/-- The frame can be handed out. -/
def isFree (a : FrameAllocator) (f : Nat) : Bool := !a.isReserved f && !a.isAllocated f

/-- The loop of `allocate_frame`: look at `n` frames from `f` on, wrapping
around at the end of the interval. -/
def scan (a : FrameAllocator) : Nat → Nat → Option Nat
  | 0, _ => none
  | n + 1, f =>
    let f := if a.endFrame ≤ f then a.startFrame else f
    if a.isFree f then some f else scan a n (f + 1)

/-- Where `allocate_frame` starts to look. -/
def scanStart (a : FrameAllocator) : Nat :=
  if a.nextFrame < a.startFrame ∨ a.endFrame ≤ a.nextFrame then a.startFrame else a.nextFrame

/-- `allocate_frame`. -/
def allocateFrame (a : FrameAllocator) : Option Nat × FrameAllocator :=
  match a.scan a.totalFrames a.scanStart with
  | some f => (some f, { (a.setAllocated f true).setRefcount f 1 with nextFrame := f + 1 })
  | none => (none, a)

/-- The part of freeing a frame that `deallocate_frame` and `dec_refcount` share. -/
def release (a : FrameAllocator) (f : Nat) : FrameAllocator :=
  { a.setAllocated f false with nextFrame := min a.nextFrame f }

/-- `deallocate_frame`; `none` is the failed debug assertion. It looks at no
reference count. -/
def deallocateFrame (a : FrameAllocator) (debug : Bool) (f : Nat) : Option FrameAllocator :=
  if a.isReserved f then some a
  else if a.isAllocated f then some ((a.setRefcount f 0).release f)
  else if debug then none
  else some a

/-- `get_refcount`. -/
def getRefcount (a : FrameAllocator) (f : Nat) : Option Nat :=
  if a.inRange f then a.refcounts.map (· f) else none

/-- `inc_refcount`: a count of 0 stays 0, and the greatest count stays. -/
def incRefcount (a : FrameAllocator) (f : Nat) : Option Nat × FrameAllocator :=
  match a.getRefcount f with
  | none => (none, a)
  | some n =>
    if 0 < n ∧ n < maxRefcount then (some (n + 1), a.setRefcount f (n + 1)) else (some n, a)

/-- `dec_refcount`: the frame is freed when the count reaches 0. -/
def decRefcount (a : FrameAllocator) (f : Nat) : Option Nat × FrameAllocator :=
  match a.getRefcount f with
  | none => (none, a)
  | some 0 => (none, a)
  | some (n + 1) =>
    let a := a.setRefcount f n
    (some n, if n = 0 then a.release f else a)

/-! ## Totals -/

/-- `reserved_frames`. -/
def reservedFrames (a : FrameAllocator) : Nat :=
  (a.reserved.map fun r => r.endFrame - r.startFrame).sum

/-- `usable_frames`. -/
def usableFrames (a : FrameAllocator) : Nat := a.totalFrames - a.reservedFrames

/-- `allocated_frames`: the bits set in the bitmap. -/
def allocatedFrames (a : FrameAllocator) : Nat :=
  (List.range a.totalFrames).countP fun i => a.allocated (a.startFrame + i)

/-- `available_frames`. Both subtractions saturate. -/
def availableFrames (a : FrameAllocator) : Nat := a.usableFrames - a.allocatedFrames

/-! ## What reserving does -/

/-- The frames a list of regions covers. -/
def covers (l : List ReservedRegion) (f : Nat) : Bool := l.any (·.contains f)

/-- Every region of the list is non-empty, as `reserve_range` makes them. -/
def Nonempty (l : List ReservedRegion) : Prop := ∀ r ∈ l, r.startFrame < r.endFrame

theorem absorb_length (h : absorb r l = some (m, l')) : l'.length + 1 = l.length := by
  induction l generalizing l' with
  | nil => cases h
  | cons o rest ih =>
    unfold absorb at h
    split at h
    · cases h
      rfl
    · simp only [Option.map_eq_some_iff, Prod.exists, Prod.mk.injEq] at h
      obtain ⟨m', rest', habs, rfl, rfl⟩ := h
      simp [ih habs]

theorem absorb_spec (hr : r.startFrame < r.endFrame) (hl : Nonempty l)
    (h : absorb r l = some (m, l')) :
    (∀ f, covers (m :: l') f = covers (r :: l) f) ∧ Nonempty (m :: l') := by
  induction l generalizing l' with
  | nil => cases h
  | cons o rest ih =>
    have ho : o.startFrame < o.endFrame := hl o List.mem_cons_self
    have hrest : Nonempty rest := fun x hx => hl x (List.mem_cons_of_mem _ hx)
    unfold absorb at h
    split at h
    · rename_i m' hmerge
      cases h
      refine ⟨fun f => ?_, ?_⟩
      · simp [covers, tryMerge_contains hr ho hmerge f, Bool.or_assoc]
      · intro x hx
        rcases List.mem_cons.mp hx with rfl | hx
        · exact tryMerge_nonempty hr hmerge
        · exact hrest x hx
    · simp only [Option.map_eq_some_iff, Prod.exists, Prod.mk.injEq] at h
      obtain ⟨m', rest', habs, rfl, rfl⟩ := h
      obtain ⟨hcov, hne⟩ := ih hrest habs
      refine ⟨fun f => ?_, ?_⟩
      · have hc := hcov f
        simp only [covers, List.any_cons] at hc ⊢
        rw [Bool.or_left_comm, hc, Bool.or_left_comm]
      · intro x hx
        simp only [List.mem_cons] at hx
        rcases hx with rfl | rfl | hx
        · exact hne x List.mem_cons_self
        · exact ho
        · exact hne x (List.mem_cons_of_mem _ hx)

/-- A round that merges shortens the list. -/
theorem mergeFirst_length (h : mergeFirst l = some l') : l'.length + 1 = l.length := by
  induction l generalizing l' with
  | nil => cases h
  | cons r rest ih =>
    unfold mergeFirst at h
    split at h
    · rename_i m rest' habs
      cases h
      simp [absorb_length habs]
    · simp only [Option.map_eq_some_iff] at h
      obtain ⟨rest', hm, rfl⟩ := h
      simp [ih hm]

theorem mergeFirst_spec (hl : Nonempty l) (h : mergeFirst l = some l') :
    (∀ f, covers l' f = covers l f) ∧ Nonempty l' := by
  induction l generalizing l' with
  | nil => cases h
  | cons r rest ih =>
    have hr : r.startFrame < r.endFrame := hl r List.mem_cons_self
    have hrest : Nonempty rest := fun x hx => hl x (List.mem_cons_of_mem _ hx)
    unfold mergeFirst at h
    split at h
    · rename_i m rest' habs
      cases h
      exact absorb_spec hr hrest habs
    · simp only [Option.map_eq_some_iff] at h
      obtain ⟨rest', hm, rfl⟩ := h
      obtain ⟨hcov, hne⟩ := ih hrest hm
      refine ⟨fun f => ?_, ?_⟩
      · have hc := hcov f
        simp only [covers, List.any_cons] at hc ⊢
        rw [hc]
      · intro x hx
        rcases List.mem_cons.mp hx with rfl | hx
        · exact hr
        · exact hne x hx

theorem consolidate_spec : ∀ (n : Nat) {l : List ReservedRegion}, Nonempty l →
    (∀ f, covers (consolidate n l) f = covers l f) ∧ Nonempty (consolidate n l) := by
  intro n
  induction n with
  | zero => intro l hl; exact ⟨fun _ => rfl, hl⟩
  | succ n ih =>
    intro l hl
    unfold consolidate
    split
    · rename_i l' hm
      obtain ⟨hcov, hne⟩ := mergeFirst_spec hl hm
      obtain ⟨hcov', hne'⟩ := ih hne
      exact ⟨fun f => (hcov' f).trans (hcov f), hne'⟩
    · exact ⟨fun _ => rfl, hl⟩

/-- The length of the list is enough rounds: no pair is left to merge. -/
theorem consolidate_done : ∀ (n : Nat) {l : List ReservedRegion}, l.length ≤ n →
    mergeFirst (consolidate n l) = none := by
  intro n
  induction n with
  | zero =>
    intro l hlen
    rw [List.length_eq_zero_iff.mp (Nat.le_zero.mp hlen)]
    rfl
  | succ n ih =>
    intro l hlen
    unfold consolidate
    split
    · rename_i l' hm
      have := mergeFirst_length hm
      exact ih (by omega)
    · rename_i hm
      exact hm

/-- More rounds change nothing: the loop has ended by itself. -/
theorem consolidate_stops (l : List ReservedRegion) : ∀ (n : Nat), l.length ≤ n →
    consolidate n l = consolidate l.length l := by
  intro n
  induction n generalizing l with
  | zero =>
    intro hlen
    rw [Nat.le_zero.mp hlen]
  | succ n ih =>
    intro hlen
    cases hm : mergeFirst l with
    | none =>
      have hstop : ∀ k, consolidate k l = l := by
        intro k
        cases k with
        | zero => rfl
        | succ k => simp [consolidate, hm]
      rw [hstop, hstop]
    | some l' =>
      have hlength := mergeFirst_length hm
      rw [← hlength]
      simp only [consolidate, hm]
      exact ih l' (by omega)

theorem mergeInto_spec {new : ReservedRegion} (hnew : new.startFrame < new.endFrame)
    (hl : Nonempty l) (h : mergeInto new l = some l') :
    (∀ f, covers l' f = (covers l f || new.contains f)) ∧ Nonempty l' := by
  induction l generalizing l' with
  | nil => cases h
  | cons r rest ih =>
    have hr : r.startFrame < r.endFrame := hl r List.mem_cons_self
    have hrest : Nonempty rest := fun x hx => hl x (List.mem_cons_of_mem _ hx)
    unfold mergeInto at h
    split at h
    · rename_i m hmerge
      cases h
      refine ⟨fun f => ?_, fun x hx => ?_⟩
      · simp only [covers, List.any_cons, tryMerge_contains hr hnew hmerge f]
        rw [Bool.or_right_comm]
      · rcases List.mem_cons.mp hx with rfl | hx
        · exact tryMerge_nonempty hr hmerge
        · exact hrest x hx
    · simp only [Option.map_eq_some_iff] at h
      obtain ⟨rest', hm, rfl⟩ := h
      obtain ⟨hcov, hne⟩ := ih hrest hm
      refine ⟨fun f => ?_, fun x hx => ?_⟩
      · have hc := hcov f
        simp only [covers, List.any_cons] at hc ⊢
        rw [hc, Bool.or_assoc]
      · rcases List.mem_cons.mp hx with rfl | hx
        · exact hr
        · exact hne x hx

/-- **Reserving** adds exactly the frames of the range and changes nothing else. -/
theorem reserveRange_spec {s e : Nat} {reason : ReservationReason} (hne : Nonempty a.reserved)
    (h : a.reserveRange s e reason = some a') :
    (∀ f, a'.isReserved f = (a.isReserved f || (decide (s ≤ f) && decide (f < e)))) ∧
      Nonempty a'.reserved ∧ a' = { a with reserved := a'.reserved } := by
  unfold reserveRange at h
  split at h
  · rename_i hempty
    cases h
    refine ⟨fun f => ?_, hne, rfl⟩
    have : (decide (s ≤ f) && decide (f < e)) = false := by
      simp only [Bool.and_eq_false_iff, decide_eq_false_iff_not]
      omega
    rw [this, Bool.or_false]
  · rename_i hnonempty
    let new : ReservedRegion := ⟨s, e, reason⟩
    have hnew : new.startFrame < new.endFrame := by
      show s < e
      omega
    split at h
    · rename_i l hm
      cases h
      obtain ⟨hcov, hl⟩ := mergeInto_spec hnew hne hm
      obtain ⟨hcov', hl'⟩ := consolidate_spec l.length hl
      exact ⟨fun f => (hcov' f).trans (hcov f), hl', rfl⟩
    · split at h
      · cases h
        refine ⟨fun f => ?_, fun x hx => ?_, rfl⟩
        · simp [isReserved, contains]
        · rcases List.mem_append.mp hx with hx | hx
          · exact hne x hx
          · rw [List.mem_singleton.mp hx]
            exact hnew
      · cases h

/-! ## What allocating does -/

theorem inRange_iff {f : Nat} : a.inRange f = true ↔ a.startFrame ≤ f ∧ f < a.endFrame := by
  simp [inRange]

theorem scan_some (hlt : a.startFrame < a.endFrame) :
    ∀ (n f g : Nat), a.startFrame ≤ f → a.scan n f = some g →
      a.startFrame ≤ g ∧ g < a.endFrame ∧ a.isFree g = true := by
  intro n
  induction n with
  | zero => intro f g _ h; cases h
  | succ n ih =>
    intro f g hf h
    unfold scan at h
    simp only at h
    by_cases hwrap : a.endFrame ≤ f
    · simp only [if_pos hwrap] at h
      split at h
      · rename_i hfree
        cases h
        exact ⟨le_rfl, hlt, hfree⟩
      · exact ih _ g (by omega) h
    · simp only [if_neg hwrap] at h
      split at h
      · rename_i hfree
        cases h
        exact ⟨hf, by omega, hfree⟩
      · exact ih _ g (by omega) h

/-- A scan that fails has looked at the `n` frames from `f` on, those before
`f` being reached after the wrap at the end of the interval. -/
theorem scan_none : ∀ (n f : Nat), a.startFrame ≤ f → f ≤ a.endFrame →
    a.scan n f = none → ∀ g, a.startFrame ≤ g → g < a.endFrame →
      (f ≤ g ∧ g < f + n) ∨ (g < f ∧ g - a.startFrame + (a.endFrame - f) < n) →
      a.isFree g = false := by
  intro n
  induction n with
  | zero => intro f _ _ _ g _ _ hg; omega
  | succ n ih =>
    intro f hs he hnone g hgs hge hg
    unfold scan at hnone
    simp only at hnone
    by_cases hwrap : a.endFrame ≤ f
    · -- at the end of the interval the scan starts over
      simp only [if_pos hwrap] at hnone
      split at hnone
      · cases hnone
      · rename_i hbusy
        by_cases hgs' : g = a.startFrame
        · subst hgs'
          simpa using hbusy
        · exact ih (a.startFrame + 1) (by omega) (by omega) hnone g hgs hge (by omega)
    · simp only [if_neg hwrap] at hnone
      split at hnone
      · cases hnone
      · rename_i hbusy
        by_cases hgf : g = f
        · subst hgf
          simpa using hbusy
        · exact ih (f + 1) (by omega) (by omega) hnone g hgs hge (by omega)

/-- `allocate_frame` hands out a frame of the interval that was neither
reserved nor allocated, and gives it one reference. -/
theorem allocateFrame_some {f : Nat} (h : a.allocateFrame = (some f, a')) :
    a.startFrame ≤ f ∧ f < a.endFrame ∧ a.isReserved f = false ∧ a.allocated f = false ∧
      a' = { a with
        nextFrame := f + 1
        allocated := fun g => if g = f then true else a.allocated g
        refcounts := a.refcounts.map fun r g => if g = f then 1 else r g } := by
  unfold allocateFrame at h
  split at h
  · rename_i g hscan
    simp only [Prod.mk.injEq, Option.some.injEq] at h
    obtain ⟨rfl, rfl⟩ := h
    have hlt : a.startFrame < a.endFrame := by
      by_contra hle
      have hzero : a.totalFrames = 0 := by
        unfold totalFrames
        omega
      rw [hzero] at hscan
      cases hscan
    have hstart : a.startFrame ≤ a.scanStart := by
      unfold scanStart
      split <;> omega
    obtain ⟨hs, he, hfree⟩ := scan_some hlt _ _ g hstart hscan
    have hin : a.inRange g = true := inRange_iff.mpr ⟨hs, he⟩
    simp only [isFree, isAllocated, hin, Bool.true_and, Bool.and_eq_true,
      Bool.not_eq_true'] at hfree
    refine ⟨hs, he, hfree.1, hfree.2, ?_⟩
    have hin' : (a.setAllocated g true).inRange g = true := by
      simp only [setAllocated, hin, if_true]
      exact hin
    simp only [setRefcount, hin', if_true]
    simp only [setAllocated, hin, if_true]
  · cases h

/-- It fails only when no frame of the interval is free. -/
theorem allocateFrame_none (h : a.allocateFrame = (none, a')) :
    a' = a ∧ ∀ g, a.startFrame ≤ g → g < a.endFrame → a.isFree g = false := by
  unfold allocateFrame at h
  split at h
  · cases h
  · rename_i hscan
    simp only [Prod.mk.injEq, true_and] at h
    refine ⟨h.symm, fun g hs he => ?_⟩
    have hstart : a.startFrame ≤ a.scanStart ∧ a.scanStart ≤ a.endFrame := by
      unfold scanStart
      split <;> omega
    refine scan_none _ _ hstart.1 hstart.2 hscan g hs he ?_
    unfold totalFrames
    omega

end FrameAllocator

end PandaOS.Hal
