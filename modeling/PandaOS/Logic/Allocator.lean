import PandaOS.Kernel.Memory
import PandaOS.Lib.Intervals
import PandaOS.Lib.Tally

/-!
# The frame allocator's invariant

Every operation of the allocator is one of five changes (`Change`): nothing, a
larger reservation, a free frame taken, a count changed from positive to
positive, a frame released. `Reached` are the states of an allocator: a new one,
after any operations, with or without storage for the counts. `Regular` is what holds
in all of them: regions that are apart, a cursor that has not passed the end, 16-bit
counts.
-/

namespace PandaOS.Hal

/-! ## Regions that are apart -/

/-- A frame between the regions belongs to neither: they are disjoint and not adjacent. -/
def ReservedRegion.Apart (r o : ReservedRegion) : Prop :=
  r.endFrame < o.startFrame ∨ o.endFrame < r.startFrame

namespace FrameAllocator

open ReservedRegion

theorem tryMerge_eq_none {r o : ReservedRegion} (hr : r.startFrame < r.endFrame)
    (ho : o.startFrame < o.endFrame) : r.tryMerge o = none ↔ r.Apart o := by
  unfold tryMerge Apart
  split
  · rename_i htouch
    simp only [adjacent, overlaps, Bool.or_eq_true, Bool.and_eq_true,
      beq_iff_eq, decide_eq_true_eq] at htouch
    simp only [reduceCtorEq, false_iff]
    omega
  · rename_i hgap
    simp only [adjacent, overlaps, Bool.or_eq_true, Bool.and_eq_true,
      beq_iff_eq, decide_eq_true_eq] at hgap
    simp only [true_iff]
    omega

variable {l : List ReservedRegion}

theorem absorb_eq_none {r : ReservedRegion} (h : absorb r l = none) :
    ∀ o ∈ l, r.tryMerge o = none := by
  induction l with
  | nil => simp
  | cons o rest ih =>
    unfold absorb at h
    split at h
    · cases h
    · rename_i hgap
      rw [Option.map_eq_none_iff] at h
      exact List.forall_mem_cons.mpr ⟨hgap, ih h⟩

/-- A list without a pair to merge. -/
theorem mergeFirst_eq_none (hl : Nonempty l) (h : mergeFirst l = none) : l.Pairwise Apart := by
  induction l with
  | nil => exact List.Pairwise.nil
  | cons r rest ih =>
    have hr : r.startFrame < r.endFrame := hl r List.mem_cons_self
    have hrest : Nonempty rest := fun o ho => hl o (List.mem_cons_of_mem _ ho)
    unfold mergeFirst at h
    split at h
    · cases h
    · rename_i hnone
      rw [Option.map_eq_none_iff] at h
      refine List.pairwise_cons.mpr ⟨fun o ho => ?_, ih hrest h⟩
      exact (tryMerge_eq_none hr (hrest o ho)).mp (absorb_eq_none hnone o ho)

theorem mergeInto_eq_none {new : ReservedRegion} (h : mergeInto new l = none) :
    ∀ r ∈ l, r.tryMerge new = none := by
  induction l with
  | nil => simp
  | cons r rest ih =>
    unfold mergeInto at h
    split at h
    · cases h
    · rename_i hgap
      rw [Option.map_eq_none_iff] at h
      exact List.forall_mem_cons.mpr ⟨hgap, ih h⟩

/-- **Reserving** leaves regions that are apart. -/
theorem reserveRange_apart {a a' : FrameAllocator} {s e : Nat} {reason : ReservationReason}
    (hne : Nonempty a.reserved) (hap : a.reserved.Pairwise Apart)
    (h : a.reserveRange s e reason = some a') : a'.reserved.Pairwise Apart := by
  unfold reserveRange at h
  split at h
  · cases h
    exact hap
  · rename_i hnonempty
    have hnew : (⟨s, e, reason⟩ : ReservedRegion).startFrame < e := by
      show s < e
      omega
    split at h
    · rename_i l hmerged
      cases h
      -- the merged region may touch others: consolidation goes on until none does
      have hl := (mergeInto_spec hnew hne hmerged).2
      exact mergeFirst_eq_none (consolidate_spec _ hl).2 (consolidate_done _ le_rfl)
    · rename_i hnone
      split at h
      · cases h
        refine List.pairwise_append.mpr ⟨hap, List.pairwise_singleton _ _, fun r hr o ho => ?_⟩
        rw [List.mem_singleton.mp ho]
        exact (tryMerge_eq_none (hne r hr) hnew).mp (mergeInto_eq_none hnone r hr)
      · cases h

end FrameAllocator

end PandaOS.Hal

namespace PandaOS.Kernel

open Hal Hal.FrameAllocator Lib

/-! ## What an operation changes -/

/-- `a` with the bit and the count of `f` and the cursor stored. -/
def storeFrame (a : FrameAllocator) (f : Nat) (bit : Bool) (count next : Nat) : FrameAllocator :=
  { a with
    nextFrame := next
    allocated := fun g => if g = f then bit else a.allocated g
    refcounts := a.refcounts.map fun r g => if g = f then count else r g }

variable {a : FrameAllocator} {debug : Bool} {f : Nat} {op : AllocOp}

theorem setRefcount_eq_store (h : a.inRange f = true) (n : Nat) :
    a.setRefcount f n = storeFrame a f (a.allocated f) n a.nextFrame := by
  have hbits : a.allocated = fun g => if g = f then a.allocated f else a.allocated g := by
    funext g
    split
    · next heq => rw [heq]
    · rfl
  simp only [setRefcount, h, if_true, storeFrame]
  rw [← hbits]

theorem release_eq_store (h : a.inRange f = true) :
    (a.setRefcount f 0).release f = storeFrame a f false 0 (min a.nextFrame f) := by
  have hin : (a.setRefcount f 0).inRange f = true := by
    simp only [setRefcount, h, if_true]
    exact h
  simp only [FrameAllocator.release, setAllocated, hin, if_true]
  simp only [setRefcount, h, if_true, storeFrame]

theorem inRange_of_getRefcount {f n : Nat} (h : a.getRefcount f = some n) : a.inRange f = true := by
  unfold getRefcount at h
  split at h
  · assumption
  · cases h

/-- The changes the operations make. -/
inductive Change (a : FrameAllocator) : FrameAllocator → Prop
  | same : Change a a
  | reserve (l : List ReservedRegion) : FrameAllocator.Nonempty l →
      (∀ f, a.isReserved f = true → covers l f = true) → Change a { a with reserved := l }
  | take (f : Nat) : a.inRange f = true → a.isReserved f = false → a.allocated f = false →
      Change a (storeFrame a f true 1 (f + 1))
  | count (f n m : Nat) : a.getRefcount f = some (n + 1) →
      Change a (storeFrame a f (a.allocated f) (m + 1) a.nextFrame)
  | release (f : Nat) : a.inRange f = true → Change a (storeFrame a f false 0 (min a.nextFrame f))

theorem allocateFrame_change (a : FrameAllocator) : Change a a.allocateFrame.2 := by
  rcases h : a.allocateFrame with ⟨_ | f, a'⟩
  · rw [(allocateFrame_none h).1]
    exact .same
  · obtain ⟨hlo, hhi, hres, hbit, rfl⟩ := allocateFrame_some h
    exact .take f (inRange_iff.mpr ⟨hlo, hhi⟩) hres hbit

variable {a a' : FrameAllocator}

theorem deallocateFrame_change (h : a.deallocateFrame debug f = some a') : Change a a' := by
  unfold FrameAllocator.deallocateFrame at h
  split at h
  · cases h
    exact .same
  split at h
  · next halloc =>
    simp only [isAllocated, Bool.and_eq_true] at halloc
    cases h
    rw [release_eq_store halloc.1]
    exact .release f halloc.1
  split at h
  · cases h
  · cases h
    exact .same

theorem incRefcount_change (a : FrameAllocator) (f : Nat) : Change a (a.incRefcount f).2 := by
  unfold incRefcount
  cases h : a.getRefcount f with
  | none => exact .same
  | some n =>
    simp only
    split
    · next hn =>
      rw [setRefcount_eq_store (inRange_of_getRefcount h)]
      obtain ⟨m, rfl⟩ : ∃ m, n = m + 1 := ⟨n - 1, by omega⟩
      exact .count f m (m + 1) h
    · exact .same

theorem decRefcount_change (a : FrameAllocator) (f : Nat) : Change a (a.decRefcount f).2 := by
  unfold decRefcount
  cases h : a.getRefcount f with
  | none => exact .same
  | some n =>
    have hin := inRange_of_getRefcount h
    rcases n with _ | _ | n
    · exact .same
    · simp only [if_true]
      rw [release_eq_store hin]
      exact .release f hin
    · simp only [Nat.add_eq_zero_iff, one_ne_zero, and_false, if_false]
      rw [setRefcount_eq_store hin]
      exact .count f (n + 1) n h

theorem AllocOp.step_change
    (hne : FrameAllocator.Nonempty a.reserved) (h : op.step debug a = some a') : Change a a' := by
  cases op with
  | reserve startFrame endFrame reason =>
    obtain ⟨hres, hne', heq⟩ := reserveRange_spec hne h
    rw [heq]
    refine .reserve a'.reserved hne' fun f hf => ?_
    have hf' := hres f
    rw [hf, Bool.true_or] at hf'
    exact hf'
  | allocate =>
    simp only [AllocOp.step] at h
    split at h
    · cases h
    · cases h
      exact allocateFrame_change a
  | deallocate f => exact deallocateFrame_change h
  | inc f =>
    cases h
    exact incRefcount_change a f
  | dec f =>
    cases h
    exact decRefcount_change a f

/-- Reservations are never given up. -/
theorem Change.isReserved (h : Change a a') (hf : a.isReserved f = true) :
    a'.isReserved f = true := by
  cases h with
  | same => exact hf
  | reserve l _ hcovers => exact hcovers f hf
  | take => exact hf
  | count => exact hf
  | release => exact hf

theorem Change.inRange (h : Change a a') (f : Nat) : a'.inRange f = a.inRange f := by
  cases h <;> rfl

/-! ## Allocations -/

/-- A frame that is taken is free before, in use after, and the only one that
changes. -/
theorem allocateFrame_takes (h : a.allocateFrame = (some f, a')) :
    a.inRange f = true ∧ a.isReserved f = false ∧ a.isAllocated f = false ∧
      a'.isAllocated f = true ∧ ∀ g, g ≠ f → a'.isReserved g = a.isReserved g ∧
        a'.isAllocated g = a.isAllocated g ∧ a'.getRefcount g = a.getRefcount g := by
  obtain ⟨hlo, hhi, hres, hbit, rfl⟩ := allocateFrame_some h
  have hin : a.inRange f = true := inRange_iff.mpr ⟨hlo, hhi⟩
  refine ⟨hin, hres, by simp [isAllocated, hbit], ?_, fun g hg => ⟨rfl, ?_, ?_⟩⟩
  · simpa [isAllocated, FrameAllocator.inRange] using hin
  · simp [isAllocated, FrameAllocator.inRange, hg]
  · simp only [getRefcount, FrameAllocator.inRange, Option.map_map]
    congr 2
    funext r
    simp [hg]

/-- An allocation fails exactly when every frame of the interval is in use or
reserved. -/
theorem allocateFrame_none_iff (a : FrameAllocator) : a.allocateFrame.1 = none ↔
      ∀ f, a.inRange f = true → a.isReserved f = true ∨ a.isAllocated f = true := by
  rcases h : a.allocateFrame with ⟨_ | g, a'⟩
  · refine iff_of_true rfl fun f hin => ?_
    obtain ⟨hlo, hhi⟩ := inRange_iff.mp hin
    have hbusy := (allocateFrame_none h).2 f hlo hhi
    cases hres : a.isReserved f with
    | true => exact .inl rfl
    | false => exact .inr (by simpa [isFree, hres] using hbusy)
  · obtain ⟨hin, hres, hbit, -⟩ := allocateFrame_takes h
    refine iff_of_false (by simp) fun hall => ?_
    rcases hall g hin with hc | hc
    · rw [hres] at hc
      cases hc
    · rw [hbit] at hc
      cases hc

/-- The number of frames that can still be handed out. -/
def freeFrames (a : FrameAllocator) (hi : Nat) : Nat :=
  Nat.count (fun g => a.inRange g = true ∧ a.isFree g = true) hi

theorem freeFrames_take {hi : Nat} (hhi : a.endFrame ≤ hi)
    (halloc : a.allocateFrame = (some f, a')) : freeFrames a' hi + 1 = freeFrames a hi := by
  obtain ⟨hin, hres, hbit, hbit', hother⟩ := allocateFrame_takes halloc
  have hsame : ∀ g, a'.inRange g = a.inRange g := by
    obtain ⟨-, -, -, -, rfl⟩ := allocateFrame_some halloc
    exact fun _ => rfl
  have hpoint := count_point (p := fun g => a.inRange g = true ∧ a.isFree g = true)
    (q := fun g => a'.inRange g = true ∧ a'.isFree g = true)
      (lt_of_lt_of_le (inRange_iff.mp hin).2 hhi)
    fun g _ hg => by
      obtain ⟨hr, hb, -⟩ := hother g hg
      rw [hsame, isFree, isFree, hr, hb]
  have hold : a.isFree f = true := by simp [isFree, hres, hbit]
  have hnew : a'.isFree f = false := by simp [isFree, hbit']
  simp only [hin, hold, hnew, and_self, if_true, Bool.false_eq_true, and_false, if_false] at hpoint
  unfold freeFrames
  omega

/-! ## The states of an allocator -/

theorem setRefcount_reserved (a : FrameAllocator) (f n : Nat) :
    (a.setRefcount f n).reserved = a.reserved := by
  unfold setRefcount
  split <;> rfl

theorem release_reserved (a : FrameAllocator) (f : Nat) : (a.release f).reserved = a.reserved := by
  unfold FrameAllocator.release setAllocated
  split <;> rfl

/-- Only `reserve_range` touches the regions. -/
theorem AllocOp.step_reserved (h : op.step debug a = some a') :
    (∃ s e reason, op = .reserve s e reason) ∨ a'.reserved = a.reserved := by
  cases op with
  | reserve s e reason => exact .inl ⟨s, e, reason, rfl⟩
  | allocate =>
    right
    simp only [AllocOp.step] at h
    split at h
    · cases h
    · cases h
      rcases halloc : a.allocateFrame with ⟨_ | f, a'⟩
      · rw [(allocateFrame_none halloc).1]
      · obtain ⟨-, -, -, -, rfl⟩ := allocateFrame_some halloc
        rfl
  | deallocate f =>
    right
    simp only [AllocOp.step, FrameAllocator.deallocateFrame] at h
    split at h
    · cases h
      rfl
    split at h
    · cases h
      rw [release_reserved, setRefcount_reserved]
    split at h
    · cases h
    · cases h
      rfl
  | inc f =>
    right
    cases h
    unfold incRefcount
    split
    · rfl
    · split
      · exact setRefcount_reserved a f _
      · rfl
  | dec f =>
    right
    cases h
    unfold decRefcount
    split
    · rfl
    · rfl
    · dsimp only
      split
      · rw [release_reserved, setRefcount_reserved]
      · exact setRefcount_reserved a f _

/-- What holds in every state of an allocator. -/
structure Regular (a : FrameAllocator) : Prop where
  le : a.startFrame ≤ a.endFrame
  next_le : a.nextFrame ≤ a.endFrame
  nonempty : FrameAllocator.Nonempty a.reserved
  apart : a.reserved.Pairwise ReservedRegion.Apart

/-- A state of an allocator: new, after an operation, or with storage for the counts. -/
inductive Reached (debug : Bool) : FrameAllocator → Prop
  | new {startFrame endFrame : Nat} : startFrame ≤ endFrame →
      Reached debug (FrameAllocator.new startFrame endFrame)
  | step {a a' : FrameAllocator} {op : AllocOp} : Reached debug a →
      op.step debug a = some a' → Reached debug a'
  | storage {a a' : FrameAllocator} {capacity : Nat} : Reached debug a →
      a.setRefcountStorage capacity = some a' → Reached debug a'

theorem Regular.step (h : Regular a) (hstep : op.step debug a = some a') : Regular a' := by
  obtain ⟨hne, hap⟩ : FrameAllocator.Nonempty a'.reserved ∧
      a'.reserved.Pairwise ReservedRegion.Apart := by
    rcases AllocOp.step_reserved hstep with ⟨s, e, reason, rfl⟩ | hsame
    · exact ⟨(reserveRange_spec h.nonempty hstep).2.1, reserveRange_apart h.nonempty h.apart hstep⟩
    · rw [hsame]
      exact ⟨h.nonempty, h.apart⟩
  have hnext := h.next_le
  cases AllocOp.step_change h.nonempty hstep with
  | same => exact h
  | reserve l _ _ => exact ⟨h.le, hnext, hne, hap⟩
  | take f hin _ _ => exact ⟨h.le, (inRange_iff.mp hin).2, hne, hap⟩
  | count f n m _ => exact ⟨h.le, hnext, hne, hap⟩
  | release f hin =>
    refine ⟨h.le, ?_, hne, hap⟩
    show min a.nextFrame f ≤ a.endFrame
    omega

theorem Reached.regular (h : Reached debug a) : Regular a := by
  induction h with
  | new hle =>
    exact ⟨hle, hle, by simp [FrameAllocator.Nonempty, FrameAllocator.new], List.Pairwise.nil⟩
  | step _ hstep ih => exact ih.step hstep
  | storage _ hset ih =>
    unfold setRefcountStorage at hset
    split at hset
    · cases hset
      exact ⟨ih.le, ih.next_le, ih.nonempty, ih.apart⟩
    · cases hset

/-! ## Counts -/

theorem getRefcount_store (a : FrameAllocator) (f g : Nat) (bit : Bool) (count next : Nat) :
    (storeFrame a f bit count next).getRefcount g =
      if g = f then (a.getRefcount f).map fun _ => count else a.getRefcount g := by
  have hin : (storeFrame a f bit count next).inRange g = a.inRange g := rfl
  unfold getRefcount
  rw [hin]
  by_cases hgf : g = f
  · subst hgf
    cases h : a.inRange g <;> simp [storeFrame, Option.map_map, Function.comp_def]
  · rw [if_neg hgf]
    cases h : a.inRange g <;> simp [storeFrame, hgf, Option.map_map, Function.comp_def]

/-- The counts are 16-bit numbers. -/
def CountsFit (a : FrameAllocator) : Prop := ∀ f n, a.getRefcount f = some n → n ≤ maxRefcount

theorem CountsFit.store (h : CountsFit a) {f count : Nat} (hcount : count ≤ maxRefcount)
    (bit : Bool) (next : Nat) : CountsFit (storeFrame a f bit count next) := by
  intro g n hg
  rw [getRefcount_store] at hg
  split at hg
  · obtain ⟨-, -, rfl⟩ := Option.map_eq_some_iff.mp hg
    exact hcount
  · exact h g n hg

theorem CountsFit.step (hne : FrameAllocator.Nonempty a.reserved) (h : CountsFit a)
    (hstep : op.step debug a = some a') : CountsFit a' := by
  -- what is stored is 0, 1 or a count next to the one read
  cases op with
  | reserve s e reason =>
    have heq := (reserveRange_spec hne hstep).2.2
    rw [heq]
    exact h
  | allocate =>
    simp only [AllocOp.step] at hstep
    split at hstep
    · cases hstep
    · cases hstep
      rcases halloc : a.allocateFrame with ⟨_ | f, a'⟩
      · rw [(allocateFrame_none halloc).1]
        exact h
      · obtain ⟨-, -, -, -, rfl⟩ := allocateFrame_some halloc
        exact h.store (f := f) (by decide) true (f + 1)
  | deallocate f =>
    simp only [AllocOp.step, FrameAllocator.deallocateFrame] at hstep
    split at hstep
    · cases hstep
      exact h
    split at hstep
    · rename_i halloc
      cases hstep
      rw [release_eq_store (by simp only [isAllocated, Bool.and_eq_true] at halloc; exact halloc.1)]
      exact h.store (by decide) _ _
    split at hstep
    · cases hstep
    · cases hstep
      exact h
  | inc f =>
    cases hstep
    unfold incRefcount
    cases hcount : a.getRefcount f with
    | none => exact h
    | some n =>
      dsimp only
      split
      · rw [setRefcount_eq_store (inRange_of_getRefcount hcount)]
        exact h.store (by omega) _ _
      · exact h
  | dec f =>
    cases hstep
    unfold decRefcount
    cases hcount : a.getRefcount f with
    | none => exact h
    | some n =>
      have hin := inRange_of_getRefcount hcount
      have hn := h f n hcount
      rcases n with _ | n
      · exact h
      · dsimp only
        split
        · rename_i hzero
          subst hzero
          rw [release_eq_store hin]
          exact h.store (by decide) _ _
        · rw [setRefcount_eq_store hin]
          exact h.store (by omega) _ _

theorem Reached.countsFit (h : Reached debug a) : CountsFit a := by
  induction h with
  | new hle =>
    intro f n hcount
    unfold getRefcount at hcount
    split at hcount
    · cases hcount
    · cases hcount
  | step hreached hstep ih => exact ih.step hreached.regular.nonempty hstep
  | storage _ hset ih =>
    unfold setRefcountStorage at hset
    split at hset
    · cases hset
      intro f n hcount
      simp only [getRefcount, Option.map_some, Option.ite_none_right_eq_some,
        Option.some.injEq] at hcount
      omega
    · cases hset

end PandaOS.Kernel
