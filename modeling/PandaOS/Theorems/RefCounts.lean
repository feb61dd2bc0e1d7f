import PandaOS.Lib.Saturating
import PandaOS.Logic.Allocator

/-!
# References to a frame

`inc_refcount` takes a reference to a frame and `dec_refcount` drops one; the last
one dropped frees the frame. The count has 16 bits. `inc_refcount` stays at 65535
and reports the count as if the reference had been taken, while `dec_refcount`
counts down from there, so references taken at the top are lost: a frame that
65535 references were taken to and dropped from is free although its first
owner still has it (`refcount_lost`). `refcount_kept_iff` says which histories
keep the frame.
-/

namespace PandaOS.Kernel

open Hal Hal.FrameAllocator Lib

variable {f c top : Nat} {a : FrameAllocator} {l : List Bool}

/-- References to `f` taken (`true`) and dropped (`false`). -/
def share (f : Nat) (a : FrameAllocator) (l : List Bool) : FrameAllocator :=
  l.foldl (fun a up => if up then (a.incRefcount f).2 else (a.decRefcount f).2) a

/-- Never more dropped than taken. -/
def Backed (l : List Bool) : Prop := ∀ p, p <+: l → p.count false ≤ p.count true

/-- The frame is in use, and an allocation does not hand it out. -/
def Kept (f : Nat) (a : FrameAllocator) : Prop :=
  a.isAllocated f = true ∧ a.allocateFrame.1 ≠ some f

/-- The frame has no count: there is no storage, or it was installed after the frame
was allocated. -/
def Uncounted (f : Nat) (a : FrameAllocator) : Prop :=
  a.getRefcount f = none ∨ a.getRefcount f = some 0

theorem kept_iff : Kept f a ↔ a.isAllocated f = true := by
  refine ⟨fun h => h.1, fun h => ⟨h, fun halloc => ?_⟩⟩
  have htaken : a.allocateFrame = (some f, a.allocateFrame.2) := Prod.ext halloc rfl
  have hfree := (allocateFrame_takes htaken).2.2.1
  rw [h] at hfree
  cases hfree

/-- The interval and the reservations stay as they are. -/
theorem share_frame (f : Nat) (a : FrameAllocator) (l : List Bool) :
    (share f a l).reserved = a.reserved ∧ ∀ g, (share f a l).inRange g = a.inRange g := by
  induction l generalizing a with
  | nil => exact ⟨rfl, fun _ => rfl⟩
  | cons up l ih =>
    have hstep : (if up then AllocOp.inc f else .dec f).step true a =
        some (if up then (a.incRefcount f).2 else (a.decRefcount f).2) := by
      cases up <;> rfl
    have hchange : Change a (if up then (a.incRefcount f).2 else (a.decRefcount f).2) := by
      cases up with
      | true => exact incRefcount_change a f
      | false => exact decRefcount_change a f
    obtain ⟨hres, hin⟩ := ih (if up then (a.incRefcount f).2 else (a.decRefcount f).2)
    have hsame := (AllocOp.step_reserved hstep).resolve_left (by cases up <;> simp)
    exact ⟨hres.trans hsame, fun g => (hin g).trans (hchange.inRange g)⟩

/-! ## Frames without a count -/

theorem Uncounted.share (h : Uncounted f a) (l : List Bool) : Kernel.share f a l = a := by
  induction l with
  | nil => rfl
  | cons up l ih =>
    have hstep : (if up then (a.incRefcount f).2 else (a.decRefcount f).2) = a := by
      rcases h with h | h <;> cases up <;> simp [incRefcount, decRefcount, h]
    calc Kernel.share f a (up :: l)
        = Kernel.share f (if up then (a.incRefcount f).2 else (a.decRefcount f).2) l := rfl
      _ = a := by rw [hstep, ih]

/-! ## Counted frames -/

/-- The frame has the count `c` and is in use while that is positive. -/
structure Counts (f c : Nat) (a : FrameAllocator) : Prop where
  count : a.getRefcount f = some c
  alive : a.isAllocated f = true ↔ 0 < c

theorem Counts.store {n next : Nat} {bit : Bool} (h : Counts f c a) (hbit : bit = true ↔ 0 < n) :
    Counts f n (storeFrame a f bit n next) := by
  have hin : (storeFrame a f bit n next).inRange f = a.inRange f := rfl
  constructor
  · rw [getRefcount_store, if_pos rfl, h.count]
    rfl
  · rw [isAllocated, hin, inRange_of_getRefcount h.count, Bool.true_and, ← hbit]
    simp [storeFrame]

/-- The count moves like a counter that saturates at 65535. -/
theorem Counts.step (h : Counts f c a) (hc : c ≤ maxRefcount) (up : Bool) :
    Counts f (satStep maxRefcount c up)
      (if up then (a.incRefcount f).2 else (a.decRefcount f).2) := by
  have hin := inRange_of_getRefcount h.count
  have hbit : 0 < c → a.allocated f = true := fun hpos => by
    have := h.alive.mpr hpos
    rwa [isAllocated, hin, Bool.true_and] at this
  rcases Nat.eq_zero_or_pos c with rfl | hpos
  · -- a count of 0 is not touched any more
    cases up <;> simpa [incRefcount, decRefcount, h.count, satStep] using h
  cases up with
  | true =>
    have hstep : satStep maxRefcount c true = min (c + 1) maxRefcount := by
      simp [satStep, Nat.ne_of_gt hpos]
    simp only [if_true, incRefcount, h.count, hstep]
    by_cases htop : c < maxRefcount
    · rw [if_pos ⟨hpos, htop⟩, setRefcount_eq_store hin, Nat.min_eq_left htop]
      exact h.store (by simp [hbit hpos])
    · rw [if_neg fun hlt => htop hlt.2, show min (c + 1) maxRefcount = c by omega]
      exact h
  | false =>
    obtain ⟨n, rfl⟩ : ∃ n, c = n + 1 := ⟨c - 1, by omega⟩
    have hstep : satStep maxRefcount (n + 1) false = n := by simp [satStep]
    simp only [Bool.false_eq_true, if_false, decRefcount, h.count, hstep]
    split
    · rename_i hzero
      subst hzero
      rw [release_eq_store hin]
      exact h.store (by simp)
    · rename_i hmore
      rw [setRefcount_eq_store hin]
      exact h.store (by simp [hbit hpos, Nat.pos_of_ne_zero hmore])

theorem satStep_le {x : Nat} (hx : x ≤ top) (up : Bool) : satStep top x up ≤ top := by
  unfold satStep
  split
  · exact Nat.zero_le top
  · split <;> omega

theorem Counts.share (h : Counts f c a) (hc : c ≤ maxRefcount) (l : List Bool) :
    Counts f (satRun maxRefcount c l) (Kernel.share f a l) := by
  induction l generalizing a c with
  | nil => exact h
  | cons up l ih => exact ih (h.step hc up) (satStep_le hc up)

/-! ## Histories that keep the frame -/

theorem Backed.shallow (h : Backed l) (hc : 0 < c) : Shallow c l :=
  fun p hp => by
    have := h p hp
    omega

/-- Few references cannot be dropped in one stretch by the whole range. -/
theorem Backed.steady (h : Backed l) (hfew : l.count true < top) : Steady top l := by
  rintro r ⟨p, rfl⟩ q ⟨rest, rfl⟩
  have hpre := h (p ++ q) ⟨rest, by rw [List.append_assoc]⟩
  simp only [List.count_append] at hpre hfew
  omega

/-- Taking `k` references and dropping them all. -/
def takeAndDrop (k : Nat) : List Bool := List.replicate k true ++ List.replicate k false

theorem takeAndDrop_backed (k : Nat) : Backed (takeAndDrop k) := by
  intro p hp
  rw [List.prefix_iff_eq_take.mp hp, takeAndDrop, List.take_append, List.take_replicate,
    List.take_replicate, List.length_replicate]
  simp [List.count_replicate]

theorem takeAndDrop_not_steady {k : Nat} (hk : top ≤ k) : ¬Steady top (takeAndDrop k) := by
  intro h
  have := h (List.replicate k false) ⟨_, rfl⟩ (List.replicate k false) List.prefix_rfl
  simp only [List.count_replicate, beq_self_eq_true, if_true, Bool.false_beq, Bool.not_true,
    Bool.false_eq_true, if_false] at this
  omega

/-- For every frame in use in every state of an allocator: a history that never drops
more references than were taken keeps the frame exactly if the frame has no count
or no stretch of the history drops 65535 references more than it takes. So all
histories with `k` references taken keep it exactly if `k` is less than 65535. -/
theorem refcount_kept_iff {debug : Bool} {a : FrameAllocator} {f : Nat} (h : Reached debug a)
    (halloc : a.isAllocated f = true) :
    (∀ l, Backed l → (Kept f (share f a l) ↔ Uncounted f a ∨ Steady maxRefcount l)) ∧
    ∀ k, (∀ l, Backed l → l.count true = k → Kept f (share f a l)) ↔
      Uncounted f a ∨ k < maxRefcount := by
  have hiff : ∀ l, Backed l → (Kept f (share f a l) ↔ Uncounted f a ∨ Steady maxRefcount l) := by
    intro l hl
    rw [kept_iff]
    by_cases hun : Uncounted f a
    · rw [hun.share l]
      exact iff_of_true halloc (.inl hun)
    · -- the frame has a positive count
      obtain ⟨c, hcount, hpos⟩ : ∃ c, a.getRefcount f = some c ∧ 0 < c := by
        cases hcount : a.getRefcount f with
        | none => exact absurd (.inl hcount) hun
        | some c =>
          refine ⟨c, rfl, Nat.pos_of_ne_zero ?_⟩
          rintro rfl
          exact hun (.inr hcount)
      have hc := h.countsFit f c hcount
      have hcounts : Counts f c a := ⟨hcount, iff_of_true halloc hpos⟩
      rw [(hcounts.share hc l).alive, alive_iff hpos hc]
      simp [hun, hl.shallow hpos]
  refine ⟨hiff, fun k => ⟨fun hall => ?_, fun hfew l hl hk => ?_⟩⟩
  · by_cases hun : Uncounted f a
    · exact .inl hun
    · right
      by_contra hmany
      have hback := takeAndDrop_backed k
      have hkept := (hiff _ hback).mp (hall _ hback (by simp [takeAndDrop, List.count_replicate]))
      exact takeAndDrop_not_steady (Nat.le_of_not_lt hmany) (hkept.resolve_left hun)
  · rw [hiff l hl]
    exact hfew.imp_right fun hlt => hl.steady (by omega)

/-! ## Runs -/

/-- One frame with storage for its count, allocated. -/
def oneFrame : FrameAllocator :=
  ({ FrameAllocator.new 1 2 with refcounts := some fun _ => 0 }).allocateFrame.2

theorem oneFrame_reached : Reached true oneFrame := by
  have hset : (FrameAllocator.new 1 2).setRefcountStorage 1 =
      some { FrameAllocator.new 1 2 with refcounts := some fun _ => 0 } := rfl
  exact ((Reached.new (by decide)).storage hset).step (rfl : AllocOp.allocate.step true _ = some _)

theorem refcount_kept_oneFrame : oneFrame.isAllocated 1 = true ∧ Backed (takeAndDrop 2) ∧
    Kept 1 (share 1 oneFrame (takeAndDrop 2)) := by
  have halloc : oneFrame.isAllocated 1 = true := by decide
  refine ⟨halloc, takeAndDrop_backed 2, ?_⟩
  exact ((refcount_kept_iff oneFrame_reached halloc).2 2).mpr (.inr (by decide)) _
    (takeAndDrop_backed 2) (by decide)

theorem oneFrame_freed {k : Nat} (hk : maxRefcount ≤ k) :
    (share 1 oneFrame (takeAndDrop k)).isAllocated 1 = false := by
  have hcounts : Counts 1 1 oneFrame := ⟨by decide, by decide⟩
  rw [Bool.eq_false_iff]
  intro hused
  have halive := (hcounts.share (by decide) (takeAndDrop k)).alive.mp hused
  rw [alive_iff (by decide) (by decide)] at halive
  exact takeAndDrop_not_steady hk halive.2

/-- The only frame of the interval is the next to be handed out, if it is free. -/
theorem oneFrame_again (hfreed : (share 1 oneFrame l).isAllocated 1 = false) :
    (share 1 oneFrame l).allocateFrame.1 = some 1 := by
  obtain ⟨hres, hin⟩ := share_frame 1 oneFrame l
  generalize share 1 oneFrame l = a at hfreed hres hin
  rcases hnext : a.allocateFrame.1 with _ | g
  · have hnot : a.isReserved 1 = false := by
      rw [isReserved, hres]
      rfl
    rcases (allocateFrame_none_iff a).mp hnext 1 (by rw [hin]; decide) with h | h
    · rw [hnot] at h
      cases h
    · rw [hfreed] at h
      cases h
  · have htaken : a.allocateFrame = (some g, a.allocateFrame.2) := Prod.ext hnext rfl
    have hg := (allocateFrame_takes htaken).1
    rw [hin, inRange_iff] at hg
    have hbounds : oneFrame.startFrame = 1 ∧ oneFrame.endFrame = 2 := by decide
    rw [hbounds.1, hbounds.2] at hg
    rw [show g = 1 by omega]

/-- 65535 references are taken and dropped, and the frame is handed out again while
its first owner has it. -/
theorem refcount_lost : oneFrame.isAllocated 1 = true ∧ Backed (takeAndDrop maxRefcount) ∧
    (share 1 oneFrame (takeAndDrop maxRefcount)).isAllocated 1 = false ∧
    (share 1 oneFrame (takeAndDrop maxRefcount)).allocateFrame.1 = some 1 :=
  ⟨by decide, takeAndDrop_backed _, oneFrame_freed le_rfl, oneFrame_again (oneFrame_freed le_rfl)⟩

end PandaOS.Kernel
