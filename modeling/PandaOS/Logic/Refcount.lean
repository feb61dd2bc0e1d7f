import PandaOS.Logic.Clone

/-!
# Reference counts and mappings

`Counted` is the balance between the allocator's counts and the page tables:
the count of a frame is the number of user pages that map it, plus one for a
reference that the kernel has in hand between two stores. Allocating takes a
reference into the hand, a store to an L1 table exchanges it for the one in the
entry, and releasing puts it back.
-/

namespace PandaOS.Kernel

open Hal Lib

variable {s s' : KMem} {ps : List Nat} {K : Set Nat} {hand : Option Nat} {f r v q i t : Nat}
  {a : FrameAllocator} {w : Word}

/-- The frame that a user page is mapped to. -/
def frameAt (s : KMem) (r v : Nat) : Option Nat := (leafOf s r v).map Pte.frame

/-- The user pages over all page tables of `ps` that map a frame. -/
def mappings (s : KMem) (ps : List Nat) (f : Nat) : Nat := tally ps userPages (frameAt s) f

/-- The page tables of a list, as roots. -/
def spaces (ps : List Nat) : Set Nat := { r | r ∈ ps }

/-- Counts and mappings agree, except for the reference in hand. -/
structure Counted (s : KMem) (ps : List Nat) (K : Set Nat) (hand : Option Nat) : Prop where
  nodup : ps.Nodup
  wf : Wf s (spaces ps) K
  storage : s.frames.refcounts.isSome = true
  hand_user : ∀ f, hand = some f → Owned s.frames f ∧ ¬IsTable s (spaces ps) f ∧ f ∉ K
  rc : ∀ f, Owned s.frames f → f ∉ K → ¬IsTable s (spaces ps) f →
    rcOf s.frames f = mappings s ps f + held hand f

theorem frameAt_some (h : frameAt s r v = some f) :
    ∃ e, leafOf s r v = some e ∧ Pte.frame e = f := by
  unfold frameAt at h
  rwa [Option.map_eq_some_iff] at h

theorem mappings_congr (h : ∀ r ∈ ps, ∀ v < userPages, leafOf s' r v = leafOf s r v) (f : Nat) :
    mappings s' ps f = mappings s ps f :=
  tally_congr fun r hr v hv => by unfold frameAt; rw [h r hr v hv]

/-- A frame without mappings is unmapped, and the other way round. -/
theorem mappings_eq_zero : mappings s ps f = 0 ↔ Unmapped s (spaces ps) f := by
  unfold mappings
  rw [tally_eq_zero]
  constructor
  · intro h r hr v hv e he hfe
    exact h r hr v hv (by unfold frameAt; rw [he, Option.map_some, hfe])
  · intro h r hr v hv hf
    obtain ⟨e, he, hfe⟩ := frameAt_some hf
    exact h r hr v hv e he hfe

theorem count_empty (h : ∀ i < 256, pml4.child (s.mem f i) = none) (g : Nat) :
    Nat.count (fun v => frameAt s f v = some g) userPages = 0 := by
  rw [Nat.count_iff_forall_not]
  intro v hv hf
  rw [frameAt, leafOf_empty h hv] at hf
  cases hf

/-- A store to an entry changes the frame of one page. -/
theorem LeafStore.frameAt_eq {roots : Set Nat} {r' : Nat}
    (a : LeafStore s roots K r q i t w) (hr : r' ∈ roots) (hv : v < userPages) :
    frameAt (s.setEntry t i w) r' v = if r' = r ∧ v = q * 512 + i then pml4.child w
      else frameAt s r' v := by
  unfold frameAt
  rw [a.leafOf_eq hr hv]
  split
  · rw [Option.filter_some, child_isSome]
    cases hp : Pte.isPresent w with
    | true => rw [child_of_present hp]; rfl
    | false => rw [child_of_absent hp]; rfl
  · rfl

namespace Counted

/-- A store to an L1 table exchanges the reference in hand for the one in the
entry. -/
theorem exchange (h : Counted s ps K (pml4.child w)) (a : LeafStore s (spaces ps) K r q i t w) :
    Counted (s.setEntry t i w) ps K (frameAt s r (q * 512 + i)) where
  nodup := h.nodup
  wf := a.wf_set
  storage := h.storage
  hand_user g hg := by
    obtain ⟨e, he, rfl⟩ := frameAt_some hg
    rw [a.isTable_iff]
    exact ⟨h.wf.leaf_owned r a.root _ a.page e he, h.wf.leaf_apart r a.root _ a.page e he⟩
  rc g ho hk hnt := by
    rw [a.isTable_iff] at hnt
    have hpoint := tally_point h.nodup (frameAt s) (frameAt (s.setEntry t i w))
      (o := pml4.child w) a.root a.page (fun _ hr _ hv => a.frameAt_eq hr hv) g
    have hrc := h.rc g ho hk hnt
    show rcOf s.frames g = _
    unfold mappings at hrc ⊢
    omega

end Counted

/-! ## Putting references back -/

theorem inRange_of_owned (h : Owned a f) : a.inRange f = true :=
  FrameAllocator.inRange_iff.mpr ⟨h.1, h.2.1⟩

theorem rcOf_setRefcount (hin : a.inRange f = true) (hst : a.refcounts.isSome = true) (n g : Nat) :
    rcOf (a.setRefcount f n) g = if g = f then n else rcOf a g := by
  obtain ⟨rc, hrc⟩ := Option.isSome_iff_exists.mp hst
  unfold FrameAllocator.setRefcount
  rw [if_pos hin]
  unfold rcOf FrameAllocator.getRefcount FrameAllocator.inRange at *
  by_cases hgf : g = f
  · subst hgf
    simp [hrc, hin]
  · simp [hrc, hgf]

/-- A change of one count. -/
structure Recounted (a a' : FrameAllocator) (f n : Nat) : Prop where
  released : Released a a' f
  storage : a'.refcounts.isSome = a.refcounts.isSome
  rc : ∀ g, rcOf a' g = if g = f then n else rcOf a g

section

variable (hin : a.inRange f = true) (hst : a.refcounts.isSome = true)
include hin hst

theorem setRefcount_ok (n : Nat) :
    Recounted a (a.setRefcount f n) f n ∧ (a.setRefcount f n).allocated = a.allocated := by
  have hrc := rcOf_setRefcount hin hst n
  unfold FrameAllocator.setRefcount at *
  rw [if_pos hin] at *
  exact ⟨⟨⟨rfl, rfl, rfl, fun _ _ => rfl⟩, by simp, hrc⟩, rfl⟩

/-- Setting the count to 0 and freeing the frame. -/
theorem setRefcount_release_ok : Recounted a ((a.setRefcount f 0).release f) f 0 ∧
      ((a.setRefcount f 0).release f).allocated f = false := by
  have hrc := rcOf_setRefcount hin hst 0
  have hin' : (a.setRefcount f 0).inRange f = true := by
    unfold FrameAllocator.setRefcount
    rw [if_pos hin]
    exact hin
  unfold FrameAllocator.release FrameAllocator.setAllocated
  rw [if_pos hin']
  unfold FrameAllocator.setRefcount at *
  rw [if_pos hin] at *
  exact ⟨⟨⟨rfl, rfl, rfl, fun g hg => by simp [hg]⟩, by simp, hrc⟩, by simp⟩

/-- `dec_refcount` of a frame with references: the last one frees it. -/
theorem decRefcount_ok {n : Nat} (hrc : rcOf a f = n + 1) :
    Recounted a (a.decRefcount f).2 f n ∧ (0 < n → (a.decRefcount f).2.allocated = a.allocated) ∧
      (n = 0 → (a.decRefcount f).2.allocated f = false) := by
  have hget : a.getRefcount f = some (n + 1) := by
    obtain ⟨rc, hrc'⟩ := Option.isSome_iff_exists.mp hst
    simp only [rcOf, FrameAllocator.getRefcount, hin, if_true, hrc'] at hrc ⊢
    simpa using hrc
  unfold FrameAllocator.decRefcount
  rw [hget]
  simp only
  by_cases hn : n = 0
  · subst hn
    rw [if_pos rfl]
    obtain ⟨hre, hfree⟩ := setRefcount_release_ok hin hst
    exact ⟨hre, fun h => absurd h (lt_irrefl 0), fun _ => hfree⟩
  · rw [if_neg hn]
    obtain ⟨hre, hall⟩ := setRefcount_ok hin hst n
    exact ⟨hre, fun _ => hall, fun h => absurd h hn⟩

end

namespace Counted

/-- The balance after the count of the frame in hand has been changed to the
number of its mappings, and the frame freed if there are none. -/
theorem putBack (h : Counted s ps K (some f)) (hm : s'.mem = s.mem)
    (hre : Recounted s.frames s'.frames f (mappings s ps f))
    (hkeep : 0 < mappings s ps f → s'.frames.allocated = s.frames.allocated) :
    Counted s' ps K none := by
  obtain ⟨ho, hnt, hk⟩ := h.hand_user f rfl
  have htab : ∀ g, IsTable s' (spaces ps) g ↔ IsTable s (spaces ps) g := by
    intro g
    unfold IsTable
    rw [hm]
  have hsame : ∀ g, mappings s' ps g = mappings s ps g := by
    apply mappings_congr
    intro r _ v _
    unfold leafOf
    rw [hm]
  constructor
  case nodup => exact h.nodup
  case wf =>
    by_cases hz : mappings s ps f = 0
    · exact h.wf.released hm hre.released hnt (mappings_eq_zero.mp hz) hk
    · have hle : FramesLe s.frames s'.frames :=
        ⟨hre.released.startFrame, hre.released.endFrame, hre.released.reserved, hre.storage,
          fun g hg => by rwa [hkeep (by omega)]⟩
      exact h.wf.of_agree (pml4.agree_of_frames fun _ _ => by rw [hm]) hle
  case storage => rw [hre.storage]; exact h.storage
  case hand_user => rintro g ⟨⟩
  case rc =>
    intro g hgo hgk hgt
    rw [htab] at hgt
    rw [hre.rc, hsame, held_none]
    by_cases hgf : g = f
    · rw [if_pos hgf, hgf, Nat.add_zero]
    · rw [if_neg hgf, h.rc g (hre.released.owned hgf hgo) hgk hgt, held_ne hgf]

/-- `dec_refcount` puts the reference in hand back. -/
theorem dec (h : Counted s ps K (some f)) :
    Counted { s with frames := (s.frames.decRefcount f).2 } ps K none := by
  obtain ⟨ho, hnt, hk⟩ := h.hand_user f rfl
  have hrc := h.rc f ho hk hnt
  rw [held_self] at hrc
  obtain ⟨hre, hkeep, -⟩ := decRefcount_ok (inRange_of_owned ho) h.storage hrc
  exact h.putBack rfl hre hkeep

end Counted

theorem spaces_cons (c : Nat) (ps : List Nat) : spaces (c :: ps) = insert c (spaces ps) := by
  ext r
  simp [spaces]

end PandaOS.Kernel
