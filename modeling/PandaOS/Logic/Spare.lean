import PandaOS.Lib.Tally
import PandaOS.Logic.Mapping

/-!
# Frames left

`spare` counts the frames the allocator could still hand out. An allocation
takes one of them and fails only when there is none, so a bound on the frames
some code needs is a condition under which it does not run out.
-/

namespace PandaOS.Kernel

open Hal Lib

instance (a : FrameAllocator) : DecidablePred (Fresh a) := fun f =>
  inferInstanceAs (Decidable (a.startFrame ≤ f ∧ f < a.endFrame ∧
    a.isReserved f = false ∧ a.allocated f = false))

/-- The number of frames that can still be handed out. -/
def spare (s : KMem) : Nat := Nat.count (Fresh s.frames) s.frames.endFrame

variable {s s' : KMem}

theorem spare_eq_zero : spare s = 0 ↔ ∀ f, ¬Fresh s.frames f := by
  unfold spare
  rw [Nat.count_iff_forall_not]
  exact ⟨fun h f hf => h f hf.2.1 hf, fun h f _ => h f⟩

/-- Taking frames leaves no more of them. -/
theorem spare_le (hle : FramesLe s.frames s'.frames) : spare s' ≤ spare s := by
  unfold spare
  rw [hle.endFrame]
  exact Nat.count_mono_left fun _ _ => hle.fresh

theorem spare_of_frames (heq : s'.frames = s.frames) : spare s' = spare s := by
  unfold spare
  rw [heq]

/-- Only the allocation bits count. -/
theorem spare_of_allocated (hle : FramesLe s.frames s'.frames)
    (hal : s'.frames.allocated = s.frames.allocated) : spare s' = spare s := by
  have hsame : Fresh s'.frames = Fresh s.frames := by
    funext f
    unfold Fresh
    rw [hle.startFrame, hle.endFrame, hle.isReserved, hal]
  unfold spare
  simp only [hsame, hle.endFrame]

/-- An allocation takes one frame. -/
theorem Allocated.spare {f : Nat} (a : Allocated s s' f) :
    Kernel.spare s' + 1 = Kernel.spare s := by
  have hpoint :=
    count_point (p := Fresh s.frames) (q := Fresh s'.frames) a.fresh.2.1 fun g _ hg => by
    unfold Fresh
    rw [a.frames.startFrame, a.frames.endFrame, a.frames.isReserved, a.others g hg]
  rw [if_pos a.fresh, if_neg a.owned.not_fresh] at hpoint
  unfold Kernel.spare
  rw [a.frames.endFrame]
  exact hpoint

/-- A new L4 table takes one frame; without one nothing has changed. -/
theorem createUserPageTable_spare :
    Ends createUserPageTable s (fun c s' => NewSpace s s' c ∧ spare s = spare s' + 1)
      fun e s' => (∃ msg, e = .err msg) ∧ spare s = 0 ∧ s' = s := by
  refine ((createUserPageTable_ends s).with_run).mono (fun c s' ⟨⟨n, _⟩, hrun⟩ => ⟨n, ?_⟩)
    fun e s' ⟨hout, hs⟩ => ⟨hout.1, spare_eq_zero.mpr hout.2, hs⟩
  simp only [createUserPageTable_eq, returns_bind, returns_modify, returns_pure, exists_and_left,
    exists_eq_left, exists_const] at hrun
  obtain ⟨_, s1, halloc, -, rfl⟩ := hrun
  exact (halloc.of_ends (allocatePageTableFrame_ends _ s)).1.spare.symm

/-- A table is taken from the frames left if it is missing. -/
theorem ensureTable_spare (t i : Nat) (msg : String) (s : KMem) : Ends (ensureTable t i msg) s
      (fun _ s' => FramesLe s.frames s'.frames ∧
        spare s = spare s' + if Pte.isPresent (s.mem t i) then 0 else 1)
      fun e s' => (∃ msg, e = .err msg) ∧ spare s = 0 ∧ s' = s := by
  refine (ensureTable_ends t i msg s).mono (fun c s' hc => ?_)
    fun e s' ⟨_, hout, hs⟩ => ⟨hout.1, spare_eq_zero.mpr hout.2, hs⟩
  obtain ⟨hpres, -, rfl⟩ | ⟨habs, f, s1, a, -, -, rfl⟩ := hc
  · rw [hpres, if_pos rfl, Nat.add_zero]
    exact ⟨.refl _, rfl⟩
  · rw [habs]
    exact ⟨a.frames, a.spare.symm⟩

/-! ## A bound on the frames some code needs -/

/-- From any state at most `k` frames are taken and none is given back, and with `k`
left the code gives up with no error. -/
def Needs {α : Type} (k : Nat) (x : KM α) : Prop :=
  ∀ s, Ends x s (fun _ s' => FramesLe s.frames s'.frames ∧ spare s ≤ spare s' + k)
    fun e s' => FramesLe s.frames s'.frames ∧ ((∃ msg, e = .err msg) → spare s < k)

/-- Frames were taken and none was given back. -/
def Taking (s s' : KMem) : Prop := FramesLe s.frames s'.frames

instance : Std.Refl Taking := ⟨fun s => FramesLe.refl s.frames⟩

instance : IsTrans KMem Taking := ⟨fun _ _ _ h h' => FramesLe.trans h h'⟩

namespace Needs

variable {α β : Type} {j k : Nat}

theorem taking {x : KM α} (h : Needs k x) : MovesAlong Taking x := fun s =>
  (h s).mono (fun _ _ hs => hs.1) fun _ _ he => he.1

theorem mono {x : KM α} (h : Needs j x) (hle : j ≤ k) : Needs k x := fun s =>
  (h s).mono (fun _ _ hs => ⟨hs.1, by omega⟩) fun _ _ he =>
    ⟨he.1, fun hmsg => lt_of_lt_of_le (he.2 hmsg) hle⟩

theorem pure (a : α) : Needs 0 (pure a : KM α) := fun _ => ⟨FramesLe.refl _, le_rfl⟩

theorem get : Needs 0 (get : KM KMem) := fun _ => ⟨FramesLe.refl _, le_rfl⟩

theorem panic (msg : String) : Needs 0 (throwPanic msg : KM α) := fun _ =>
  ⟨.refl _, fun ⟨_, h⟩ => nomatch h⟩

theorem modify {f : KMem → KMem} (hf : ∀ s, (f s).frames = s.frames) :
    Needs 0 (modify f : KM PUnit) := fun s => by
  show FramesLe s.frames (f s).frames ∧ spare s ≤ spare (f s) + 0
  unfold spare
  rw [hf s, Nat.add_zero]
  exact ⟨.refl _, le_rfl⟩

/-- The needs of both parts add up. -/
theorem bind {x : KM α} {f : α → KM β} (hx : Needs j x) (hf : ∀ a, Needs k (f a)) :
    Needs (j + k) (x >>= f) := by
  intro s
  refine (hx s).bind (fun a s1 ⟨hle, hfirst⟩ => ?_) fun e s1 ⟨hle, he⟩ =>
    ⟨hle, fun hmsg => lt_of_lt_of_le (he hmsg) (by omega)⟩
  refine (hf a s1).mono (fun _ s2 ⟨hle', hrest⟩ => ⟨hle.trans hle', by omega⟩)
    fun e s2 ⟨hle', he⟩ => ⟨hle.trans hle', fun hmsg => ?_⟩
  have := he hmsg
  omega

/-- An allocation and what is done with the frame. -/
theorem allocate {g : Option Nat → KM α} {e : Fault} (hnone : g none = throw e)
    (hsome : ∀ f, Needs k (g (some f))) : Needs (k + 1) (allocateFrame >>= g) := by
  intro s
  refine ends_allocateFrame (fun hout => ?_) fun f s1 a => ?_
  · rw [hnone]
    have hzero := spare_eq_zero.mpr hout
    exact ⟨.refl _, fun _ => by omega⟩
  · have hone := a.spare
    refine (hsome f s1).mono (fun _ s2 ⟨hle, hrest⟩ => ⟨a.frames.trans hle, by omega⟩)
      fun e s2 ⟨hle, he⟩ => ⟨a.frames.trans hle, fun hmsg => ?_⟩
    have := he hmsg
    omega

/-- `k` frames for every turn. -/
theorem forRange {f : Nat → KM Unit} (hf : ∀ i, Needs k (f i)) (start count : Nat) :
    Needs (k * count) (forRange start count f) := by
  induction count generalizing start with
  | zero => exact Needs.pure ()
  | succ n ih =>
    rw [Nat.mul_succ, Nat.add_comm]
    exact (hf start).bind fun _ => ih (start + 1)

end Needs

/-- `map_page` takes at most three frames, and with three left it does not fail for
want of one. -/
theorem needs_mapPage (pt va f : Nat) (flags : Word) : Needs 3 (mapPage pt va f flags) := by
  intro s
  refine ends_mapPage (P := fun d _ u => FramesLe s.frames u.frames ∧ spare s ≤ spare u + d)
    ⟨.refl _, le_rfl⟩ ?_ ?_ ?_
  · rintro d t u msg hd ⟨hle, hspare⟩
    refine (ensureTable_spare t _ msg u).mono (fun _ u' ⟨hle', hone⟩ => ⟨hle.trans hle', ?_⟩) ?_
    · split at hone <;> omega
    · rintro e u' ⟨-, hzero, rfl⟩
      exact ⟨hle, fun _ => by omega⟩
  · exact fun l1 u h _ => ⟨h.1, fun ⟨_, hmsg⟩ => nomatch hmsg⟩
  · exact fun l1 u h _ => h

theorem needs_zeroFrame (f : Nat) : Needs 0 (zeroFrame f) := Needs.modify fun _ => rfl

/-! ## Taking frames and keeping them -/

theorem taking_readEntry (t i : Nat) : MovesAlong Taking (readEntry t i) :=
  MovesAlong.get.bind fun _ => MovesAlong.pure _

theorem taking_writeEntry (t i : Nat) (w : Word) : MovesAlong Taking (writeEntry t i w) :=
  .modify fun s => .refl s.frames

theorem taking_ensureTable (t i : Nat) (msg : String) : MovesAlong Taking (ensureTable t i msg) :=
  fun s => (ensureTable_spare t i msg s).mono (fun _ _ h => h.1) fun _ _ h =>
    h.2.2 ▸ .refl s.frames

theorem taking_allocateStack (flags : Word) (pt top n : Nat) :
    MovesAlong Taking (allocateStack flags pt top n) :=
  .forRange (fun _ => (Needs.allocate rfl fun f =>
    (needs_mapPage _ _ _ _).bind fun _ => needs_zeroFrame f).taking) 0 n

end PandaOS.Kernel
