import PandaOS.Logic.Allocator

/-!
# The frame allocator over whole runs

The bitmap and the counts agree after every change (`Tracks`), so they agree in
every run, and an allocation succeeds exactly when a frame is free
(`allocator_tracks`).

`init_from_bootloader` gives the allocator everything between the first and the
last usable frame. Frames of a hole in the map are handed out
(`hole_frame_allocated`), and only maps without such frames are safe
(`frames_usable_iff`).
-/

namespace PandaOS.Kernel

open Hal Hal.FrameAllocator Lib

variable {lo hi f : Nat} {a a' : FrameAllocator} {debug : Bool} {ops : List AllocOp}

/-! ## The bitmap and the counts -/

/-- The invariant of an allocator for the frames from `lo` to `hi`. -/
structure Tracks (lo hi : Nat) (a : FrameAllocator) : Prop where
  start_eq : a.startFrame = lo
  end_eq : a.endFrame = hi
  next_ge : lo ≤ a.nextFrame
  next_le : a.nextFrame ≤ hi
  nonempty : FrameAllocator.Nonempty a.reserved
  counted : ∃ r, a.refcounts = some r ∧ ∀ f, lo ≤ f → f < hi → (a.allocated f = true ↔ 0 < r f)

section

variable (h : Tracks lo hi a)
include h

theorem Tracks.inRange : a.inRange f = true ↔ lo ≤ f ∧ f < hi := by
  rw [inRange_iff, h.start_eq, h.end_eq]

/-- Storing a bit and a count that agree. -/
theorem Tracks.store {next count : Nat} {bit : Bool} (hlo : lo ≤ next) (hhi : next ≤ hi)
    (hbit : lo ≤ f → f < hi → (bit = true ↔ 0 < count)) :
    Tracks lo hi (storeFrame a f bit count next) := by
  obtain ⟨r, hr, hagree⟩ := h.counted
  refine ⟨h.start_eq, h.end_eq, hlo, hhi, h.nonempty, _, by simp only [storeFrame, hr]; rfl, ?_⟩
  intro g hg hg'
  by_cases hgf : g = f
  · subst hgf
    simpa [storeFrame] using hbit hg hg'
  · simpa [storeFrame, hgf] using hagree g hg hg'

theorem Tracks.change (hc : Change a a') : Tracks lo hi a' := by
  cases hc with
  | same => exact h
  | reserve l hne _ => exact { h with nonempty := hne }
  | take f hin _ _ =>
    obtain ⟨hlo, hhi⟩ := h.inRange.mp hin
    exact h.store (by omega) (by omega) (by simp)
  | count f n m hcount =>
    refine h.store h.next_ge h.next_le fun hlo hhi => ?_
    -- the count was positive, so the bit is set
    obtain ⟨r, hr, hagree⟩ := h.counted
    have hrf : r f = n + 1 := by
      simpa [getRefcount, inRange_of_getRefcount hcount, hr] using hcount
    rw [hagree f hlo hhi, hrf]
    simp
  | release f hin =>
    obtain ⟨hlo, hhi⟩ := h.inRange.mp hin
    have hnext := h.next_ge
    exact h.store (by omega) (by omega) (by simp)

theorem Tracks.run (hrun : AllocOp.run debug a ops = some a') : Tracks lo hi a' := by
  induction ops generalizing a with
  | nil =>
    cases hrun
    exact h
  | cons op ops ih =>
    rw [AllocOp.run, List.foldlM_cons] at hrun
    obtain ⟨a1, hstep, hrest⟩ := Option.bind_eq_some_iff.mp hrun
    exact ih (h.change (AllocOp.step_change h.nonempty hstep)) hrest

end

theorem new_tracks {capacity : Nat} (hle : lo ≤ hi)
    (h : (FrameAllocator.new lo hi).setRefcountStorage capacity = some a) : Tracks lo hi a := by
  unfold setRefcountStorage at h
  split at h
  · cases h
    refine ⟨rfl, rfl, Nat.le_refl lo, hle, ?_, _, rfl, ?_⟩
    · intro r hr
      cases hr
    · intro f _ _
      simp [FrameAllocator.new]
  · cases h

theorem Tracks.isAllocated_iff (h : Tracks lo hi a) (hlo : lo ≤ f) (hhi : f < hi) :
    a.isAllocated f = true ↔ ∃ n, a.getRefcount f = some n ∧ 0 < n := by
  obtain ⟨r, hr, hagree⟩ := h.counted
  have hin := h.inRange.mpr ⟨hlo, hhi⟩
  simp only [isAllocated, getRefcount, hin, Bool.true_and, if_true, hr, Option.map_some,
    Option.some.injEq, hagree f hlo hhi]
  constructor
  · exact fun hpos => ⟨_, rfl, hpos⟩
  · rintro ⟨n, rfl, hpos⟩
    exact hpos

/-- In every run of the allocator from a new one with count storage, the cursor
stays in the interval, a frame's bit is set when its count is positive, an
allocation takes one free frame, and it fails when there is none. -/
theorem allocator_tracks {lo hi capacity : Nat} {debug : Bool} {ops : List AllocOp}
    {a₀ a : FrameAllocator} (hle : lo ≤ hi)
    (hinit : (FrameAllocator.new lo hi).setRefcountStorage capacity = some a₀)
    (hrun : AllocOp.run debug a₀ ops = some a) :
    (lo ≤ a.nextFrame ∧ a.nextFrame ≤ hi) ∧
      (∀ f, lo ≤ f → f < hi →
        (a.isAllocated f = true ↔ ∃ n, a.getRefcount f = some n ∧ 0 < n)) ∧
      (∀ f a', a.allocateFrame = (some f, a') →
        (lo ≤ f ∧ f < hi) ∧ a.isReserved f = false ∧ a.isAllocated f = false ∧
          a'.isAllocated f = true ∧ ∀ g, g ≠ f → a'.isReserved g = a.isReserved g ∧
            a'.isAllocated g = a.isAllocated g ∧ a'.getRefcount g = a.getRefcount g) ∧
      (a.allocateFrame.1 = none ↔
        ∀ f, lo ≤ f → f < hi → a.isReserved f = true ∨ a.isAllocated f = true) := by
  have h := (new_tracks hle hinit).run hrun
  refine ⟨⟨h.next_ge, h.next_le⟩, fun f hlo hhi => h.isAllocated_iff hlo hhi, ?_, ?_⟩
  · intro f a' halloc
    obtain ⟨hin, hrest⟩ := allocateFrame_takes halloc
    exact ⟨h.inRange.mp hin, hrest⟩
  · rw [allocateFrame_none_iff]
    constructor
    · exact fun hall f hlo hhi => hall f (h.inRange.mpr ⟨hlo, hhi⟩)
    · exact fun hall f hin => hall f (h.inRange.mp hin).1 (h.inRange.mp hin).2

/-- A run that takes, shares and releases frames around a reservation. -/
theorem allocator_tracks_around_reservation :
    ∃ a, AllocOp.run true { FrameAllocator.new 1 5 with refcounts := some fun _ => 0 }
        [.reserve 2 3 .heap, .allocate, .allocate, .inc 3, .dec 1, .allocate] = some a ∧
      1 ≤ a.nextFrame ∧ a.nextFrame ≤ 5 := by
  obtain ⟨a, hrun⟩ : ∃ a, AllocOp.run true
      { FrameAllocator.new 1 5 with refcounts := some fun _ => 0 }
      [.reserve 2 3 .heap, .allocate, .allocate, .inc 3, .dec 1, .allocate] = some a :=
    Option.isSome_iff_exists.mp (by decide +kernel)
  have hinit : (FrameAllocator.new 1 5).setRefcountStorage 4 =
      some { FrameAllocator.new 1 5 with refcounts := some fun _ => 0 } := rfl
  exact ⟨a, hrun, (allocator_tracks (by decide) hinit hrun).1⟩

/-! ## The boot memory map -/

/-- What `init_from_bootloader` leaves. -/
structure Booted (bootMap : List MemoryRegion) (bootInfoFrame l4Frame : Nat) (a : FrameAllocator) :
    Prop where
  tracks : Tracks (findFirstUsableFrame (memoryMapInfo bootMap))
    (findLastUsableFrame (memoryMapInfo bootMap)) a
  unused : ∀ f, a.allocated f = false
  reserved : ∀ f, a.isReserved f = true ↔
    f = 0 ∨ (kernelStartFrame ≤ f ∧ f < kernelEndFrame) ∨ f = bootInfoFrame ∨ f = l4Frame

theorem init_booted {bootMap : List MemoryRegion} {bootInfoFrame l4Frame : Nat}
    (h : initFromBootloader debug bootMap bootInfoFrame l4Frame = some a) :
    Booted bootMap bootInfoFrame l4Frame a := by
  unfold initFromBootloader at h
  simp only at h
  generalize hfirst : findFirstUsableFrame (memoryMapInfo bootMap) = first at h
  generalize hlast : findLastUsableFrame (memoryMapInfo bootMap) = last at h
  split at h
  · cases h
  simp only [Option.bind_eq_bind, Option.bind_eq_some_iff] at h
  obtain ⟨a1, h1, a2, h2, a3, h3, a4, h4, h⟩ := h
  split at h
  · cases h
  next hpanic =>
  simp only [Bool.or_eq_true, decide_eq_true_eq, not_or, Nat.not_lt] at hpanic
  have hne0 : FrameAllocator.Nonempty (FrameAllocator.new first last).reserved :=
    fun r hr => by cases hr
  -- frame 0, the kernel, the boot information and the L4 table
  obtain ⟨hres1, hne1, heq1⟩ := reserveRange_spec hne0 h1
  obtain ⟨hres2, hne2, heq2⟩ := reserveRange_spec hne1 h2
  obtain ⟨hres3, hne3, heq3⟩ := reserveRange_spec hne2 h3
  obtain ⟨hres4, hne4, heq4⟩ := reserveRange_spec hne3 h4
  have hbase : a4 = { FrameAllocator.new first last with reserved := a4.reserved } := by
    rw [heq4, heq3, heq2, heq1]
  unfold setRefcountStorage at h
  split at h
  · cases h
    refine ⟨?_, ?_, ?_⟩
    · rw [hfirst, hlast, hbase]
      refine ⟨rfl, rfl, Nat.le_refl first, hpanic.2, hne4, _, rfl, fun f _ _ => ?_⟩
      simp [FrameAllocator.new]
    · intro f
      rw [hbase]
      rfl
    · intro f
      show a4.isReserved f = true ↔ _
      rw [hres4, hres3, hres2, hres1]
      have hnone : (FrameAllocator.new first last).isReserved f = false := rfl
      simp only [hnone, Bool.false_or, Bool.or_eq_true, Bool.and_eq_true, decide_eq_true_eq]
      omega
  · cases h

theorem Tracks.isReserved_run (h : Tracks lo hi a) (hrun : AllocOp.run debug a ops = some a')
    (hf : a.isReserved f = true) : a'.isReserved f = true := by
  induction ops generalizing a with
  | nil =>
    cases hrun
    exact hf
  | cons op ops ih =>
    rw [AllocOp.run, List.foldlM_cons] at hrun
    obtain ⟨a1, hstep, hrest⟩ := Option.bind_eq_some_iff.mp hrun
    have hchange := AllocOp.step_change h.nonempty hstep
    exact ih (h.change hchange) hrest (hchange.isReserved hf)

/-- Allocating often enough hands out every free frame. -/
theorem Tracks.reaches (debug : Bool) :
    ∀ (n : Nat) {a : FrameAllocator}, freeFrames a hi = n → Tracks lo hi a →
      a.inRange f = true → a.isFree f = true →
      ∃ ops a' a'', AllocOp.run debug a ops = some a' ∧ a'.allocateFrame = (some f, a'') := by
  intro n
  induction n with
  | zero =>
    intro a hn h hin hfree
    exact absurd ⟨hin, hfree⟩ (Nat.count_iff_forall_not.mp hn f (h.inRange.mp hin).2)
  | succ n ih =>
    intro a hn h hin hfree
    rcases halloc : a.allocateFrame with ⟨_ | g, a1⟩
    · obtain ⟨hlo, hhi⟩ := inRange_iff.mp hin
      rw [(allocateFrame_none halloc).2 f hlo hhi] at hfree
      cases hfree
    by_cases hg : g = f
    · subst hg
      exact ⟨[], a, a1, rfl, halloc⟩
    · have hchange := allocateFrame_change a
      rw [halloc] at hchange
      obtain ⟨-, -, -, -, hother⟩ := allocateFrame_takes halloc
      obtain ⟨hr, hb, -⟩ := hother f (Ne.symm hg)
      have h1 : Tracks lo hi a1 := h.change hchange
      have hcount := freeFrames_take h.end_eq.le halloc
      obtain ⟨ops, a', a'', hrun, hlast⟩ := ih (by omega) h1
        (h1.inRange.mpr (h.inRange.mp hin)) (by rwa [isFree, hr, hb])
      refine ⟨.allocate :: ops, a', a'', ?_, hlast⟩
      rw [AllocOp.run, List.foldlM_cons]
      have hstep : AllocOp.step debug a .allocate = some a1 := by
        have hnext := h.next_le
        simp only [AllocOp.step, h.end_eq, Nat.not_lt.mpr hnext, and_false, if_false, halloc]
      rw [hstep]
      exact hrun

/-- After `init_from_bootloader`, every frame that is ever handed out lies in a
usable region exactly when every frame between the first and the last usable
one does, those reserved at boot apart. -/
theorem frames_usable_iff {debug : Bool} {bootMap : List MemoryRegion} {bootInfoFrame l4Frame : Nat}
    {a : FrameAllocator} (h : initFromBootloader debug bootMap bootInfoFrame l4Frame = some a) :
    (∀ ops a' f a'', AllocOp.run debug a ops = some a' → a'.allocateFrame = (some f, a'') →
        InUsableRegion bootMap f) ↔
      ∀ f, findFirstUsableFrame (memoryMapInfo bootMap) ≤ f →
        f < findLastUsableFrame (memoryMapInfo bootMap) → f ≠ 0 →
        ¬(kernelStartFrame ≤ f ∧ f < kernelEndFrame) → f ≠ bootInfoFrame → f ≠ l4Frame →
        InUsableRegion bootMap f := by
  have hboot := init_booted h
  constructor
  · intro hruns f hlo hhi hzero hkernel hinfo hl4
    have hin := hboot.tracks.inRange.mpr ⟨hlo, hhi⟩
    have hres : a.isReserved f = false := by
      rw [← Bool.not_eq_true, hboot.reserved]
      tauto
    have hfree : a.isFree f = true := by simp [isFree, hres, isAllocated, hboot.unused f]
    obtain ⟨ops, a', a'', hrun, halloc⟩ := Tracks.reaches debug _ rfl hboot.tracks hin hfree
    exact hruns ops a' f a'' hrun halloc
  · intro hall ops a' f a'' hrun halloc
    obtain ⟨hin, hres, -⟩ := allocateFrame_takes halloc
    obtain ⟨hlo, hhi⟩ := (hboot.tracks.run hrun).inRange.mp hin
    have hres₀ : ¬a.isReserved f = true := fun hc => by
      rw [hboot.tracks.isReserved_run hrun hc] at hres
      cases hres
    rw [hboot.reserved] at hres₀
    push Not at hres₀
    exact hall f hlo hhi hres₀.1 (fun hk => absurd hk.2 (Nat.not_lt.mpr (hres₀.2.1 hk.1)))
      hres₀.2.2.1 hres₀.2.2.2

/-- Two usable regions with a hole of two frames between them. -/
def holeMap : List MemoryRegion :=
  [⟨0x1000, 0x3000, .usable⟩, ⟨0x3000, 0x5000, .reserved⟩, ⟨0x5000, 0x6000, .usable⟩]

/-- The third frame handed out is the first one of the hole. -/
theorem hole_frame_allocated : ∃ a a' a'', initFromBootloader true holeMap 300 400 = some a ∧
      AllocOp.run true a [.allocate, .allocate] = some a' ∧ a'.allocateFrame = (some 3, a'') ∧
      ¬InUsableRegion holeMap 3 := by
  have hruns : ((initFromBootloader true holeMap 300 400).bind fun a =>
      (AllocOp.run true a [.allocate, .allocate]).map fun a' => a'.allocateFrame.1) =
        some (some 3) := by
    decide +kernel
  obtain ⟨a, ha, hrest⟩ := Option.bind_eq_some_iff.mp hruns
  obtain ⟨a', ha', hframe⟩ := Option.map_eq_some_iff.mp hrest
  refine ⟨a, a', a'.allocateFrame.2, ha, ha', Prod.ext hframe rfl, ?_⟩
  rintro ⟨r, hr, husable, hlo, hhi⟩
  simp only [holeMap, List.mem_cons, List.not_mem_nil, or_false] at hr
  rcases hr with rfl | rfl | rfl <;> simp_all [frameSize]

/-- One region without holes: every frame handed out is usable. -/
theorem frames_usable_one_region :
    ∃ a, initFromBootloader true [⟨0x1000, 0x6000, .usable⟩] 300 400 = some a ∧
      ∀ ops a' f a'', AllocOp.run true a ops = some a' → a'.allocateFrame = (some f, a'') →
        InUsableRegion [⟨0x1000, 0x6000, .usable⟩] f := by
  obtain ⟨a, ha⟩ : ∃ a, initFromBootloader true [⟨0x1000, 0x6000, .usable⟩] 300 400 = some a :=
    Option.isSome_iff_exists.mp (by decide +kernel)
  refine ⟨a, ha, (frames_usable_iff ha).mpr fun f hlo hhi _ _ _ _ => ?_⟩
  have hfirst : findFirstUsableFrame (memoryMapInfo [⟨0x1000, 0x6000, .usable⟩]) = 1 := by
    decide +kernel
  have hlast : findLastUsableFrame (memoryMapInfo [⟨0x1000, 0x6000, .usable⟩]) = 6 := by
    decide +kernel
  rw [hfirst] at hlo
  rw [hlast] at hhi
  exact ⟨_, List.mem_singleton.mpr rfl, rfl, by unfold frameSize; simp only; omega,
    by unfold frameSize; simp only; omega⟩

end PandaOS.Kernel
