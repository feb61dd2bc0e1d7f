import PandaOS.Logic.Clone
import PandaOS.Logic.Descend
import PandaOS.Logic.KernelStack

/-!
# The frames a fork takes

The clone of an address space takes one frame for the L4 table and one for each
lower table of the parent, the kernel stack takes its four pages and the tables
that are missing above them. Both fail for want of a frame exactly when fewer are
left, so what a fork needs can be read off the state before it.
-/

namespace PandaOS.Kernel

open Hal Lib

variable {s s' s1 t : KMem} {parent child i pt : Nat}

/-! ## No frame is given back -/

theorem taking_cloneEntries {child count : Nat} {msg : String} {check : Word → KM Unit}
    {below : Nat → Nat → KM Unit} (hcheck : ∀ e, MovesAlong Taking (check e))
    (hbelow : ∀ p c, MovesAlong Taking (below p c)) :
    MovesAlong Taking (cloneEntries parent child count msg check below) := by
  refine .forRange (fun i => (taking_readEntry _ _).bind fun e => ?_) 0 count
  split
  · exact (hcheck e).bind fun _ => (taking_ensureTable _ _ _).bind fun c => hbelow _ c
  · exact .pure _

theorem taking_cloneLeaves (parent child : Nat) : MovesAlong Taking (cloneLeaves parent child) := by
  have hshare : ∀ (i f : Nat) (w : Word), MovesAlong Taking (do
      writeEntry child i w
      incFrameRefcount f) := fun i f w =>
    (taking_writeEntry _ _ _).bind fun _ =>
      .modify fun s => (framesLe_incRefcount s.frames f).1
  refine .forRange (fun i => (taking_readEntry _ _).bind fun e => ?_) 0 512
  split
  · split
    · exact (taking_writeEntry _ _ _).bind fun _ => hshare _ _ _
    · exact hshare _ _ _
  · exact .pure _

theorem taking_checkNotHuge (e : Word) : MovesAlong Taking (checkNotHuge e) := by
  unfold checkNotHuge
  split
  · exact .throw _
  · exact .pure _

theorem taking_cloneL3 (p c : Nat) : MovesAlong Taking (cloneL3 p c) :=
  taking_cloneEntries (fun _ => .pure _) fun _ _ =>
    taking_cloneEntries taking_checkNotHuge taking_cloneLeaves

/-! ## The kernel stack -/

/-- The first page of the kernel stack that is mapped already. -/
def stackTaken (mem : Nat → Nat → Word) (pt : Nat) : Option Nat :=
  (List.range kernelStackPages).find? fun i => (walkPageTable mem pt (stackVa i)).isSome

/-- The frames that `allocate_kernel_stack` takes, until it is done or comes to a page
that is mapped. -/
def stackNeed (mem : Nat → Nat → Word) (pt : Nat) : Nat :=
  missingTables mem (indices (stackVa 0)) pt +
    match stackTaken mem pt with
    | some i => i + 1
    | none => kernelStackPages

theorem stack_indices (hi : i < 4) : indices (stackVa i) = indices (stackVa 0) := by
  obtain ⟨h4, h3, h2, -⟩ := stackVa_index hi
  obtain ⟨k4, k3, k2, -⟩ := stackVa_index (i := 0) (by omega)
  rw [indices, indices, h4, h3, h2, k4, k3, k2]

/-- One page of the stack: a frame for the page and one for each missing table. -/
theorem stackPage_takes {flags : Word} (hi : i < 4) (hb : s.frames.endFrame ≤ 2 ^ 40)
    (hpath : PathIn (heldBut s ∅) s.mem (indices (stackVa 0)) pt)
    (hheld : ∀ e, walkEntry s pt (stackVa i) = some e → ¬Fresh s.frames (Pte.frame e)) :
    Ends (do
      match ← allocateFrame with
      | none => throwErr "Failed to allocate stack frame"
      | some f =>
        mapPage pt (stackVa i) f flags
        zeroFrame f) s
      (fun _ s' => walkEntry s pt (stackVa i) = none ∧
        spare s = spare s' + (missingTables s.mem (indices (stackVa 0)) pt + 1) ∧
        FramesLe s.frames s'.frames ∧ PathIn (heldBut s' ∅) s'.mem (indices (stackVa 0)) pt ∧
        missingTables s'.mem (indices (stackVa 0)) pt = 0 ∧
        ∀ j < 4, j ≠ i → walkEntry s' pt (stackVa j) = walkEntry s pt (stackVa j))
      fun e _ => ((∃ msg, e = .err msg) ∧
        spare s < missingTables s.mem (indices (stackVa 0)) pt + 1) ∨
        ((∃ msg, e = .panic msg) ∧ walkEntry s pt (stackVa i) ≠ none ∧
          missingTables s.mem (indices (stackVa 0)) pt + 1 ≤ spare s) := by
  have hind := stack_indices hi
  refine ends_allocateFrame (fun hout => ?_) fun f s1 a => ?_
  · have := spare_eq_zero.mpr hout
    exact .inl ⟨⟨_, rfl⟩, by omega⟩
  have hone := a.spare
  have hbound : f < 2 ^ 40 := lt_of_lt_of_le a.fresh.2.1 hb
  have hb1 : s1.frames.endFrame ≤ 2 ^ 40 := by rwa [a.frames.endFrame]
  have hwalk : ∀ va, walkEntry s1 pt va = walkEntry s pt va := fun va => by
    rw [walkEntry, walkEntry, a.mem]
  have hsub : heldBut s ∅ ⊆ heldBut s1 {f} := by
    rintro g ⟨hg, -⟩
    refine ⟨fun hf => hg (a.frames.fresh hf), ?_⟩
    rintro rfl
    exact hg a.fresh
  have hpath1 : PathIn (heldBut s1 {f}) s1.mem (indices (stackVa i)) pt := by
    rw [hind, a.mem]
    exact hpath.mono hsub
  have hother : ∀ e, walkEntry s1 pt (stackVa i) = some e → Pte.addr e ≠ frameAddr f := by
    intro e he haddr
    rw [hwalk] at he
    refine hheld e he ?_
    rw [Pte.frame_of_addr hbound haddr]
    exact a.fresh
  have hA : ∀ g ∈ ({f} : Set Nat), ¬Fresh s1.frames g := by
    rintro g rfl
    exact a.owned.not_fresh
  simp only [ends_bind, zeroFrame, ends_modify]
  refine (mapPage_takes hA hb1 hpath1 hother).mono (fun _ s2 hend => ?_) fun _ _ hfail => ?_
  · rw [hind, hwalk, a.mem] at hend
    obtain ⟨hfree, hspare, hle, hin, hfull, hrest⟩ := hend
    obtain ⟨l1, hl1⟩ := Option.ne_none_iff_exists'.mp hfull
    -- clearing the page reaches none of the tables
    have hclear : ∀ g ∈ heldBut s2 {f}, (s2.zeroFrame f).mem g = s2.mem g := by
      intro g hg
      have hgf : g ≠ f := fun heq => hg.2 heq
      simp [KMem.zeroFrame, hgf]
    have hwalks : ∀ g ∈ heldBut s2 {f}, ∀ i c, tableAt s2.mem g i = some c →
        tableAt (s2.zeroFrame f).mem g i = some c := fun g hg i c hc => by
      rw [tableAt_eq, hclear g hg, ← tableAt_eq, hc]
    obtain ⟨hin', hl1'⟩ := hin.kept hl1 hwalks
    refine ⟨hfree, ?_, a.frames.trans hle, hin'.mono fun g hg => ⟨hg.1, Set.notMem_empty g⟩,
      missingTables_eq_zero hl1', fun j hj hji => ?_⟩
    · show spare s = spare s2 + _
      omega
    · have hne : p1Index (stackVa j) ≠ p1Index (stackVa i) := by
        rw [(stackVa_index hj).2.2.2, (stackVa_index hi).2.2.2]
        omega
      rw [← hwalk, ← hrest (stackVa j) (stack_indices hj) hne, walkEntry_follow, walkEntry_follow,
        stack_indices hj, hl1', hl1, Option.bind_some, Option.bind_some, presentEntry, presentEntry,
        hclear l1 (hin.last_mem hl1)]
  · rw [hind, hwalk, a.mem] at hfail
    rcases hfail with ⟨hmsg, hlt⟩ | ⟨hmsg, htaken, hnone⟩
    · exact .inl ⟨hmsg, by omega⟩
    · exact .inr ⟨hmsg, htaken, by omega⟩

/-- The loop over the pages of the stack, before page `i`. -/
structure StackInv (pt : Nat) (s : KMem) (i : Nat) (t : KMem) : Prop where
  count : spare s + missingTables t.mem (indices (stackVa 0)) pt =
    spare t + missingTables s.mem (indices (stackVa 0)) pt + i
  built : 0 < i → missingTables t.mem (indices (stackVa 0)) pt = 0
  frames : FramesLe s.frames t.frames
  path : PathIn (heldBut t ∅) t.mem (indices (stackVa 0)) pt
  pages : ∀ j < 4, i ≤ j → walkEntry t pt (stackVa j) = walkEntry s pt (stackVa j)
  free : ∀ j < i, walkEntry s pt (stackVa j) = none

theorem walkEntry_isSome (s : KMem) (pt va : Nat) :
    (walkPageTable s.mem pt va).isSome = (walkEntry s pt va).isSome := by
  rw [walkEntry, Option.isSome_map]

theorem stackTaken_eq_some (hi : i < 4) (hfree : ∀ j < i, walkEntry s pt (stackVa j) = none)
    (htaken : walkEntry s pt (stackVa i) ≠ none) : stackTaken s.mem pt = some i := by
  rw [stackTaken, List.find?_range_eq_some]
  refine ⟨?_, List.mem_range.mpr hi, fun j hj => ?_⟩
  · rw [walkEntry_isSome]
    exact Option.isSome_iff_ne_none.mpr htaken
  · rw [walkEntry_isSome, hfree j hj]
    rfl

theorem stackTaken_eq_none (hfree : ∀ j < 4, walkEntry s pt (stackVa j) = none) :
    stackTaken s.mem pt = none := by
  rw [stackTaken, List.find?_range_eq_none]
  intro j hj
  rw [walkEntry_isSome, hfree j hj]
  rfl

theorem stackNeed_gt (hi : i < 4) (hfree : ∀ j < i, walkEntry s pt (stackVa j) = none) :
    missingTables s.mem (indices (stackVa 0)) pt + i < stackNeed s.mem pt := by
  unfold stackNeed
  cases hat : stackTaken s.mem pt with
  | none => exact Nat.add_lt_add_left hi _
  | some k =>
    have hmapped := (List.find?_range_eq_some.mp hat).1
    have hki : ¬k < i := by
      intro hlt
      rw [walkEntry_isSome, hfree k hlt] at hmapped
      cases hmapped
    simp only
    omega

/-- `allocate_kernel_stack` needs `stackNeed` frames: with fewer it fails, with these
it returns, or panics at the first page that is mapped. -/
theorem allocateKernelStack_takes (hb : s.frames.endFrame ≤ 2 ^ 40)
    (hpath : PathIn (heldBut s ∅) s.mem (indices (stackVa 0)) pt)
    (hheld : ∀ i < 4, ∀ e, walkEntry s pt (stackVa i) = some e → ¬Fresh s.frames (Pte.frame e)) :
    Ends (allocateKernelStack pt kernelStackTop kernelStackPages) s
      (fun _ s' => stackTaken s.mem pt = none ∧ spare s = spare s' + stackNeed s.mem pt)
      fun e _ => ((∃ msg, e = .err msg) ∧ spare s < stackNeed s.mem pt) ∨
        ((∃ msg, e = .panic msg) ∧ stackTaken s.mem pt ≠ none ∧ stackNeed s.mem pt ≤ spare s) := by
  -- the tables are made for the first page; the others only take their own frames
  have hstart : StackInv pt s 0 s :=
    ⟨rfl, by omega, .refl _, hpath, fun _ _ _ => rfl, fun j hj => absurd hj (Nat.not_lt_zero j)⟩
  refine (ends_forRange_from (StackInv pt s) hstart fun i t _ hi h => ?_).imp (fun _ t h => ?_)
  · have hi : i < 4 := by simpa [kernelStackPages] using hi
    have hsame := h.pages i hi le_rfl
    have hcount := h.count
    have hlt := stackNeed_gt hi h.free
    have hheld' : ∀ e, walkEntry t pt (stackVa i) = some e → ¬Fresh t.frames (Pte.frame e) :=
      fun e he hf => hheld i hi e (hsame ▸ he) (h.frames.fresh hf)
    refine (stackPage_takes hi (by rwa [h.frames.endFrame]) h.path hheld').mono
      (fun _ t' hend => ?_) fun _ _ hfail => ?_
    · obtain ⟨hfree, hspare, hle, hin, hbuilt, hrest⟩ := hend
      refine ⟨by omega, fun _ => hbuilt, h.frames.trans hle,
        hin, fun j hj hij => ?_, fun j hj => ?_⟩
      · rw [hrest j hj (by omega), h.pages j hj (by omega)]
      · rcases Nat.lt_succ_iff_lt_or_eq.mp hj with hj | rfl
        · exact h.free j hj
        · rw [← hsame, hfree]
    · rcases hfail with ⟨hmsg, hfew⟩ | ⟨hmsg, htaken, henough⟩
      · exact .inl ⟨hmsg, by omega⟩
      · rw [hsame] at htaken
        have hat := stackTaken_eq_some hi h.free htaken
        refine .inr ⟨hmsg, by simp [hat], ?_⟩
        rw [stackNeed, hat]
        simp only
        omega
  · have hnone := stackTaken_eq_none h.free
    have hcount := h.count
    rw [h.built (by decide)] at hcount
    refine ⟨hnone, ?_⟩
    rw [stackNeed, hnone]
    simp only
    omega

end PandaOS.Kernel
