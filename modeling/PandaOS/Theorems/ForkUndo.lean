import PandaOS.Logic.ForkCost
import PandaOS.Theorems.ForkStack

/-!
# A fork that fails

`fork_from` allocates the child's tables, shares the pages and allocates the kernel
stack, and returns with `?` from the first step that fails. Nothing is undone: the
child's tables stay allocated, the parent's pages read-only and their counts raised.
A failed fork leaves everything as it was only if its very first allocation fails.
-/

namespace PandaOS.Kernel

open Hal Lib

variable {s s' t : KMem} {roots K : Set Nat} {p : Process} {childPid : Pid} {fdsCopied : Bool}
  {pt i : Nat}

/-- The parent's mappings, the counts and the frames in use are as they were. -/
structure ForkUndone (p : Process) (s s' : KMem) : Prop where
  mappings : ∀ va, translate s'.mem p.pageTablePhys va = translate s.mem p.pageTablePhys va ∧
    executable s'.mem p.pageTablePhys va = executable s.mem p.pageTablePhys va
  counts : ∀ f, s'.frames.getRefcount f = s.frames.getRefcount f
  frames : ∀ f, s'.frames.allocated f = true → s.frames.allocated f = true

/-- The frames that a fork takes: the child's L4 table, a table for each lower table of
the parent, and what the kernel stack needs below the active table. -/
def forkNeed (s : KMem) (p : Process) : Nat :=
  1 + countTables s.mem 3 256 p.pageTablePhys + stackNeed s.mem s.cr3

/-! ## The child's kernel stack -/

/-- The walk to the kernel stack as a path. -/
theorem StackPath.pathIn (h : StackPath s pt K) (hpt : pt ∈ heldBut s ∅)
    (hK : ∀ f ∈ K, ¬Fresh s.frames f) : PathIn (heldBut s ∅) s.mem (indices (stackVa 0)) pt := by
  obtain ⟨h4, h3, h2, -⟩ := stackVa_index (i := 0) (by omega)
  have held : ∀ f ∈ K, f ∈ heldBut s ∅ := fun f hf => ⟨hK f hf, Set.notMem_empty f⟩
  rw [indices, h4, h3, h2]
  refine ⟨hpt, fun l3 hl3 => ⟨held l3 (h l3 hl3).1, fun l2 hl2 => ?_⟩⟩
  obtain ⟨hl2K, hrest⟩ := (h l3 hl3).2 l2 hl2
  exact ⟨held l2 hl2K, fun l1 hl1 => held l1 (hrest l1 hl1).1⟩

theorem StackPath.page_mem {e : Word} (h : StackPath s pt K) (hi : i < 4)
    (he : walkEntry s pt (stackVa i) = some e) : Pte.frame e ∈ K := by
  obtain ⟨h4, h3, h2, -⟩ := stackVa_index hi
  obtain ⟨l3, l2, l1, h₃, h₂, h₁, hp, rfl⟩ := walkEntry_eq_some.mp he
  rw [h4] at h₃
  rw [h3] at h₂
  rw [h2] at h₁
  exact (((h l3 h₃).2 l2 h₂).2 l1 h₁).2 _ _ (child_of_present hp)

section

variable {pt : Nat} (hk : KernelKept s roots K pt t) (hpath : StackPath s s.cr3 K)
include hk hpath

/-- The tables above the kernel stack are those of the active table. -/
theorem KernelKept.stack_tables : follow t.mem (indices (stackVa 0)) pt =
    follow s.mem (indices (stackVa 0)) s.cr3 ∧
      (∀ l1, follow s.mem (indices (stackVa 0)) s.cr3 = some l1 → l1 ∈ K) ∧
      missingTables t.mem (indices (stackVa 0)) pt = missingTables s.mem
        (indices (stackVa 0)) s.cr3 := by
  obtain ⟨h4, h3, h2, -⟩ := stackVa_index (i := 0) (by omega)
  rw [indices, h4, h3, h2]
  have htop : tableAt t.mem pt 511 = tableAt s.mem s.cr3 511 := by
    rw [tableAt_eq, tableAt_eq, hk.upper 511 (by omega) (by omega)]
  have hsame : ∀ g ∈ K, ∀ i, tableAt t.mem g i = tableAt s.mem g i := fun g hg i => by
    rw [tableAt_eq, tableAt_eq, hk.content g hg]
  simp only [follow, missingTables, htop]
  cases h₃ : tableAt s.mem s.cr3 511 with
  | none => exact ⟨rfl, by simp, rfl⟩
  | some l3 =>
    obtain ⟨m3, hrest⟩ := hpath l3 h₃
    simp only [Option.bind_some, hsame l3 m3]
    cases h₂ : tableAt s.mem l3 509 with
    | none => exact ⟨rfl, by simp, rfl⟩
    | some l2 =>
      obtain ⟨m2, hrest⟩ := hrest l2 h₂
      simp only [Option.bind_some, hsame l2 m2]
      refine ⟨trivial, fun l1 h₁ => ?_, trivial⟩
      obtain ⟨c, hc, hl⟩ := Option.bind_eq_some_iff.mp h₁
      cases hl
      exact (hrest l1 hc).1

theorem KernelKept.stack_entry (hi : i < 4) :
    walkEntry t pt (stackVa i) = walkEntry s s.cr3 (stackVa i) := by
  obtain ⟨hsame, hmem, -⟩ := hk.stack_tables hpath
  rw [walkEntry_follow, walkEntry_follow, stack_indices hi, hsame]
  cases hl : follow s.mem (indices (stackVa 0)) s.cr3 with
  | none => rfl
  | some l1 =>
    simp only [Option.bind_some, presentEntry]
    rw [hk.content l1 (hmem l1 hl)]

theorem KernelKept.stackTaken_eq : stackTaken t.mem pt = stackTaken s.mem s.cr3 := by
  unfold stackTaken
  rw [← List.head?_filter, ← List.head?_filter]
  refine congrArg List.head? (List.filter_congr fun i hi => ?_)
  rw [walkEntry_isSome, walkEntry_isSome, hk.stack_entry hpath (List.mem_range.mp hi)]

theorem KernelKept.stackNeed_eq : stackNeed t.mem pt = stackNeed s.mem s.cr3 := by
  unfold stackNeed
  rw [hk.stackTaken_eq hpath, (hk.stack_tables hpath).2.2]

end

/-! ## The outcome of a fork -/

section

variable (h : Wf s roots K) (hp : p.pageTablePhys ∈ roots) (hcr3 : ¬Fresh s.frames s.cr3)
  (hpath : StackPath s s.cr3 K)
include h hp hcr3 hpath

/-- A fork returns `Err` if there are too few frames, or for the descriptors once
everything else is done. -/
theorem forkFrom_ends (childPid : Pid) (fdsCopied : Bool) :
    Ends (p.forkFrom childPid fdsCopied) s (fun _ _ => forkNeed s p ≤ spare s ∧ fdsCopied = true)
      fun e _ => ((∃ msg, e = .err msg) ∧ (spare s < forkNeed s p ∨
          (fdsCopied = false ∧ stackTaken s.mem s.cr3 = none))) ∨
        ((∃ msg, e = .panic msg) ∧ forkNeed s p ≤ spare s ∧ stackTaken s.mem s.cr3 ≠ none) := by
  simp only [Process.forkFrom, ends_bind]
  refine (cloneUserAddressSpace_ends h hp).with_run.mono (fun child t hclone => ?_)
    fun _ _ hfail => ?_
  · obtain ⟨⟨-, hcount⟩, hrun⟩ := hclone
    have hk := cloneUserAddressSpace_kept h hp hcr3 hrun
    have hpath' := hk.stackPath hpath
    have hchild : child ∈ heldBut t ∅ :=
      ⟨(hk.wf.table_owned _ (isTable_root (Set.mem_insert _ _))).not_fresh, Set.notMem_empty _⟩
    have hstack := allocateKernelStack_takes hk.wf.bound (hpath'.pathIn hchild hk.wf.kernel_held)
      fun i hi e he => hk.wf.kernel_held _ (hpath'.page_mem hi he)
    rw [hk.stackTaken_eq hpath, hk.stackNeed_eq hpath] at hstack
    refine hstack.mono (fun _ t' hend => ?_) fun _ _ hfail => ?_
    · cases fdsCopied with
      | true => exact ⟨by unfold forkNeed; omega, rfl⟩
      | false => exact .inl ⟨⟨_, rfl⟩, .inr ⟨rfl, hend.1⟩⟩
    · unfold forkNeed
      rcases hfail with ⟨hmsg, hlt⟩ | ⟨hmsg, htaken, hle⟩
      · exact .inl ⟨hmsg, .inl (by omega)⟩
      · exact .inr ⟨hmsg, by omega, htaken⟩
  · exact .inl ⟨hfail.1.1, .inl (by unfold forkNeed; omega)⟩

end

/-- Once the L4 table of the child is allocated, it stays. -/
theorem forkFrom_leaks (s : KMem) (p : Process) (childPid : Pid) (fdsCopied : Bool) :
    Ends (p.forkFrom childPid fdsCopied) s (fun _ _ => True) fun _ s' => (spare s = 0 ∧ s' = s) ∨
        (0 < spare s ∧ ∃ f, s.frames.allocated f = false ∧ s'.frames.allocated f = true) := by
  have hrest : ∀ child, MovesAlong Taking (do
      cloneEntries p.pageTablePhys child 256 "Failed to allocate L3 for clone"
        (fun _ => pure ()) cloneL3
      allocateKernelStack child kernelStackTop kernelStackPages
      if fdsCopied then return p.child childPid child
      else throwErr "Failed to fork FD table" : KM Process) := by
    intro child
    refine (taking_cloneEntries (fun _ => .pure _) taking_cloneL3).bind fun _ =>
      (taking_allocateStack _ _ _ _).bind fun _ => ?_
    cases fdsCopied with
    | true => exact .pure _
    | false => exact .throw _
  have hsplit : p.forkFrom childPid fdsCopied = createUserPageTable >>= fun child => (do
      cloneEntries p.pageTablePhys child 256 "Failed to allocate L3 for clone"
        (fun _ => pure ()) cloneL3
      allocateKernelStack child kernelStackTop kernelStackPages
      if fdsCopied then return p.child childPid child
      else throwErr "Failed to fork FD table") := by
    simp only [Process.forkFrom, cloneUserAddressSpace, bind_assoc, pure_bind]
    rfl
  rw [hsplit]
  refine createUserPageTable_spare.bind (fun child s1 hnew => ?_) fun _ _ hout => .inl hout.2
  refine (hrest child s1).mono (fun _ _ _ => trivial) fun _ s' hle =>
    .inr ⟨by omega, child, ?_, ?_⟩
  · exact hnew.1.fresh.2.2.2
  · exact FramesLe.allocated hle child hnew.1.owned.2.2.2

/-- A failed fork has undone its changes if and only if it could not even begin, or
could not fail: every frame it needs is there, and the descriptors can be copied unless
the kernel stack stops it before. -/
theorem forkFrom_undone_iff (h : Wf s roots K) (hp : p.pageTablePhys ∈ roots)
    (hcr3 : ¬Fresh s.frames s.cr3) (hpath : StackPath s s.cr3 K)
    (childPid : Pid) (fdsCopied : Bool) :
    (∀ e s', Throws (p.forkFrom childPid fdsCopied) s (.err e) s' → ForkUndone p s s') ↔
      spare s = 0 ∨ (forkNeed s p ≤ spare s ∧
        (fdsCopied = true ∨ stackTaken s.mem s.cr3 ≠ none)) := by
  have hends := forkFrom_ends h hp hcr3 hpath childPid fdsCopied
  have hleak := forkFrom_leaks s p childPid fdsCopied
  constructor
  · intro hall
    by_contra hcond
    obtain ⟨hspare, hmay⟩ := not_or.mp hcond
    -- otherwise the fork returns `Err`, and it keeps a frame
    rcases hends.cases with ⟨c, s', -, hneed, hfds⟩ | ⟨e, s', hrun, hwhy⟩
    · exact hmay ⟨hneed, .inl hfds⟩
    · rcases hwhy with ⟨⟨msg, rfl⟩, -⟩ | ⟨-, hneed, htaken⟩
      · rcases hrun.of_ends hleak with ⟨hzero, -⟩ | ⟨-, f, hfree, hkept⟩
        · exact hspare hzero
        · rw [(hall msg s' hrun).frames f hkept] at hfree
          cases hfree
      · exact hmay ⟨hneed, .inr htaken⟩
  · intro hcond e s' hrun
    have hwhy := hrun.of_ends hends
    rcases hcond with hzero | ⟨hneed, hdone⟩
    · rcases hrun.of_ends hleak with ⟨-, rfl⟩ | ⟨hpos, -⟩
      · exact ⟨fun _ => ⟨rfl, rfl⟩, fun _ => rfl, fun _ hf => hf⟩
      · omega
    · rcases hwhy with ⟨-, hlt | ⟨hfds, hfree⟩⟩ | ⟨⟨msg, hmsg⟩, -⟩
      · omega
      · rcases hdone with hdone | hdone
        · rw [hfds] at hdone
          cases hdone
        · exact absurd hfree hdone
      · cases hmsg

/-- The first process, switched to, with 63 frames in all. -/
theorem forkFrom_undone_iff_init :
    ∃ p s', Returns (Process.new initSelectors initImage [] 2) bootMem p s' ∧
      ((∀ e s₃, Throws (p.forkFrom 3 true) { s' with cr3 := p.pageTablePhys } (.err e) s₃ →
          ForkUndone p { s' with cr3 := p.pageTablePhys } s₃) ↔
        spare { s' with cr3 := p.pageTablePhys } = 0 ∨
          (forkNeed { s' with cr3 := p.pageTablePhys } p ≤
            spare { s' with cr3 := p.pageTablePhys } ∧
            (true = true ∨ stackTaken s'.mem p.pageTablePhys ≠ none))) := by
  obtain ⟨p, s', hnew⟩ := returns_of_succeeds initProcess_returns
  have hwf : Wf bootMem ∅ ∅ := Wf.empty (fun f hf => absurd hf (Set.notMem_empty f)) (by decide)
  have hrun := Process.new_running hwf (by simp [Fresh, bootMem, FrameAllocator.new])
    (fun l3 h3 => by simp [tableAt, bootMem, Pte.isPresent] at h3)
    (by simp [UserImage, initImage, userSpaceMax]) hnew
  obtain ⟨roots, K, hwf', hp, -, l3, l2, l1, htab, -⟩ := hrun
  have hheld := (hwf'.table_owned _ (isTable_root hp)).not_fresh
  exact ⟨p, s', hnew, forkFrom_undone_iff hwf' hp hheld htab.path 3 true⟩

/-- A memory of 20 frames: 16 for the first process, and four for the child's tables. -/
def shortMem : KMem :=
  { bootMem with frames := { FrameAllocator.new 1 21 with refcounts := some fun _ => 0 } }

theorem shortProcess_returns : outcome (do
    let _ ← Process.new initSelectors initImage [] 2
    return decide (Fresh (← get).frames 17)) shortMem = .ok true := by
  unfold Process.new
  rw [createUserPageTable_eq]
  decide +kernel

theorem shortFork_thrown : thrown spawnAndFork shortMem =
    some (.err "Failed to allocate stack frame") := by
  unfold spawnAndFork Process.new Process.forkFrom cloneUserAddressSpace
  rw [createUserPageTable_eq]
  decide +kernel

/-- The clone succeeds, but there is no frame for the kernel stack: the fork returns
`Err` and a frame that was free is not given back. -/
theorem failed_fork_keeps_frames :
    ∃ p s' s₃, Returns (Process.new initSelectors initImage [] 2) shortMem p s' ∧
      Throws (p.forkFrom 3 true) { s' with cr3 := p.pageTablePhys }
        (.err "Failed to allocate stack frame") s₃ ∧
      (∃ f, s'.frames.allocated f = false ∧ s₃.frames.allocated f = true) ∧
      ¬ForkUndone p { s' with cr3 := p.pageTablePhys } s₃ := by
  obtain ⟨s₁, hnew⟩ := returns_of_outcome shortProcess_returns
  simp only [returns_bind, returns_get, returns_pure, and_assoc,
    exists_and_left, exists_eq_left] at hnew
  obtain ⟨p, s', hnew, hfresh, -⟩ := hnew
  have hfresh : Fresh s'.frames 17 := of_decide_eq_true hfresh.symm
  obtain ⟨s₃, hthrow⟩ := throws_of_thrown shortFork_thrown
  simp only [spawnAndFork, throws_bind, not_throws_modify, false_or, returns_modify, exists_const,
    exists_eq_left] at hthrow
  rcases hthrow with hthrow | ⟨q, t, hnew', hthrow⟩
  · exact absurd hnew (not_returns_of_throws hthrow)
  obtain ⟨rfl, rfl⟩ := hnew.unique hnew'
  rcases hthrow.of_ends (forkFrom_leaks _ p 3 true) with ⟨hzero, -⟩ | ⟨-, f, hfree, hkept⟩
  · exact absurd hfresh (spare_eq_zero.mp hzero 17)
  · refine ⟨p, s', s₃, hnew, hthrow, ⟨f, hfree, hkept⟩, fun hundone => ?_⟩
    rw [hundone.frames f hkept] at hfree
    cases hfree

end PandaOS.Kernel
