import PandaOS.Logic.Clone
import PandaOS.Logic.Spawn

/-!
# Forking and the kernel stack

A child should get a kernel stack of its own. `create_user_page_table` copies
the kernel half of the running table, L4 entry 511 included, so the child's
table reaches the parent's kernel stack through the shared L3 table. When
`fork_from` then allocates the child's kernel stack, the first `map_page` finds
the parent's frame and panics: `forkFrom_remaps`.
-/

namespace PandaOS.Kernel

open Hal Lib

variable {s s' : KMem} {roots K : Set Nat}

/-- The frames that the kernel-stack range is mapped to. -/
def stackFrames (mem : Nat → Nat → Word) (pt : Nat) : Set Nat :=
  { f | ∃ i < kernelStackPages, lookupFrame mem pt (stackVa i) = some f }

/-- `fork_from` completes and the two kernel stacks are apart. -/
def ForksApart (s : KMem) (p : Process) (childPid : Pid) (fdsCopied : Bool) : Prop :=
  ∃ child s', Returns (p.forkFrom childPid fdsCopied) s child s' ∧
    Disjoint (stackFrames s'.mem p.pageTablePhys) (stackFrames s'.mem child.pageTablePhys)

/-- The process runs on its page table, with its kernel stack mapped to frames
of the kernel. -/
def Running (s : KMem) (p : Process) : Prop :=
  ∃ roots K, Wf s roots K ∧ p.pageTablePhys ∈ roots ∧ s.cr3 = p.pageTablePhys ∧
    StackMapped s p.pageTablePhys K kernelStackPages

/-- A process that `Process::new` built can be switched to. -/
theorem Process.new_running {sel : Selectors} {info : ElfInfo} {data : List Byte} {pid : Pid}
    {p : Process} (h : Wf s roots K) (hcr3 : ¬Fresh s.frames s.cr3) (hpath : StackPath s s.cr3 K)
    (himage : UserImage info) (hret : Returns (Process.new sel info data pid) s p s') :
    Running { s' with cr3 := p.pageTablePhys } p := by
  obtain ⟨t, K', -, hg, hm, -⟩ := Process.new_ok hret
    (pageInv_kernelKept (Set.mem_insert _ _) fun _ _ _ _ => True)
    (fun _ n => n.kernelKept h hcr3) (fun _ _ _ _ _ _ _ => trivial) himage (fun _ _ _ => trivial)
    (fun _ hk => hk.stackPath hpath)
  exact ⟨_, K', hg.wf.switch _, Set.mem_insert _ _, rfl, hm.of_eq rfl fun _ _ => rfl⟩

/-- A clone has the kernel half of the active table. -/
theorem cloneUserAddressSpace_kept {parent child : Nat} (h : Wf s roots K) (hp : parent ∈ roots)
    (hcr3 : ¬Fresh s.frames s.cr3) (hret : Returns (cloneUserAddressSpace parent) s child s') :
    KernelKept s (insert child roots) K child s' := by
  obtain ⟨⟨s1, hnew, hcl⟩, -⟩ := hret.of_ends (cloneUserAddressSpace_ends h hp)
  have hw1 := hnew.wf h
  refine ⟨hcl.wf, fun f hf => ?_, fun i hlo hhi => ?_⟩
  · rw [hcl.grows.content (hw1.kernel_held f hf) (hw1.kernel_apart f hf), hnew.content f ?_]
    rintro rfl
    exact h.kernel_held f hf hnew.fresh
  · rw [hcl.grows.upper child (Set.mem_insert _ _) i hlo, hnew.upper ?_ i hlo hhi]
    exact fun heq => hcr3 (heq ▸ hnew.fresh)

/-- A fork of a running process stops: out of frames, or with the panic of
`map_page`. -/
theorem Running.fork_throws {p : Process} (h : Running s p) (childPid : Pid) (fdsCopied : Bool) :
    ∃ e s', Throws (p.forkFrom childPid fdsCopied) s e s' ∧ (OutOfFrames e s' ∨ StackRemap e) := by
  obtain ⟨roots, K, hwf, hp, hcr3, hm⟩ := h
  simp only [Process.forkFrom, throws_bind]
  rcases returns_or_throws (cloneUserAddressSpace p.pageTablePhys) s with
    ⟨child, t, hclone⟩ | ⟨e, t, hclone⟩
  · have hheld : ¬Fresh s.frames s.cr3 := hcr3 ▸ (hwf.table_owned _ (isTable_root hp)).not_fresh
    have hk := cloneUserAddressSpace_kept hwf hp hheld hclone
    -- the child reaches the parent's kernel stack
    have hm' : StackMapped t child K kernelStackPages := by
      refine hm.of_eq ?_ hk.content
      rw [hk.upper 511 (by omega) (by omega), hcr3]
    obtain ⟨e, t', hthrow, hwhy⟩ := allocateKernelStack_mapped hk.wf hm'
    exact ⟨e, t', Or.inr ⟨child, t, hclone, Or.inl hthrow⟩, hwhy⟩
  · exact ⟨e, t, Or.inl hclone, Or.inl (hclone.of_ends (cloneUserAddressSpace_ends hwf hp)).1⟩

/-- For every page table that `Process::new` builds: a process that runs on it,
right after or at any later time, cannot fork. -/
theorem forkFrom_remaps {sel : Selectors} {info : ElfInfo} {data : List Byte} {pid : Pid}
    {p : Process} (hnew : Returns (Process.new sel info data pid) s p s') :
    (∀ roots K, Wf s roots K → ¬Fresh s.frames s.cr3 → StackPath s s.cr3 K → UserImage info →
      Running { s' with cr3 := p.pageTablePhys } p) ∧
    ∀ s₂, Running s₂ p → ∀ childPid fdsCopied,
      ¬ForksApart s₂ p childPid fdsCopied ∧
      ∃ e s₃, Throws (p.forkFrom childPid fdsCopied) s₂ e s₃ ∧
        (OutOfFrames e s₃ ∨ StackRemap e) := by
  refine ⟨fun roots K h hcr3 hpath himage => Process.new_running h hcr3 hpath himage hnew, ?_⟩
  intro s₂ hrun childPid fdsCopied
  have hthrow := hrun.fork_throws childPid fdsCopied
  refine ⟨?_, hthrow⟩
  rintro ⟨child, t, hret, -⟩
  obtain ⟨e, s₃, hthrow, -⟩ := hthrow
  exact not_returns_of_throws hthrow hret

/-! ## A run -/

/-- An empty memory of 63 frames, with the boot table in frame 0. -/
def bootMem : KMem where
  mem := fun _ _ => 0
  frames := { FrameAllocator.new 1 64 with refcounts := some fun _ => 0 }
  tracker := none
  cr3 := 0
  debug := true

def initSelectors : Selectors := ⟨0x2b, 0x23⟩

/-- One executable page below the user stack. -/
def initImage : ElfInfo where
  entryPoint := 0x7FFF_FFF0_0000
  loadSegments := [⟨0x7FFF_FFF0_0000, 0, 0, 0x1000, 5⟩]
  phdrAddr := 0
  phnum := 1

/-- Build the process, switch to it and fork. -/
def spawnAndFork : KM Process := do
  let p ← Process.new initSelectors initImage [] 2
  modify fun s => { s with cr3 := p.pageTablePhys }
  p.forkFrom 3 true

theorem initProcess_returns : succeeds (Process.new initSelectors initImage [] 2) bootMem =
    true := by
  unfold Process.new
  rw [createUserPageTable_eq]
  decide +kernel

theorem spawnAndFork_thrown : thrown spawnAndFork bootMem =
    some (.panic (remapText (stackVa 0) (frameAddr 10) (frameAddr 21))) := by
  unfold spawnAndFork Process.new Process.forkFrom cloneUserAddressSpace
  rw [createUserPageTable_eq]
  decide +kernel

/-- With 42 frames left, the fork panics. -/
theorem initFork_panics : ∃ p s', Returns (Process.new initSelectors initImage [] 2) bootMem p s' ∧
    ∃ s₃, Throws (p.forkFrom 3 true) { s' with cr3 := p.pageTablePhys }
      (.panic (remapText (stackVa 0) (frameAddr 10) (frameAddr 21))) s₃ := by
  obtain ⟨p, s', hnew⟩ := returns_of_succeeds initProcess_returns
  obtain ⟨s₃, hthrow⟩ := throws_of_thrown spawnAndFork_thrown
  refine ⟨p, s', hnew, s₃, ?_⟩
  simp only [spawnAndFork, throws_bind, not_throws_modify, false_or, returns_modify, exists_const,
    exists_eq_left] at hthrow
  rcases hthrow with hthrow | ⟨q, t, hnew', hthrow⟩
  · exact absurd hnew (not_returns_of_throws hthrow)
  · obtain ⟨rfl, rfl⟩ := hnew.unique hnew'
    exact hthrow

theorem forkFrom_remaps_init :
    ∃ p s', Returns (Process.new initSelectors initImage [] 2) bootMem p s' ∧
      Running { s' with cr3 := p.pageTablePhys } p ∧
      ¬ForksApart { s' with cr3 := p.pageTablePhys } p 3 true := by
  obtain ⟨p, s', hnew⟩ := returns_of_succeeds initProcess_returns
  have hwf : Wf bootMem ∅ ∅ := Wf.empty (fun f hf => absurd hf (Set.notMem_empty f)) (by decide)
  have hrun := (forkFrom_remaps hnew).1 ∅ ∅ hwf (by simp [Fresh, bootMem, FrameAllocator.new])
    (fun l3 h3 => by simp [tableAt, bootMem, Pte.isPresent] at h3)
    (by simp [UserImage, initImage, userSpaceMax])
  exact ⟨p, s', hnew, hrun, ((forkFrom_remaps hnew).2 _ hrun 3 true).1⟩

end PandaOS.Kernel
