import PandaOS.Logic.KernelStack
import PandaOS.Logic.Vm

/-!
# Building a process

`Process::new` makes an address space, adds the pages of the image and of the
user stack, and allocates the kernel stack. `Process.new_ok` splits a run at
the last of these: what new pages keep (`PageInv`) holds before it, and from
there on only the kernel's frames grow.
-/

namespace PandaOS.Kernel

open Hal Lib

variable {s s' t : KMem} {roots K : Set Nat} {pt : Nat}

/-- All segments lie in the user half. -/
def UserImage (info : ElfInfo) : Prop :=
  ∀ seg ∈ info.loadSegments, seg.vaddr + seg.memSize ≤ userSpaceMax

/-! ## The kernel stack's path in a new address space -/

theorem pageFlags_userStack :
    PageFlags (Pte.PRESENT ||| Pte.WRITABLE ||| Pte.USER_ACCESSIBLE ||| Pte.NO_EXECUTE) := by
  unfold PageFlags
  decide

section

variable {pt pt' : Nat}

theorem tableAt_kernel {f i : Nat} (hK : ∀ f ∈ K, t.mem f = s.mem f) (hf : f ∈ K) :
    tableAt t.mem f i = tableAt s.mem f i := by
  unfold tableAt
  rw [hK f hf]

theorem tableAt_top (htop : t.mem pt' 511 = s.mem pt 511) :
    tableAt t.mem pt' 511 = tableAt s.mem pt 511 := by
  unfold tableAt
  rw [htop]

/-- The walk to the kernel stack depends on the kernel's frames and one entry
of the L4 table. -/
theorem StackPath.of_eq (h : StackPath s pt K) (htop : t.mem pt' 511 = s.mem pt 511)
    (hK : ∀ f ∈ K, t.mem f = s.mem f) : StackPath t pt' K := by
  intro l3 h3
  obtain ⟨m3, h⟩ := h l3 (tableAt_top htop ▸ h3)
  refine ⟨m3, fun l2 h2 => ?_⟩
  obtain ⟨m2, h⟩ := h l2 (tableAt_kernel hK m3 ▸ h2)
  refine ⟨m2, fun l1 h1 => ?_⟩
  obtain ⟨m1, h⟩ := h l1 (tableAt_kernel hK m2 ▸ h1)
  exact ⟨m1, fun j f hf => h j f (tableAt_kernel hK m1 ▸ hf)⟩

theorem StackMapped.of_eq {n : Nat} (h : StackMapped s pt K n) (htop : t.mem pt' 511 = s.mem pt 511)
    (hK : ∀ f ∈ K, t.mem f = s.mem f) : StackMapped t pt' K n := by
  obtain ⟨l3, l2, l1, ⟨top, middle, last, ⟨m3, m2, m1⟩, pages⟩, hpages⟩ := h
  refine ⟨l3, l2, l1, ⟨(tableAt_top htop).trans top, (tableAt_kernel hK m3).trans middle,
    (tableAt_kernel hK m2).trans last, ⟨m3, m2, m1⟩, fun j f hf => ?_⟩, fun i hi => ?_⟩
  · exact pages j f (tableAt_kernel hK m1 ▸ hf)
  · rw [tableAt_kernel hK m1]
    exact hpages i hi

end

/-- The kernel's frames are as in `s`, and the kernel half of `pt` is that of
the table that was active there. -/
structure KernelKept (s : KMem) (roots K : Set Nat) (pt : Nat) (t : KMem) : Prop where
  wf : Wf t roots K
  content : ∀ f ∈ K, t.mem f = s.mem f
  upper : ∀ i, 256 ≤ i → i < 512 → t.mem pt i = s.mem s.cr3 i

theorem NewSpace.kernelKept (n : NewSpace s t pt) (h : Wf s roots K)
    (hcr3 : ¬Fresh s.frames s.cr3) : KernelKept s (insert pt roots) K pt t where
  wf := n.wf h
  content f hf := n.content f fun heq => h.kernel_held f hf (heq ▸ n.fresh)
  upper := n.upper fun heq => hcr3 (heq ▸ n.fresh)

/-- New pages do not touch the kernel's half. -/
theorem pageInv_kernelKept (hr : pt ∈ roots) (A : PageRule) :
    PageInv roots K pt A (KernelKept s roots K pt) where
  wf _ h := h.wf
  step t t' v f fl _ h _ n := by
    refine ⟨n.wf, fun g hg => ?_, fun i hlo hhi => ?_⟩
    · rw [n.content (h.wf.kernel_held g hg) (h.wf.kernel_apart g hg), h.content g hg]
    · rw [n.upper pt hr i hlo, h.upper i hlo hhi]

theorem KernelKept.stackPath (h : KernelKept s roots K pt t)
    (hpath : StackPath s s.cr3 K) : StackPath t pt K :=
  hpath.of_eq (h.upper 511 (by omega) (by omega)) h.content

/-! ## Process::new -/

/-- What new pages keep holds before the kernel stack is allocated. -/
theorem Process.new_ok {sel : Selectors} {info : ElfInfo} {data : List Byte} {pid : Pid}
    {p : Process} {A : PageRule} {J : KMem → Prop}
    (hret : Returns (Process.new sel info data pid) s p s')
    (inv : PageInv (insert p.pageTablePhys roots) K p.pageTablePhys A J)
    (hstart : ∀ t, NewSpace s t p.pageTablePhys → J t)
    (hsegs : ∀ seg ∈ info.loadSegments, ∀ v ∈ seg.pages, ∀ c c', FileBytes data c' →
      A v (segmentFlags seg) c c')
    (himage : UserImage info)
    (hstack : ∀ i < userStackPages, ∀ c, A (stackPage userStackTop i)
      (Pte.PRESENT ||| Pte.WRITABLE ||| Pte.USER_ACCESSIBLE ||| Pte.NO_EXECUTE) c fun _ => 0)
    (hpath : ∀ t, J t → StackPath t p.pageTablePhys K) :
    ∃ t K', J t ∧ KernelGrows (insert p.pageTablePhys roots) K K' t s' ∧
      StackMapped s' p.pageTablePhys K' kernelStackPages ∧
      (∀ seg ∈ info.loadSegments, ∀ v ∈ seg.pages, leafOf t p.pageTablePhys v ≠ none) ∧
      ∀ i < userStackPages, leafOf t p.pageTablePhys (stackPage userStackTop i) ≠ none := by
  simp only [Process.new, returns_bind, returns_pure] at hret
  obtain ⟨pt, t1, hnew, _, t2, hload, _, t3, hustack, _, t4,
      hkstack, hs, t5, hheap, heap, t6, hinfo, rfl, rfl⟩ := hret
  obtain rfl := hinfo.of_ends (reads_heapInfo _ _)
  obtain rfl := hheap.of_ends (reads_calculateHeapStart info _)
  have hr : pt ∈ insert pt roots := Set.mem_insert _ _
  have h1 := hstart t1 (createUserPageTable_ok hnew)
  obtain ⟨hpages2, -, himage2⟩ := hload.of_ends (loadElfSegments_ends (inv.wf t1 h1) hr
    fun seg hseg => ⟨himage seg hseg, hsegs seg hseg⟩)
  have h2 := inv.pages h1 hpages2
  obtain ⟨hpages3, hstack3⟩ := hustack.of_ends (allocateStack_ends (inv.wf t2 h2) hr
    pageFlags_userStack (by decide) hstack)
  have h3 := inv.pages h2 hpages3
  obtain ⟨K', hg, hm⟩ := allocateKernelStack_ok (inv.wf t3 h3) hr (hpath t3 h3) hkstack
  refine ⟨t3, K', h3, hg, hm, fun seg hseg v hv => ?_, hstack3⟩
  exact hpages3.mapped hr (seg.page_lt (himage seg hseg) hv) (himage2 seg hseg v hv)

end PandaOS.Kernel
