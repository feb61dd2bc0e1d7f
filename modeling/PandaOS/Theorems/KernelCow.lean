import PandaOS.Kernel.UserStore
import PandaOS.Theorems.ForkStack

/-!
# System calls and copy-on-write pages

After a clone every page that was writable is shared read-only. A store from user
mode to such a page is resolved by `handle_cow_fault`, but `page_fault_handler`
goes there for faults in user mode only: when a system call stores its result to
such a page, the fault is in kernel mode and the kernel panics.
-/

namespace PandaOS.Kernel

open Hal Lib

/-- A read-only entry marked copy-on-write. -/
def isCow (e : Word) : Bool := Pte.has e Pte.COPY_ON_WRITE && !Pte.has e Pte.WRITABLE

/-- The page is present, read-only and marked copy-on-write. -/
def CowPage (s : KMem) (pt va : Nat) : Prop := (walkEntry s pt va).any isCow = true

instance (s : KMem) (pt va : Nat) : Decidable (CowPage s pt va) :=
  inferInstanceAs (Decidable ((walkEntry s pt va).any isCow = true))

variable {s s' s1 : KMem} {pt va : Nat}

theorem cowPage_iff : CowPage s pt va ↔ ∃ e, walkEntry s pt va = some e ∧ isCow e = true := by
  unfold CowPage
  rw [Option.any_eq_true]

/-- The MMU finds a read-only page. -/
theorem CowPage.translate (h : CowPage s pt va) :
    ∃ t, translate s.mem pt va = some t ∧ t.writable = false := by
  obtain ⟨e, he, hcow⟩ := cowPage_iff.mp h
  obtain ⟨l3, l2, l1, h3, h2, h1, hp, rfl⟩ := walkEntry_eq_some.mp he
  have hleaf : tableAt s.mem l1 (p1Index va) = some (Pte.frame (s.mem l1 (p1Index va))) :=
    child_of_present hp
  have hro : Pte.has (s.mem l1 (p1Index va)) Pte.WRITABLE = false := by
    simpa using (Bool.and_eq_true_iff.mp hcow).2
  unfold Kernel.translate
  simp only [h3, h2, h1, hleaf, hro, Bool.and_false, Option.bind_eq_bind, Option.bind_some]
  exact ⟨_, rfl, rfl⟩

/-- The handler has no case for it. -/
theorem kernelFault_present (p : ProcMem) (va : Nat) :
    pageFaultHandler (some p) va true true false = throwPanic "Unhandled page fault type" := by
  simp [pageFaultHandler]

/-- A store of the kernel to such a page is fatal. -/
theorem kernelStore_cow (p : ProcMem) (b : BitVec 8)
    (hva : va < userSpaceMax) (h : CowPage s s.cr3 va) :
    Throws (kernelStore p va b) s (.panic "Unhandled page fault type") s := by
  obtain ⟨t, ht, hro⟩ := h.translate
  have hcanon : canonical va = true := by
    unfold canonical
    unfold userSpaceMax at hva
    rw [decide_eq_true (show va < 2 ^ 47 by omega), Bool.true_or]
  unfold kernelStore
  rw [hcanon]
  refine throws_bind.mpr (.inr ⟨(), s, rfl, ?_⟩)
  refine throws_bind.mpr (.inr ⟨s, s, rfl, throws_bind.mpr (.inr ⟨s, s, rfl, ?_⟩)⟩)
  rw [ht]
  refine throws_bind.mpr (.inr ⟨s, s, rfl, throws_bind.mpr (.inr ⟨s, s, rfl, ?_⟩)⟩)
  simp only [ht, hro, kernelFault_present]
  exact throws_throw.mpr ⟨rfl, rfl⟩

/-! ## System calls -/

/-- In every state, for every process and every result of a system call: when the kernel
comes to store a byte of it to a copy-on-write page of the active address space, it
panics. -/
theorem kernelCowWrite_panics (p : ProcMem) {ptr i : Nat} {src : List (BitVec 8)} (hptr : ptr ≠ 0)
    (htop : ptr + src.length < 2 ^ 64) (hi : i < src.length)
    (hbefore : Returns (storeUserBytes p ptr src i) s () s₁) (hva : ptr + i < userSpaceMax)
    (hcow : CowPage s₁ s₁.cr3 (ptr + i)) :
    Throws (copyToUser p ptr src) s (.panic "Unhandled page fault type") s₁ := by
  have hne : ¬src.isEmpty := by
    rw [List.isEmpty_iff_length_eq_zero]
    omega
  unfold copyToUser
  rw [if_neg hptr, if_neg hne, if_neg (by omega)]
  refine throws_bind.mpr (.inl (forRange_throws hi hbefore ?_))
  rw [Nat.zero_add]
  exact kernelStore_cow p _ hva hcow

/-- Build the first process, switch to it and clone its address space. -/
def spawnAndClone : KM (Process × Nat) := do
  let p ← Process.new initSelectors initImage [] 2
  modify fun s => { s with cr3 := p.pageTablePhys }
  let child ← cloneUserAddressSpace p.pageTablePhys
  return (p, child)

/-- The top of the user stack is copy-on-write then, in both address spaces. -/
theorem spawnAndClone_cow : outcome (do
    let (p, child) ← spawnAndClone
    let s ← get
    return decide (s.cr3 = p.pageTablePhys ∧ CowPage s p.pageTablePhys (userStackTop - 8) ∧
      CowPage s child (userStackTop - 8))) bootMem = .ok true := by
  unfold spawnAndClone Process.new cloneUserAddressSpace
  rw [createUserPageTable_eq]
  decide +kernel

theorem spawnAndClone_returns : ∃ p child s', Returns spawnAndClone bootMem (p, child) s' ∧
    s'.cr3 = p.pageTablePhys ∧ CowPage s' p.pageTablePhys (userStackTop - 8) ∧
      CowPage s' child (userStackTop - 8) := by
  obtain ⟨s1, hrun⟩ := returns_of_outcome spawnAndClone_cow
  simp only [returns_bind, returns_get, returns_pure, and_assoc,
    exists_and_left, exists_eq_left] at hrun
  obtain ⟨⟨p, child⟩, s', hrun, hcow, -⟩ := hrun
  exact ⟨p, child, s', hrun, of_decide_eq_true hcow.symm⟩

/-- The child runs, and a system call stores four bytes to its stack. -/
theorem kernelCowWrite_panics_child : ∃ p child s', Returns spawnAndClone bootMem (p, child) s' ∧
    CowPage s' child (userStackTop - 8) ∧
      Throws (copyToUser p.toProcMem (userStackTop - 8) [1, 2, 3, 4]) { s' with cr3 := child }
        (.panic "Unhandled page fault type") { s' with cr3 := child } := by
  obtain ⟨p, child, s', hrun, -, -, hcow⟩ := spawnAndClone_returns
  refine ⟨p, child, s', hrun, hcow, kernelCowWrite_panics p.toProcMem
    (i := 0) (by decide) (by decide) (by decide) (pure_returns _ _) (by decide) hcow⟩

/-- The first process clones its address space, and a system call then stores one byte
to its stack, which was writable before: the kernel panics. -/
theorem clone_then_store_panics : ∃ p child s', Returns spawnAndClone bootMem (p, child) s' ∧
    CowPage s' s'.cr3 (userStackTop - 8) ∧
      Throws (copyToUser p.toProcMem (userStackTop - 8) [1]) s'
        (.panic "Unhandled page fault type") s' := by
  obtain ⟨p, child, s', hrun, hcr3, hcow, -⟩ := spawnAndClone_returns
  rw [← hcr3] at hcow
  refine ⟨p, child, s', hrun, hcow, throws_bind.mpr (.inl (throws_bind.mpr (.inl ?_)))⟩
  exact kernelStore_cow p.toProcMem 1 (by decide) hcow

end PandaOS.Kernel
