import PandaOS.Lib.TSys
import PandaOS.Logic.Tracker

/-!
# The page table tracker

Runs of the functions that build and free page tables. Building keeps the
tracker's list equal to the tables in use; freeing does not take anything off
the list, so the first free breaks the equality for good.
-/

namespace PandaOS.Kernel

open Hal Lib

/-- The kernel, and the L4 tables that were created and not freed. -/
structure TableState where
  kernel : KMem
  roots : Set Nat

inductive TableOp
  | create
  | map (pt va f : Nat) (flags : Word)
  | clone (parent : Nat)
  | allocate
  | free (pt : Nat) (kernelStack : Bool)

/-- Some run of the program from `s` ends in `s'`. -/
def Ran {α : Type} (x : KM α) (s s' : KMem) : Prop :=
  (∃ a, Returns x s a s') ∨ ∃ e, Throws x s e s'

/-- The calls, whether they succeed or fail. A clone that fails after it has
made a table for the child leaves that table behind. -/
inductive TableStep : TableState → TableOp → TableState → Prop
  | create {s R c s'} : Returns createUserPageTable s c s' →
      TableStep ⟨s, R⟩ .create ⟨s', insert c R⟩
  | createFails {s R e s'} : Throws createUserPageTable s e s' → TableStep ⟨s, R⟩ .create ⟨s', R⟩
  | map {s R pt va f flags s'} : pt ∈ R → Ran (mapPage pt va f flags) s s' →
      TableStep ⟨s, R⟩ (.map pt va f flags) ⟨s', R⟩
  | clone {s R parent c s1 s'} : parent ∈ R → Returns createUserPageTable s c s1 →
      Ran (cloneUserAddressSpace parent) s s' → TableStep ⟨s, R⟩ (.clone parent) ⟨s', insert c R⟩
  | cloneFails {s R parent e s'} : parent ∈ R → Throws createUserPageTable s e s' →
      TableStep ⟨s, R⟩ (.clone parent) ⟨s', R⟩
  | allocate {s R o s'} : Returns allocateFrame s o s' → TableStep ⟨s, R⟩ .allocate ⟨s', R⟩
  | free {s R pt kernelStack s'} : pt ∈ R → Ran (freeProcessAddressSpace pt kernelStack) s s' →
      TableStep ⟨s, R⟩ (.free pt kernelStack) ⟨s', R \ {pt}⟩

/-- Runs that start with the tracker in step with the tables, and whose calls
all meet the condition. -/
def tableRuns (P : TableOp → Prop) : TSys TableState where
  init σ := Tabled σ.kernel σ.roots
  step σ σ' := ∃ op, P op ∧ TableStep σ op σ'

/-- The call is not `free_process_address_space`. -/
def TableOp.Builds : TableOp → Prop
  | .free _ _ => False
  | _ => True

/-- `is_page_table_frame` holds for the tables in use and for no other frame,
and `allocate_frame` returns no such frame. -/
structure TrackerExact (s : KMem) (R : Set Nat) : Prop where
  exact : ∀ f, s.isPageTableFrame f = true ↔ InUse s R f
  fresh : ∀ f s', Returns allocateFrame s (some f) s' → s.isPageTableFrame f = false

variable {s s' : KMem} {R : Set Nat} {pt : Nat}

theorem Tabled.trackerExact (h : Tabled s R) : TrackerExact s R := by
  refine ⟨h.exact, fun f s' hret => Bool.eq_false_iff.mpr fun ht => ?_⟩
  exact h.held f ((h.exact f).mp ht) (allocateFrame_ok hret).fresh

/-! ## Building -/

theorem Ran.of_ends {α : Type} {x : KM α} {P : KMem → Prop} (h : Ran x s s')
    (hx : Ends x s (fun _ s' => P s') (fun _ s' => P s')) : P s' := by
  rcases h with ⟨a, hret⟩ | ⟨e, hthrow⟩
  · exact hret.of_ends hx
  · exact hthrow.of_ends hx

theorem allocateFrame_tabled {o : Option Nat} (h : Tabled s R)
    (hret : Returns allocateFrame s o s') : Tabled s' R := by
  cases o with
  | none => exact (allocateFrame_out hret).1 ▸ h
  | some f =>
    have a := allocateFrame_ok hret
    exact h.of_same (fun _ _ => by rw [a.mem]) (allocateFrame_tracker hret) a.cr3
      (fun _ hf => a.frames.fresh hf) a.frames.endFrame

theorem Tabled.step {σ σ' : TableState} {op : TableOp} (h : Tabled σ.kernel σ.roots)
    (hop : op.Builds) (hstep : TableStep σ op σ') : Tabled σ'.kernel σ'.roots := by
  cases hstep with
  | create hret => exact createUserPageTable_tabled h hret
  | createFails hthrow => exact (hthrow.of_ends (createUserPageTable_ends _)).2 ▸ h
  | map hpt hran => exact hran.of_ends (mapPage_tabled h hpt)
  | clone hp hnew hran =>
    exact hran.of_ends ((cloneUserAddressSpace_tabled h hp hnew).mono
      (fun _ _ k => k.2) fun _ _ k => k)
  | cloneFails _ hthrow => exact (hthrow.of_ends (createUserPageTable_ends _)).2 ▸ h
  | allocate hret => exact allocateFrame_tabled h hret
  | free => exact hop.elim

/-! ## Freeing -/

/-- Entries were cleared; the tracker is as it was. -/
structure Unlinked (s s' : KMem) : Prop where
  tracker : s'.tracker = s.tracker
  entry : ∀ t i, s'.mem t i = s.mem t i ∨ s'.mem t i = 0

theorem Unlinked.clear (h : Unlinked s s') (t i : Nat) : Unlinked s (s'.setEntry t i 0) := by
  refine ⟨h.tracker, fun t' j => ?_⟩
  rcases setEntry_zero s' t i t' j with heq | heq
  · rw [heq]
    exact h.entry t' j
  · exact .inr heq

theorem freeProcessAddressSpace_unlinks (s : KMem) (pt : Nat) (kernelStack : Bool) :
    Ends (freeProcessAddressSpace pt kernelStack) s (fun _ s' => Unlinked s s')
      (fun _ s' => Unlinked s s') :=
  freeProcessAddressSpace_ends (T := fun _ => Set.univ) (P := Unlinked s)
    ⟨rfl, fun _ _ => .inl rfl⟩ trivial (fun _ _ h => ⟨h.tracker, h.entry⟩) (fun _ _ h => h)
    (fun _ _ t _ i _ h => h.clear t i) (fun _ _ _ _ _ _ _ _ _ => trivial)
    (fun _ _ _ _ _ _ h _ => h) fun _ _ _ h => h

/-- Clearing entries makes no new tables. -/
theorem Unlinked.below {R' : Set Nat} (h : Unlinked s s') (hR : R' ⊆ R) (k : Nat) :
    tablesBelow s'.mem R' k ⊆ tablesBelow s.mem R k := by
  induction k with
  | zero => exact hR
  | succ k ih =>
    rintro c ⟨t, ht, i, hi, hc⟩
    refine ⟨t, ih ht, i, hi, ?_⟩
    rcases h.entry t i with heq | heq
    · rwa [tableAt, heq] at hc
    · rw [tableAt, heq] at hc
      cases hc

/-- The L4 table of a space that was freed is on the list and in use by nobody. -/
theorem Tabled.freed {kernelStack : Bool} (h : Tabled s R) (hpt : pt ∈ R)
    (hret : Returns (freeProcessAddressSpace pt kernelStack) s () s') :
    s'.isPageTableFrame pt = true ∧ ¬InUse s' (R \ {pt}) pt := by
  have hun := hret.of_ends (freeProcessAddressSpace_unlinks s pt kernelStack)
  constructor
  · rw [KMem.isPageTableFrame, hun.tracker]
    exact (h.exact pt).mpr ⟨0, by omega, hpt⟩
  · rintro ⟨d, hd, hm⟩
    have hold : pt ∈ tablesBelow s.mem R d := hun.below Set.sdiff_subset d hm
    obtain rfl := h.levels d hd 0 (by omega) pt hold hpt
    exact hm.2 rfl

/-- In every run without `free_process_address_space` that starts with the
tracker in step, `is_page_table_frame` holds exactly for the tables in use and
`allocate_frame` returns none of them. Every free ends that. -/
theorem tracker_exact {σ : TableState} (h : (tableRuns TableOp.Builds).Reachable σ) :
    TrackerExact σ.kernel σ.roots ∧
      ∀ pt ∈ σ.roots, ∀ kernelStack s',
        Returns (freeProcessAddressSpace pt kernelStack) σ.kernel () s' →
        ¬TrackerExact s' (σ.roots \ {pt}) := by
  have hinv : (tableRuns TableOp.Builds).Inductive fun σ => Tabled σ.kernel σ.roots :=
    { init := fun _ h => h
      step := fun _ _ h ⟨_, hop, hstep⟩ => h.step hop hstep }
  have htab := hinv.invariant σ h
  refine ⟨htab.trackerExact, fun pt hpt kernelStack s' hret hexact => ?_⟩
  obtain ⟨htracked, hnot⟩ := htab.freed hpt hret
  exact hnot ((hexact.exact pt).mp htracked)

/-! ## A run -/

/-- The active L4 table in frame 1, empty and tracked; the frames 2 to 15 are free. -/
def trackedMem : KMem where
  mem := fun _ _ => 0
  frames := { FrameAllocator.new 1 16 with
    allocated := fun f => f == 1, refcounts := some fun _ => 0 }
  tracker := some [1]
  cr3 := 1
  debug := true

theorem trackedMem_below (k : Nat) : tablesBelow trackedMem.mem {1} (k + 1) = ∅ := by
  ext c
  constructor
  · rintro ⟨t, -, i, -, hc⟩
    have habs : tableAt trackedMem.mem t i = none :=
      child_of_absent (show Pte.isPresent 0 = false by decide)
    rw [habs] at hc
    cases hc
  · intro hc
    cases hc

theorem trackedMem_tabled : Tabled trackedMem {1} := by
  have huse : ∀ f, InUse trackedMem {1} f ↔ f = 1 := by
    intro f
    constructor
    · rintro ⟨d, -, hm⟩
      cases d with
      | zero => exact hm
      | succ k => rw [trackedMem_below] at hm; cases hm
    · rintro rfl
      exact ⟨0, by omega, rfl⟩
  constructor
  case initialised => rfl
  case exact =>
    intro f
    rw [huse]
    simp [KMem.isPageTableFrame, trackedMem]
  case levels =>
    intro d _ d' _ f hm hm'
    cases d with
    | zero =>
      cases d' with
      | zero => rfl
      | succ k => rw [trackedMem_below] at hm'; cases hm'
    | succ k => rw [trackedMem_below] at hm; cases hm
  case held =>
    intro f hs hfr
    rw [(huse f).mp hs] at hfr
    cases hfr.2.2.2
  case active => rfl
  case bound => decide

theorem tracker_exact_created : ∃ s', Returns createUserPageTable trackedMem 2 s' ∧
    TrackerExact s' {2, 1} := by
  have hrun : outcome createUserPageTable trackedMem = .ok 2 := by
    rw [createUserPageTable_eq]
    decide +kernel
  obtain ⟨s', hret⟩ := returns_of_outcome hrun
  have hstart : (tableRuns TableOp.Builds).Reachable ⟨trackedMem, {1}⟩ := .init trackedMem_tabled
  exact ⟨s', hret, (tracker_exact (hstart.step ⟨.create, trivial, .create hret⟩)).1⟩

/-- After a space has been created and freed, `allocate_frame` returns the frame
of its L4 table, which is still tracked. -/
theorem tracked_frame_reused : ∃ σ f s', (tableRuns fun _ => True).Reachable σ ∧
    Returns allocateFrame σ.kernel (some f) s' ∧ σ.kernel.isPageTableFrame f = true ∧
      ¬InUse σ.kernel σ.roots f := by
  have hrun : outcome (do
      let c ← createUserPageTable
      freeProcessAddressSpace c false
      let f ← allocateFrame
      return (c, f)) trackedMem = .ok (2, some 2) := by
    rw [createUserPageTable_eq]
    decide +kernel
  obtain ⟨s', hret⟩ := returns_of_outcome hrun
  simp only [returns_bind, returns_pure, Prod.mk.injEq] at hret
  obtain ⟨c, s₁, hcreate, _, s₂, hfree, o, s₃, halloc, ⟨rfl, rfl⟩, rfl⟩ := hret
  have hstart : (tableRuns fun _ => True).Reachable ⟨trackedMem, {1}⟩ := .init trackedMem_tabled
  have hcreated := hstart.step ⟨.create, trivial, .create hcreate⟩
  have hfreed :=
    hcreated.step ⟨.free 2 false, trivial, .free (Set.mem_insert _ _) (.inl ⟨_, hfree⟩)⟩
  have htab := createUserPageTable_tabled trackedMem_tabled hcreate
  exact ⟨_, 2, s', hfreed, halloc, htab.freed (Set.mem_insert _ _) hfree⟩

end PandaOS.Kernel
