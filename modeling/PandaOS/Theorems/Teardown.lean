import PandaOS.Logic.Teardown

/-!
# Teardown is exact

An address space is built by `create_user_page_table` and by `map_page` calls
that map frames allocated in between. `free_process_address_space` then gives
back every frame that was taken, and no other.
-/

namespace PandaOS.Kernel

open Hal Lib

/-- The page table `pt` was created in `s0` and filled up to the state `s`; the
frames of `hand` are allocated and not mapped yet. -/
inductive SpaceBuilt (s0 : KMem) (pt : Nat) : Set Nat → KMem → Prop
  | create {s} : Returns createUserPageTable s0 pt s → SpaceBuilt s0 pt ∅ s
  | allocate {hand s f s'} : SpaceBuilt s0 pt hand s → Returns allocateFrame s (some f) s' →
      SpaceBuilt s0 pt (insert f hand) s'
  | map {hand s va f flags s'} : SpaceBuilt s0 pt hand s → f ∈ hand → va < userSpaceMax →
      PageFlags flags → Returns (mapPage pt va f flags) s () s' → SpaceBuilt s0 pt (hand \ {f}) s'

variable {s0 s s' : KMem} {pt f : Nat} {hand : Set Nat} {a : FrameAllocator}

/-- The frames the allocator hands out at all. -/
def Managed (a : FrameAllocator) (f : Nat) : Prop :=
  a.startFrame ≤ f ∧ f < a.endFrame ∧ a.isReserved f = false

theorem Owned.managed (h : Owned a f) : Managed a f := ⟨h.1, h.2.1, h.2.2.1⟩

theorem Fresh.managed (h : Fresh a f) : Managed a f := ⟨h.1, h.2.1, h.2.2.1⟩

theorem Managed.fresh (h : Managed a f) (hf : a.allocated f = false) : Fresh a f :=
  ⟨h.1, h.2.1, h.2.2, hf⟩

theorem FramesLe.managed {a a' : FrameAllocator} (h : FramesLe a a') :
    Managed a' f ↔ Managed a f := by
  unfold Managed
  rw [h.startFrame, h.endFrame, h.isReserved]

/-- What holds while a space is built: the frames that were taken before and
those in hand are nobody else's, and every other one is accounted for. -/
structure SpaceBuiltInv (s0 : KMem) (pt : Nat) (hand : Set Nat) (s : KMem) : Prop where
  ledger : Ledger s [pt] ({ f | ¬Fresh s0.frames f } ∪ hand) none
  frames : FramesLe s0.frames s.frames
  fresh : ∀ f ∈ hand, Fresh s0.frames f
  single : ∀ f ∈ hand, Owned s.frames f ∧ rcOf s.frames f = 1
  outside : ∀ f, ¬Managed s0.frames f → s.frames.allocated f = s0.frames.allocated f

/-- Before the first space what is not free is the kernel's. -/
theorem Ledger.start (hrc : s.frames.refcounts.isSome = true) (hb : s.frames.endFrame ≤ 2 ^ 40) :
    Ledger s [] { f | ¬Fresh s.frames f } none := by
  refine ⟨⟨List.nodup_nil, ?_, hrc, ?_, fun f ho hk _ => absurd ho.not_fresh hk⟩,
    fun f ho => .inl ho.not_fresh⟩
  · rw [show spaces [] = ∅ from Set.eq_empty_of_forall_notMem fun _ => List.not_mem_nil]
    exact Wf.empty (fun f hf => hf) hb
  · rintro f ⟨⟩

namespace SpaceBuiltInv

theorem create (hrc : s0.frames.refcounts.isSome = true) (hb : s0.frames.endFrame ≤ 2 ^ 40)
    (h : Returns createUserPageTable s0 pt s) : SpaceBuiltInv s0 pt ∅ s := by
  have n := createUserPageTable_ok h
  refine ⟨?_, n.frames, fun f hf => absurd hf (Set.notMem_empty f),
    fun f hf => absurd hf (Set.notMem_empty f), fun f hf => n.others f ?_⟩
  · rw [Set.union_empty]
    exact (Ledger.start hrc hb).newSpace n
  · rintro rfl
    exact hf n.fresh.managed

theorem allocate (h : SpaceBuiltInv s0 pt hand s) (hret : Returns allocateFrame s (some f) s') :
    SpaceBuiltInv s0 pt (insert f hand) s' := by
  have a := allocateFrame_ok hret
  have hnew : f ∉ hand := fun hf => (h.single f hf).1.not_fresh a.fresh
  refine ⟨?_, h.frames.trans a.frames, ?_, ?_, fun g hg => ?_⟩
  · rw [Set.union_insert]
    exact h.ledger.kernelGrows ((KernelGrows.refl h.ledger.wf).alloc a)
  · rintro g (rfl | hg)
    · exact h.frames.fresh a.fresh
    · exact h.fresh g hg
  · rintro g (rfl | hg)
    · exact ⟨a.owned, a.rc_new h.ledger.storage⟩
    · obtain ⟨ho, hrc⟩ := h.single g hg
      exact ⟨a.frames.owned ho, (a.rc g fun heq => hnew (heq ▸ hg)).trans hrc⟩
  · rw [a.others g, h.outside g hg]
    rintro rfl
    exact hg (h.frames.managed.mp a.fresh.managed)

theorem map {va : Nat} {flags : Word} (h : SpaceBuiltInv s0 pt hand s) (hf : f ∈ hand)
    (hva : va < userSpaceMax) (hfl : PageFlags flags)
    (hret : Returns (mapPage pt va f flags) s () s') : SpaceBuiltInv s0 pt (hand \ {f}) s' := by
  obtain ⟨ho, hrc⟩ := h.single f hf
  have hK : ({ f | ¬Fresh s0.frames f } ∪ hand) \ {f} = { f | ¬Fresh s0.frames f } ∪
      hand \ {f} := by
    rw [Set.union_sdiff_distrib, Set.sdiff_singleton_eq_self]
    exact fun hm => hm (h.fresh f hf)
  have htake := h.ledger.take (.inr hf) ho hrc
  rw [hK] at htake
  have hu : Unmapped s (spaces [pt]) f := fun r hr v hv e he hfe =>
    (h.ledger.wf.leaf_apart r hr v hv e he).2 (hfe ▸ .inr hf)
  obtain ⟨-, hnt, hk⟩ := htake.hand_user f rfl
  have hr : pt ∈ [pt] := List.mem_singleton.mpr rfl
  obtain ⟨hw, hg, hc, -, -⟩ := mapPage_ok htake.wf hr hva ho hnt hk hfl hret
  refine ⟨htake.mapPage hr hva hfl hret hu, h.frames.trans hg.frames,
    fun g hg => h.fresh g hg.1, ?_, fun g hm => ?_⟩
  · rintro g ⟨hgh, -⟩
    obtain ⟨hgo, hgrc⟩ := h.single g hgh
    have hgt := hg.not_isTable hgo.not_fresh (h.ledger.wf.kernel_apart g (.inr hgh))
    exact ⟨hg.frames.owned hgo, (hc g hgt).trans hgrc⟩
  · rw [hg.others g, h.outside g hm]
    intro ht
    exact hm ((h.frames.trans hg.frames).managed.mp (hw.table_owned g ht).managed)

end SpaceBuiltInv

theorem SpaceBuilt.inv (h : SpaceBuilt s0 pt hand s) (hrc : s0.frames.refcounts.isSome = true)
    (hb : s0.frames.endFrame ≤ 2 ^ 40) : SpaceBuiltInv s0 pt hand s := by
  induction h with
  | create hret => exact SpaceBuiltInv.create hrc hb hret
  | allocate _ hret ih => exact ih.allocate hret
  | map _ hf hva hfl hret ih => exact ih.map hf hva hfl hret

/-- A ledger without spaces: every frame handed out is the kernel's. -/
theorem Ledger.no_spaces {K : Set Nat} (h : Ledger s [] K none) (ho : Owned s.frames f) :
    f ∈ K := by
  have hnt : ¬IsTable s (spaces []) f := by
    rintro ⟨r, hr, -⟩
    cases hr
  by_contra hk
  have hrc := h.rc f ho hk hnt
  rcases h.used f ho with hm | ht | hpos
  · exact hk hm
  · exact hnt ht
  · rw [hrc] at hpos
    exact absurd hpos (lt_irrefl 0)

/-- With reference counts, `free_process_address_space` returns and leaves the
frames allocated that were before the space was created, and those in hand. -/
theorem teardown_exact (h : SpaceBuilt s₀ pt hand s) (hrc : s₀.frames.refcounts.isSome = true)
    (hb : s₀.frames.endFrame ≤ 2 ^ 40) :
    ∃ s', Returns (freeProcessAddressSpace pt false) s () s' ∧
      ∀ f, s'.frames.allocated f = true ↔ s₀.frames.allocated f = true ∨ f ∈ hand := by
  have inv := h.inv hrc hb
  have hr : pt ∈ [pt] := List.mem_singleton.mpr rfl
  obtain ⟨s', hret, hledger, hsh⟩ := freeProcessAddressSpace_returns inv.ledger hr
  rw [List.erase_cons_head] at hledger
  refine ⟨s', hret, fun f => ?_⟩
  have hmanaged : Managed s'.frames f ↔ Managed s₀.frames f := by
    rw [← inv.frames.managed]
    unfold Managed FrameAllocator.isReserved
    rw [hsh.startFrame, hsh.endFrame, hsh.reserved]
  by_cases hm : Managed s₀.frames f
  · have hm' := hmanaged.mpr hm
    constructor
    · intro ha
      rcases hledger.no_spaces ⟨hm'.1, hm'.2.1, hm'.2.2, ha⟩ with hk | hk
      · exact .inl (Bool.of_not_eq_false fun hz => hk (hm.fresh hz))
      · exact .inr hk
    · intro ha
      have hk : f ∈ { f | ¬Fresh s₀.frames f } ∪ hand := by
        rcases ha with ha | ha
        · refine .inl fun hf => ?_
          rw [hf.2.2.2] at ha
          cases ha
        · exact .inr ha
      exact Bool.of_not_eq_false fun hz => hledger.wf.kernel_held f hk (hm'.fresh hz)
  · -- no step looks at the bits of other frames
    have hs : ¬Managed s.frames f := fun hx => hm (inv.frames.managed.mp hx)
    have hone := inv.ledger.wf
    rw [hsh.kept f, inv.outside f hm]
    · exact ⟨.inl, fun ha => ha.resolve_right fun hf => hm (inv.fresh f hf).managed⟩
    · exact fun ht => hs (hone.table_owned f (isTable_one hr ht)).managed
    · rintro r rfl v hv e he rfl
      exact hs (hone.leaf_owned r hr v hv e he).managed

/-! ## One page -/

/-- A space with one page. -/
def onePage : KM Nat := do
  let pt ← createUserPageTable
  match ← allocateFrame with
  | none => throwErr "Failed to allocate frame"
  | some f =>
    mapPage pt 0x40_0000 f (Pte.PRESENT ||| Pte.NO_EXECUTE)
    return pt

theorem onePage_built (h : Returns onePage s0 pt s) : SpaceBuilt s0 pt ∅ s := by
  simp only [onePage, returns_bind] at h
  obtain ⟨c, s1, hcreate, o, s2, halloc, h⟩ := h
  cases o with
  | none => exact absurd h not_returns_throw
  | some f =>
    simp only [returns_bind, returns_pure] at h
    obtain ⟨_, s3, hmap, rfl, rfl⟩ := h
    have hbuilt := ((SpaceBuilt.create hcreate).allocate halloc).map
      (Set.mem_insert f ∅) (by decide) ⟨by decide, by decide⟩ hmap
    rwa [insert_empty_eq, Set.sdiff_self] at hbuilt

/-- An empty memory with the frames 1 to 15 free. -/
def smallMem (refcounts : Option (Nat → Nat)) : KMem where
  mem := fun _ _ => 0
  frames := { FrameAllocator.new 1 16 with refcounts := refcounts }
  tracker := none
  cr3 := 0
  debug := true

theorem teardown_exact_onePage : ∃ pt s s', SpaceBuilt (smallMem (some fun _ => 0)) pt ∅ s ∧
    Returns (freeProcessAddressSpace pt false) s () s' ∧
      ∀ f, s'.frames.allocated f = (smallMem (some fun _ => 0)).frames.allocated f := by
  have hrun : succeeds onePage (smallMem (some fun _ => 0)) = true := by
    unfold onePage
    rw [createUserPageTable_eq]
    decide +kernel
  obtain ⟨pt, s, hbuild⟩ := returns_of_succeeds hrun
  obtain ⟨s', hret, hexact⟩ := teardown_exact (onePage_built hbuild) rfl (by decide)
  refine ⟨pt, s, s', onePage_built hbuild, hret, fun f => ?_⟩
  have hf := hexact f
  rw [Set.mem_empty_iff_false, or_false] at hf
  exact Bool.eq_iff_iff.mpr hf

/-- Without storage for reference counts the page's frame stays allocated. -/
theorem teardown_leaks : ∃ s₀ pt s s', SpaceBuilt s₀ pt ∅ s ∧
    Returns (freeProcessAddressSpace pt false) s () s' ∧
      ∃ f, s'.frames.allocated f = true ∧ s₀.frames.allocated f = false := by
  have hrun : outcome (do
      let pt ← onePage
      freeProcessAddressSpace pt false
      return (← get).frames.allocated 2) (smallMem none) = .ok true := by
    unfold onePage
    rw [createUserPageTable_eq]
    decide +kernel
  obtain ⟨s', hret⟩ := returns_of_outcome hrun
  simp only [returns_bind, returns_get, returns_pure, and_assoc, exists_and_left,
    exists_eq_left] at hret
  obtain ⟨pt, s, hbuild, _, t, hfree, hleak, rfl⟩ := hret
  exact ⟨_, pt, s, s', onePage_built hbuild, hfree, 2, hleak.symm, rfl⟩

end PandaOS.Kernel
