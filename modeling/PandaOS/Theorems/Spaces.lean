import PandaOS.Kernel.Fault
import PandaOS.Lib.TSys
import PandaOS.Logic.Walk
import PandaOS.Theorems.Teardown

/-!
# Many address spaces

Any number of address spaces are made, filled with new pages, cloned for `fork` and torn down, in
any order. Clones share their pages until a copy-on-write fault, so a frame is given back with the
last space that maps it.
-/

namespace PandaOS.Kernel

open Hal Lib

/-- The page tables in use, and the frames that the kernel has for itself. -/
structure Spaces where
  live : List Nat
  kernel : Set Nat
  mem : KMem

inductive Spaces.Step : Spaces → Spaces → Prop
  | keep {ps K s f s'} : Returns allocateFrame s (some f) s' → Step ⟨ps, K, s⟩ ⟨ps, insert f K, s'⟩
  | create {ps K s pt s'} : Returns createUserPageTable s pt s' → Step ⟨ps, K, s⟩ ⟨pt :: ps, K, s'⟩
  | map {ps K s pt va f flags s1 s'} : pt ∈ ps → va < userSpaceMax → PageFlags flags →
      Returns allocateFrame s (some f) s1 → Returns (mapPage pt va f flags) s1 () s' →
        Step ⟨ps, K, s⟩ ⟨ps, K, s'⟩
  | clone {ps K s parent child s'} : parent ∈ ps →
      Returns (cloneUserAddressSpace parent) s child s' →
      (∀ f, mappings s' (child :: ps) f ≤ maxRefcount) → Step ⟨ps, K, s⟩ ⟨child :: ps, K, s'⟩
  | cow {ps K s p cr2 s'} : p.pageTablePhys ∈ ps → cr2 < userSpaceMax →
      Returns (handleCowFault p cr2) s () s' → Step ⟨ps, K, s⟩ ⟨ps, K, s'⟩
  | free {ps K s pt s'} : pt ∈ ps → Returns (freeProcessAddressSpace pt false) s () s' →
      Step ⟨ps, K, s⟩ ⟨ps.erase pt, K, s'⟩

/-- Runs from a memory with reference counts. What is not free at the start is the kernel's. -/
def Spaces.runs : TSys Spaces where
  init σ := ∃ s : KMem, s.frames.refcounts.isSome = true ∧ s.frames.endFrame ≤ 2 ^ 40 ∧
    σ = ⟨[], { f | ¬Fresh s.frames f }, s⟩
  step := Step

variable {s s' : KMem} {ps : List Nat} {K : Set Nat} {parent child : Nat}

/-- A frame that is taken and written to is in hand. -/
theorem Ledger.allocated {s1 : KMem} {f : Nat} {mem : Nat → Nat → Word}
    (h : Ledger s ps K none) (a : Allocated s s1 f) (hm : ∀ g, g ≠ f → mem g = s1.mem g) :
    Ledger { s1 with mem } ps K (some f) ∧ pml4.Agree s.mem mem (spaces ps) userRegion 3 := by
  have hgrows := ((KernelGrows.refl h.wf).alloc a).filled (Set.mem_insert f K) a.fresh hm
  have htake := (h.kernelGrows hgrows).take (Set.mem_insert f K) a.owned (a.rc_new h.storage)
  rw [Set.insert_sdiff_self_of_notMem (h.wf.fresh a.fresh).2.2] at htake
  exact ⟨htake, hgrows.agree⟩

/-! ## Clones -/

theorem bump_iterate {n : Nat} (hn : 0 < n) (k : Nat) (hk : k + n ≤ maxRefcount) :
    bump^[k] n = k + n := by
  induction k with
  | zero => exact (Nat.zero_add n).symm
  | succ k ih =>
    rw [Function.iterate_succ_apply', ih (by omega), bump, if_pos (by omega)]
    omega

theorem frame_shareChild (e : Word) : Pte.frame (shareChild e) = Pte.frame e :=
  Pte.frame_make_addr (Pte.cowFlags_mask (Pte.flags_mask e))

theorem frame_shareParent (e : Word) : Pte.frame (shareParent e) = Pte.frame e := by
  unfold shareParent
  split
  · exact frame_shareChild e
  · rfl

theorem cloned_of_returns (h : Ledger s ps K none) (hp : parent ∈ ps)
    (hret : Returns (cloneUserAddressSpace parent) s child s') :
    ∃ s1, NewSpace s s1 child ∧ Cloned s1 (spaces (child :: ps)) K parent child userPages s' := by
  rw [spaces_cons]
  exact (hret.of_ends (cloneUserAddressSpace_ends h.wf hp)).1

section

variable (h : Ledger s (child :: ps) K none)
  (hc : Cloned s (spaces (child :: ps)) K parent child userPages s')
include h hc

/-- The child maps what the parent maps, and nobody else sees a difference. -/
theorem frameAt_clone {v : Nat} (hv : v < userPages) :
    frameAt s' child v = frameAt s parent v ∧ ∀ r ∈ ps, frameAt s' r v = frameAt s r v := by
  unfold frameAt
  refine ⟨?_, fun r hr => ?_⟩
  · rw [hc.child_leaf v hv, if_pos hv, Option.map_map]
    exact congrArg (Option.map · _) (funext frame_shareChild)
  · by_cases hrp : r = parent
    · rw [hrp, hc.parent_leaf v hv, if_pos hv, Option.map_map]
      exact congrArg (Option.map · _) (funext frame_shareParent)
    · have hrc : r ≠ child := fun heq => (List.nodup_cons.mp h.nodup).1 (heq ▸ hr)
      rw [hc.other_leaf r (List.mem_cons_of_mem _ hr) hrp hrc v hv]

variable (hempty : ∀ i < 256, pml4.child (s.mem child i) = none)
include hempty

/-- A clone counts every page of the parent once more. -/
theorem mappings_clone (f : Nat) :
    mappings s' (child :: ps) f = refs s parent f userPages + mappings s (child :: ps) f := by
  unfold mappings
  rw [tally_cons, tally_cons, count_empty hempty,
    count_congr fun v hv => by rw [(frameAt_clone h hc hv).1],
    tally_congr fun r hr v hv => by rw [(frameAt_clone h hc hv).2 r hr], Nat.zero_add]
  rfl

/-- Sharing the pages keeps the ledger while no count overflows. -/
theorem Ledger.clone (hmax : ∀ f, mappings s' (child :: ps) f ≤ maxRefcount) :
    Ledger s' (child :: ps) K none := by
  have hsum := mappings_clone h hc hempty
  have hcount (g : Nat) (ho : Owned s'.frames g) (hk : g ∉ K)
      (ht : ¬IsTable s' (spaces (child :: ps)) g) :
      rcOf s'.frames g = mappings s' (child :: ps) g ∧ 0 < rcOf s'.frames g := by
    have ho' := hc.grows.frames.owned_of ho (hc.grows.others g ht)
    have ht' : ¬IsTable s (spaces (child :: ps)) g := fun h => ht (hc.grows.isTable h)
    have hpos := ((h.used g ho').resolve_left hk).resolve_left ht'
    have hrc := h.rc g ho' hk ht'
    rw [held_none, Nat.add_zero] at hrc
    have hlimit := hmax g
    rw [hsum, ← hrc] at hlimit
    rw [hc.rc g ht, hsum, ← hrc, bump_iterate hpos _ hlimit]
    exact ⟨rfl, Nat.add_pos_right _ hpos⟩
  refine ⟨⟨h.nodup, hc.wf, hc.grows.frames.counted ▸ h.storage,
    fun _ => nofun, fun g ho hk ht => ?_⟩, fun g ho => ?_⟩
  · rw [held_none, Nat.add_zero]
    exact (hcount g ho hk ht).1
  · by_cases hk : g ∈ K
    · exact .inl hk
    by_cases ht : IsTable s' (spaces (child :: ps)) g
    · exact .inr (.inl ht)
    · exact .inr (.inr (hcount g ho hk ht).2)

end

/-! ## Copy-on-write faults -/

theorem pageFlags_resolved {e : Word} (hp : Pte.isPresent e = true) :
    PageFlags (resolvedFlags (Pte.flags e)) := by
  refine ⟨Pte.and_mask (Pte.or_mask (Pte.flags_mask e) (by decide)), ?_⟩
  rw [Pte.isPresent_eq, ← Pte.flags_bit e (by decide)] at hp
  simp [resolvedFlags, hp, Pte.COPY_ON_WRITE]

section

variable {p : ProcMem} {cr2 : Nat} (hret : Returns (handleCowFault p cr2) s () s')
include hret

theorem handleCowFault_run :
    ∃ l1 i old fl f s1 t, pml4.node s.mem p.pageTablePhys 3 (cr2 / 4096 / 512) = some l1 ∧
    cr2 / 4096 / 512 * 512 + i = cr2 / 4096 ∧ frameAt s p.pageTablePhys (cr2 / 4096) = some old ∧
      PageFlags fl ∧
    Allocated s s1 f ∧ t = s1.copyFrame old f ∧
    s' = { t.setEntry l1 i (Pte.make (frameAddr f) fl) with
      frames := (t.frames.decRefcount old).2 } := by
  have hpage : pageOf cr2 / 4096 = cr2 / 4096 := Nat.mul_div_cancel _ (by decide)
  unfold handleCowFault at hret
  simp only [returns_bind, returns_get, and_assoc, exists_and_left, exists_eq_left] at hret
  split at hret
  · exact absurd hret not_returns_throw
  rename_i l1 i hwalk
  unfold walkPageTable at hwalk
  rw [leafTable_eq, hpage, Option.bind_eq_bind, Option.bind_eq_some_iff] at hwalk
  obtain ⟨_, hnode, hplace⟩ := hwalk
  rw [Option.ite_none_right_eq_some] at hplace
  obtain ⟨hp, ⟨⟩⟩ := hplace
  have hi := hpage ▸ p1Index_eq (pageOf cr2)
  have hleaf := hi ▸ leafOf_present (pIndex_lt (pageOf cr2)).2.2.2 hnode hp
  simp only [readEntry, returns_bind, returns_get, returns_pure,
    and_assoc, exists_and_left, exists_eq_left] at hret
  split at hret
  · exact absurd hret not_returns_throw
  obtain ⟨o, s1, hall, hret⟩ := returns_bind.mp hret
  cases o with
  | none => exact absurd hret not_returns_throw
  | some f =>
    simp only [returns_bind, returns_modify, writeEntry, flushPage, decFrameRefcount] at hret
    obtain ⟨_, _, rfl, _, _, rfl, _, _, hflush, rfl⟩ := hret
    split at hflush
    · obtain ⟨-, rfl⟩ := returns_pure.mp hflush
      exact ⟨l1, _, _, _, f, s1, _, hnode, hi, congrArg (Option.map Pte.frame) hleaf,
        pageFlags_resolved hp, allocateFrame_ok hall, rfl, rfl⟩
    · exact absurd hflush not_returns_throw

/-- The page gets a new frame with the contents of the old one. -/
theorem Ledger.cowFault (h : Ledger s ps K none) (hr : p.pageTablePhys ∈ ps)
    (hva : cr2 < userSpaceMax) :
    Ledger s' ps K none ∧ ∃ f old, Fresh s.frames f ∧ frameAt s p.pageTablePhys
      (cr2 / 4096) = some old ∧ (∀ r ∈ ps, ∀ v < userPages,
        frameAt s' r v = if r = p.pageTablePhys ∧ v = cr2 / 4096 then some f else frameAt s r v) ∧
      ∀ g, ¬IsTable s (spaces ps) g → s'.mem g = if g = f then s.mem old else s.mem g := by
  obtain ⟨l1, i, old, fl, f, s1, t, hnode, hi, hold, hfl, a, ht, rfl⟩ := handleCowFault_run hret
  have hv := page_lt hva
  have hpos : userRegion.pos 3 (cr2 / 4096 / 512) := pos_anc hv 3
  obtain ⟨hhand, hagree⟩ : Ledger t ps K (some f) ∧
      pml4.Agree s.mem t.mem (spaces ps) userRegion 3 := by
    rw [ht]
    exact h.allocated a fun g hg => if_neg hg
  have hsame {r v : Nat} (hr : r ∈ ps) (hv : v < userPages) : frameAt t r v = frameAt s r v :=
    congrArg (Option.map Pte.frame) (leafOf_agree hagree hr hv)
  have hchild := child_make (lt_of_lt_of_le a.fresh.2.1 h.wf.bound) hfl.1 hfl.2
  generalize Pte.make (frameAddr f) fl = w at hchild ⊢
  have store : LeafStore t (spaces ps) K p.pageTablePhys (cr2 / 4096 / 512) i l1 w :=
    ⟨hhand.wf, hr, by rwa [hi], by omega, (pml4.node_agree hagree hr 3 (by omega) _ hpos).trans
      hnode, fun g hg => hhand.hand_user g (hchild.symm.trans hg)⟩
  refine ⟨(Ledger.storePage (hchild ▸ hhand) store (by rw [hi, hsame hr hv, hold])).1,
    f, old, a.fresh, hold, fun r hr' v hv' => ?_, fun g hg => ?_⟩
  · rw [← hsame hr' hv', ← hchild, ← hi]
    exact store.frameAt_eq hr' hv'
  · refine (Radix.put_frame t.mem i w ?_).trans ?_
    · rintro rfl
      exact hg ⟨_, hr, 3, le_rfl, _, hpos, hnode⟩
    · rw [ht, ← a.mem]
      rfl

end

/-! ## Runs -/

namespace Spaces

theorem runs_ledger : runs.Invariant fun σ => Ledger σ.mem σ.live σ.kernel none := by
  refine TSys.Inductive.invariant ⟨?_, ?_⟩
  · rintro _ ⟨s, hrc, hb, rfl⟩
    exact Ledger.start hrc hb
  · intro σ σ' h hstep
    cases hstep with
    | keep hret => exact h.kernelGrows ((KernelGrows.refl h.wf).alloc (allocateFrame_ok hret))
    | create hret => exact h.newSpace (createUserPageTable_ok hret)
    | @map ps K s pt va f flags s1 s' hr hva hfl hall hret =>
      have a := allocateFrame_ok hall
      obtain ⟨hhand, hagree⟩ := h.allocated a fun _ _ => rfl
      exact hhand.mapPage hr hva hfl hret fun r hr v hv e he =>
        (h.wf.fresh a.fresh).2.1 r hr v hv e ((leafOf_agree hagree hr hv).symm.trans he)
    | clone hp hret hmax =>
      obtain ⟨s1, n, hc⟩ := cloned_of_returns h hp hret
      exact (h.newSpace n).clone hc n.empty hmax
    | cow hr hva hret => exact (h.cowFault hret hr hva).1
    | free hr hret =>
      obtain ⟨s', hfree, hledger, -⟩ := freeProcessAddressSpace_returns h hr
      obtain ⟨-, rfl⟩ := hret.unique hfree
      exact hledger

/-- A process with nothing but a page table. -/
def onTable (pt : Nat) : ProcMem := ⟨0, 0, 0, pt, ⟨0, 0, 0⟩, [], 0, []⟩

/-- The flags of a page that waits for its copy. -/
def cowPage : Word := Pte.PRESENT ||| Pte.USER_ACCESSIBLE ||| Pte.COPY_ON_WRITE

/-- A run makes a space with one such page, which can be cloned and whose page can be written to. -/
theorem cowPage_reachable : ∃ K s, runs.Reachable ⟨[1], K, s⟩ ∧
    (∃ child s', Returns (cloneUserAddressSpace 1) s child s') ∧
      ∃ s', Returns (handleCowFault (onTable 1) 0x40_0000) s () s' := by
  have hrun : outcome (do
      let pt ← createUserPageTable
      let f ← allocateFrame
      mapPage pt 0x40_0000 (f.getD 0) cowPage
      let s ← get
      return (pt, f, succeeds (cloneUserAddressSpace 1) s,
        succeeds (handleCowFault (onTable 1) 0x40_0000) s)) (smallMem (some fun _ => 0)) =
      .ok (1, some 2, true, true) := by
    rw [createUserPageTable_eq]
    decide +kernel
  obtain ⟨s, hret⟩ := returns_of_outcome hrun
  simp only [returns_bind, returns_get, returns_pure, Prod.mk.injEq, and_assoc, exists_and_left,
    exists_eq_left] at hret
  obtain ⟨pt, s1, hcreate, f, s2, hall, _, s3, hmap, rfl, rfl, hclone, hcow, rfl⟩ := hret
  have hcreated :=
    TSys.Reachable.step (T := runs) (.init ⟨_, rfl, by decide, rfl⟩) (.create hcreate)
  refine ⟨_, s, hcreated.step (.map List.mem_cons_self (by decide)
    ⟨by decide, by decide⟩ hall hmap), returns_of_succeeds hclone.symm, ?_⟩
  obtain ⟨_, s', hret⟩ := returns_of_succeeds hcow.symm
  exact ⟨s', hret⟩

/-- What is read of a page: the contents of its frame. -/
def pageView (s : KMem) (pt v : Nat) : Option (Nat → Word) := (frameAt s pt v).map s.mem

/-- A clone reads like an eager copy: the child has the contents of every page of its parent, and
no space sees a difference. -/
theorem clone_reads_as_copy : runs.Invariant fun σ => ∀ parent ∈ σ.live, ∀ child s',
    Returns (cloneUserAddressSpace parent) σ.mem child s' → ∀ v < userPages,
      pageView s' child v = pageView σ.mem parent v ∧
        ∀ r ∈ σ.live, pageView s' r v = pageView σ.mem r v := by
  intro σ hreach parent hp child s' hret v hv
  have h := runs_ledger σ hreach
  obtain ⟨s1, n, hc⟩ := cloned_of_returns h hp hret
  obtain ⟨hchild, hothers⟩ := frameAt_clone (h.newSpace n) hc hv
  have hview {r x : Nat} (hr : r ∈ spaces (child :: σ.live)) (hx : x ∈ σ.live)
      (hsame : frameAt s' r v = frameAt s1 x v) : pageView s' r v = pageView σ.mem x v := by
    have hold : frameAt s1 x v = frameAt σ.mem x v :=
      congrArg (Option.map _) (leafOf_agree (n.agree h.wf) hx hv)
    unfold pageView
    rw [← hold, ← hsame]
    refine Option.map_congr fun f hf => ?_
    -- only tables were written to
    obtain ⟨e, he, rfl⟩ := frameAt_some hf
    have hnt := (hc.wf.leaf_apart r hr v hv e he).1
    rw [hc.grows.kept _ hnt, n.content]
    exact fun heq => hnt (heq ▸ isTable_root List.mem_cons_self)
  exact ⟨hview List.mem_cons_self hp hchild, fun r hr =>
    hview (List.mem_cons_of_mem _ hr) hr (hothers r hr)⟩

theorem clone_reads_as_copy_cowPage : ∃ K s child s', runs.Reachable ⟨[1], K, s⟩ ∧
    Returns (cloneUserAddressSpace 1) s child s' ∧
      pageView s' child 0x400 = pageView s 1 0x400 := by
  obtain ⟨K, s, hreach, ⟨child, s', hret⟩, -⟩ := cowPage_reachable
  exact ⟨K, s, child, s', hreach, hret,
    (clone_reads_as_copy _ hreach 1 List.mem_cons_self child s' hret 0x400 (by decide)).1⟩

/-- After a copy-on-write fault every space reads what it read before, and no other page shares the
frame of the page any more. -/
theorem cow_fault_private : runs.Invariant fun σ => ∀ p cr2 s', p.pageTablePhys ∈ σ.live →
    cr2 < userSpaceMax →
    Returns (handleCowFault p cr2) σ.mem () s' → ∀ r ∈ σ.live, ∀ v < userPages, pageView s' r v =
      pageView σ.mem r v ∧
      (frameAt s' r v = frameAt s' p.pageTablePhys (cr2 / 4096) →
        r = p.pageTablePhys ∧ v = cr2 / 4096) := by
  intro σ hreach p cr2 s' hr hva hret r hr' v hv
  have h := runs_ledger σ hreach
  obtain ⟨-, f, old, hfresh, hold, hat, hmem⟩ := h.cowFault hret hr hva
  obtain ⟨hnt, hu, -⟩ := h.wf.fresh hfresh
  have hne {g : Nat} (hg : frameAt σ.mem r v = some g) : g ≠ f ∧
      ¬IsTable σ.mem (spaces σ.live) g := by
    obtain ⟨e, he, rfl⟩ := frameAt_some hg
    exact ⟨hu r hr' v hv e he, (h.wf.leaf_apart r hr' v hv e he).1⟩
  unfold pageView
  rw [hat _ hr _ (page_lt hva), if_pos ⟨rfl, rfl⟩, hat r hr' v hv]
  split
  · rename_i hpage
    refine ⟨?_, fun _ => hpage⟩
    rw [hpage.1, hpage.2, hold, Option.map_some, Option.map_some, hmem f hnt, if_pos rfl]
  · refine ⟨Option.map_congr fun g hg => ?_, fun hf => absurd rfl (hne hf).1⟩
    rw [hmem g (hne hg).2, if_neg (hne hg).1]

theorem cow_fault_private_cowPage : ∃ K s s', runs.Reachable ⟨[1], K, s⟩ ∧
    Returns (handleCowFault (onTable 1) 0x40_0000) s () s' ∧
      pageView s' 1 0x400 = pageView s 1 0x400 := by
  obtain ⟨K, s, hreach, -, s', hret⟩ := cowPage_reachable
  exact ⟨K, s, s', hreach, hret,
    (cow_fault_private _ hreach (onTable 1) 0x40_0000 s' List.mem_cons_self
    (by decide) hret 1 List.mem_cons_self 0x400 (by decide)).1⟩

end Spaces

end PandaOS.Kernel
