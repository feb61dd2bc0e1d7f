import PandaOS.Logic.Walk

/-!
# Page tables as finite maps

`map_page` and `unmap_page` on a page table of which only the shape is known:
its tables of the user half are pairwise distinct allocated frames. What the
pages map to is left open, they may share frames or map frames that nobody has
allocated.
-/

namespace PandaOS.Kernel

open Hal Lib

variable {s s' : KMem} {pt f d q i t va : Nat}

/-- The user half of the page table is a tree of distinct allocated frames
without huge pages; the allocator's frames have addresses below 2^52. -/
structure PageTree (s : KMem) (pt : Nat) : Prop where
  forest : pml4.Forest s.mem {pt} userRegion 3
  allocated : ∀ t, IsTable s {pt} t → s.frames.allocated t = true
  small : ∀ d, 1 ≤ d → d < 3 → ∀ q t, userRegion.pos (d + 1) q →
    pml4.node s.mem pt d (q / 512) = some t → Pte.isPresent (s.mem t (q % 512)) = true →
    Pte.has (Pte.flags (s.mem t (q % 512))) Pte.HUGE_PAGE = false
  bound : s.frames.endFrame ≤ 2 ^ 40

namespace PageTree

section

variable (h : PageTree s pt)
include h

theorem not_isTable (hf : Fresh s.frames f) : ¬IsTable s {pt} f := by
  intro ht
  have := h.allocated f ht
  rw [hf.2.2.2] at this
  cases this

/-- The tree after a store to one of its edges. -/
theorem put {w : Word} (e : pml4.EdgeStore s.mem {pt} userRegion 3 pt d q i t w)
    (hnew : d < 3 → ∀ f, pml4.child w = some f → ¬IsTable s {pt} f ∧ s.frames.allocated f = true)
    (hsmall : d < 3 → Pte.isPresent w = true → Pte.has (Pte.flags w) Pte.HUGE_PAGE = false) :
    PageTree (s.setEntry t i w) pt where
  forest := e.forest_put pml4 fun hd f hf => (hnew hd f hf).1
  allocated g hg := by
    rcases e.isTable_put pml4 hg with hg | ⟨hd, hg⟩
    · exact h.allocated g hg
    · exact (hnew hd g hg).2
  small d' hlo hhi q' t' hq hn hp := by
    have hc : pml4.child ((s.setEntry t i w).mem t' (q' % 512)) ≠ none := by
      rw [child_of_present hp]
      simp
    rcases e.edge_put pml4 rfl (by omega) hq hn hc with ⟨hd, heq⟩ | ⟨hn', heq⟩
    · rw [setEntry_mem, heq] at hp ⊢
      exact hsmall (by omega) hp
    · rw [setEntry_mem, heq] at hp ⊢
      exact h.small d' hlo hhi q' t' hq hn' hp
  bound := h.bound

/-- Changes outside the tables. -/
theorem of_agree (ha : pml4.Agree s.mem s'.mem {pt} userRegion 3)
    (hle : FramesLe s.frames s'.frames) : PageTree s' pt where
  forest := h.forest.agree pml4 ha
  allocated t ht := hle.allocated t (h.allocated t ((isTable_iff_of_agree ha t).mp ht))
  small d hlo hhi q t hq hn hp := by
    rw [pml4.node_agree ha rfl d (by omega) _ (userRegion.parent d q hq)] at hn
    rw [ha pt rfl d (by omega) q t hn hq] at hp ⊢
    exact h.small d hlo hhi q t hq hn hp
  bound := by
    rw [hle.endFrame]
    exact h.bound

/-- A table of the tree: the one that is there, or a new and empty one. -/
theorem ensureTable_spec {msg : String} (hd : d < 3)
    (hpos : userRegion.pos (d + 1) (q * 512 + i)) (hi : i < 512)
    (ht : pml4.node s.mem pt d q = some t) :
    Ends (ensureTable t i msg) s (fun c s' => PageTree s' pt ∧
      (∀ v < userPages, leafOf s' pt v = leafOf s pt v) ∧
        pml4.node s'.mem pt (d + 1) (q * 512 + i) = some c)
      fun _ _ => True := by
  refine (ensureTable_ends t i msg s).mono (fun c s' hc => ?_) fun _ _ _ => trivial
  obtain ⟨hpres, rfl, rfl⟩ | ⟨habs, f, s1, a, -, hcf, rfl⟩ := hc
  · refine ⟨h, fun _ _ => rfl, ?_⟩
    rw [pml4.node_child hi ht, child_of_present hpres]
  · obtain rfl := hcf h.bound
    have hnt := h.not_isTable a.fresh
    have hq : userRegion.pos d q := pos_parent hi hpos
    have htab : IsTable s {pt} t := ⟨pt, rfl, d, by omega, q, hq, ht⟩
    have hne : t ≠ c := fun heq => hnt (heq ▸ htab)
    have hbound : c < 2 ^ 40 := lt_of_lt_of_le a.fresh.2.1 h.bound
    -- the new frame is cleared before it becomes part of the tree
    have ha : pml4.Agree s.mem (s1.zeroFrame c).mem {pt} userRegion 3 := by
      apply pml4.agree_of_frames
      intro g hg
      have hgf : g ≠ c := fun heq => hnt (heq ▸ hg)
      simp [KMem.zeroFrame, a.mem, hgf]
    have hword : pml4.child (Pte.make (frameAddr c) Pte.tableFlags) = some c :=
      child_make hbound (by decide) (by decide)
    have habs : Pte.isPresent ((s1.zeroFrame c).mem t i) = false := by
      have hsame : (s1.zeroFrame c).mem t i = s.mem t i := by simp [KMem.zeroFrame, a.mem, hne]
      rw [hsame, habs]
    have h1 : PageTree (s1.zeroFrame c) pt := h.of_agree ha a.frames
    have e : pml4.EdgeStore (s1.zeroFrame c).mem {pt} userRegion 3 pt d q i t
        (Pte.make (frameAddr c) Pte.tableFlags) := by
      refine ⟨h1.forest, rfl, by omega, hpos, hi, ?_, ?_, ?_⟩
      · rwa [pml4.node_agree ha rfl d (by omega) q hq]
      · intro _ g hg
        rw [child_of_absent habs] at hg
        cases hg
      · intro _ g hg
        rw [hword] at hg
        cases hg
        refine ⟨hne.symm, fun j _ => ?_⟩
        have hzero : (s1.zeroFrame c).mem c j = 0 := by simp [KMem.zeroFrame]
        exact child_of_absent (by rw [hzero]; rfl)
    refine ⟨h1.put e ?_ fun _ _ => (tableEntry_make _).2.2, fun v hv => ?_, ?_⟩
    · intro _ g hg
      rw [hword] at hg
      cases hg
      rw [isTable_iff_of_agree ha]
      exact ⟨hnt, a.owned.2.2.2⟩
    · exact (e.leaf_put_inner pml4 hd rfl (pos_leaf.mpr hv)).trans (leafOf_agree ha rfl hv)
    · rw [KMem.attach, setEntry_mem, e.node_put pml4 rfl (d + 1) (by omega) _ hpos,
        if_pos ⟨rfl, rfl, rfl⟩, hword]

/-- A store to the entry of a page changes what this page maps to. -/
theorem store {l1 : Nat} (hva : va < 2 ^ 47)
    (ht : pml4.node s.mem pt 3 (va / 4096 / 512) = some l1) (w : Word) :
    PageTree (s.setEntry l1 (p1Index va) w) pt ∧ ∀ v < userPages, leafOf
      (s.setEntry l1 (p1Index va) w) pt v =
        if v = va / 4096 then (some w).filter fun w => (pml4.child w).isSome
        else leafOf s pt v := by
  have e : pml4.EdgeStore s.mem {pt} userRegion 3 pt 3 (va / 4096 / 512) (p1Index va) l1 w := by
    refine ⟨h.forest, rfl, le_rfl, ?_, (pIndex_lt va).2.2.2, ht, fun hd => absurd hd (by omega),
      fun hd => absurd hd (by omega)⟩
    show userRegion.pos 4 (va / 4096 / 512 * 512 + p1Index va)
    rw [p1Index_eq]
    exact pos_leaf.mpr (page_lt hva)
  refine ⟨h.put e (fun hd => absurd hd (by omega)) fun hd => absurd hd (by omega), fun v hv => ?_⟩
  have hleaf := e.leaf_put_leaf pml4 rfl (r := pt) rfl (pos_leaf.mpr hv)
  have hpage : va / 4096 / 512 * pml4.fan + p1Index va = va / 4096 := p1Index_eq va
  rw [hpage] at hleaf
  simpa [leafOf, setEntry_mem] using hleaf

/-- `map_page`: the page has the new entry, every other page the old one. -/
theorem mapPage_spec {flags : Word} (hva : va < 2 ^ 47) (hf : f < 2 ^ 40) (hfl : PageFlags flags) :
    Ends (mapPage pt va f flags) s (fun _ s' => PageTree s' pt ∧ ∀ v < userPages, leafOf s' pt v =
        if v = va / 4096 then some (Pte.make (frameAddr f) flags) else leafOf s pt v)
      fun _ _ => True := by
  refine ends_mapPage (P := fun d t u => PageTree u pt ∧
    (∀ v < userPages, leafOf u pt v = leafOf s pt v) ∧
    pml4.node u.mem pt d (va / 4096 / 512 ^ (4 - d)) = some t) ⟨h, fun _ _ => rfl, rfl⟩ ?_
    (fun _ _ _ _ => trivial) ?_
  · rintro d t u msg hd ⟨htree, hl, hn⟩
    refine (htree.ensureTable_spec hd (pos_indexAt hva (by omega)) (indexAt_lt va d) hn).mono
      (fun c u' hc => ?_) fun _ _ _ => trivial
    rw [indexAt_pos va (by omega)] at hc
    rw [show 4 - (d + 1) = 3 - d by omega]
    exact ⟨hc.1, fun v hv => (hc.2.1 v hv).trans (hl v hv), hc.2.2⟩
  · rintro l1 u ⟨htree, hl, hn⟩ -
    obtain ⟨htree', hl'⟩ := htree.store hva hn (Pte.make (frameAddr f) flags)
    refine ⟨htree', fun v hv => ?_⟩
    rw [hl' v hv, hl v hv, Option.filter_some, child_make hf hfl.1 hfl.2, Option.isSome_some,
      if_pos rfl]

end

/-- An address space without tables below its root. -/
theorem empty (hpt : s.frames.allocated pt = true) (hb : s.frames.endFrame ≤ 2 ^ 40)
    (hmem : ∀ i < 256, pml4.child (s.mem pt i) = none) : PageTree s pt := by
  have hnode : ∀ d q t, userRegion.pos d q → pml4.node s.mem pt d q = some t →
      d = 0 ∧ q = 0 ∧ t = pt := by
    intro d q t hq hn
    cases d with
    | zero => exact ⟨rfl, userRegion.root q hq, (Option.some.inj hn).symm⟩
    | succ d =>
      rw [pml4.node_empty (R := userRegion) (fun q hq => ?_) d q hq] at hn
      · cases hn
      · have hlt := pos_top.mp hq
        exact hmem _ (by show q % 512 < 256; omega)
  constructor
  case forest =>
    rintro r rfl r' rfl d - d' - q q' t hq hq' hn hn'
    obtain ⟨rfl, rfl, -⟩ := hnode d q t hq hn
    obtain ⟨rfl, rfl, -⟩ := hnode d' q' t hq' hn'
    exact ⟨rfl, rfl, rfl⟩
  case allocated =>
    rintro t ⟨r, rfl, d, -, q, hq, hn⟩
    obtain ⟨-, -, rfl⟩ := hnode d q t hq hn
    exact hpt
  case small =>
    intro d hlo hhi q t hq hn
    obtain ⟨rfl, -, -⟩ := hnode d _ t (userRegion.parent d q hq) hn
    cases hlo
  case bound => exact hb

end PageTree

/-- What holds of a page table after the entry of one user page has become `e`. -/
structure Remapped (s s' : KMem) (pt va : Nat) (e : Option Word) : Prop where
  page : walkEntry s' pt va = e
  others : ∀ va' < userSpaceMax, pageOf va' ≠ pageOf va → walkEntry s' pt va' = walkEntry s pt va'
  tree : PageTree s' pt

theorem Remapped.of_leaves {e : Option Word} (hva : va < 2 ^ 47) (h : PageTree s' pt)
    (hl : ∀ v < userPages, leafOf s' pt v = if v = va / 4096 then e else leafOf s pt v) :
    Remapped s s' pt va e := by
  refine ⟨?_, fun va' hva' hne => ?_, h⟩
  · rw [walkEntry_eq, hl _ (page_lt hva), if_pos rfl]
  · rw [walkEntry_eq, walkEntry_eq, hl _ (page_lt hva'), if_neg (page_ne hne)]

/-- Page tables are finite maps from pages to entries: `map_page` inserts,
`unmap_page` removes and returns what was there. -/
theorem pageTables_finiteMap {va : Nat} (h : PageTree s pt) (hva : va < userSpaceMax) :
    (∀ f < 2 ^ 40, ∀ flags, PageFlags flags → ∀ s', Returns (mapPage pt va f flags) s () s' →
      Remapped s s' pt va (some (frameAddr f ||| flags))) ∧
    (∀ e, walkEntry s pt va = some e →
      ∃ s', Returns (unmapPage pt va) s (Pte.frame e) s' ∧ Remapped s s' pt va none) ∧
    (walkEntry s pt va = none → ∃ msg, Throws (unmapPage pt va) s (.err msg) s) := by
  refine ⟨fun f hf flags hfl s' hret => ?_, fun e he => ?_, unmapPage_throws⟩
  · obtain ⟨htree, hl⟩ := hret.of_ends (h.mapPage_spec hva hf hfl)
    rw [Pte.make_frameAddr hf] at hl
    exact Remapped.of_leaves hva htree hl
  · obtain ⟨l1, hn, hret⟩ := unmapPage_returns hva he
    obtain ⟨htree, hl⟩ := h.store hva hn 0
    exact ⟨_, hret, Remapped.of_leaves hva htree hl⟩

/-- An empty page table in frame 1; the frames 2 to 63 are free. -/
def emptyTable : KMem where
  mem := fun _ _ => 0
  frames := { FrameAllocator.new 1 64 with allocated := fun f => f == 1 }
  tracker := some [1]
  cr3 := 1
  debug := true

theorem pageTables_finiteMap_empty : ∃ s',
    Returns (mapPage 1 0x40_0000 70 (Pte.PRESENT ||| Pte.NO_EXECUTE)) emptyTable () s' ∧
      Remapped emptyTable s' 1 0x40_0000
        (some (frameAddr 70 ||| (Pte.PRESENT ||| Pte.NO_EXECUTE))) := by
  have habs : ∀ i, Pte.isPresent (emptyTable.mem 1 i) = false := by
    intro i
    show Pte.isPresent 0 = false
    decide
  have htree : PageTree emptyTable 1 :=
    PageTree.empty rfl (by decide) fun i _ => child_of_absent (habs i)
  obtain ⟨_, s', hret⟩ := returns_of_succeeds (show succeeds
    (mapPage 1 0x40_0000 70 (Pte.PRESENT ||| Pte.NO_EXECUTE)) emptyTable = true by decide +kernel)
  exact ⟨s', hret, (pageTables_finiteMap htree (by decide)).1 70 (by decide) _
    ⟨by decide, by decide⟩ s' hret⟩

end PandaOS.Kernel
