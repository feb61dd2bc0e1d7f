import PandaOS.Logic.Spawn
import PandaOS.Theorems.ElfLoad

/-!
# Segments that share a page

`load_elf_segments` takes a fresh frame for every page of every segment, and
`map_page` panics when a page is mapped to another frame already. Its comment
names segments that share a page at their boundary as a case it handles, but it
handles it only for the same frame. So a file that `parse_elf` accepts loads
without a panic exactly when the pages of its segments are disjoint.

The heap is not affected: it starts above the pages of every segment.
-/

namespace PandaOS.Kernel

open Hal Lib

variable {s s' : KMem} {pt : Nat} {seg : LoadSegment} {data : List Byte} {α : Type} {info : ElfInfo}

/-- The segments lie below the pages of the user stack. -/
def BelowStack (info : ElfInfo) : Prop :=
  ∀ seg ∈ info.loadSegments, seg.vaddr + seg.memSize ≤ userStackTop - userStackPages * pageSize

instance (info : ElfInfo) : Decidable (BelowStack info) :=
  inferInstanceAs (Decidable (∀ seg ∈ info.loadSegments, _))

/-- No page belongs to two segments. -/
def PagesApart (info : ElfInfo) : Prop :=
  info.loadSegments.Pairwise fun seg seg' => Disjoint seg.pages seg'.pages

/-- The load does not run out of frames. It returns `Err` for no other reason, and
never with four frames for each page (`loadElfSegments_fresh`). -/
def EnoughFrames (info : ElfInfo) (data : List Byte) (pt : Nat) (s : KMem) : Prop :=
  ∀ msg s', ¬Throws (loadElfSegments info data pt) s (.err msg) s'

/-- The file is loaded without a panic and its heap is above its pages. -/
structure LoadsSafely (info : ElfInfo) (data : List Byte) (pt : Nat) (s : KMem) : Prop where
  noPanic : ∀ msg s', ¬Throws (loadElfSegments info data pt) s (.panic msg) s'
  heap : ∃ heap, (∀ t, Returns (calculateHeapStart info >>= HeapInfo.new) t heap t) ∧
    heap.heapStart % pageSize = 0 ∧
    ∀ seg ∈ info.loadSegments, ∀ v ∈ seg.pages, (v + 1) * pageSize ≤ heap.heapStart

/-! ## The heap -/

/-- The end of the last segment. -/
def ElfInfo.top (info : ElfInfo) : Nat :=
  info.loadSegments.foldl (fun acc seg => max acc (seg.vaddr + seg.memSize)) 0

theorem le_foldl_max (f : α → Nat) (l : List α) (acc : Nat) :
    acc ≤ l.foldl (fun acc a => max acc (f a)) acc ∧ ∀ a ∈ l, f a ≤ l.foldl
      (fun acc a => max acc (f a)) acc := by
  induction l generalizing acc with
  | nil => exact ⟨Nat.le_refl acc, by simp⟩
  | cons a l ih =>
    obtain ⟨hacc, hrest⟩ := ih (max acc (f a))
    rw [List.foldl_cons]
    refine ⟨by omega, fun b hb => ?_⟩
    rcases List.mem_cons.mp hb with rfl | hb
    · omega
    · exact hrest b hb

theorem foldl_max_le (f : α → Nat) (l : List α) {acc n : Nat} (hacc : acc ≤ n)
    (hl : ∀ a ∈ l, f a ≤ n) : l.foldl (fun acc a => max acc (f a)) acc ≤ n := by
  induction l generalizing acc with
  | nil => exact hacc
  | cons a l ih =>
    have ha := hl a List.mem_cons_self
    exact ih (Nat.max_le.mpr ⟨hacc, ha⟩) fun b hb => hl b (List.mem_cons_of_mem _ hb)

theorem calculateHeapStart_eq (hend : ∀ seg ∈ info.loadSegments, seg.vaddr + seg.memSize ≤ 2 ^ 47) :
    calculateHeapStart info = pure (pageOf (info.top + 0xFFF)) := by
  have htop : info.top ≤ 2 ^ 47 :=
    foldl_max_le (fun seg : LoadSegment => seg.vaddr + seg.memSize) _ (by omega) hend
  have hfold : ∀ (segs : List LoadSegment) (acc : Nat),
      (∀ seg ∈ segs, seg.vaddr + seg.memSize ≤ 2 ^ 47) → (segs.foldlM (fun acc seg => do
        let segEnd ← addU64 seg.vaddr seg.memSize
        return max acc segEnd) acc : KM Nat) =
      pure (segs.foldl (fun acc seg => max acc (seg.vaddr + seg.memSize)) acc) := by
    intro segs
    induction segs with
    | nil => exact fun acc _ => rfl
    | cons seg segs ih =>
      intro acc hsegs
      have hlt := hsegs seg List.mem_cons_self
      rw [List.foldlM_cons, addU64_eq (by omega), pure_bind, pure_bind, List.foldl_cons]
      exact ih _ fun seg' hs => hsegs seg' (List.mem_cons_of_mem _ hs)
  unfold calculateHeapStart
  rw [hfold _ 0 hend, pure_bind]
  show addU64 info.top 0xFFF >>= _ = _
  rw [addU64_eq (by omega), pure_bind]

/-- The heap of a file in the user half starts above its pages. -/
theorem heap_above (hend : ∀ seg ∈ info.loadSegments, seg.vaddr + seg.memSize ≤ 2 ^ 47) :
    ∃ heap, (∀ t, Returns (calculateHeapStart info >>= HeapInfo.new) t heap t) ∧
      heap.heapStart % pageSize = 0 ∧
      ∀ seg ∈ info.loadSegments, ∀ v ∈ seg.pages, (v + 1) * pageSize ≤ heap.heapStart := by
  have htop : info.top ≤ 2 ^ 47 :=
    foldl_max_le (fun seg : LoadSegment => seg.vaddr + seg.memSize) _ (by omega) hend
  have hle :=
    (le_foldl_max (fun seg : LoadSegment => seg.vaddr + seg.memSize) info.loadSegments 0).2
  have hstart : pageOf (info.top + 0xFFF) < 2 ^ 48 := by
    simp only [pageOf, pageSize]
    omega
  have hagain : pageOf (pageOf (info.top + 0xFFF) + 0xFFF) = pageOf (info.top + 0xFFF) := by
    simp only [pageOf, pageSize]
    omega
  refine ⟨⟨pageOf (info.top + 0xFFF), pageOf (info.top + 0xFFF),
    pageOf (info.top + 0xFFF) + 0x4000_0000⟩, fun t => ?_, ?_, ?_⟩
  · rw [calculateHeapStart_eq hend, pure_bind, HeapInfo.new,
      addU64_eq (by omega), pure_bind, hagain, addU64_eq (by omega), pure_bind]
    exact pure_returns _ t
  · exact Nat.mul_mod_left _ _
  · intro seg hseg v hv
    have hseg := hle seg hseg
    have hv := hv.2
    simp only [ElfInfo.top, pageOf, pageSize] at *
    omega

/-! ## Loading into a fresh table -/

section

variable {info : ElfInfo} {debug : Bool} {s0 : KMem}

/-- What loading an accepted file into a fresh table comes to. -/
theorem loadElfSegments_fresh (hparse : parseElf debug data = .ok info)
    (hend : ∀ seg ∈ info.loadSegments, seg.vaddr + seg.memSize ≤ 2 ^ 47)
    (hbound : s0.frames.endFrame ≤ 2 ^ 40) (hcreate : Returns createUserPageTable s0 pt s) :
    Ends (loadElfSegments info data pt) s (fun _ _ => PagesApart info) fun e _ =>
      (∃ msg, e = .err msg) ∧ spare s < (info.loadSegments.map LoadSegment.need).sum ∨
        (∃ msg, e = .panic msg) ∧ ¬PagesApart info := by
  have new := createUserPageTable_ok hcreate
  have hwf : Wf s (insert pt ∅) ∅ := new.wf (Wf.empty (by simp) hbound)
  have hfree : ∀ seg ∈ info.loadSegments, ∀ v ∈ seg.pages, leafOf s pt v = none :=
    fun seg hseg v hv => leafOf_empty new.empty (seg.page_lt (hend seg hseg) hv)
  refine (loadElfSegments_ends (A := fun _ _ _ _ => True) hwf (Set.mem_insert pt ∅)
    fun seg hseg => ⟨hend seg hseg, fun _ _ _ _ _ => trivial⟩).mono (fun _ _ h => h.2.1.2)
    fun e _ he => he.symm.imp (fun h => ⟨h.1, h.2.2⟩) fun ⟨hstop, hbad⟩ => ⟨hstop, fun hpair => ?_⟩
  exact hbad (parseElf_inFile hparse) ⟨hfree, hpair⟩

/-- A file that `parse_elf` accepts, with its segments below the user stack and
enough frames for a fresh page table: it loads safely exactly if no page belongs
to two of its segments. -/
theorem loadElf_safe_iff (hparse : parseElf debug data = .ok info) (hbelow : BelowStack info)
    (hbound : s₀.frames.endFrame ≤ 2 ^ 40) (hcreate : Returns createUserPageTable s₀ pt s)
    (henough : EnoughFrames info data pt s) : LoadsSafely info data pt s ↔ PagesApart info := by
  have hend : ∀ seg ∈ info.loadSegments, seg.vaddr + seg.memSize ≤ 2 ^ 47 := by
    intro seg hseg
    have := hbelow seg hseg
    simp only [userStackTop, userStackPages, pageSize] at this
    omega
  have hload := loadElfSegments_fresh hparse hend hbound hcreate
  constructor
  · intro hsafe
    -- neither `Err` nor a panic: it returns
    rcases hload.cases with ⟨u, s', hret, hapart⟩ | ⟨e, s', hth, -⟩
    · exact hapart
    · cases e with
      | err msg => exact absurd hth (henough msg s')
      | panic msg => exact absurd hth (hsafe.noPanic msg s')
  · intro hapart
    refine ⟨fun msg s' hth => ?_, heap_above hend⟩
    rcases hth.of_ends hload with ⟨⟨_, herr⟩, -⟩ | ⟨-, hbad⟩
    · cases herr
    · exact hbad hapart

end

theorem loadElf_safe_iff_acrossPages : ∃ s, Returns createUserPageTable loadMem 1 s ∧
    EnoughFrames acrossPagesInfo acrossPagesFile 1 s ∧
    (LoadsSafely acrossPagesInfo acrossPagesFile 1 s ↔ PagesApart acrossPagesInfo) := by
  obtain ⟨s, s', hcreate, hload⟩ := acrossPages_runs
  have henough : EnoughFrames acrossPagesInfo acrossPagesFile 1 s := fun _ _ hth =>
    not_returns_of_throws hth hload
  exact ⟨s, hcreate, henough, loadElf_safe_iff acrossPages_parsed (acrossPages_only (by decide))
    (by decide) hcreate henough⟩

/-- Two segments that meet inside a page, as linkers lay out code and data. -/
def sharedPage : List LoadSegment := [⟨0x400000, 0, 16, 16, 5⟩, ⟨0x400800, 16, 16, 16, 6⟩]

/-- What `parse_elf` reads of the file with these segments. -/
def sharedPageInfo : ElfInfo := ⟨0x400000, sharedPage, 0x400040, 2⟩

/-- The file is accepted, its segments are below the user stack, 62 frames are
left, and loading it panics at its second segment. -/
theorem shared_page_panics : ∃ s, parseElf true (elfBytes sharedPage []) = .ok sharedPageInfo ∧
    BelowStack sharedPageInfo ∧ Returns createUserPageTable loadMem 1 s ∧
    EnoughFrames sharedPageInfo (elfBytes sharedPage []) 1 s ∧
    (∃ s', Throws (loadElfSegments sharedPageInfo (elfBytes sharedPage []) 1) s
      (.panic (remapText 0x400000 (frameAddr 2) (frameAddr 6))) s') ∧
    ¬LoadsSafely sharedPageInfo (elfBytes sharedPage []) 1 s := by
  obtain ⟨s, hcreate⟩ := returns_of_outcome (show outcome createUserPageTable loadMem = .ok 1 by
    rw [createUserPageTable_eq]
    decide +kernel)
  have hrun : thrown (do
      let pt ← createUserPageTable
      loadElfSegments sharedPageInfo (elfBytes sharedPage []) pt) loadMem =
      some (.panic (remapText 0x400000 (frameAddr 2) (frameAddr 6))) := by
    rw [createUserPageTable_eq]
    decide +kernel
  obtain ⟨s', hth⟩ := throws_of_thrown hrun
  rw [throws_bind] at hth
  rcases hth with hth | ⟨pt, s₁, hcreate', hth⟩
  · exact absurd hcreate (not_returns_of_throws hth)
  obtain ⟨rfl, rfl⟩ := hcreate.unique hcreate'
  refine ⟨s, by decide +kernel, by decide, hcreate, fun msg s₂ herr => ?_, ⟨s', hth⟩,
    fun hsafe => hsafe.noPanic _ s' hth⟩
  cases (hth.unique herr).1

end PandaOS.Kernel
