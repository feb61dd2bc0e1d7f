import Mathlib.Order.CompletePartialOrder
import PandaOS.Logic.NewPage
import PandaOS.Logic.Spare
import PandaOS.Logic.Walk

/-!
# Memory that a process asks for

Images, stacks and page faults add pages to an address space (`Pages`); code that
gives up with an error has at most taken frames and added tables after them
(`GaveUp`). A page of `brk` or `mmap` is mapped with the old contents of its
frame and then cleared through the page whose number is the frame's (`UserPage`).
-/

namespace PandaOS.Kernel

open Hal Lib

variable {s s' s1 : KMem} {roots K : Set Nat} {r va f v addr cr2 : Nat} {c : Prop} {p : ProcMem}
  {seg : LoadSegment} {data : List Byte} {e : Word}

/-! ## The MMU on a well-formed address space -/

/-- A table on the way to a user address, and its entry. -/
theorem Wf.level {d t c : Nat} (h : Wf s roots K) (hr : r ∈ roots) (hva : va < 2 ^ 47) (hd : d < 3)
    (hn : pml4.node s.mem r d (va / 4096 / 512 ^ (4 - d)) = some t)
    (hc : tableAt s.mem t (indexAt va d) = some c) :
    TableEntry (s.mem t (indexAt va d)) ∧ pml4.node s.mem r (d + 1)
      (va / 4096 / 512 ^ (4 - (d + 1))) = some c := by
  have hi := indexAt_lt va d
  have hentry := h.table_entry r hr d hd _ t (pos_indexAt hva (by omega))
  rw [pml4.child_div _ hi, pml4.child_mod _ hi] at hentry
  refine ⟨hentry hn (tableAt_some hc).1, ?_⟩
  rw [show 4 - (d + 1) = 3 - d by omega, node_next _ _ _ (by omega), hn, Option.bind_some, hc]

/-- The tables of the user half restrict no access, so the MMU grants what the
entry of the page grants. -/
theorem translate_leaf (h : Wf s roots K) (hr : r ∈ roots) (hva : va < 2 ^ 47)
    (he : leafOf s r (va / 4096) = some e) :
    translate s.mem r va = some ⟨Pte.frame e, Pte.has e Pte.WRITABLE,
      Pte.has e Pte.USER_ACCESSIBLE⟩ := by
  rw [← walkEntry_eq] at he
  obtain ⟨l3, l2, l1, h₃, h₂, h₁, hp, rfl⟩ := walkEntry_eq_some.mp he
  obtain ⟨h4, h3, h2, -⟩ := pIndex_eq va
  have hf : tableAt s.mem l1 (p1Index va) = some (Pte.frame (s.mem l1 (p1Index va))) :=
    child_of_present hp
  rw [h4] at h₃
  rw [h3] at h₂
  rw [h2] at h₁
  -- the three table entries on the way, each with the flags of `Pte.tableFlags`
  obtain ⟨e₄, n₁⟩ := h.level hr hva (by omega) rfl h₃
  obtain ⟨e₃, n₂⟩ := h.level hr hva (by omega) n₁ h₂
  obtain ⟨e₂, -⟩ := h.level hr hva (by omega) n₂ h₁
  unfold translate
  simp only [h4, h3, h2, h₃, h₂, h₁, hf, e₄.1, e₃.1, e₂.1, e₄.2.1, e₃.2.1, e₂.2.1, Bool.true_and,
    Option.bind_eq_bind, Option.bind_some]

theorem translate_none (he : leafOf s r (va / 4096) = none) : translate s.mem r va = none := by
  rw [← walkEntry_eq] at he
  rw [Option.eq_none_iff_forall_ne_some]
  intro t ht
  simp only [translate, Option.bind_eq_bind, Option.bind_eq_some_iff] at ht
  obtain ⟨l3, h3, l2, h2, l1, h1, f, hf, -⟩ := ht
  have hp : Pte.isPresent (s.mem l1 (p1Index va)) = true := by
    rw [← child_isSome, ← tableAt_eq, hf]
    rfl
  rw [walkEntry_eq_some.mpr ⟨l3, l2, l1, h3, h2, h1, hp, rfl⟩] at he
  cases he

/-! ## New pages -/

/-- One new page. -/
def AddsPage (roots K : Set Nat) (pt : Nat) (A : PageRule) (s s' : KMem) : Prop :=
  ∃ v f flags, v < userPages ∧ A v flags (s.mem f) (s'.mem f) ∧ NewPage roots K pt v f flags s s'

/-- A sequence of new pages. -/
abbrev Pages (roots K : Set Nat) (pt : Nat) (A : PageRule) : KMem → KMem → Prop :=
  Relation.ReflTransGen (AddsPage roots K pt A)

/-- Frames were taken and tables added; the pages and what they hold are as before. -/
structure SamePages (roots K : Set Nat) (s s' : KMem) : Prop where
  wf : Wf s' roots K
  cr3 : s'.cr3 = s.cr3
  frames : FramesLe s.frames s'.frames
  leaves : SameLeaves roots s s'
  kept : ∀ g, ¬IsTable s' roots g → s'.mem g = s.mem g

theorem SamePages.refl (h : Wf s roots K) : SamePages roots K s s :=
  ⟨h, rfl, .refl _, fun _ _ _ _ => rfl, fun _ _ => rfl⟩

/-- Pages were added, and the next one could not be mapped. -/
def GaveUp (roots K : Set Nat) (pt : Nat) (A : PageRule) (s s' : KMem) : Prop :=
  ∃ t, Pages roots K pt A s t ∧ SamePages roots K t s'

section

variable {pt : Nat} {A : PageRule}

/-- Clearing the frame of a page changes no table. -/
theorem zeroFrame_agree (hnt : ¬IsTable s roots f) :
    pml4.Agree s.mem (s.zeroFrame f).mem roots userRegion 3 := by
  apply pml4.agree_of_frames
  intro t ht
  have hne : t ≠ f := fun heq => hnt (heq ▸ ht)
  simp [KMem.zeroFrame, hne]

theorem Pages.wf (m : Pages roots K pt A s s') (h : Wf s roots K) : Wf s' roots K := by
  cases m with
  | refl => exact h
  | tail _ hlast =>
    obtain ⟨v, f, flags, hv, rule, new⟩ := hlast
    exact new.wf

/-- New pages take none away. -/
theorem Pages.mapped (m : Pages roots K pt A s s') (hr : pt ∈ roots)
    (hv : v < userPages) (h : leafOf s pt v ≠ none) : leafOf s' pt v ≠ none := by
  induction m with
  | refl => exact h
  | tail _ hlast ih =>
    obtain ⟨w, f, flags, -, -, new⟩ := hlast
    exact new.mapped hr hv ih

/-- What every new page keeps holds after a sequence of new pages. -/
theorem PageInv.pages {J : KMem → Prop} (inv : PageInv roots K pt A J) (h : J s)
    (m : Pages roots K pt A s s') : J s' := by
  induction m with
  | refl => exact h
  | tail _ hlast ih =>
    obtain ⟨v, f, flags, hv, rule, new⟩ := hlast
    exact inv.step _ _ v f flags hv ih rule new

theorem Pages.gaveUp {t : KMem} (m : Pages roots K pt A s t) (h : GaveUp roots K pt A t s') :
    GaveUp roots K pt A s s' := by
  obtain ⟨u, hm, hsame⟩ := h
  exact ⟨u, m.trans hm, hsame⟩

end

section

variable {pt va f : Nat} {flags : Word}

/-- `map_page` of a frame just allocated: the page is new once the frame is filled,
and until then the frame holds what it held. It stops if the page was mapped before. -/
theorem mapFresh_ends (h : Wf s roots K) (hr : pt ∈ roots) (hva : va < 2 ^ 47)
    (hfl : PageFlags flags) (ha : Allocated s s1 f) :
    Ends (mapPage pt va f flags) s1
      (fun _ s2 => (∀ s', Filled s2 s' f → NewPage roots K pt (va / 4096) f flags s s') ∧
        s2.mem f = s.mem f ∧ spare s ≤ spare s2 + 4)
      fun e s' => (Stopped e ∧ leafOf s pt (va / 4096) ≠ none) ∨
        ((∃ msg, e = .err msg) ∧ SamePages roots K s s' ∧ spare s < 4) := by
  have hsame := ha.agree roots
  have hw1 : Wf s1 roots K := h.of_agree hsame ha.frames
  have hone := ha.spare
  have hneeds := ends_iff.mp (needs_mapPage pt va f flags s1)
  refine ends_iff.mpr ⟨fun _ s2 hmap => ⟨fun s' => newPage_ok h hr hva hfl ha hmap, ?_, ?_⟩,
    fun e s2 hth => ?_⟩
  · obtain ⟨hnt, -, hk⟩ := h.fresh ha.fresh
    have hnt1 : ¬IsTable s1 roots f := by rwa [isTable_iff_of_agree hsame]
    obtain ⟨-, hg, -⟩ := mapPage_ok hw1 hr hva ha.owned hnt1 hk hfl hmap
    rw [hg.content ha.owned.not_fresh hnt1, ha.mem]
  · have := (hneeds.1 _ s2 hmap).2
    omega
  · obtain ⟨had, herr | ⟨hmapped, _, hstop⟩⟩ := hth.of_ends (mapPage_adds hw1 hr hva)
    · have := (hneeds.2 e s2 hth).2 herr
      refine .inr ⟨herr, ⟨had.wf, had.cr3.trans ha.cr3, ha.frames.trans had.frames,
        fun r hr' v hv => ?_, fun g hg => ?_⟩, by omega⟩
      · rw [had.leaves r hr' v hv, leafOf_agree hsame hr' hv]
      · rw [had.kept g hg, ha.mem]
    · rw [leafOf_agree hsame hr (page_lt hva)] at hmapped
      exact .inl ⟨⟨_, hstop⟩, hmapped⟩

end

/-! ## Flags -/

theorem pageFlags_prot (prot : BitVec 32) : PageFlags (protFlags prot) := by
  unfold protFlags PageFlags
  split <;> split <;> decide

theorem pageFlags_demand (p : ProcMem) (va : Nat) : PageFlags (demandFlags p va) := by
  unfold demandFlags
  split
  · exact pageFlags_prot _
  · unfold PageFlags
    decide

theorem pageFlags_heap : PageFlags heapFlags := by
  unfold PageFlags
  decide

/-! ## Demand paging -/

theorem ends_expectOk {α : Type} {msg : String} {x : KM α} {Q : α → KMem → Prop}
    (h : Ends x s Q fun _ _ => True) : Ends (expectOk msg x) s Q fun e _ => Stopped e := by
  unfold expectOk
  rw [ends_tryCatch]
  refine h.mono (fun _ _ hQ => hQ) fun e s' _ => ?_
  cases e with
  | err m => exact ⟨_, rfl⟩
  | panic m => exact ⟨_, rfl⟩

/-- A missing page of the user half is demand-paged, for user code and for the kernel. -/
theorem pageFaultHandler_missing {write user : Bool} (hcr2 : cr2 < userSpaceMax) :
    pageFaultHandler (some p) cr2 false write user = handleDemandPaging p cr2 := by
  cases user with
  | true => rfl
  | false =>
    have hbelow : decide (cr2 < userSpaceMax) = true := decide_eq_true hcr2
    simp only [pageFaultHandler, hbelow, Bool.not_false, Bool.and_self, Bool.and_false,
      Bool.false_and, Bool.false_eq_true, if_false, if_true]

/-- Demand paging maps a cleared page, or the kernel stops. -/
theorem handleDemandPaging_ends (h : Wf s roots K) (hr : p.pageTablePhys ∈ roots)
    (hcr2 : cr2 < 2 ^ 47) :
    Ends (handleDemandPaging p cr2) s
      (fun _ s' => ∃ f, NewPage roots K p.pageTablePhys (cr2 / 4096) f
        (demandFlags p (pageOf cr2)) s s' ∧ s'.mem f = fun _ => 0)
      fun e _ => Stopped e := by
  have hpage : pageOf cr2 / 4096 = cr2 / 4096 := by
    simp only [pageOf, pageSize]
    omega
  have hva : pageOf cr2 < 2 ^ 47 := by
    simp only [pageOf, pageSize]
    omega
  unfold handleDemandPaging
  refine ends_allocateFrame (fun _ => ⟨_, rfl⟩) fun f s1 ha => ?_
  simp only [ends_bind, zeroFrame, ends_modify]
  have hmap := mapFresh_ends h hr hva (pageFlags_demand p (pageOf cr2)) ha
  rw [hpage] at hmap
  refine ends_expectOk (hmap.mono (fun _ s2 hnew => ?_) fun _ _ _ => trivial)
  exact ⟨f, hnew.1 _ (filled_zeroFrame s2 f), by simp [KMem.zeroFrame]⟩

/-! ## Stacks and images -/

section

variable {pt : Nat} {A : PageRule} {flags : Word}

/-- Page `i` of a stack. -/
def stackPage (stackTop i : Nat) : Nat := (stackTop - (i + 1) * pageSize) / 4096

/-- The loop of the stack allocators adds pages. -/
theorem allocateStack_ends {stackTop numPages : Nat} (h : Wf s roots K) (hr : pt ∈ roots)
    (hfl : PageFlags flags) (htop : stackTop ≤ 2 ^ 47)
    (hA : ∀ i < numPages, ∀ c, A (stackPage stackTop i) flags c fun _ => 0) :
    Ends (allocateStack flags pt stackTop numPages) s (fun _ s' => Pages roots K pt A s s' ∧
        ∀ i < numPages, leafOf s' pt (stackPage stackTop i) ≠ none)
      fun e s' => Stopped e ∨ GaveUp roots K pt A s s' := by
  have hbelow : ∀ i, stackTop - (i + 1) * pageSize < 2 ^ 47 := by
    intro i
    simp only [pageSize]
    omega
  have hloop : Ends (allocateStack flags pt stackTop numPages) s
      (fun _ s' => Pages roots K pt A s s' ∧ ∀ i < 0 + numPages,
        leafOf s' pt (stackPage stackTop i) ≠ none)
      fun e s' => Stopped e ∨ GaveUp roots K pt A s s' := by
    refine ends_forRange_from (fun k t => Pages roots K pt A s t ∧
      ∀ i < k, leafOf t pt (stackPage stackTop i) ≠ none) ⟨.refl, by simp⟩ ?_
    rintro i t - hi ⟨hm, hdone⟩
    have hva := hbelow i
    refine ends_allocateFrame (fun _ => .inr ⟨t, hm, .refl (hm.wf h)⟩) fun f t1 ha => ?_
    simp only [ends_bind, zeroFrame, ends_modify]
    refine (mapFresh_ends (hm.wf h) hr hva hfl ha).mono (fun _ t2 hnew => ?_) fun e t' he =>
      he.imp (fun hs => hs.1) fun hsame => ⟨t, hm, hsame.2.1⟩
    have new := hnew.1 _ (filled_zeroFrame t2 f)
    refine ⟨hm.tail ⟨_, f, flags, page_lt hva, ?_, new⟩, fun j hj => ?_⟩
    · rw [show (t2.zeroFrame f).mem f = fun _ => 0 from if_pos rfl]
      exact hA i (by omega) _
    · rcases Nat.lt_succ_iff_lt_or_eq.mp hj with hlt | rfl
      · exact new.mapped hr (page_lt (hbelow j)) (hdone j hlt)
      · exact new.here hr (page_lt hva)
  simpa using hloop

/-! ## Segments -/

/-- The pages of a segment. -/
def LoadSegment.pages (seg : LoadSegment) : Set Nat :=
  { v | seg.vaddr / 4096 ≤ v ∧ v * 4096 < seg.vaddr + seg.memSize }

/-- Their number. -/
def LoadSegment.pageCount (seg : LoadSegment) : Nat :=
  (seg.vaddr + seg.memSize + 0xFFF) / 4096 - seg.vaddr / 4096

/-- The frames they need, with the tables above each of them. -/
def LoadSegment.need (seg : LoadSegment) : Nat := 4 * seg.pageCount

theorem LoadSegment.mem_pages : v ∈ seg.pages ↔ seg.vaddr / 4096 ≤ v ∧
    v < seg.vaddr / 4096 + seg.pageCount := by
  simp only [pages, pageCount, Set.mem_ofPred_eq]
  omega

theorem LoadSegment.page_lt (seg : LoadSegment) (hend : seg.vaddr + seg.memSize ≤ 2 ^ 47)
    (hv : v ∈ seg.pages) : v < userPages := by
  have := hv.2
  simp only [userPages]
  omega

/-- A segment that ends before the end of the address space is loaded page by page. -/
theorem loadSegment_eq (data : List Byte) (pt : Nat)
    (hend : seg.vaddr + seg.memSize + 0xFFF < 2 ^ 64) :
    loadSegment data pt seg = forRange 0 seg.pageCount
      (loadSegmentPage seg data pt (pageOf seg.vaddr)) := by
  have hle : pageOf seg.vaddr ≤ pageOf (seg.vaddr + seg.memSize + 0xFFF) := by
    simp only [pageOf, pageSize]
    omega
  have hlen : (pageOf (seg.vaddr + seg.memSize + 0xFFF) - pageOf seg.vaddr) / 4096 =
      seg.pageCount := by
    simp only [LoadSegment.pageCount, pageOf, pageSize]
    omega
  unfold loadSegment
  simp only [addU64_eq (by omega : seg.vaddr + seg.memSize < 2 ^ 64),
    addU64_eq hend, subU64_eq hle, pure_bind, hlen]

/-- A page was added, with a part of the file in its frame. -/
def AddsFilePage (roots K : Set Nat) (pt : Nat) (seg : LoadSegment) (data : List Byte) (v : Nat)
    (s s' : KMem) : Prop :=
  ∃ f, NewPage roots K pt v f (segmentFlags seg) s s' ∧ FileBytes data (s'.mem f)

/-- One page of a segment. For an accepted file the load stops only at a page that is
mapped already, and four frames are enough. -/
theorem loadSegmentPage_ends {i : Nat} (h : Wf s roots K) (hr : pt ∈ roots)
    (hend : seg.vaddr + seg.memSize ≤ 2 ^ 47) (hi : seg.vaddr / 4096 + i ∈ seg.pages) :
    Ends (loadSegmentPage seg data pt (pageOf seg.vaddr) i) s
      (fun _ s' => AddsFilePage roots K pt seg data (seg.vaddr / 4096 + i) s s' ∧
        spare s ≤ spare s' + 4)
      fun e s' => (Stopped e ∧ (seg.InFile data → leafOf s pt (seg.vaddr / 4096 + i) ≠ none)) ∨
        ((∃ msg, e = .err msg) ∧ SamePages roots K s s' ∧ spare s < 4) := by
  have hlast := hi.2
  have hpage : pageOf seg.vaddr + i * 4096 = (seg.vaddr / 4096 + i) * 4096 := by
    simp only [pageOf, pageSize]
    omega
  generalize hv : seg.vaddr / 4096 + i = v at hlast hpage ⊢
  unfold loadSegmentPage
  refine ends_allocateFrame (fun hout => ?_) fun f s1 ha => ?_
  · have := spare_eq_zero.mpr hout
    exact .inr ⟨⟨_, rfl⟩, .refl h, by omega⟩
  have hf : f < 2 ^ 40 := lt_of_lt_of_le ha.fresh.2.1 h.bound
  simp only [addU64_eq (by omega : pageOf seg.vaddr + i * 4096 < 2 ^ 64),
    hpage, pure_bind, ends_bind, zeroFrame, ends_modify]
  have hmap := mapFresh_ends h hr (by omega : v * 4096 < 2 ^ 47) (pageFlags_segment seg) ha
  rw [Nat.mul_div_cancel v (by omega)] at hmap
  refine hmap.mono ?_ fun _ _ he => he.imp_left fun hs => ⟨hs.1, fun _ => hs.2⟩
  rintro _ s2 ⟨hnew, -, hspare⟩
  have hzero : FileBytes data ((s2.zeroFrame f).mem f) := by
    rw [show (s2.zeroFrame f).mem f = fun _ => 0 from if_pos rfl]
    exact FileBytes.zero data
  -- the page is in place once its frame holds a part of the file
  have hdone : ∀ s', Filled (s2.zeroFrame f) s' f → FileBytes data (s'.mem f) →
      AddsFilePage roots K pt seg data v s s' ∧ spare s ≤ spare s' + 4 := by
    intro s' hfill hbytes
    refine ⟨⟨f, hnew _ ((filled_zeroFrame s2 f).trans hfill), hbytes⟩, ?_⟩
    unfold spare at hspare ⊢
    rwa [hfill.frames]
  refine (addU64_ends _ _ _).mono ?_ fun _ _ hfail => .inl ⟨hfail.2.1, fun hfile => ?_⟩
  case refine_2 =>
    have hover := hfail.2.2.2
    exact absurd hfile.1 (by omega)
  rintro fileEnd _ ⟨rfl, hle, -⟩
  split
  · refine (copySegmentPage_ends hf (by omega)).mono (fun _ s' hcopy => ?_) fun _ _ hstop => ?_
    · exact hdone s' hcopy.1 (hcopy.2 hzero)
    · exact .inl ⟨hstop.2.1, fun hfile => absurd hfile (hstop.2.2 (by omega))⟩
  · exact hdone _ (Filled.refl _ _) hzero

/-- The pages of a segment were added to an address space. -/
structure Added (pt : Nat) (seg : LoadSegment) (s s' : KMem) : Prop where
  free : ∀ v ∈ seg.pages, leafOf s pt v = none
  mapped : ∀ v ∈ seg.pages, leafOf s' pt v ≠ none
  others : ∀ v < userPages, v ∉ seg.pages → leafOf s' pt v = leafOf s pt v

theorem loadSegment_ends (h : Wf s roots K) (hr : pt ∈ roots)
    (hend : seg.vaddr + seg.memSize ≤ 2 ^ 47)
    (hA : ∀ v ∈ seg.pages, ∀ c c', FileBytes data c' → A v (segmentFlags seg) c c') :
    Ends (loadSegment data pt seg) s
      (fun _ s' => Pages roots K pt A s s' ∧ Added pt seg s s' ∧ spare s ≤ spare s' + seg.need)
      fun e s' =>
        (Stopped e ∧ (seg.InFile data → ∃ v ∈ seg.pages, leafOf s pt v ≠ none)) ∨
          ((∃ msg, e = .err msg) ∧ GaveUp roots K pt A s s' ∧ spare s < seg.need) := by
  rw [loadSegment_eq data pt (by omega)]
  -- the first `k` pages are mapped, the others are as they were
  refine (ends_forRange_from (fun k t => Pages roots K pt A s t ∧ spare s ≤ spare t + 4 * k ∧
    (∀ v, seg.vaddr / 4096 ≤ v → v < seg.vaddr / 4096 + k → leafOf s pt v = none ∧
      leafOf t pt v ≠ none) ∧
    ∀ v < userPages, ¬(seg.vaddr / 4096 ≤ v ∧ v < seg.vaddr / 4096 + k) →
      leafOf t pt v = leafOf s pt v) ⟨.refl, by omega, by omega, fun _ _ _ => rfl⟩ ?_).mono
    (fun _ t ⟨hm, hspare, hdone, hrest⟩ => ?_) fun _ _ he => he
  · rintro i t - hi ⟨hm, hspare, hdone, hrest⟩
    have hin : seg.vaddr / 4096 + i ∈ seg.pages := LoadSegment.mem_pages.mpr (by omega)
    have hv := seg.page_lt hend hin
    have hsame : leafOf t pt (seg.vaddr / 4096 + i) = leafOf s pt (seg.vaddr / 4096 + i) :=
      hrest _ hv (by omega)
    have hneed : 4 * (i + 1) ≤ seg.need := Nat.mul_le_mul_left 4 (by omega)
    refine (loadSegmentPage_ends (hm.wf h) hr hend hin).mono
      (fun _ t' ⟨⟨f, new, hbytes⟩, hfour⟩ => ?_) fun e t' he => ?_
    · refine ⟨hm.tail ⟨_, f, _, hv, hA _ hin _ _ hbytes, new⟩, by omega,
        fun w hlo hhi => ?_, fun w hw hout => ?_⟩
      · have hw : w < userPages := seg.page_lt hend (LoadSegment.mem_pages.mpr (by omega))
        by_cases hwi : w = seg.vaddr / 4096 + i
        · subst hwi
          exact ⟨hsame ▸ new.free, new.here hr hw⟩
        · obtain ⟨hfree, hmapped⟩ := hdone w hlo (by omega)
          exact ⟨hfree, new.mapped hr hw hmapped⟩
      · rw [new.leaf pt hr w hw, if_neg (by omega), hrest w hw (by omega)]
    · rcases he with ⟨hstop, hmapped⟩ | ⟨herr, hleft, hfew⟩
      · exact .inl ⟨hstop, fun hfile => ⟨_, hin, hsame ▸ hmapped hfile⟩⟩
      · exact .inr ⟨herr, ⟨t, hm, hleft⟩, by omega⟩
  · rw [Nat.zero_add] at hspare hdone hrest
    refine ⟨hm, ⟨fun v hv => ?_, fun v hv => ?_, fun v hlt hv => ?_⟩, hspare⟩
    · exact (hdone v (LoadSegment.mem_pages.mp hv).1 (LoadSegment.mem_pages.mp hv).2).1
    · exact (hdone v (LoadSegment.mem_pages.mp hv).1 (LoadSegment.mem_pages.mp hv).2).2
    · exact hrest v hlt fun hin => hv (LoadSegment.mem_pages.mpr hin)

/-- None of the pages of the segments is mapped, and none belongs to two of them. -/
def PagesFree (segs : List LoadSegment) (pt : Nat) (s : KMem) : Prop :=
  (∀ seg ∈ segs, ∀ v ∈ seg.pages, leafOf s pt v = none) ∧
    segs.Pairwise fun seg seg' => Disjoint seg.pages seg'.pages

/-- The pages of further segments are free after the first one is loaded if they were,
and are none of its own. -/
theorem Added.pagesFree {segs : List LoadSegment} (a : Added pt seg s s')
    (hend : ∀ seg' ∈ segs, seg'.vaddr + seg'.memSize ≤ 2 ^ 47) :
    PagesFree segs pt s' ↔ PagesFree (seg :: segs) pt s := by
  simp only [PagesFree, List.forall_mem_cons, List.pairwise_cons, Set.disjoint_left]
  constructor
  · rintro ⟨hall, hpair⟩
    have hout : ∀ seg' ∈ segs, ∀ v ∈ seg'.pages, v ∉ seg.pages := fun seg' hs v hv hin =>
      a.mapped v hin (hall seg' hs v hv)
    refine ⟨⟨a.free, fun seg' hs v hv => ?_⟩, fun seg' hs v hin hv => hout seg' hs v hv hin, hpair⟩
    rw [← a.others v (seg'.page_lt (hend seg' hs) hv) (hout seg' hs v hv)]
    exact hall seg' hs v hv
  · rintro ⟨⟨-, hall⟩, hout, hpair⟩
    refine ⟨fun seg' hs v hv => ?_, hpair⟩
    rw [a.others v (seg'.page_lt (hend seg' hs) hv) fun hin => hout seg' hs hin hv]
    exact hall seg' hs v hv

/-- `load_elf_segments`, for a file whose segments lie in the user half. An accepted
file is loaded if its pages are free; only the frames can run out. -/
theorem loadElfSegments_ends {info : ElfInfo} (h : Wf s roots K) (hr : pt ∈ roots)
    (hsegs : ∀ seg ∈ info.loadSegments, seg.vaddr + seg.memSize ≤ 2 ^ 47 ∧
      ∀ v ∈ seg.pages, ∀ c c', FileBytes data c' → A v (segmentFlags seg) c c') :
    Ends (loadElfSegments info data pt) s
      (fun _ s' => Pages roots K pt A s s' ∧ PagesFree info.loadSegments pt s ∧
        ∀ seg ∈ info.loadSegments, ∀ v ∈ seg.pages, leafOf s' pt v ≠ none)
      fun e s' =>
        (Stopped e ∧ ((∀ seg ∈ info.loadSegments, seg.InFile data) →
          ¬PagesFree info.loadSegments pt s)) ∨
        ((∃ msg, e = .err msg) ∧ GaveUp roots K pt A s s' ∧
          spare s < (info.loadSegments.map LoadSegment.need).sum) := by
  unfold loadElfSegments
  generalize info.loadSegments = segs at hsegs
  induction segs generalizing s with
  | nil => exact ⟨.refl, ⟨by simp, List.Pairwise.nil⟩, by simp⟩
  | cons seg segs ih =>
    obtain ⟨hend, hA⟩ := hsegs seg List.mem_cons_self
    have hlater := fun seg' hs => hsegs seg' (List.mem_cons_of_mem _ hs)
    simp only [List.forM_eq_forM, List.forM_cons, ends_bind, List.map_cons, List.sum_cons]
    refine (loadSegment_ends h hr hend hA).mono ?_ fun e t he => ?_
    · rintro _ t ⟨hm, a, hspare⟩
      have hfree := a.pagesFree fun seg' hs => (hlater seg' hs).1
      refine (ih (hm.wf h) hlater).mono ?_ fun e s' he => ?_
      · rintro _ s' ⟨hm', hall, hrest⟩
        refine ⟨hm.trans hm', hfree.mp hall, List.forall_mem_cons.mpr ⟨fun v hv => ?_, hrest⟩⟩
        exact hm'.mapped hr (seg.page_lt hend hv) (a.mapped v hv)
      · rcases he with ⟨hstop, hbad⟩ | ⟨herr, hm', hfew⟩
        · exact .inl ⟨hstop, fun hfile hall =>
            hbad (List.forall_mem_cons.mp hfile).2 (hfree.mpr hall)⟩
        · exact .inr ⟨herr, hm.gaveUp hm', by omega⟩
    · rcases he with ⟨hstop, hmapped⟩ | ⟨herr, hm', hfew⟩
      · refine .inl ⟨hstop, fun hfile hall => ?_⟩
        obtain ⟨v, hv, hne⟩ := hmapped (hfile seg List.mem_cons_self)
        exact hne (hall.1 seg List.mem_cons_self v hv)
      · exact .inr ⟨herr, hm', by omega⟩

end

/-! ## Clearing through a virtual address -/

theorem not_canonical (hlo : 2 ^ 47 ≤ va) (hhi : va < 2 ^ 52) : canonical va = false := by
  unfold canonical
  rw [Bool.or_eq_false_iff, decide_eq_false_iff_not, decide_eq_false_iff_not]
  omega

theorem canonical_of_lt (hva : va < 2 ^ 47) : canonical va = true := by
  unfold canonical
  rw [decide_eq_true hva, Bool.true_or]

/-- What a store of zeros through page `v` of the running process does: the
frame behind the page is cleared, or a cleared page is mapped there first. -/
inductive ClearedAt (roots K : Set Nat) (p : ProcMem) (v : Nat) (s s' : KMem) : Prop
  | mapped (e : Word) (leaf : leafOf s p.pageTablePhys v = some e)
      (eq : s' = s.zeroFrame (Pte.frame e))
  | missing (f : Nat) (leaf : leafOf s p.pageTablePhys v = none)
      (new : NewPage roots K p.pageTablePhys v f (demandFlags p (v * 4096)) s s')
      (zero : s'.mem f = fun _ => 0)

/-- `zeroFrame` of a frame that is clear. -/
theorem zeroFrame_of_zero (h : s.mem f = fun _ => 0) : s.zeroFrame f = s := by
  have hmem : (fun g => if g = f then fun _ => 0 else s.mem g) = s.mem := by
    funext g
    split
    · rename_i heq
      rw [heq, h]
    · rfl
  unfold KMem.zeroFrame
  rw [hmem]

theorem kernelZeroPage_ends (h : Wf s roots K) (hr : p.pageTablePhys ∈ roots)
    (hcr3 : s.cr3 = p.pageTablePhys) (hva : va < 2 ^ 52) :
    Ends (kernelZeroPage p va) s (fun _ s' => va < 2 ^ 47 ∧ ClearedAt roots K p (va / 4096) s s')
      fun e _ => Stopped e := by
  by_cases hlow : va < 2 ^ 47
  · unfold kernelZeroPage
    rw [ends_bind, canonical_of_lt hlow, Bool.not_true, ends_failIf_false]
    simp only [ends_bind, ends_get, hcr3]
    have hpage : pageOf va = va / 4096 * 4096 := rfl
    cases he : leafOf s p.pageTablePhys (va / 4096) with
    | some e =>
      rw [translate_leaf h hr hlow he]
      simp only [Option.isNone_some, Bool.false_eq_true, if_false, ends_bind, ends_get, hcr3,
        translate_leaf h hr hlow he]
      cases Pte.has e Pte.WRITABLE with
      | true => exact ⟨hlow, .mapped e he rfl⟩
      | false => exact ⟨_, rfl⟩
    | none =>
      rw [translate_none he]
      simp only [Option.isNone_none, if_true]
      rw [pageFaultHandler_missing hlow]
      refine (handleDemandPaging_ends h hr hlow).bind ?_ fun _ _ hs => hs
      rintro _ s1 ⟨f, new, zero⟩
      -- the handler has mapped the page, so the store goes to its frame
      have hleaf : leafOf s1 p.pageTablePhys (va / 4096) =
          some (Pte.make (frameAddr f) (demandFlags p (pageOf va))) := by
        rw [new.leaf _ hr _ (page_lt hlow), if_pos ⟨rfl, rfl⟩]
      have hf : f < 2 ^ 40 := by
        have := new.fresh.2.1
        have := h.bound
        omega
      have hframe := Pte.frame_make hf (pageFlags_demand p (pageOf va)).1
      simp only [ends_bind, ends_get, new.cr3, hcr3, translate_leaf new.wf hr hlow hleaf, hframe]
      cases Pte.has (Pte.make (frameAddr f) (demandFlags p (pageOf va))) Pte.WRITABLE with
      | true =>
        rw [if_pos rfl]
        show _ ∧ ClearedAt roots K p (va / 4096) s (s1.zeroFrame f)
        rw [zeroFrame_of_zero zero]
        exact ⟨hlow, .missing f he (hpage ▸ new) zero⟩
      | false => exact ⟨_, rfl⟩
  · unfold kernelZeroPage
    rw [ends_bind, not_canonical (by omega) hva, Bool.not_false]
    exact ⟨_, rfl⟩

/-! ## Pages of a system call -/

/-- A page for a system call: a new page with the old contents of its frame,
then a store of zeros through the page whose number is the frame's. -/
structure UserPage (roots K : Set Nat) (p : ProcMem) (v f : Nat) (flags : Word)
    (s s1 s' : KMem) : Prop where
  new : NewPage roots K p.pageTablePhys v f flags s s1
  stale : s1.mem f = s.mem f
  low : f < userPages
  cleared : ClearedAt roots K p f s1 s'

section

variable {flags : Word}

/-- A failed call has at most taken a frame and added tables. -/
theorem mapUserPage_ends (h : Wf s roots K) (hr : p.pageTablePhys ∈ roots)
    (hcr3 : s.cr3 = p.pageTablePhys) (hfl : PageFlags flags) (hva : va < 2 ^ 47) :
    Ends (mapUserPage p flags va) s
      (fun _ s' => ∃ f s1, UserPage roots K p (va / 4096) f flags s s1 s')
      fun e s' => Stopped e ∨ SamePages roots K s s' := by
  unfold mapUserPage
  refine ends_allocateFrame (fun _ => .inr (.refl h)) fun f s1 ha => ?_
  simp only [ends_bind]
  refine (mapFresh_ends h hr hva hfl ha).mono ?_ fun _ _ he =>
    he.imp (fun hs => hs.1) fun hm => hm.2.1
  rintro _ s2 ⟨hnew, hstale, -⟩
  have hnew := hnew s2 (Filled.refl s2 f)
  have hf : f < 2 ^ 40 := lt_of_lt_of_le ha.fresh.2.1 h.bound
  refine (kernelZeroPage_ends hnew.wf hr (hnew.cr3.trans hcr3) (by omega : f * 4096 < 2 ^ 52)).mono
    (fun _ s' hzero => ⟨f, s2, hnew, hstale, ?_, ?_⟩) fun _ _ hs => .inl hs
  · have hlow := hzero.1
    simp only [userPages]
    omega
  · have hc := hzero.2
    rwa [Nat.mul_div_cancel f (by omega)] at hc

theorem UserPage.cr3 (u : UserPage roots K p v f flags s s1 s') : s'.cr3 = s.cr3 := by
  cases u.cleared with
  | mapped e leaf eq => exact eq ▸ u.new.cr3
  | missing g leaf new zero => exact new.cr3.trans u.new.cr3

variable (u : UserPage roots K p v f flags s s1 s') (hr : p.pageTablePhys ∈ roots)
include u hr

/-- A page of a call changes no entry that was there. -/
theorem UserPage.kept {w : Nat} (hw : w < userPages)
    (he : leafOf s1 p.pageTablePhys w = some e) : leafOf s' p.pageTablePhys w = some e := by
  cases u.cleared with
  | mapped e' leaf eq =>
    subst eq
    rw [leafOf_agree (zeroFrame_agree (u.new.wf.leaf_apart _ hr f u.low e' leaf).1) hr hw, he]
  | missing g leaf new zero =>
    rw [new.leaf _ hr w hw, if_neg, he]
    rintro ⟨-, rfl⟩
    rw [leaf] at he
    cases he

/-- The page through which the store goes is mapped. -/
theorem UserPage.number : leafOf s' p.pageTablePhys f ≠ none := by
  cases hu : leafOf s1 p.pageTablePhys f with
  | some e => simp [u.kept hr u.low hu]
  | none =>
    cases u.cleared with
    | mapped e leaf eq => simp [hu] at leaf
    | missing g leaf new zero => exact new.here hr u.low

end

/-! ## Shrinking the heap -/

/-- Words were cleared, nothing else was written. -/
def Clears (s s' : KMem) : Prop := ∀ t i, s'.mem t i = s.mem t i ∨ s'.mem t i = 0

instance : Std.Refl Clears := ⟨fun _ _ _ => .inl rfl⟩

instance : IsTrans KMem Clears where
  trans _ _ _ h h' t i := (h' t i).elim (fun heq => heq ▸ h t i) .inr

/-- A walk meets no cleared entry, so the pages that are left were there before. -/
theorem Clears.leaf {pt : Nat} (h : Clears s s') (he : leafOf s' pt v = some e) :
    leafOf s pt v = some e := by
  have hentry : ∀ t i, Pte.isPresent (s'.mem t i) = true → s.mem t i = s'.mem t i := by
    intro t i hp
    rcases h t i with heq | hzero
    · exact heq.symm
    · rw [hzero] at hp
      cases hp
  have htable : ∀ {t i f}, tableAt s'.mem t i = some f → tableAt s.mem t i = some f := by
    intro t i f hf
    have heq := hentry t i (tableAt_some hf).1
    unfold tableAt at hf ⊢
    rwa [heq]
  have hpage : v = v * 4096 / 4096 := by omega
  rw [hpage, ← walkEntry_eq, walkEntry_eq_some] at he ⊢
  obtain ⟨l3, l2, l1, h3, h2, h1, hp, rfl⟩ := he
  exact ⟨l3, l2, l1, htable h3, htable h2, htable h1, hp, hentry _ _ hp⟩

theorem clears_requireTable (t i : Nat) (msg : String) :
    MovesAlong Clears (requireTable t i msg) := by
  refine MovesAlong.get.bind fun s => ?_
  cases tableAt s.mem t i with
  | some f => exact .pure f
  | none => exact .throw _

theorem clears_unmapPage (pt va : Nat) : MovesAlong Clears (unmapPage pt va) := by
  refine (clears_requireTable _ _ _).bind fun _ => (clears_requireTable _ _ _).bind fun _ =>
    (clears_requireTable _ _ _).bind fun _ => (clears_requireTable _ _ _).bind fun f =>
    MovesAlong.bind (MovesAlong.modify fun s t i => ?_) fun _ => ?_
  · simp only [KMem.setEntry]
    split
    · rename_i heq
      subst heq
      by_cases hi : i = p1Index va
      · exact .inr (if_pos hi)
      · exact .inl (if_neg hi)
    · exact .inl rfl
  · refine MovesAlong.bind ?_ fun _ => .pure f
    unfold flushPage
    split
    · exact .pure ()
    · exact .throw _

/-- One page of a shrinking heap, whatever shares its frame. -/
theorem clears_unmapHeapPage (p : ProcMem) (va : Nat) : MovesAlong Clears (unmapHeapPage p va) := by
  refine MovesAlong.bind (MovesAlong.tryCatch ?_ fun e => ?_) fun frame => ?_
  · exact (clears_unmapPage _ va).bind fun f => .pure (some f)
  · cases e with
    | err m => exact .pure none
    | panic m => exact .throw _
  · cases frame with
    | none => exact .pure ()
    | some f =>
      intro s
      unfold deallocateFrame
      rw [ends_bind, ends_get]
      cases s.frames.deallocateFrame s.debug f with
      | none => exact fun _ _ => .inl rfl
      | some a => exact fun _ _ => .inl rfl

end PandaOS.Kernel
