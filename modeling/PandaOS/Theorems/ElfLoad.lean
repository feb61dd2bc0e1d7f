import PandaOS.Kernel.Exec
import PandaOS.Logic.Levels
import PandaOS.Theorems.ElfParse

/-!
# What load_elf_segments leaves in memory

The pages of a segment start at the page of its first byte and end with the page
of its last, so the file's bytes may begin and end inside a page. Each page is
cleared and the part of the file that belongs to it is copied in: the byte at
`vaddr + k` is byte `file_offset + k` of the file, every other byte is zero.

`loadElfSegments_loaded` says this for any file `parse_elf` accepts and any
address; the L4 table has to be a valid one, as the caller promises.
-/

namespace PandaOS.Kernel

open Hal Lib

variable {s s' s1 s2 : KMem} {pt i va : Nat} {I : Set Nat} {D D' : Nat → Option Nat} {u : Unit}
  {segments segments' : List LoadSegment} {debug : Bool} {seg : LoadSegment} {data : List Byte}

/-- The slots of the L4 table that the segments of a file use. -/
def ElfInfo.slots (info : ElfInfo) : Set Nat :=
  { i | ∃ seg ∈ info.loadSegments, ∃ v ∈ seg.pages, p4Index (v * 4096) = i }

/-- A valid L4 table, as far as some of its slots go. -/
def ValidTable (s : KMem) (pt : Nat) (I : Set Nat) : Prop := ∃ D, Levels s pt I D

/-- The byte at an address when the table is active. -/
def byteIn (s : KMem) (pt a : Nat) : Byte := userByte { s with cr3 := pt } a

/-- A segment is in memory as the file and its flags say. -/
structure SegmentLoaded (s : KMem) (pt : Nat) (data : List Byte) (seg : LoadSegment) : Prop where
  contents : ∀ k < seg.fileSize, data[seg.fileOffset + k]? = some (byteIn s pt (seg.vaddr + k))
  zero : ∀ a, a / 4096 ∈ seg.pages → a < seg.vaddr ∨ seg.vaddr + seg.fileSize ≤ a →
    byteIn s pt a = 0
  write : ∀ a, a / 4096 ∈ seg.pages → (translate s.mem pt a).map (·.writable) = some seg.isWritable
  execute : ∀ a, a / 4096 ∈ seg.pages → executable s.mem pt a = some seg.isExecutable

/-! ## Accepted files -/

theorem addPhdr_inFile {p : Phdr}
    (hin : ∀ seg ∈ segments, seg.InFile data) (h : addPhdr data segments p = .ok segments') :
    ∀ seg ∈ segments', seg.InFile data := by
  unfold addPhdr at h
  split at h
  · cases h
    exact hin
  split at h
  · cases h
  split at h
  · cases h
  split at h
  · cases h
  · cases h
    intro seg hseg
    rcases List.mem_append.mp hseg with hseg | hseg
    · exact hin seg hseg
    · rw [List.mem_singleton.mp hseg]
      refine ⟨?_, ?_, ?_⟩ <;> simp only <;> omega

theorem parsePhdr_inFile {h : Ehdr} (hin : ∀ seg ∈ segments, seg.InFile data)
    (hrun : parsePhdr debug data h segments i = .ok segments') :
    ∀ seg ∈ segments', seg.InFile data := by
  obtain ⟨off, -, hrun⟩ := ok_of_bind hrun
  obtain ⟨stop, -, hrun⟩ := ok_of_bind hrun
  split at hrun
  · cases hrun
  split at hrun
  · cases hrun
  · exact addPhdr_inFile hin hrun

/-- The segments of an accepted file lie in the file. -/
theorem parseElf_inFile {info : ElfInfo} (h : parseElf debug data = .ok info) :
    ∀ seg ∈ info.loadSegments, seg.InFile data := by
  unfold parseElf at h
  split at h
  · cases h
  · obtain ⟨-, -, h⟩ := ok_of_bind h
    obtain ⟨segments, hsegs, h⟩ := ok_of_bind h
    obtain ⟨phdrAddr, -, h⟩ := ok_of_bind h
    obtain rfl := Except.ok.inj h
    exact foldlM_keeps (P := fun segments => ∀ seg ∈ segments, LoadSegment.InFile seg data)
      (fun _ _ _ hin hrun => parsePhdr_inFile hin hrun) (by simp) hsegs

/-! ## The bytes of a page -/

/-- The byte a segment has at an address of its pages. -/
def segmentByte (data : List Byte) (seg : LoadSegment) (a : Nat) : Byte :=
  if seg.vaddr ≤ a ∧ a < seg.vaddr + seg.fileSize then
    data.getD (seg.fileOffset + (a - seg.vaddr)) 0
  else 0

/-- A frame holds the page at `va` of a segment. -/
def HoldsPage (data : List Byte) (seg : LoadSegment) (va : Nat) (c : Nat → Word) : Prop :=
  ∀ x < 4096, byteOf (c (x / 8)) (x % 8) = (segmentByte data seg (va + x)).toNat

/-- A cleared frame holds a page that no byte of the file belongs to. -/
theorem holdsPage_zero (hva : seg.vaddr + seg.fileSize ≤ va) :
    HoldsPage data seg va fun _ => 0 := by
  intro x _
  rw [segmentByte, if_neg (by omega)]
  show 0 / 256 ^ (x % 8) % 256 = 0
  rw [Nat.zero_div]

/-- Copying into a cleared frame. The part of the file that belongs to the page
starts `seg.vaddr - va` bytes into the first page, and at the page otherwise. -/
theorem copySegmentPage_holds {f : Nat} (hfile : seg.InFile data) (hf : f < 2 ^ 40)
    (hva : seg.vaddr < va + 4096) (hin : va < seg.vaddr + seg.fileSize)
    (hzero : s.mem f = fun _ => 0) (h : Returns (copySegmentPage seg data f va) s u s') :
    HoldsPage data seg va (s'.mem f) := by
  obtain ⟨-, hwrap, hlen⟩ := hfile
  simp only [copySegmentPage] at h
  rw [ite_ge_sub, ite_gt_sub, addU64_eq (by omega), subU64_eq (by omega),
    subU64_eq (by omega), pure_bind, pure_bind, pure_bind] at h
  split at h
  · rw [if_neg (by omega)] at h
    simp only [writeBytes, returns_modify] at h
    subst h
    intro x hx
    have hx8 : x / 8 * 8 + x % 8 = x := by omega
    rw [byteOf_storeBytes (by omega) (by omega), Nat.mod_eq_of_lt (by omega), Nat.add_assoc, hx8,
      List.length_take, List.length_drop, segmentByte]
    by_cases hcopied : seg.vaddr ≤ va + x ∧ va + x < seg.vaddr + seg.fileSize
    · have hindex :
          seg.fileOffset + (va - seg.vaddr) + (f * 4096 + x - (f * 4096 + (seg.vaddr - va)))
          = seg.fileOffset + (va + x - seg.vaddr) := by omega
      rw [if_pos hcopied, if_pos (by omega), List.getD_eq_getElem?_getD, List.getD_eq_getElem?_getD,
        List.getElem?_take_of_lt (by omega), List.getElem?_drop, hindex]
    · rw [if_neg hcopied, if_neg (by omega), hzero]
      show 0 / 256 ^ (x % 8) % 256 = 0
      rw [Nat.zero_div]
  · -- a segment without bytes in the file, on the page of its start
    rw [(returns_pure.mp h).2, hzero]
    intro x _
    rw [segmentByte, if_neg (by omega)]
    show 0 / 256 ^ (x % 8) % 256 = 0
    rw [Nat.zero_div]

/-! ## One page -/

/-- Page `v` is mapped and filled for a segment. -/
def PageLoaded (s : KMem) (pt : Nat) (D : Nat → Option Nat) (data : List Byte) (seg : LoadSegment)
    (v : Nat) : Prop :=
  ∃ e, Placed s pt D (v * 4096) e ∧ Pte.has e Pte.WRITABLE = seg.isWritable ∧
    Pte.has e Pte.NO_EXECUTE = !seg.isExecutable ∧
    HoldsPage data seg (v * 4096) (s.mem (Pte.frame e))

theorem PageLoaded.stays {v : Nat} (p : PageLoaded s pt D data seg v) (h : Levels s pt I D)
    (hI : p4Index (v * 4096) ∈ I) (x : Builds D s D' s') : PageLoaded s' pt D' data seg v := by
  obtain ⟨e, hplaced, hw, hx, hholds⟩ := p
  obtain ⟨hplaced', hsame⟩ := hplaced.stays h hI x
  exact ⟨e, hplaced', hw, hx, hsame ▸ hholds⟩

theorem has_segmentFlags (a : Word) (seg : LoadSegment) :
    Pte.has (Pte.make a (segmentFlags seg)) Pte.WRITABLE = seg.isWritable ∧
      Pte.has (Pte.make a (segmentFlags seg)) Pte.NO_EXECUTE = !seg.isExecutable := by
  rw [show Pte.WRITABLE = BitVec.twoPow 64 1 from rfl,
    show Pte.NO_EXECUTE = BitVec.twoPow 64 63 from rfl, Pte.has_make _ _ (by omega) (by omega),
    Pte.has_make _ _ (by omega) (by omega)]
  unfold segmentFlags
  cases seg.isWritable <;> cases seg.isExecutable <;> decide

theorem loadSegmentPage_loaded (hfile : seg.InFile data)
    (h : Levels s pt I D) (hI : p4Index ((seg.vaddr / 4096 + i) * 4096) ∈ I)
    (hend : seg.vaddr + seg.memSize + 0xFFF < 2 ^ 64)
    (hlast : (seg.vaddr / 4096 + i) * 4096 < seg.vaddr + seg.memSize)
    (hret : Returns (loadSegmentPage seg data pt (pageOf seg.vaddr) i) s u s') :
    ∃ D', Levels s' pt I D' ∧ Builds D s D' s' ∧ PageLoaded s' pt D' data seg
      (seg.vaddr / 4096 + i) := by
  have hva : pageOf seg.vaddr + i * 4096 = (seg.vaddr / 4096 + i) * 4096 := by
    simp only [pageOf, pageSize]
    omega
  generalize hv : seg.vaddr / 4096 + i = v at hI hlast hva ⊢
  have hsize := hfile.1
  simp only [loadSegmentPage, returns_bind] at hret
  obtain ⟨o, s1, halloc, hret⟩ := hret
  cases o with
  | none => exact absurd hret not_returns_throw
  | some f =>
    have a := allocateFrame_ok halloc
    have hf : f < 2 ^ 40 := lt_of_lt_of_le a.fresh.2.1 h.bound
    simp only [hva, addU64_eq (by omega : pageOf seg.vaddr + i * 4096 < 2 ^ 64),
      addU64_eq (by omega : seg.vaddr + seg.fileSize < 2 ^ 64), zeroFrame, returns_bind,
      returns_modify, returns_pure, and_assoc, exists_and_left,
        exists_eq_left, exists_const] at hret
    obtain ⟨_, s2, hmap, hret⟩ := hret
    have hzero : (s2.zeroFrame f).mem f = fun _ => 0 := if_pos rfl
    -- the page is loaded once its frame holds it
    have hdone : ∀ t, Filled (s2.zeroFrame f) t f → HoldsPage data seg (v * 4096) (t.mem f) →
        ∃ D', Levels t pt I D' ∧ Builds D s D' t ∧ PageLoaded t pt D' data seg v := by
      intro t hfill hholds
      obtain ⟨D', hlev, hext, hplaced⟩ := newPage_levels h hI (pageFlags_segment seg) a hmap
        ((filled_zeroFrame s2 f).trans hfill)
      obtain ⟨hw, hx⟩ := has_segmentFlags (frameAddr f) seg
      refine ⟨D', hlev, hext, _, hplaced, hw, hx, ?_⟩
      rwa [Pte.frame_make hf (pageFlags_segment seg).1]
    split at hret
    · rename_i hcopy
      obtain ⟨hfill, -⟩ := hret.of_ends (copySegmentPage_ends hf (by omega))
      exact hdone s' hfill (copySegmentPage_holds hfile hf (by omega) hcopy hzero hret)
    · rw [(returns_pure.mp hret).2]
      refine hdone _ (Filled.refl _ _) ?_
      rw [hzero]
      exact holdsPage_zero (by omega)

/-! ## Whole segments -/

/-- Every page of a segment is loaded. -/
def PagesLoaded (s : KMem) (pt : Nat) (D : Nat → Option Nat) (data : List Byte)
    (seg : LoadSegment) : Prop :=
  ∀ v ∈ seg.pages, PageLoaded s pt D data seg v

theorem loadSegment_loaded (hfile : seg.InFile data) (h : Levels s pt I D)
    (hI : ∀ v ∈ seg.pages, p4Index (v * 4096) ∈ I)
    (hend : seg.vaddr + seg.memSize + 0xFFF < 2 ^ 64)
    (hret : Returns (loadSegment data pt seg) s u s') :
    ∃ D', Levels s' pt I D' ∧ Builds D s D' s' ∧ PagesLoaded s' pt D' data seg := by
  rw [loadSegment_eq data pt hend] at hret
  -- the first `k` pages are loaded, and later pages do not disturb them
  have hloop := returns_forRange (fun k t => ∃ D', Levels t pt I D' ∧ Builds D s D' t ∧
    ∀ v ∈ seg.pages, v < seg.vaddr / 4096 + k → PageLoaded t pt D' data seg v)
    ⟨D, h, Builds.refl D s, fun v hv hlt => absurd hv.1 (by omega)⟩ ?_ hret
  · obtain ⟨D', hlev, hext, hdone⟩ := hloop
    exact ⟨D', hlev, hext, fun v hv => hdone v hv (by have := LoadSegment.mem_pages.mp hv; omega)⟩
  · rintro i t t' - hi ⟨D1, hlev, hext, hdone⟩ hturn
    have hin : seg.vaddr / 4096 + i ∈ seg.pages := LoadSegment.mem_pages.mpr (by omega)
    obtain ⟨D', hlev', hext', hpage⟩ :=
      loadSegmentPage_loaded hfile hlev (hI _ hin) hend hin.2 hturn
    refine ⟨D', hlev', hext.trans hext', fun v hv hlt => ?_⟩
    rcases Nat.lt_succ_iff_lt_or_eq.mp hlt with hlt | rfl
    · exact (hdone v hv hlt).stays hlev (hI v hv) hext'
    · exact hpage

theorem loadSegments_loaded {segs : List LoadSegment} (hfile : ∀ seg ∈ segs, seg.InFile data)
    (h : Levels s pt I D) (hI : ∀ seg ∈ segs, ∀ v ∈ seg.pages, p4Index (v * 4096) ∈ I)
    (hend : ∀ seg ∈ segs, seg.vaddr + seg.memSize + 0xFFF < 2 ^ 64)
    (hret : Returns (segs.forM (loadSegment data pt)) s u s') :
    ∃ D', Levels s' pt I D' ∧ Builds D s D' s' ∧ ∀ seg ∈ segs, PagesLoaded s' pt D' data seg := by
  induction segs generalizing s D with
  | nil =>
    rw [(returns_pure.mp hret).2]
    exact ⟨D, h, Builds.refl D s, by simp⟩
  | cons seg segs ih =>
    have here : seg ∈ seg :: segs := List.mem_cons_self
    have later : ∀ seg' ∈ segs, seg' ∈ seg :: segs := fun _ => List.mem_cons_of_mem _
    simp only [List.forM_eq_forM, List.forM_cons, returns_bind] at hret
    obtain ⟨_, t, hfirst, hrest⟩ := hret
    obtain ⟨D1, hlev, hext, hseg⟩ :=
      loadSegment_loaded (hfile seg here) h (hI seg here) (hend seg here) hfirst
    obtain ⟨D', hlev', hext', hsegs⟩ := ih (fun seg' hs => hfile seg' (later seg' hs)) hlev
      (fun seg' hs => hI seg' (later seg' hs)) (fun seg' hs => hend seg' (later seg' hs)) hrest
    refine ⟨D', hlev', hext.trans hext', fun seg' hs => ?_⟩
    rcases List.mem_cons.mp hs with rfl | hs
    · exact fun v hv => (hseg v hv).stays hlev (hI seg' here v hv) hext'
    · exact hsegs seg' hs

/-! ## Through the MMU -/

/-- The tables are indexed by the page of an address. -/
theorem pIndex_page (a : Nat) : p4Index (a / 4096 * 4096) = p4Index a ∧
    p3Index (a / 4096 * 4096) = p3Index a ∧ p2Index (a / 4096 * 4096) = p2Index a ∧
    p1Index (a / 4096 * 4096) = p1Index a := by
  unfold p4Index p3Index p2Index p1Index
  omega

theorem translate_page (mem : Nat → Nat → Word) (pt a : Nat) :
    translate mem pt (a / 4096 * 4096) = translate mem pt a := by
  obtain ⟨h4, h3, h2, h1⟩ := pIndex_page a
  unfold translate
  rw [h4, h3, h2, h1]

theorem executable_page (mem : Nat → Nat → Word) (pt a : Nat) :
    executable mem pt (a / 4096 * 4096) = executable mem pt a := by
  obtain ⟨h4, h3, h2, h1⟩ := pIndex_page a
  unfold executable
  rw [h4, h3, h2, h1]

/-- What the process finds on a loaded page. -/
theorem PageLoaded.found {a : Nat} (p : PageLoaded s pt D data seg (a / 4096)) (h : Levels s pt I D)
    (hI : p4Index (a / 4096 * 4096) ∈ I) :
    byteIn s pt a = segmentByte data seg a ∧ (translate s.mem pt a).map
      (·.writable) = some seg.isWritable ∧ executable s.mem pt a = some seg.isExecutable := by
  obtain ⟨e, hplaced, hw, hx, hholds⟩ := p
  obtain ⟨⟨t, htr, hframe, hwrite⟩, hexec⟩ := hplaced.granted h hI
  rw [translate_page] at htr
  rw [executable_page] at hexec
  refine ⟨?_, ?_, ?_⟩
  · have hbyte := hholds (a % 4096) (Nat.mod_lt _ (by omega))
    rw [Nat.div_add_mod', show a % 4096 % 8 = a % 8 by omega] at hbyte
    simp only [byteIn, userByte, htr, hframe, hbyte]
    rw [BitVec.ofNat_toNat, BitVec.setWidth_eq]
  · rw [htr, Option.map_some, hwrite, hw]
  · rw [hexec, hx, Bool.not_not]

/-- A loaded segment is what the file says. -/
theorem PagesLoaded.segmentLoaded (p : PagesLoaded s pt D data seg) (h : Levels s pt I D)
    (hI : ∀ v ∈ seg.pages, p4Index (v * 4096) ∈ I) (hfile : seg.InFile data) :
    SegmentLoaded s pt data seg := by
  have hfound := fun a ha => (p (a / 4096) ha).found h (hI _ ha)
  obtain ⟨hsize, -, hlen⟩ := hfile
  constructor
  case contents =>
    intro k hk
    have hin : (seg.vaddr + k) / 4096 ∈ seg.pages := by
      constructor <;> omega
    rw [(hfound _ hin).1, segmentByte, if_pos (by omega), Nat.add_sub_cancel_left,
      List.getD_eq_getElem?_getD, List.getElem?_eq_getElem (by omega), Option.getD_some]
  case zero =>
    intro a ha hout
    rw [(hfound a ha).1, segmentByte, if_neg (by omega)]
  case write => exact fun a ha => (hfound a ha).2.1
  case execute => exact fun a ha => (hfound a ha).2.2

/-- `load_elf_segments` on a file that `parse_elf` accepts, whose segments end
before the end of the address space: once it returns, every segment is in memory
as the file says. Segments that share a page do not get this far, so that they
are apart is not asked for. -/
theorem loadElfSegments_loaded {debug : Bool} {info : ElfInfo}
    (hparse : parseElf debug data = .ok info)
    (hend : ∀ seg ∈ info.loadSegments, seg.vaddr + seg.memSize + 0xFFF < 2 ^ 64)
    (hvalid : ValidTable s pt info.slots)
    (hret : Returns (loadElfSegments info data pt) s () s') :
    ∀ seg ∈ info.loadSegments, SegmentLoaded s' pt data seg := by
  obtain ⟨D, h⟩ := hvalid
  have hfile := parseElf_inFile hparse
  have hslots : ∀ seg ∈ info.loadSegments, ∀ v ∈ seg.pages, p4Index (v * 4096) ∈ info.slots :=
    fun seg hseg v hv => ⟨seg, hseg, v, hv, rfl⟩
  obtain ⟨D', hlev, -, hloaded⟩ := loadSegments_loaded hfile h hslots hend hret
  intro seg hseg
  exact (hloaded seg hseg).segmentLoaded hlev (hslots seg hseg) (hfile seg hseg)

/-! ## New tables -/

/-- A table with no entry in the slots is valid there. -/
theorem validTable_of_absent (hpt : ¬Fresh s.frames pt) (hbound : s.frames.endFrame ≤ 2 ^ 40)
    (habs : ∀ i ∈ I, Pte.isPresent (s.mem pt i) = false) : ValidTable s pt I := by
  refine ⟨fun t => if t = pt then some 3 else none, if_pos rfl, ?_, ?_, hbound⟩
  · intro t k i ht _ hI hp
    split at ht
    · rename_i heq
      rw [heq, habs i (hI heq)] at hp
      cases hp
    · cases ht
  · intro t k ht
    split at ht
    · rename_i heq
      rwa [heq]
    · cases ht

theorem ValidTable.mono {J : Set Nat} (h : ValidTable s pt J) (hsub : I ⊆ J) :
    ValidTable s pt I := by
  obtain ⟨D, hlev⟩ := h
  exact ⟨D, hlev.root, fun t k i ht hi hI => hlev.below t k i ht hi fun heq => hsub (hI heq),
    hlev.used, hlev.bound⟩

/-- The segments of a file in the user half use its slots. -/
theorem slots_user (info : ElfInfo) (hend : ∀ seg ∈ info.loadSegments, seg.vaddr + seg.memSize ≤
    2 ^ 47) : info.slots ⊆ Set.Iio 256 := by
  rintro i ⟨seg, hseg, v, hv, rfl⟩
  have := hend seg hseg
  have := hv.2
  simp only [Set.mem_Iio, p4Index]
  omega

/-- `create_user_page_table` makes a table that is valid for the user half. -/
theorem createUserPageTable_valid (hbound : s.frames.endFrame ≤ 2 ^ 40)
    (h : Returns createUserPageTable s pt s') : ValidTable s' pt (Set.Iio 256) := by
  have new := createUserPageTable_ok h
  refine validTable_of_absent new.owned.not_fresh (by rwa [new.frames.endFrame]) fun i hi => ?_
  rw [new.lower i hi]
  decide

/-- An empty memory of 63 frames. -/
def loadMem : KMem where
  mem := fun _ _ => 0
  frames := FrameAllocator.new 1 64
  tracker := none
  cr3 := 0
  debug := true

theorem acrossPages_runs : ∃ s s', Returns createUserPageTable loadMem 1 s ∧
    Returns (loadElfSegments acrossPagesInfo acrossPagesFile 1) s () s' := by
  have hrun : outcome (do
      let pt ← createUserPageTable
      loadElfSegments acrossPagesInfo acrossPagesFile pt
      return pt) loadMem = .ok 1 := by
    rw [createUserPageTable_eq]
    decide +kernel
  obtain ⟨s', hret⟩ := returns_of_outcome hrun
  simp only [returns_bind, returns_pure] at hret
  obtain ⟨pt, s, hcreate, _, s2, hload, rfl, rfl⟩ := hret
  exact ⟨s, s', hcreate, hload⟩

/-- A property of its only segment. -/
theorem acrossPages_only {P : LoadSegment → Prop} (h : P acrossPages) :
    ∀ seg ∈ acrossPagesInfo.loadSegments, P seg := by
  intro seg hseg
  rwa [List.mem_singleton.mp hseg]

theorem loadElfSegments_loaded_acrossPages : ∃ s s',
    parseElf true acrossPagesFile = .ok acrossPagesInfo ∧
      Returns createUserPageTable loadMem 1 s ∧
      Returns (loadElfSegments acrossPagesInfo acrossPagesFile 1) s () s' ∧
      SegmentLoaded s' 1 acrossPagesFile acrossPages := by
  obtain ⟨s, s', hcreate, hload⟩ := acrossPages_runs
  have hvalid := (createUserPageTable_valid (by decide) hcreate).mono
    (slots_user acrossPagesInfo (acrossPages_only (by decide)))
  exact ⟨s, s', acrossPages_parsed, hcreate, hload, loadElfSegments_loaded acrossPages_parsed
    (acrossPages_only (by decide)) hvalid hload _ List.mem_cons_self⟩

end PandaOS.Kernel
