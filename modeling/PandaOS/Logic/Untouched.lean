import PandaOS.Logic.Vm

/-!
# What building an address space leaves alone

`Confined` describes a page table under construction by the frames its walks can
reach, one set for each level. Building and freeing store into these frames and
into fresh ones only, so any other frame in use keeps its contents, whether the
operation completes or not. Nothing is asked of what the frames outside are used
for, and several tables may share the lower levels, as address spaces share the
kernel's half.
-/

namespace PandaOS.Kernel

open Hal Lib

variable {s s' s0 : KMem} {A : Set Nat} {m0 : Nat → Nat → Word} {n : Nat} {T : Nat → Set Nat}
  {d t i f pt va : Nat} {flags w : Word} {data : List Byte} {P : KMem → Prop}
  {E : Fault → KMem → Prop} {seg : LoadSegment} {info : ElfInfo}

/-- The entries of a table at depth `d` that walks go through: the first `n` of the
topmost table, and all of the others. -/
def width (n d : Nat) : Nat := if d = 0 then n else 512

/-- Walks from the tables `T 0` stay in `T`, one set for each depth, and the frames of
`A` are none of these and hold what they hold in `m0`. -/
structure Confined (A : Set Nat) (m0 : Nat → Nat → Word) (n : Nat) (T : Nat → Set Nat)
    (mem : Nat → Nat → Word) : Prop where
  kept : ∀ f ∈ A, mem f = m0 f
  closed : ∀ d < 3, ∀ t ∈ T d, ∀ i < width n d, ∀ c, tableAt mem t i = some c → c ∈ T (d + 1)
  apart : ∀ d ≤ 3, ∀ t ∈ T d, t ∉ A
  levels : ∀ d ≤ 3, ∀ d' ≤ 3, d ≠ d' → ∀ t ∈ T d, t ∉ T d'

namespace Confined

variable {mem mem' : Nat → Nat → Word}

/-- Stores outside the tables and outside `A`. -/
theorem congr (h : Confined A m0 n T mem) (hA : ∀ f ∈ A, mem' f = mem f)
    (hT : ∀ d < 3, ∀ t ∈ T d, mem' t = mem t) : Confined A m0 n T mem' where
  kept f hf := (hA f hf).trans (h.kept f hf)
  closed d hd t ht i hi c hc := by
    unfold tableAt at hc
    rw [hT d hd t ht] at hc
    exact h.closed d hd t ht i hi c hc
  apart := h.apart
  levels := h.levels

/-- A store to an entry of one of the tables. -/
theorem setEntry (h : Confined A m0 n T s.mem) (hd : d ≤ 3) (ht : t ∈ T d)
    (hw : d < 3 → Pte.isPresent w = true → Pte.frame w ∈ T (d + 1)) :
    Confined A m0 n T (s.setEntry t i w).mem where
  kept f hf := by
    rw [setEntry_mem, Radix.put_frame, h.kept f hf]
    rintro rfl
    exact h.apart d hd f ht hf
  closed e he t' ht' j hj c hc := by
    by_cases hti : t' = t ∧ j = i
    · obtain ⟨rfl, rfl⟩ := hti
      obtain rfl : d = e := by
        by_contra hne
        exact h.levels d hd e (by omega) hne t' ht ht'
      obtain ⟨hp, rfl⟩ := tableAt_some hc
      rw [setEntry_mem, Radix.put_same] at hp ⊢
      exact hw he hp
    · rw [tableAt_eq, setEntry_mem, Radix.put_ne _ _ hti] at hc
      exact h.closed e he t' ht' j hj c hc
  apart := h.apart
  levels := h.levels

/-- An entry is cleared. -/
theorem clear (h : Confined A m0 n T s.mem) (hd : d ≤ 3) (ht : t ∈ T d) :
    Confined A m0 n T (s.setEntry t i 0).mem :=
  h.setEntry hd ht fun _ hp => absurd hp (by decide)

/-- An empty table outside `A` joins the tables at depth `k`. -/
theorem add {k : Nat} (h : Confined A m0 n T mem) (hk : 0 < k) (hA : f ∉ A) (hT : ∀ d ≤ 3, f ∉ T d)
    (hempty : ∀ i < 512, Pte.isPresent (mem f i) = false) :
    Confined A m0 n (Function.update T k (insert f (T k))) mem := by
  have hmem : ∀ d t, t ∈ Function.update T k (insert f (T k)) d → t ∈ T d ∨ (t = f ∧ d = k) := by
    intro d t ht
    by_cases hdk : d = k
    · subst hdk
      rw [Function.update_self] at ht
      exact ht.symm.imp id fun h => ⟨h, rfl⟩
    · rw [Function.update_of_ne hdk] at ht
      exact .inl ht
  have hsub : ∀ d, T d ⊆ Function.update T k (insert f (T k)) d := by
    intro d t ht
    by_cases hdk : d = k
    · subst hdk
      rw [Function.update_self]
      exact Set.mem_insert_of_mem _ ht
    · rwa [Function.update_of_ne hdk]
  constructor
  case kept => exact h.kept
  case closed =>
    intro d hd t ht i hi c hc
    rcases hmem d t ht with ht | ⟨rfl, rfl⟩
    · exact hsub _ (h.closed d hd t ht i hi c hc)
    · have hi' : i < 512 := by
        unfold width at hi
        rwa [if_neg (by omega)] at hi
      simp [tableAt, hempty i hi'] at hc
  case apart =>
    intro d hd t ht
    rcases hmem d t ht with ht | ⟨rfl, -⟩
    · exact h.apart d hd t ht
    · exact hA
  case levels =>
    intro d hd d' hd' hne t ht ht'
    rcases hmem d t ht with hold | ⟨hf, hdk⟩
    · rcases hmem d' t ht' with hold' | ⟨hf, -⟩
      · exact h.levels d hd d' hd' hne t hold hold'
      · exact hT d hd (hf ▸ hold)
    · rcases hmem d' t ht' with hold' | ⟨-, hdk'⟩
      · exact hT d' hd' (hf ▸ hold')
      · exact hne (hdk.trans hdk'.symm)

end Confined

/-! ## Building -/

/-- A table under construction: `Confined`, and no frame in use is handed out again. -/
structure Building (A : Set Nat) (s0 : KMem) (n : Nat) (T : Nat → Set Nat) (s : KMem) : Prop where
  walk : Confined A s0.mem n T s.mem
  debug : s.debug = s0.debug
  held : ∀ f ∈ A, ¬Fresh s.frames f
  used : ∀ d ≤ 3, ∀ t ∈ T d, ¬Fresh s.frames t
  bound : s.frames.endFrame ≤ 2 ^ 40

namespace Building

section

variable (h : Building A s0 n T s)
include h

theorem fresh (hf : Fresh s.frames f) : f ∉ A ∧ ∀ d ≤ 3, f ∉ T d :=
  ⟨fun hA => h.held f hA hf, fun d hd hT => h.used d hd f hT hf⟩

/-- Further allocations change nothing. -/
theorem frames (hm : s'.mem = s.mem) (hd : s'.debug = s.debug)
    (hle : FramesLe s.frames s'.frames) : Building A s0 n T s' where
  walk := hm ▸ h.walk
  debug := hd.trans h.debug
  held f hf hfr := h.held f hf (hle.fresh hfr)
  used d hd t ht hfr := h.used d hd t ht (hle.fresh hfr)
  bound := hle.endFrame ▸ h.bound

/-- The contents of a frame outside the tables and outside `A` change. -/
theorem fill (hA : f ∉ A) (hT : ∀ d ≤ 3, f ∉ T d) (hfill : Filled s s' f) :
    Building A s0 n T s' where
  walk := h.walk.congr (fun g hg => hfill.mem g fun heq => hA (heq ▸ hg))
    fun d hd t ht => hfill.mem t fun heq => hT d (by omega) (heq ▸ ht)
  debug := hfill.debug.trans h.debug
  held := by
    rw [hfill.frames]
    exact h.held
  used := by
    rw [hfill.frames]
    exact h.used
  bound := by
    rw [hfill.frames]
    exact h.bound

theorem setEntry (hd : d ≤ 3) (ht : t ∈ T d)
    (hw : d < 3 → Pte.isPresent w = true → Pte.frame w ∈ T (d + 1)) :
    Building A s0 n T (s.setEntry t i w) :=
  { h with walk := h.walk.setEntry hd ht hw }

end

end Building

/-- The state is that of a table under construction with the topmost table `pt`. -/
def Within (A : Set Nat) (s0 : KMem) (n pt : Nat) (s : KMem) : Prop :=
  ∃ T, pt ∈ T 0 ∧ Building A s0 n T s

/-- One level of `map_page`, whether it completes or not. -/
theorem ensureTable_building {msg : String} (h : Building A s0 n T s)
    (hd : d < 3) (ht : t ∈ T d) (hi : i < width n d) :
    Ends (ensureTable t i msg) s (fun c s' => ∃ T', (∀ e, T e ⊆ T' e) ∧
      Building A s0 n T' s' ∧ c ∈ T' (d + 1)) (fun _ s' => Building A s0 n T s') := by
  refine (ensureTable_ends t i msg s).mono (fun c s' hc => ?_) fun _ _ ⟨_, _, heq⟩ => heq ▸ h
  obtain ⟨hp, rfl, rfl⟩ | ⟨-, f, s1, ha, -, hcf, rfl⟩ := hc
  · exact ⟨T, fun e => subset_rfl, h, h.walk.closed d hd t ht i hi _ (child_of_present hp)⟩
  · obtain rfl := hcf h.bound
    obtain ⟨hA, hT⟩ := h.fresh ha.fresh
    have hbound : c < 2 ^ 40 := lt_of_lt_of_le ha.fresh.2.1 h.bound
    have hcleared := (h.frames ha.mem ha.debug ha.frames).fill hA hT (filled_zeroFrame s1 c)
    have hadd := hcleared.walk.add (k := d + 1) (by omega) hA hT (fun j _ => by
      simp [KMem.zeroFrame, Pte.isPresent])
    have hsub : ∀ e, T e ⊆ Function.update T (d + 1) (insert c (T (d + 1))) e := by
      intro e g hg
      by_cases hde : e = d + 1
      · subst hde
        rw [Function.update_self]
        exact Set.mem_insert_of_mem _ hg
      · rwa [Function.update_of_ne hde]
    have hnew : c ∈ Function.update T (d + 1) (insert c (T (d + 1))) (d + 1) := by
      rw [Function.update_self]
      exact Set.mem_insert _ _
    refine ⟨_, hsub, ⟨?_, hcleared.debug, hcleared.held, ?_, hcleared.bound⟩, hnew⟩
    · exact hadd.setEntry (by omega) (hsub d ht) fun _ _ => by
        rwa [Pte.frame_make hbound (by decide)]
    · intro e he g hg
      by_cases hde : e = d + 1
      · subst hde
        rw [Function.update_self] at hg
        rcases hg with rfl | hg
        · exact ha.owned.not_fresh
        · exact hcleared.used _ he g hg
      · rw [Function.update_of_ne hde] at hg
        exact hcleared.used e he g hg

/-- `map_page`, whether it completes or not. -/
theorem mapPage_within (h : Within A s0 n pt s) (hva : p4Index va < n) :
    Ends (mapPage pt va f flags) s (fun _ s' => Within A s0 n pt s')
      (fun _ s' => Within A s0 n pt s') := by
  obtain ⟨T, hpt, hb⟩ := h
  refine ends_mapPage (P := fun d t u => ∃ T, pt ∈ T 0 ∧ Building A s0 n T u ∧ t ∈ T d)
    ⟨T, hpt, hb, hpt⟩ ?_ (fun l1 u ⟨T, hpt, hb, _⟩ _ => ⟨T, hpt, hb⟩) ?_
  · rintro d t u msg hd ⟨T, hpt, hb, ht⟩
    have hi : indexAt va d < width n d := by
      unfold width
      split
      · subst d
        rwa [← (pIndex_eq va).1]
      · exact indexAt_lt va d
    exact (ensureTable_building hb hd ht hi).mono (fun c u' ⟨T', hsub, hb', hc⟩ =>
      ⟨T', hsub 0 hpt, hb', hc⟩) fun _ u' hb' => ⟨T, hpt, hb'⟩
  · rintro l1 u ⟨T, hpt, hb, hl1⟩ -
    exact ⟨T, hpt, hb.setEntry le_rfl hl1 fun hlt => absurd hlt (by omega)⟩

/-! ## Pages -/

/-- `Within`, with an allocated frame in hand that is no table and not in `A`. -/
def Holding (A : Set Nat) (s0 : KMem) (n pt f : Nat) (s : KMem) : Prop :=
  f ∉ A ∧ ∃ m, (∀ g ∈ A, m g = s0.mem g) ∧ Within (insert f A) { s0 with mem := m } n pt s

section

variable {pt f : Nat}

/-- A frame in hand is neither a frame of the caller nor a table. -/
theorem Within.hold (h : Within A s0 n pt s) (a : Allocated s s' f) :
    Holding A s0 n pt f s' ∧ f < 2 ^ 40 := by
  obtain ⟨T, hpt, hb⟩ := h
  obtain ⟨hA, hT⟩ := hb.fresh a.fresh
  have hb' := hb.frames a.mem a.debug a.frames
  have hbound : f < 2 ^ 40 := lt_of_lt_of_le a.fresh.2.1 hb.bound
  refine ⟨⟨hA, s'.mem, hb'.walk.kept, T, hpt, ⟨fun _ _ => rfl,
    hb'.walk.closed, ?_, hb'.walk.levels⟩, hb'.debug, ?_, hb'.used, hb'.bound⟩, hbound⟩
  · rintro d hd t ht (rfl | htA)
    · exact hT d hd ht
    · exact hb'.walk.apart d hd t ht htA
  · rintro g (rfl | hg)
    · exact a.owned.not_fresh
    · exact hb'.held g hg

/-- The frame in hand may be filled. -/
theorem Holding.fill (h : Holding A s0 n pt f s) (hfill : Filled s s' f) : Within A s0 n pt s' := by
  obtain ⟨hA, m, hm, T, hpt, hb⟩ := h
  have hwalk : Confined A s0.mem n T s.mem :=
    ⟨fun g hg => (hb.walk.kept g (Set.mem_insert_of_mem _ hg)).trans (hm g hg), hb.walk.closed,
      fun d hd t ht hg => hb.walk.apart d hd t ht (Set.mem_insert_of_mem _ hg), hb.walk.levels⟩
  have hbuild : Building A s0 n T s :=
    { hb with walk := hwalk, held := fun g hg => hb.held g (Set.mem_insert_of_mem _ hg) }
  exact ⟨T, hpt, hbuild.fill hA (fun d hd hT => hb.walk.apart d hd f hT (Set.mem_insert _ _)) hfill⟩

theorem Holding.within (h : Holding A s0 n pt f s) : Within A s0 n pt s := h.fill (Filled.refl s f)

theorem mapPage_holding {g : Nat} (h : Holding A s0 n pt f s) (hva : p4Index va < n) :
    Ends (mapPage pt va g flags) s (fun _ s' => Holding A s0 n pt f s')
      (fun _ s' => Within A s0 n pt s') := by
  obtain ⟨hA, m, hm, hw⟩ := h
  exact (mapPage_within hw hva).mono (fun _ _ h' => ⟨hA, m, hm, h'⟩)
    fun _ _ h' => Holding.within ⟨hA, m, hm, h'⟩

/-- A loop that allocates, maps and fills one page after the other. -/
theorem allocateStack_within {stackTop numPages : Nat} (h : Within A s0 n pt s)
    (hva : ∀ i < numPages, p4Index (stackTop - (i + 1) * pageSize) < n) :
    Ends (allocateStack flags pt stackTop numPages) s (fun _ s' => Within A s0 n pt s')
      (fun _ s' => Within A s0 n pt s') := by
  refine ends_forRange h fun i t _ hi ht => ends_allocateFrame (fun _ => ht) fun f t1 ha => ?_
  simp only [ends_bind, zeroFrame, ends_modify]
  exact (mapPage_holding (ht.hold ha).1 (hva i (by omega))).mono
    (fun _ t2 h2 => h2.fill (filled_zeroFrame t2 f)) fun _ _ h' => h'

/-! ## Images -/

/-- The pages of a segment up to the end of the address space. -/
def LoadSegment.pagesToWrap (seg : LoadSegment) : Nat := (2 ^ 64 - pageOf seg.vaddr) / 4096

/-- With so many frames left, what is copied for the segment stays in the frames of its
pages: the build checks the additions, or the segment ends at a 64-bit address, or there is
nothing to copy, or the frames run out before the addresses wrap around. -/
def SegmentStays (debug : Bool) (frames : Nat) (seg : LoadSegment) : Prop :=
  debug = true ∨ seg.vaddr + seg.memSize + 0xFFF < 2 ^ 64 ∨ seg.fileSize = 0 ∨
    frames ≤ seg.pagesToWrap

/-- Without bytes in the file, none are copied. -/
theorem reads_copySegmentPage (hsize : seg.fileSize = 0)
    (hva : va < seg.vaddr) : Reads (copySegmentPage seg data f va) := by
  unfold copySegmentPage
  rw [if_neg (Nat.not_le.mpr hva), hsize]
  refine (reads_addU64 _ _).bind fun fileOffset => (reads_subU64 _ _).bind fun room => ?_
  rw [subU64_eq (Nat.le_refl 0), pure_bind, if_neg (by simp)]
  exact .pure _

section

variable (h : Within A s0 512 pt s)
include h

theorem loadSegmentPage_within (hva : pageOf seg.vaddr + i * 4096 < 2 ^ 64 ∨ seg.fileSize = 0) :
    Ends (loadSegmentPage seg data pt (pageOf seg.vaddr) i) s
      (fun _ s' => Within A s0 512 pt s' ∧ spare s' < spare s)
        (fun _ s' => Within A s0 512 pt s') := by
  refine ends_allocateFrame (fun _ => h) fun f s1 ha => ?_
  obtain ⟨hhold, hf⟩ := h.hold ha
  have hone := ha.spare
  simp only [ends_bind, zeroFrame, ends_modify]
  refine (addU64_ends _ _ s1).mono ?_ fun _ _ hstop => hstop.1 ▸ hhold.within
  rintro va _ ⟨rfl, -, hsum, -⟩
  refine ((mapPage_holding hhold (pIndex_lt _).1).and (needs_mapPage pt va f _ _)).mono ?_
    fun _ _ h' => h'.1
  rintro _ s2 ⟨hmap, htaken, -⟩
  have hfilled := filled_zeroFrame s2 f
  have hdone : ∀ s3, Filled s2 s3 f → Within A s0 512 pt s3 ∧ spare s3 < spare s := by
    intro s3 hfill
    have hle := spare_le htaken
    have hsame := spare_of_frames hfill.frames
    exact ⟨hmap.fill hfill, by omega⟩
  refine (addU64_ends _ _ _).mono ?_ fun _ _ hstop => hstop.1 ▸ hmap.fill hfilled
  rintro fileEnd _ ⟨rfl, hle, -⟩
  split
  · rcases hva with hva | hsize
    · obtain rfl := hsum hva
      refine (copySegmentPage_ends hf ?_).mono (fun _ s3 hcopy => hdone s3 (hfilled.trans hcopy.1))
        fun _ _ hstop => hstop.1 ▸ hmap.fill hfilled
      simp only [pageOf, pageSize]
      omega
    · exact (reads_copySegmentPage hsize (by omega)).ends (fun _ => hdone _ hfilled)
        fun _ => hmap.fill hfilled
  · exact hdone _ hfilled

theorem loadSegment_within (hstays : SegmentStays s0.debug (spare s) seg) :
    Ends (loadSegment data pt seg) s (fun _ s' => Within A s0 512 pt s' ∧ spare s' ≤ spare s)
      (fun _ s' => Within A s0 512 pt s') := by
  by_cases hend : seg.vaddr + seg.memSize + 0xFFF < 2 ^ 64
  · rw [loadSegment_eq data pt hend]
    refine ends_forRange (I := fun u => Within A s0 512 pt u ∧ spare u ≤ spare s) ⟨h, le_rfl⟩
      fun i u _ hi hu => (loadSegmentPage_within hu.1 (.inl ?_)).mono
        (fun _ _ h' => ⟨h'.1, by omega⟩) fun _ _ h' => h'
    simp only [LoadSegment.pageCount, pageOf, pageSize] at hi ⊢
    omega
  simp only [loadSegment, ends_bind]
  rcases hstays with hdebug | hfits | hrest
  · -- the build checks, and one of the two additions stops
    obtain ⟨T, -, hb⟩ := id h
    rw [← hb.debug] at hdebug
    refine (addU64_ends _ _ s).mono ?_ fun _ _ hstop => hstop.1 ▸ h
    rintro c _ ⟨rfl, -, hsum, hfits⟩
    obtain rfl := hsum (hfits hdebug)
    refine (addU64_ends _ _ _).mono ?_ fun _ _ hstop => hstop.1 ▸ h
    exact fun _ _ hsum => absurd (hsum.2.2.2 hdebug) hend
  · exact absurd hfits hend
  · -- whatever the number of pages is now, each of them takes a frame
    refine (reads_addU64 _ _).ends (fun segEnd => ?_) fun _ => h
    refine (reads_addU64 _ _).ends (fun rounded => ?_) fun _ => h
    refine (reads_subU64 _ _).ends (fun len => ?_) fun _ => h
    refine (ends_forRange_from (fun k u => Within A s0 512 pt u ∧ spare u + k ≤ spare s)
      ⟨h, le_rfl⟩ fun i u _ _ hu => ?_).mono (fun _ _ h' => ⟨h'.1, by omega⟩) fun _ _ h' => h'
    by_cases hwrap : i < seg.pagesToWrap ∨ seg.fileSize = 0
    · refine (loadSegmentPage_within hu.1 (hwrap.imp_left fun hlt => ?_)).mono
        (fun _ _ h' => ⟨h'.1, by omega⟩) fun _ _ h' => h'
      unfold LoadSegment.pagesToWrap at hlt
      omega
    · have hfew := hrest.resolve_left fun hsize => hwrap (.inr hsize)
      exact ends_allocateFrame (fun _ => hu.1) fun f u1 ha =>
        absurd ha.spare (by omega)

theorem loadElfSegments_within
    (hstays : ∀ seg ∈ info.loadSegments, SegmentStays s0.debug (spare s) seg) :
    Ends (loadElfSegments info data pt) s (fun _ s' => Within A s0 512 pt s')
      (fun _ s' => Within A s0 512 pt s') := by
  unfold loadElfSegments
  generalize info.loadSegments = segs at hstays
  induction segs generalizing s with
  | nil => exact h
  | cons seg segs ih =>
    simp only [List.forM_eq_forM, List.forM_cons, ends_bind]
    refine (loadSegment_within h (hstays seg List.mem_cons_self)).mono (fun _ t ht => ?_)
      fun _ _ h' => h'
    exact ih ht.1 fun seg' hseg => (hstays seg' (List.mem_cons_of_mem _ hseg)).imp_right
      (.imp_right (.imp_right fun hfew => ht.2.trans hfew))

/-- The new image, whether it is completed or not. -/
theorem buildImage_within {p : Process} {sel : Selectors}
    (hstays : ∀ seg ∈ info.loadSegments, SegmentStays s0.debug (spare s) seg) :
    Ends (buildImage p sel info data pt) s (fun p' s' => Within A s0 512 pt s' ∧
        p'.pageTablePhys = pt ∧ p'.userStackPtr = BitVec.ofNat 64 userStackTop)
      (fun _ s' => Within A s0 512 pt s') := by
  simp only [buildImage, ends_bind, ends_pure]
  refine (loadElfSegments_within h hstays).mono (fun _ s1 h1 => ?_) fun _ _ h' => h'
  refine (allocateStack_within h1 fun i _ => (pIndex_lt _).1).mono (fun _ s2 h2 => ?_)
    fun _ _ h' => h'
  refine (reads_calculateHeapStart info).ends (fun heapStart => ?_) fun _ => h2
  refine (reads_heapInfo heapStart).ends (fun heap => ?_) fun _ => h2
  exact ⟨h2, rfl, rfl⟩

end

end

/-! ## Freeing -/

section

variable (h : P s) (hframes : ∀ s a, P s → P { s with frames := a })
include h hframes

theorem deallocateFrame_ends (hpanic : ∀ msg s, P s → E (.panic msg) s) :
    Ends (deallocateFrame f) s (fun _ s' => P s') E := by
  simp only [deallocateFrame, ends_bind, ends_get]
  split
  · exact hframes s _ h
  · exact hpanic _ s h

/-- One level of `free_process_address_space`: what clearing the table's entries, giving
frames back and the level below keep. -/
theorem freeEntries_ends {count : Nat} {below : Word → KM Unit}
    (hpanic : ∀ msg s, P s → E (.panic msg) s)
    (hclear : ∀ i < count, ∀ s, P s → P (s.setEntry t i 0))
    (hbelow : ∀ i < count, ∀ s, P s → Pte.isPresent (s.mem t i) = true →
      Ends (below (s.mem t i)) s (fun _ s' => P s') E) :
    Ends (freeEntries t count below) s (fun _ s' => P s') E := by
  refine ends_forRange h fun i u _ hi hu => ?_
  simp only [readEntry, writeEntry, ends_bind, ends_get, ends_pure]
  split
  · simp only [ends_bind, ends_modify]
    refine (hbelow i (by omega) u hu ‹_›).mono (fun _ u1 hu1 => ?_) fun _ _ h' => h'
    exact (deallocateFrame_ends hu1 hframes hpanic).mono
      (fun _ u2 hu2 => hclear i (by omega) u2 hu2) fun _ _ h' => h'
  · exact hu

/-- The pages of one table. -/
theorem freeLeaves_ends (hclear : ∀ i < 512, ∀ s, P s → P (s.setEntry t i 0)) :
    Ends (freeLeaves t) s (fun _ s' => P s') E := by
  refine ends_forRange h fun i u _ hi hu => ?_
  simp only [readEntry, writeEntry, decFrameRefcount, ends_bind, ends_get, ends_pure]
  split
  · exact hclear i (by omega) _ (hframes u _ hu)
  · exact hu

/-- Giving the pages of the kernel stack back stores nowhere. -/
theorem freeKernelStackPages_ends (hfail : ∀ e s, P s → E e s) :
    Ends (freeKernelStackPages pt) s (fun _ s' => P s') E := by
  refine ends_forRange h fun i u _ _ hu => ?_
  simp only [ends_bind, ends_get]
  split
  · exact hfail _ u hu
  · exact deallocateFrame_ends hu hframes fun _ => hfail _

end

/-- `free_process_address_space` over tables that lie in `T`: what clearing their entries
and giving frames back keep. -/
theorem freeProcessAddressSpace_ends {kernelStack : Bool} (h : P s) (hpt : pt ∈ T 0)
    (hframes : ∀ s a, P s → P { s with frames := a }) (hpanic : ∀ msg s, P s → E (.panic msg) s)
    (hclear : ∀ d ≤ 3, ∀ t ∈ T d, ∀ i s, P s → P (s.setEntry t i 0))
    (hchild : ∀ d < 3, ∀ t ∈ T d, ∀ i < width 256 d, ∀ s, P s →
      Pte.isPresent (s.mem t i) = true → Pte.frame (s.mem t i) ∈ T (d + 1))
    (hhuge : ∀ t ∈ T 2, ∀ i < 512, ∀ s msg, P s → Pte.has (Pte.flags (s.mem t i)) Pte.HUGE_PAGE =
      true → E (.err msg) s)
    (hstack : kernelStack = true → ∀ e s, P s → E e s) :
    Ends (freeProcessAddressSpace pt kernelStack) s (fun _ s' => P s') E := by
  simp only [freeProcessAddressSpace, ends_bind]
  refine .mono (freeEntries_ends h hframes hpanic (fun i _ => hclear 0 (by omega) pt hpt i)
    fun i hi s1 h1 hp1 => ?_) (fun _ s' h' => ?_) fun _ _ h' => h'
  · have ht1 := hchild 0 (by omega) pt hpt i hi s1 h1 hp1
    refine freeEntries_ends h1 hframes hpanic (fun i _ => hclear 1 (by omega) _ ht1 i)
      fun i hi s2 h2 hp2 => ?_
    have ht2 := hchild 1 (by omega) _ ht1 i hi s2 h2 hp2
    refine freeEntries_ends h2 hframes hpanic (fun i _ => hclear 2 (by omega) _ ht2 i)
      fun i hi s3 h3 hp3 => ?_
    split
    · exact hhuge _ ht2 i hi s3 _ h3 ‹_›
    · exact freeLeaves_ends h3 hframes fun j _ =>
        hclear 3 le_rfl _ (hchild 2 (by omega) _ ht2 i hi s3 h3 hp3) j
  · split
    · simp only [ends_bind]
      exact (freeKernelStackPages_ends h' hframes (hstack ‹_›)).mono
        (fun _ _ h'' => deallocateFrame_ends h'' hframes hpanic) fun _ _ h'' => h''
    · exact deallocateFrame_ends h' hframes hpanic

/-- Freeing an address space stores into its tables only. -/
theorem freeProcessAddressSpace_confined (h : Confined A m0 n T s.mem)
    (hn : 256 ≤ n) (hpt : pt ∈ T 0) :
    Ends (freeProcessAddressSpace pt false) s (fun _ s' => Confined A m0 n T s'.mem)
      (fun _ s' => Confined A m0 n T s'.mem) := by
  refine freeProcessAddressSpace_ends (P := fun s => Confined A m0 n T s.mem) h hpt (fun _ _ h => h)
    (fun _ _ h => h) (fun d hd t ht i s h => h.clear hd ht) (fun d hd t ht i hi s h hp => ?_)
    (fun _ _ _ _ _ _ h _ => h) nofun
  refine h.closed d hd t ht i ?_ _ (child_of_present hp)
  unfold width at *
  split_ifs at * <;> omega

/-- Walks through the user half meet no huge page. -/
structure SmallPages (T : Nat → Set Nat) (mem : Nat → Nat → Word) : Prop where
  closed : ∀ d < 3, ∀ t ∈ T d, ∀ i < width 256 d, ∀ c, tableAt mem t i = some c → c ∈ T (d + 1)
  small : ∀ t ∈ T 2, ∀ i < 512, Pte.has (Pte.flags (mem t i)) Pte.HUGE_PAGE = false

/-- A cleared entry is the old one, or zero. -/
theorem setEntry_zero (s : KMem) (t i t' j : Nat) :
    (s.setEntry t i 0).mem t' j = s.mem t' j ∨ (s.setEntry t i 0).mem t' j = 0 := by
  rw [setEntry_mem]
  by_cases heq : t' = t ∧ j = i
  · obtain ⟨rfl, rfl⟩ := heq
    exact .inr (Radix.put_same _ _ _ _)
  · exact .inl (Radix.put_ne _ _ heq)

/-- Clearing an entry brings in no huge page. -/
theorem SmallPages.clear (h : SmallPages T s.mem) : SmallPages T (s.setEntry t i 0).mem where
  closed d hd t' ht' j hj c hc := by
    unfold tableAt at hc
    rcases setEntry_zero s t i t' j with he | he <;> rw [he] at hc
    · exact h.closed d hd t' ht' j hj c hc
    · cases hc
  small t' ht' j hj := by
    rcases setEntry_zero s t i t' j with he | he <;> rw [he]
    · exact h.small t' ht' j hj
    · decide

/-- Without huge pages, freeing an address space fails by a panic only. -/
theorem freeProcessAddressSpace_panics (h : SmallPages T s.mem) (hpt : pt ∈ T 0) :
    Ends (freeProcessAddressSpace pt false) s (fun _ _ => True)
      (fun e _ => ∃ msg, e = .panic msg) := by
  refine (freeProcessAddressSpace_ends (P := fun s => SmallPages T s.mem) h hpt (fun _ _ h => h)
    (fun msg _ _ => ⟨msg, rfl⟩) (fun _ _ _ _ _ _ h => h.clear)
    (fun d hd t ht i hi s h hp => h.closed d hd t ht i hi _ (child_of_present hp))
    (fun t ht i hi s _ h hp => ?_) nofun).mono (fun _ _ _ => trivial) fun _ _ h' => h'
  rw [h.small t ht i hi] at hp
  cases hp

/-! ## The frames of an address space -/

/-- What tables lead to, level by level. -/
def tablesBelow (mem : Nat → Nat → Word) (top : Set Nat) : Nat → Set Nat
  | 0 => top
  | d + 1 => { c | ∃ t ∈ tablesBelow mem top d, ∃ i < 512, tableAt mem t i = some c }

/-- The tables below some entries of the topmost one. -/
def topTables (mem : Nat → Nat → Word) (pt lo hi : Nat) : Set Nat :=
  { c | ∃ i, lo ≤ i ∧ i < hi ∧ tableAt mem pt i = some c }

/-- The tables and pages of the user half. -/
def userFrames (mem : Nat → Nat → Word) (pt : Nat) : Set Nat :=
  { f | f = pt ∨ ∃ d ≤ 3, f ∈ tablesBelow mem (topTables mem pt 0 256) d }

/-- The tables of the kernel's half, by depth. -/
def kernelTables (mem : Nat → Nat → Word) (pt d : Nat) : Set Nat :=
  tablesBelow mem (topTables mem pt 256 512) d

/-- The active address space: its frames are in use, the kernel's half has tables of its
own at each level, and there are no huge pages in the user half. -/
structure Intact (s : KMem) (pt : Nat) : Prop where
  active : s.cr3 = pt
  user_held : ∀ f ∈ userFrames s.mem pt, ¬Fresh s.frames f
  kernel_held : ∀ d ≤ 2, ∀ f ∈ kernelTables s.mem pt d, ¬Fresh s.frames f
  kernel_apart : ∀ d ≤ 2, ∀ f ∈ kernelTables s.mem pt d, f ∉ userFrames s.mem pt
  kernel_levels : ∀ d ≤ 2, ∀ d' ≤ 2, d ≠ d' → ∀ f ∈ kernelTables s.mem pt d, f ∉
    kernelTables s.mem pt d'
  no_huge : ∀ t ∈ tablesBelow s.mem (topTables s.mem pt 0 256) 1, ∀ i < 512,
    Pte.has (Pte.flags (s.mem t i)) Pte.HUGE_PAGE = false
  bound : s.frames.endFrame ≤ 2 ^ 40

section

variable {pt : Nat} {mem mem' : Nat → Nat → Word}

theorem root_userFrames : pt ∈ userFrames mem pt := Or.inl rfl

theorem below_userFrames (hd : d ≤ 3) (h : f ∈ tablesBelow mem (topTables mem pt 0 256) d) :
    f ∈ userFrames mem pt :=
  .inr ⟨d, hd, h⟩

/-- The MMU finds the same for user addresses while the frames of the user half keep
their contents, and what it finds is one of them. -/
theorem translate_kept (h : ∀ f ∈ userFrames mem pt, mem' f = mem f) (hva : va < userSpaceMax) :
    translate mem' pt va = translate mem pt va ∧ ∀ t, translate mem pt va = some t →
      t.frame ∈ userFrames mem pt := by
  obtain ⟨-, hi3, hi2, hi1⟩ := pIndex_lt va
  have hi4 : p4Index va < 256 := by
    simp only [userSpaceMax, p4Index] at *
    omega
  have hat : ∀ {t i : Nat}, t ∈ userFrames mem pt → tableAt mem' t i = tableAt mem t i := by
    intro t i ht
    unfold tableAt
    rw [h t ht]
  -- the walk stays in frames of the user half at every level
  unfold translate
  rw [hat root_userFrames]
  cases h3 : tableAt mem pt (p4Index va) with
  | none => simp
  | some l3 =>
    have m3 : l3 ∈ tablesBelow mem (topTables mem pt 0 256) 0 := ⟨_, Nat.zero_le _, hi4, h3⟩
    have u3 := below_userFrames (by omega) m3
    simp only [Option.bind_eq_bind, Option.bind_some, hat u3]
    cases h2 : tableAt mem l3 (p3Index va) with
    | none => simp
    | some l2 =>
      have m2 : l2 ∈ tablesBelow mem (topTables mem pt 0 256) 1 := ⟨l3, m3, _, hi3, h2⟩
      have u2 := below_userFrames (by omega) m2
      simp only [Option.bind_some, hat u2]
      cases h1 : tableAt mem l2 (p2Index va) with
      | none => simp
      | some l1 =>
        have m1 : l1 ∈ tablesBelow mem (topTables mem pt 0 256) 2 := ⟨l2, m2, _, hi2, h1⟩
        have u1 := below_userFrames (by omega) m1
        simp only [Option.bind_some, hat u1]
        cases h0 : tableAt mem l1 (p1Index va) with
        | none => simp
        | some f =>
          have m0 : f ∈ tablesBelow mem (topTables mem pt 0 256) 3 := ⟨l1, m1, _, hi1, h0⟩
          simp only [Option.bind_some, h l1 u1, h l2 u2, h l3 u3,
            h pt root_userFrames, true_and, Option.some.injEq]
          rintro t rfl
          exact below_userFrames le_rfl m0

/-- A new table under construction beside an intact address space. -/
theorem Intact.within {c : Nat} (h : Intact s pt) (new : NewSpace s s' c) :
    Within (userFrames s.mem pt) s 512 c s' := by
  have hne : ∀ {f}, ¬Fresh s.frames f → f ≠ c := by
    rintro f hf rfl
    exact hf new.fresh
  have hsame : ∀ {f}, ¬Fresh s.frames f → s'.mem f = s.mem f := fun hf => new.content _ (hne hf)
  have hused : ∀ {f}, ¬Fresh s.frames f → ¬Fresh s'.frames f := fun hf hfr =>
    hf (new.frames.fresh hfr)
  refine ⟨fun d => match d with | 0 => {c} | d + 1 => kernelTables s.mem pt d,
    rfl, ⟨?_, ?_, ?_, ?_⟩,
    new.debug, fun f hf => hused (h.user_held f hf), ?_, new.frames.endFrame ▸ h.bound⟩
  · exact fun f hf => hsame (h.user_held f hf)
  · intro d hd t ht i hi l hl
    cases d with
    | zero =>
      obtain rfl : t = c := ht
      have hi512 : i < 512 := by simpa [width] using hi
      -- the lower half of a new root is empty, its upper half the kernel's
      by_cases hlow : i < 256
      · simp [tableAt, new.lower i hlow, Pte.isPresent] at hl
      · refine ⟨i, by omega, hi512, ?_⟩
        have hcr3 : s.cr3 ≠ t := h.active ▸ hne (h.user_held pt root_userFrames)
        unfold tableAt at hl ⊢
        rwa [new.upper hcr3 i (by omega) hi512, h.active] at hl
    | succ d =>
      refine ⟨t, ht, i, by simpa [width] using hi, ?_⟩
      unfold tableAt at hl ⊢
      rwa [hsame (h.kernel_held d (by omega) t ht)] at hl
  · intro d hd t ht hA
    cases d with
    | zero =>
      obtain rfl : t = c := ht
      exact h.user_held t hA new.fresh
    | succ d => exact h.kernel_apart d (by omega) t ht hA
  · intro d hd d' hd' hdd t ht ht'
    cases d with
    | zero =>
      obtain rfl : t = c := ht
      cases d' with
      | zero => exact hdd rfl
      | succ d' => exact h.kernel_held d' (by omega) t ht' new.fresh
    | succ d =>
      cases d' with
      | zero =>
        obtain rfl : t = c := ht'
        exact h.kernel_held d (by omega) t ht new.fresh
      | succ d' => exact h.kernel_levels d (by omega) d' (by omega) (by omega) t ht ht'
  · intro d hd t ht
    cases d with
    | zero =>
      obtain rfl : t = c := ht
      exact new.owned.not_fresh
    | succ d => exact hused (h.kernel_held d (by omega) t ht)

/-- The old table can be freed while its frames keep their contents. -/
theorem Intact.small (h : Intact s pt) (hkept : ∀ f ∈ userFrames s.mem pt, s'.mem f = s.mem f) :
    SmallPages (fun d => match d with
      | 0 => {pt}
      | d + 1 => tablesBelow s.mem (topTables s.mem pt 0 256) d) s'.mem where
  closed d hd t ht i hi c hc := by
    unfold tableAt at hc
    cases d with
    | zero =>
      obtain rfl : t = pt := ht
      rw [hkept t root_userFrames] at hc
      exact ⟨i, Nat.zero_le _, by simpa [width] using hi, hc⟩
    | succ d =>
      rw [hkept t (below_userFrames (by omega) ht)] at hc
      exact ⟨t, ht, i, by simpa [width] using hi, hc⟩
  small t ht i hi := by
    rw [hkept t (below_userFrames (d := 1) (by omega) ht)]
    exact h.no_huge t ht i hi

end

end PandaOS.Kernel
