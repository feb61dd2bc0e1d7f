import PandaOS.Logic.NewPage

/-!
# Kernel stacks

`allocate_kernel_stack` maps below an L4 entry of the kernel half, through
tables that other address spaces share. What it touches joins the kernel's
frames: `KernelGrows` says that the set of these frames has grown and that no
user page and no entry that was present has changed.
-/

namespace PandaOS.Kernel

open Hal Lib

variable {s s' t t' s1 s2 : KMem} {roots K K' K'' P : Set Nat} {f g i pt l3 l2 l1 c : Nat}
  {mem : Nat → Nat → Word} {u : Unit}

/-- A frame in use that no address space uses can be given to the kernel. -/
theorem Wf.insertKernel (h : Wf s roots K) (hf : ¬Fresh s.frames f) (hnt : ¬IsTable s roots f)
    (hu : Unmapped s roots f) : Wf s roots (insert f K) where
  forest := h.forest
  table_owned := h.table_owned
  table_entry := h.table_entry
  leaf_owned := h.leaf_owned
  leaf_apart r hr v hv e he := by
    obtain ⟨hnt', hnk⟩ := h.leaf_apart r hr v hv e he
    refine ⟨hnt', ?_⟩
    rintro (heq | hk)
    · exact hu r hr v hv e he heq
    · exact hnk hk
  kernel_held g hg := by
    rcases hg with rfl | hg
    · exact hf
    · exact h.kernel_held g hg
  kernel_apart g hg := by
    rcases hg with rfl | hg
    · exact hnt
    · exact h.kernel_apart g hg
  bound := h.bound

/-- The kernel has taken frames and filled absent entries of its own tables. -/
structure KernelGrows (roots K K' : Set Nat) (s s' : KMem) : Prop where
  wf : Wf s' roots K'
  sub : K ⊆ K'
  new : ∀ f ∈ K', f ∈ K ∨ Fresh s.frames f
  agree : pml4.Agree s.mem s'.mem roots userRegion 3
  frames : FramesLe s.frames s'.frames
  others : ∀ f, f ∉ K' → s'.frames.allocated f = s.frames.allocated f
  rc : ∀ f, f ∉ K' → rcOf s'.frames f = rcOf s.frames f
  content : ∀ f, f ∉ K' → f ∉ roots → s'.mem f = s.mem f
  persist : ∀ g, ¬Fresh s.frames g → ∀ j, Pte.isPresent (s.mem g j) = true → s'.mem g j = s.mem g j
  cr3 : s'.cr3 = s.cr3
  debug : s'.debug = s.debug

namespace KernelGrows

theorem refl (h : Wf s roots K) : KernelGrows roots K K s s where
  wf := h
  sub := fun _ h => h
  new _ h := .inl h
  agree _ _ _ _ _ _ _ _ := rfl
  frames := .refl _
  others _ _ := rfl
  rc _ _ := rfl
  content _ _ _ := rfl
  persist _ _ _ _ := rfl
  cr3 := rfl
  debug := rfl

section

variable (h : KernelGrows roots K K' s t)
include h

theorem trans (h' : KernelGrows roots K' K'' t t') : KernelGrows roots K K'' s t' where
  wf := h'.wf
  sub := fun _ hf => h'.sub (h.sub hf)
  new f hf := by
    rcases h'.new f hf with hf | hf
    · exact h.new f hf
    · exact .inr (h.frames.fresh hf)
  agree := h.agree.trans pml4 h'.agree
  frames := h.frames.trans h'.frames
  others f hf := (h'.others f hf).trans (h.others f fun hk => hf (h'.sub hk))
  rc f hf := (h'.rc f hf).trans (h.rc f fun hk => hf (h'.sub hk))
  content f hf hr := (h'.content f hf hr).trans (h.content f (fun hk => hf (h'.sub hk)) hr)
  persist g hg j hp := by
    have heq := h.persist g hg j hp
    have := h'.persist g (fun hfr => hg (h.frames.fresh hfr)) j (by rw [heq]; exact hp)
    rw [this, heq]
  cr3 := h'.cr3.trans h.cr3
  debug := h'.debug.trans h.debug

/-- A fresh frame for the kernel. -/
theorem alloc (a : Allocated t t' f) : KernelGrows roots K (insert f K') s t' := by
  have ha := a.agree roots
  obtain ⟨hnt, hu, hk⟩ := h.wf.fresh a.fresh
  refine h.trans ⟨?_, Set.subset_insert _ _, ?_, ha, a.frames, ?_, ?_, ?_, ?_, a.cr3, a.debug⟩
  · refine (h.wf.of_agree ha a.frames).insertKernel a.owned.not_fresh ?_ ?_
    · rwa [isTable_iff_of_agree ha]
    · intro r hr v hv e he
      rw [leafOf_agree ha hr hv] at he
      exact hu r hr v hv e he
  · rintro g (rfl | hg)
    · exact .inr a.fresh
    · exact .inl hg
  · exact fun g hg => a.others g fun heq => hg (heq ▸ Set.mem_insert _ _)
  · exact fun g hg => a.rc g fun heq => hg (heq ▸ Set.mem_insert _ _)
  · exact fun g _ _ => by rw [a.mem]
  · exact fun g _ j _ => by rw [a.mem]

/-- Stores to the kernel's frames and to absent entries of the L4 tables. -/
theorem stored (ha : pml4.Agree t.mem mem roots userRegion 3)
    (hother : ∀ f, f ∉ K' → f ∉ roots → mem f = t.mem f)
    (hkeep : ∀ g, ¬Fresh s.frames g → ∀ j, Pte.isPresent (t.mem g j) = true → mem g j = t.mem g j) :
    KernelGrows roots K K' s { t with mem } where
  wf := h.wf.of_agree ha (.refl _)
  sub := h.sub
  new := h.new
  agree := h.agree.trans pml4 ha
  frames := h.frames
  others := h.others
  rc := h.rc
  content f hf hr := (hother f hf hr).trans (h.content f hf hr)
  persist g hg j hp := by
    have heq := h.persist g hg j hp
    exact (hkeep g hg j (by rwa [heq])).trans heq
  cr3 := h.cr3
  debug := h.debug

/-- Filling a frame that the kernel has just taken. -/
theorem filled (hf : f ∈ K') (hfr : Fresh s.frames f)
    (hm : ∀ g, g ≠ f → mem g = t.mem g) : KernelGrows roots K K' s { t with mem } := by
  refine h.stored (pml4.agree_of_frames fun g hg => hm g ?_) (fun g hg _ => hm g ?_)
    fun g hg j _ => congrFun (hm g ?_) j <;> rintro rfl
  · exact h.wf.kernel_apart g hf hg
  · exact hg hf
  · exact hg hfr

theorem clear (hf : f ∈ K') (hfr : Fresh s.frames f) : KernelGrows roots K K' s (t.zeroFrame f) :=
  h.filled hf hfr fun _ hg => if_neg hg

/-- Filling an absent entry of a kernel table or of the kernel half of an L4. -/
theorem store {w : Word} (hg : g ∈ K' ∨ (g ∈ roots ∧ 256 ≤ i)) (hi : i < 512)
    (habs : Pte.isPresent (t.mem g i) = false) :
    KernelGrows roots K K' s (t.setEntry g i w) := by
  refine h.stored (fun r hr d hd q f hn hq => Radix.put_ne _ _ ?_)
    (fun f hf hr => Radix.put_frame _ _ _ ?_) fun f _ j hp => Radix.put_ne _ _ ?_
  · rintro ⟨rfl, hqi⟩
    rcases hg with hg | ⟨hgr, hi'⟩
    · exact h.wf.kernel_apart f hg ⟨r, hr, d, hd, _, userRegion.parent d q hq, hn⟩
    · -- the table is an L4, so its entry is one of the user half
      obtain ⟨-, rfl, -⟩ := h.wf.forest r hr f hgr d hd 0 (by omega) _ 0 f
        (userRegion.parent d q hq) (by simp [userRegion, userPages]) hn rfl
      have hlt := pos_top.mp hq
      have : q % 512 = i := hqi
      omega
  · rintro rfl
    rcases hg with hg | hg
    · exact hf hg
    · exact hr hg.1
  · rintro ⟨rfl, rfl⟩
    rw [hp] at habs
    cases habs

end

end KernelGrows

/-! ## The tables of the stack -/

/-- As far as the walk to the kernel stack goes, its tables and the pages of
its L1 table are in `P`. -/
def StackPath (s : KMem) (pt : Nat) (P : Set Nat) : Prop :=
  ∀ l3, tableAt s.mem pt 511 = some l3 → l3 ∈ P ∧ ∀ l2, tableAt s.mem l3 509 = some l2 → l2 ∈ P ∧
      ∀ l1, tableAt s.mem l2 511 = some l1 → l1 ∈ P ∧ ∀ j f, tableAt s.mem l1 j = some f → f ∈ P

/-- The table below an entry of the kernel's: the one that is there, or an
empty one. It is not the frame `f`, which has another use. -/
theorem ensureKernelTable_ok {msg : String} (h : Wf s roots K) (hg : g ∈ K ∨ (g ∈ roots ∧ 256 ≤ i))
    (hi : i < 512) (hf : ¬Fresh s.frames f) (hpath : ∀ c, tableAt s.mem g i = some c → c ∈ K \ {f})
    (hret : Returns (ensureTable g i msg) s c s') :
    ∃ K', KernelGrows roots K K' s s' ∧ c ∈ K' \ {f} ∧ tableAt s'.mem g i = some c ∧
      ((s' = s ∧ K' = K) ∨ ∀ j, s'.mem c j = 0) := by
  obtain ⟨hp, rfl, rfl⟩ | ⟨hp, n, s1, a, -, hcn, rfl⟩ := ensureTable_cases hret
  · have hc : tableAt s'.mem g i = some (Pte.frame (s'.mem g i)) := child_of_present hp
    exact ⟨K, .refl h, hpath _ hc, hc, .inl ⟨rfl, rfl⟩⟩
  · obtain rfl := hcn h.bound
    have hgc : g ≠ c := by
      rintro rfl
      rcases hg with hg | hg
      · exact h.kernel_held g hg a.fresh
      · exact (h.fresh a.fresh).1 (isTable_root hg.1)
    have hword : (s1.zeroFrame c).mem g i = s.mem g i := by
      simp [KMem.zeroFrame, a.mem, hgc]
    have hgrow := ((KernelGrows.refl h).alloc a).clear (Set.mem_insert _ _) a.fresh
    have hstore := hgrow.store (w := Pte.make (frameAddr c) Pte.tableFlags)
      (hg.imp_left fun h => Set.mem_insert_of_mem _ h) hi (by rw [hword, hp])
    exact ⟨_, hstore, ⟨Set.mem_insert _ _, fun heq => hf (heq ▸ a.fresh)⟩, a.attach_entry h.bound,
      .inr (attach_empty (Ne.symm hgc))⟩

/-- A present entry of a frame in use is kept. -/
theorem KernelGrows.entry (h : KernelGrows roots K K' s s') (hg : ¬Fresh s.frames g)
    (hc : tableAt s.mem g i = some c) : tableAt s'.mem g i = some c := by
  have hp : Pte.isPresent (s.mem g i) = true := by
    by_contra hp
    rw [tableAt_eq, child_of_absent (by simpa using hp)] at hc
    cases hc
  rw [tableAt_eq, h.persist g hg i hp]
  exact hc

/-- The complete walk to the L1 table of the kernel stack. -/
structure StackTables (s : KMem) (pt : Nat) (P : Set Nat) (l3 l2 l1 : Nat) : Prop where
  top : tableAt s.mem pt 511 = some l3
  middle : tableAt s.mem l3 509 = some l2
  last : tableAt s.mem l2 511 = some l1
  mem : l3 ∈ P ∧ l2 ∈ P ∧ l1 ∈ P
  pages : ∀ j f, tableAt s.mem l1 j = some f → f ∈ P

/-- The upper levels of `map_page` for a page of the kernel stack. -/
theorem stackTables_ok {m3 m2 m1 : String} {s3 : KMem} (h : Wf s roots K) (hr : pt ∈ roots)
    (hf : ¬Fresh s.frames f) (hpath : StackPath s pt (K \ {f}))
    (h3 : Returns (ensureTable pt 511 m3) s l3 s1)
    (h2 : Returns (ensureTable l3 509 m2) s1 l2 s2)
    (h1 : Returns (ensureTable l2 511 m1) s2 l1 s3) :
    ∃ K1, KernelGrows roots K K1 s s3 ∧ StackTables s3 pt (K1 \ {f}) l3 l2 l1 := by
  obtain ⟨K1, g1, hk1, hn1, hc1⟩ := ensureKernelTable_ok h (.inr ⟨hr, by omega⟩) (by omega) hf
    (fun c hc => (hpath c hc).1) h3
  have hf1 : ¬Fresh s1.frames f := fun hfr => hf (g1.frames.fresh hfr)
  -- a table that was already there continues the old walk, a new one is empty
  have hpath1 : ∀ c, tableAt s1.mem l3 509 = some c → c ∈ K1 \ {f} ∧
      ∀ l1, tableAt s1.mem c 511 = some l1 → l1 ∈ K1 \ {f} ∧
        ∀ j f', tableAt s1.mem l1 j = some f' → f' ∈ K1 \ {f} := by
    intro c hc
    rcases hc1 with ⟨rfl, rfl⟩ | hzero
    · exact (hpath l3 hn1).2 c hc
    · rw [tableAt_of_zero (hzero 509)] at hc
      cases hc
  obtain ⟨K2, g2, hk2, hn2, hc2⟩ := ensureKernelTable_ok g1.wf (.inl hk1.1) (by omega) hf1
    (fun c hc => (hpath1 c hc).1) h2
  have hf2 : ¬Fresh s2.frames f := fun hfr => hf1 (g2.frames.fresh hfr)
  have hpath2 : ∀ c, tableAt s2.mem l2 511 = some c → c ∈ K2 \ {f} ∧
      ∀ j f', tableAt s2.mem c j = some f' → f' ∈ K2 \ {f} := by
    intro c hc
    rcases hc2 with ⟨rfl, rfl⟩ | hzero
    · exact (hpath1 l2 hn2).2 c hc
    · rw [tableAt_of_zero (hzero 511)] at hc
      cases hc
  obtain ⟨K3, g3, hk3, hn3, hc3⟩ := ensureKernelTable_ok g2.wf (.inl hk2.1) (by omega) hf2
    (fun c hc => (hpath2 c hc).1) h1
  refine ⟨K3, (g1.trans g2).trans g3, ?_, ?_, hn3, ⟨?_, ?_, hk3⟩, ?_⟩
  · exact (g2.trans g3).entry (fun hfr => (h.table_owned pt (isTable_root hr)).not_fresh
      (g1.frames.fresh hfr)) hn1
  · exact g3.entry (fun hfr => g1.wf.kernel_held l3 hk1.1 (g2.frames.fresh hfr)) hn2
  · exact ⟨g3.sub (g2.sub hk1.1), hk1.2⟩
  · exact ⟨g3.sub hk2.1, hk2.2⟩
  · intro j f' hj
    rcases hc3 with ⟨rfl, rfl⟩ | hzero
    · exact (hpath2 l1 hn3).2 j f' hj
    · rw [tableAt_of_zero (hzero j)] at hj
      cases hj

/-! ## Mapping the stack -/

/-- The address of a page of the kernel stack. -/
def stackVa (i : Nat) : Nat := kernelStackTop - (i + 1) * pageSize

theorem stackVa_index (hi : i < 4) : p4Index (stackVa i) = 511 ∧
      p3Index (stackVa i) = 509 ∧ p2Index (stackVa i) = 511 ∧ p1Index (stackVa i) = 511 - i := by
  have h : ∀ j : Fin 4, p4Index (stackVa j) = 511 ∧ p3Index (stackVa j) = 509 ∧
      p2Index (stackVa j) = 511 ∧ p1Index (stackVa j) = 511 - j.val := by decide
  exact h ⟨i, hi⟩

/-- The first `n` pages of the kernel stack are mapped, through tables and to
frames of `P`. -/
def StackMapped (s : KMem) (pt : Nat) (P : Set Nat) (n : Nat) : Prop :=
  ∃ l3 l2 l1, StackTables s pt P l3 l2 l1 ∧ ∀ i < n, ∃ f, tableAt s.mem l1 (511 - i) = some f

theorem StackTables.path (h : StackTables s pt P l3 l2 l1) : StackPath s pt P := by
  intro a ha
  obtain rfl : l3 = a := Option.some.inj (h.top.symm.trans ha)
  refine ⟨h.mem.1, fun b hb => ?_⟩
  obtain rfl : l2 = b := Option.some.inj (h.middle.symm.trans hb)
  refine ⟨h.mem.2.1, fun c hc => ?_⟩
  obtain rfl : l1 = c := Option.some.inj (h.last.symm.trans hc)
  exact ⟨h.mem.2.2, h.pages⟩

/-- `map_page` of a fresh frame for page `i` of the stack: the page was not
mapped before. -/
theorem mapStackPage_ok {flags : Word} (h : Wf s roots K) (hr : pt ∈ roots) (hi : i < 4)
    (hfl : PageFlags flags) (hpath : StackPath s pt K) (ha : Allocated s s1 f)
    (hmap : Returns (mapPage pt (stackVa i) f flags) s1 u s2) :
    ∃ K' l3 l2 l1, KernelGrows roots K K' s (s2.zeroFrame f) ∧ StackTables
      (s2.zeroFrame f) pt K' l3 l2 l1 ∧ tableAt (s2.zeroFrame f).mem l1 (511 - i) = some f := by
  obtain ⟨h4, h3, h2, h1⟩ := stackVa_index hi
  simp only [mapPage, readEntry, writeEntry, returns_bind, returns_get, returns_pure, and_assoc,
    exists_and_left, exists_eq_left, h4, h3, h2, h1] at hmap
  obtain ⟨l3, t1, e3, l2, t2, e2, l1, t3, e1, hmap⟩ := hmap
  have hbound : f < 2 ^ 40 := by
    have := ha.fresh.2.1
    have := h.bound
    omega
  have hfK : f ∉ K := (h.fresh ha.fresh).2.2
  have g0 := (KernelGrows.refl h).alloc ha
  have hpath1 : StackPath s1 pt (insert f K \ {f}) := by
    have hset : insert f K \ {f} = K := by
      ext g
      constructor
      · rintro ⟨rfl | hg, hne⟩
        · exact absurd rfl hne
        · exact hg
      · exact fun hg => ⟨Set.mem_insert_of_mem _ hg, fun heq => hfK (heq ▸ hg)⟩
    rw [hset]
    unfold StackPath
    rw [ha.mem]
    exact hpath
  obtain ⟨K', g1, htab⟩ := stackTables_ok g0.wf hr ha.owned.not_fresh hpath1 e3 e2 e1
  split at hmap
  · exact absurd hmap not_returns_throw
  rename_i hfree
  simp only [returns_modify] at hmap
  subst hmap
  have habs : Pte.isPresent (t3.mem l1 (511 - i)) = false := by
    by_contra hp
    have hp : Pte.isPresent (t3.mem l1 (511 - i)) = true := by simpa using hp
    have haddr : Pte.addr (t3.mem l1 (511 - i)) = frameAddr f := by simpa [hp] using hfree
    exact (htab.pages _ _ (child_of_present hp)).2 (Pte.frame_of_addr hbound haddr)
  have hf' : f ∈ K' := g1.sub (Set.mem_insert _ _)
  have hl1f : l1 ≠ f := htab.mem.2.2.2
  have g2 := ((g0.trans g1).store (w := Pte.make (frameAddr f) flags) (Or.inl htab.mem.2.2.1)
    (by omega : 511 - i < 512) habs).clear hf' ha.fresh
  generalize hu : (t3.setEntry l1 (511 - i) (Pte.make (frameAddr f) flags)).zeroFrame f = u at g2 ⊢
  -- the stores reach none of the tables above the L1 table
  have hmem : ∀ g, g ≠ f → u.mem g = Radix.put t3.mem l1 (511 - i)
      (Pte.make (frameAddr f) flags) g :=
    fun g hg => hu ▸ if_neg hg
  have hkeep : ∀ g j, g ≠ f → ¬(g = l1 ∧ j = 511 - i) → u.mem g j = t3.mem g j := by
    intro g j hgf hgl
    rw [hmem g hgf, Radix.put_ne _ _ hgl]
  have hnew : tableAt u.mem l1 (511 - i) = some f := by
    rw [tableAt_eq, hmem l1 hl1f, Radix.put_same, child_make hbound hfl.1 hfl.2]
  have hwalk : ∀ g j c, g ≠ f → tableAt t3.mem g j = some c → tableAt u.mem g j = some c := by
    intro g j c hgf hc
    rw [tableAt_eq, hkeep g j hgf]
    · exact hc
    · rintro ⟨rfl, rfl⟩
      rw [tableAt_eq, child_of_absent habs] at hc
      cases hc
  have hptf : pt ≠ f := by
    rintro rfl
    exact (h.fresh ha.fresh).1 (isTable_root hr)
  refine ⟨K', l3, l2, l1, g2, ⟨hwalk _ _ _ hptf htab.top, hwalk _ _ _ htab.mem.1.2 htab.middle,
    hwalk _ _ _ htab.mem.2.1.2 htab.last, ⟨htab.mem.1.1, htab.mem.2.1.1, htab.mem.2.2.1⟩, ?_⟩, hnew⟩
  intro j g hj
  by_cases hji : j = 511 - i
  · subst hji
    rw [hnew] at hj
    cases hj
    exact hf'
  · rw [tableAt_eq, hkeep l1 j htab.mem.2.2.2 fun hc => hji hc.2] at hj
    exact (htab.pages j g hj).1

/-- Kernel growth keeps a walk that was complete. -/
theorem KernelGrows.stackMapped {l3' l2' l1' : Nat} {P' : Set Nat} (g : KernelGrows roots K K' s s')
    (h : StackTables s pt P l3 l2 l1) (h' : StackTables s' pt P' l3' l2' l1')
    (hpt : ¬Fresh s.frames pt) (hP : P ⊆ K)
    (hwf : Wf s roots K) (hi : tableAt s.mem l1 i = some f) : tableAt s'.mem l1' i = some f := by
  have held : ∀ g ∈ P, ¬Fresh s.frames g := fun g hg => hwf.kernel_held g (hP hg)
  obtain rfl : l3 = l3' := Option.some.inj ((g.entry hpt h.top).symm.trans h'.top)
  obtain rfl : l2 = l2' :=
    Option.some.inj ((g.entry (held _ h.mem.1) h.middle).symm.trans h'.middle)
  obtain rfl : l1 = l1' :=
    Option.some.inj ((g.entry (held _ h.mem.2.1) h.last).symm.trans h'.last)
  exact g.entry (held _ h.mem.2.2) hi

theorem pageFlags_kernelStack : PageFlags (Pte.PRESENT ||| Pte.WRITABLE ||| Pte.NO_EXECUTE) := by
  unfold PageFlags
  decide

/-- `allocate_kernel_stack` maps the stack's pages to frames of its own, below
tables that belong to the kernel. -/
theorem allocateKernelStack_ok (h : Wf s roots K) (hr : pt ∈ roots) (hpath : StackPath s pt K)
    (hret : Returns (allocateKernelStack pt kernelStackTop kernelStackPages) s u s') :
    ∃ K', KernelGrows roots K K' s s' ∧ StackMapped s' pt K' kernelStackPages := by
  have hinv := returns_forRange (fun i t => ∃ K', KernelGrows roots K K' s t ∧
    StackPath t pt K' ∧ (0 < i → StackMapped t pt K' i)) ⟨K, .refl h, hpath, by omega⟩
    ?_ hret
  · obtain ⟨K', g, -, hm⟩ := hinv
    exact ⟨K', g, hm (by decide)⟩
  · rintro i t t' - hi ⟨K', g, hp, hm⟩ hturn
    have hi : i < 4 := by simpa [kernelStackPages] using hi
    simp only [returns_bind] at hturn
    obtain ⟨o, t1, halloc, hrest⟩ := hturn
    cases o with
    | none => exact absurd hrest not_returns_throw
    | some f =>
      simp only [zeroFrame, returns_bind, returns_modify] at hrest
      obtain ⟨_, t2, hmap, rfl⟩ := hrest
      obtain ⟨K'', l3, l2, l1, g', htab, hnew⟩ := mapStackPage_ok g.wf hr hi pageFlags_kernelStack
        hp (allocateFrame_ok halloc) hmap
      refine ⟨K'', g.trans g', htab.path, fun _ => ⟨l3, l2, l1, htab, fun j hj => ?_⟩⟩
      by_cases hji : j = i
      · subst hji
        exact ⟨f, hnew⟩
      · obtain ⟨k3, k2, k1, ktab, kpages⟩ := hm (by omega)
        obtain ⟨c, hc⟩ := kpages j (by omega)
        have hpt := (g.wf.table_owned pt (isTable_root hr)).not_fresh
        exact ⟨c, g'.stackMapped ktab htab hpt (fun _ hx => hx) g.wf hc⟩

/-- `map_page` panics on a page that is mapped to another frame. -/
theorem mapPage_remap {va : Nat} {flags : Word} (h3 : tableAt s.mem pt (p4Index va) = some l3)
    (h2 : tableAt s.mem l3 (p3Index va) = some l2) (h1 : tableAt s.mem l2 (p2Index va) = some l1)
    (hp : Pte.isPresent (s.mem l1 (p1Index va)) = true)
    (hne : Pte.addr (s.mem l1 (p1Index va)) ≠ frameAddr f) :
    Throws (mapPage pt va f flags) s
      (.panic (remapText va (Pte.addr (s.mem l1 (p1Index va))) (frameAddr f))) s := by
  simp only [mapPage, readEntry, throws_bind, returns_bind, returns_get, returns_pure, and_assoc,
    exists_and_left, exists_eq_left]
  refine .inr ⟨l3, s, (returns_ensureTable h3).mpr ⟨rfl, rfl⟩, .inr ⟨l2, s,
    (returns_ensureTable h2).mpr ⟨rfl, rfl⟩, .inr ⟨l1, s, (returns_ensureTable h1).mpr ⟨rfl, rfl⟩,
    .inr ?_⟩⟩⟩
  rw [if_pos (by simp [hp, hne])]
  exact throws_throw.mpr ⟨rfl, rfl⟩

/-- The panic of `map_page` for the first page of the kernel stack. -/
def StackRemap (e : Fault) : Prop :=
  ∃ existing requested, existing ≠ requested ∧ e = .panic (remapText (stackVa 0) existing requested)

/-- Where the stack is mapped to frames that are in use, `allocate_kernel_stack`
fails: its first `map_page` finds another frame. -/
theorem allocateKernelStack_mapped {n : Nat} (h : Wf s roots K) (hm : StackMapped s pt K (n + 1)) :
    ∃ e s', Throws (allocateKernelStack pt kernelStackTop kernelStackPages) s e s' ∧
      (OutOfFrames e s' ∨ StackRemap e) := by
  obtain ⟨l3, l2, l1, htab, hpages⟩ := hm
  obtain ⟨c, hc⟩ := hpages 0 (by omega)
  obtain ⟨h4, h3, h2, h1⟩ := stackVa_index (i := 0) (by omega)
  refine Ends.throws ?_
  simp only [allocateKernelStack, allocateStack, kernelStackPages, forRange, bind_assoc]
  refine ends_allocateFrame (fun hout => Or.inl ⟨⟨_, rfl⟩, hout⟩) fun f t ha => ?_
  have hother : Pte.addr (t.mem l1 (p1Index (stackVa 0))) ≠ frameAddr f := by
    rw [ha.mem, h1]
    intro haddr
    have hbound : f < 2 ^ 40 := lt_of_lt_of_le ha.fresh.2.1 h.bound
    have hcf : c = f := by rw [← (tableAt_some hc).2, Pte.frame_of_addr hbound haddr]
    exact h.kernel_held c (htab.pages _ _ hc) (hcf ▸ ha.fresh)
  rw [bind_assoc, ends_bind]
  have htop : tableAt t.mem pt (p4Index (stackVa 0)) = some l3 := by rw [ha.mem, h4, htab.top]
  have hmiddle : tableAt t.mem l3 (p3Index (stackVa 0)) = some l2 := by rw [ha.mem, h3, htab.middle]
  have hlast : tableAt t.mem l2 (p2Index (stackVa 0)) = some l1 := by rw [ha.mem, h2, htab.last]
  have hpresent : Pte.isPresent (t.mem l1 (p1Index (stackVa 0))) = true := by
    rw [ha.mem, h1, (tableAt_some hc).1]
  exact (mapPage_remap htop hmiddle hlast hpresent hother).ends (Or.inr ⟨_, _, hother, rfl⟩)

end PandaOS.Kernel
