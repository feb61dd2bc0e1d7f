import PandaOS.Logic.AddressSpace

/-!
# Building page tables

What the functions of `paging.rs` that allocate and fill tables do to
well-formed address spaces. Tables that are created on the way change nothing
that a process can see (`Grows`); `map_page` changes the entry of one page.
-/

namespace PandaOS.Kernel

open Hal Lib

variable {s s' s'' : KMem} {roots K : Set Nat} {flags : Word} {pt va f g i c t d r q : Nat}
  {msg : String} {E : Fault → KMem → Prop} {o : Option Nat}

/-! ## Allocating -/

/-- A run of `allocate_frame` that returned `f`. -/
structure Allocated (s s' : KMem) (f : Nat) : Prop where
  mem : s'.mem = s.mem
  cr3 : s'.cr3 = s.cr3
  debug : s'.debug = s.debug
  fresh : Fresh s.frames f
  owned : Owned s'.frames f
  frames : FramesLe s.frames s'.frames
  others : ∀ g, g ≠ f → s'.frames.allocated g = s.frames.allocated g
  rc : ∀ g, g ≠ f → rcOf s'.frames g = rcOf s.frames g
  rc_new : s.frames.refcounts.isSome → rcOf s'.frames f = 1

theorem returns_allocateFrame : Returns allocateFrame s o s' ↔
    o = s.frames.allocateFrame.1 ∧ s' = { s with frames := s.frames.allocateFrame.2 } := by
  simp only [allocateFrame, returns_bind, returns_get, returns_modify, returns_pure, and_assoc,
    exists_and_left, exists_eq_left, exists_const]

theorem allocateFrame_ok (h : Returns allocateFrame s (some f) s') : Allocated s s' f := by
  obtain ⟨hf, rfl⟩ := returns_allocateFrame.mp h
  have hrun : s.frames.allocateFrame = (some f, s.frames.allocateFrame.2) := by
    rw [hf]
  obtain ⟨hs, he, hr, ha, heq⟩ := FrameAllocator.allocateFrame_some hrun
  have hin : s.frames.inRange f = true := FrameAllocator.inRange_iff.mpr ⟨hs, he⟩
  constructor
  case mem => rfl
  case cr3 => rfl
  case debug => rfl
  case fresh => exact ⟨hs, he, hr, ha⟩
  case owned =>
    rw [heq]
    exact ⟨hs, he, hr, by simp⟩
  case frames =>
    rw [heq]
    refine ⟨rfl, rfl, rfl, by simp, fun g hg => ?_⟩
    by_cases hgf : g = f
    · subst hgf; simp
    · simpa [hgf] using hg
  case others =>
    intro g hg
    rw [heq]
    simp [hg]
  case rc =>
    intro g hg
    rw [heq]
    unfold rcOf FrameAllocator.getRefcount FrameAllocator.inRange
    cases s.frames.refcounts with
    | none => rfl
    | some rc => simp [hg]
  case rc_new =>
    intro hc
    rw [heq]
    unfold rcOf FrameAllocator.getRefcount
    obtain ⟨rc, hrc⟩ := Option.isSome_iff_exists.mp hc
    have hin' : FrameAllocator.inRange { s.frames with
        nextFrame := f + 1
        allocated := fun g => if g = f then true else s.frames.allocated g
        refcounts := s.frames.refcounts.map fun r g => if g = f then 1 else r g } f = true := hin
    rw [if_pos hin', hrc]
    simp

/-- Without a frame to hand out nothing changes. -/
theorem allocateFrame_out (h : Returns allocateFrame s none s') :
    s' = s ∧ ∀ f, ¬Fresh s.frames f := by
  obtain ⟨hf, rfl⟩ := returns_allocateFrame.mp h
  have hrun : s.frames.allocateFrame = (none, s.frames.allocateFrame.2) := by
    rw [hf]
  obtain ⟨heq, hnone⟩ := FrameAllocator.allocateFrame_none hrun
  refine ⟨by rw [heq], ?_⟩
  rintro f ⟨hs, he, hr, ha⟩
  have hfree := hnone f hs he
  simp [FrameAllocator.isFree, FrameAllocator.isAllocated, hr, ha] at hfree

theorem not_throws_allocateFrame {e : Fault} : ¬Throws allocateFrame s e s' := by
  simp [allocateFrame]

theorem allocateFrame_tracker (h : Returns allocateFrame s o s') : s'.tracker = s.tracker := by
  rw [(returns_allocateFrame.mp h).2]

/-- Code that starts with an allocation. -/
theorem ends_allocateFrame {α : Type} {g : Option Nat → KM α} {Q : α → KMem → Prop}
    (hnone : (∀ f, ¬Fresh s.frames f) → Ends (g none) s Q E)
    (hsome : ∀ f s1, Allocated s s1 f → Ends (g (some f)) s1 Q E) :
    Ends (allocateFrame >>= g) s Q E := by
  rw [ends_bind]
  refine ends_iff.mpr ⟨fun o s1 halloc => ?_, fun e s1 hth => absurd hth not_throws_allocateFrame⟩
  cases o with
  | none =>
    obtain ⟨rfl, hout⟩ := allocateFrame_out halloc
    exact hnone hout
  | some f => exact hsome f s1 (allocateFrame_ok halloc)

/-- An error result because no frame was left. -/
def OutOfFrames (e : Fault) (s : KMem) : Prop :=
  (∃ msg, e = .err msg) ∧ ∀ f, ¬Fresh s.frames f

/-- `allocate_page_table_frame` allocates and tracks the frame. If it fails, it has
changed nothing. -/
theorem allocatePageTableFrame_ends (msg : String) (s : KMem) : Ends (allocatePageTableFrame msg) s
      (fun f s' => Allocated s s' f ∧ s'.tracker = s.tracker.map (trackFrame f))
      fun e s' => OutOfFrames e s ∧ s' = s := by
  unfold allocatePageTableFrame
  rw [ends_bind]
  refine ends_iff.mpr ⟨fun o s1 halloc => ?_, fun e s1 hth => absurd hth not_throws_allocateFrame⟩
  cases o with
  | none =>
    obtain ⟨rfl, hout⟩ := allocateFrame_out halloc
    exact ⟨⟨⟨msg, rfl⟩, hout⟩, rfl⟩
  | some f =>
    have a := allocateFrame_ok halloc
    exact ⟨⟨a.mem, a.cr3, a.debug, a.fresh, a.owned, a.frames, a.others, a.rc, a.rc_new⟩,
      congrArg (Option.map (trackFrame f)) (allocateFrame_tracker halloc)⟩

/-! ## New tables -/

/-- Tables were added; pages, other frames and the kernel half are as before. -/
structure Grows (roots : Set Nat) (s s' : KMem) : Prop where
  cr3 : s'.cr3 = s.cr3
  debug : s'.debug = s.debug
  frames : FramesLe s.frames s'.frames
  others : ∀ f, ¬IsTable s' roots f → s'.frames.allocated f = s.frames.allocated f
  kept : ∀ f, ¬IsTable s' roots f → s'.mem f = s.mem f
  upper : ∀ r ∈ roots, ∀ i, 256 ≤ i → s'.mem r i = s.mem r i
  nodes : ∀ r ∈ roots, ∀ d ≤ 3, ∀ q g, userRegion.pos d q →
    pml4.node s.mem r d q = some g → pml4.node s'.mem r d q = some g
  tables : ∀ f, IsTable s' roots f → IsTable s roots f ∨ Fresh s.frames f

namespace Grows

theorem refl (roots : Set Nat) (s : KMem) : Grows roots s s where
  cr3 := rfl
  debug := rfl
  frames := .refl _
  others _ _ := rfl
  kept _ _ := rfl
  upper _ _ _ _ := rfl
  nodes _ _ _ _ _ _ _ h := h
  tables _ h := .inl h

theorem isTable (g : Grows roots s s') (h : IsTable s roots f) : IsTable s' roots f := by
  obtain ⟨r, hr, d, hd, q, hq, hn⟩ := h
  exact ⟨r, hr, d, hd, q, hq, g.nodes r hr d hd q f hq hn⟩

/-- A frame in use that is no table does not become one. -/
theorem not_isTable (g : Grows roots s s') (hf : ¬Fresh s.frames f)
    (h : ¬IsTable s roots f) : ¬IsTable s' roots f := by
  intro ht
  rcases g.tables f ht with ht | hfr
  · exact h ht
  · exact hf hfr

/-- A page in use keeps its contents. -/
theorem content (g : Grows roots s s') (hf : ¬Fresh s.frames f)
    (h : ¬IsTable s roots f) : s'.mem f = s.mem f :=
  g.kept f (g.not_isTable hf h)

theorem trans (g : Grows roots s s') (g' : Grows roots s' s'') : Grows roots s s'' where
  cr3 := g'.cr3.trans g.cr3
  debug := g'.debug.trans g.debug
  frames := g.frames.trans g'.frames
  others f hf := (g'.others f hf).trans (g.others f fun h => hf (g'.isTable h))
  kept f hf := (g'.kept f hf).trans (g.kept f fun h => hf (g'.isTable h))
  upper r hr i hi := (g'.upper r hr i hi).trans (g.upper r hr i hi)
  nodes r hr d hd q f hq h := g'.nodes r hr d hd q f hq (g.nodes r hr d hd q f hq h)
  tables f hf := by
    rcases g'.tables f hf with hf | hf
    · exact g.tables f hf
    · exact .inr (g.frames.fresh hf)

end Grows

/-- No reference count of a page has changed. -/
def SameCounts (roots : Set Nat) (s s' : KMem) : Prop :=
  ∀ f, ¬IsTable s' roots f → rcOf s'.frames f = rcOf s.frames f

theorem SameCounts.trans (h : SameCounts roots s s') (h' : SameCounts roots s' s'')
    (g' : Grows roots s' s'') : SameCounts roots s s'' :=
  fun f hf => (h' f hf).trans (h f fun ht => hf (g'.isTable ht))

/-- No entry of a user page has changed. -/
def SameLeaves (roots : Set Nat) (s s' : KMem) : Prop :=
  ∀ r ∈ roots, ∀ v < userPages, leafOf s' r v = leafOf s r v

/-- Only tables were added. -/
structure AddsTables (roots K : Set Nat) (s s' : KMem) : Prop extends Grows roots s s' where
  wf : Wf s' roots K
  leaves : SameLeaves roots s s'
  counts : SameCounts roots s s'

theorem AddsTables.refl (h : Wf s roots K) : AddsTables roots K s s :=
  ⟨.refl _ _, h, fun _ _ _ _ => rfl, fun _ _ => rfl⟩

theorem AddsTables.trans (h : AddsTables roots K s s') (h' : AddsTables roots K s' s'') :
    AddsTables roots K s s'' where
  toGrows := h.toGrows.trans h'.toGrows
  wf := h'.wf
  leaves r hr v hv := (h'.leaves r hr v hv).trans (h.leaves r hr v hv)
  counts := h.counts.trans h'.counts h'.toGrows

theorem child_make (hf : f < 2 ^ 40) (hmask : flags &&& Pte.addrMask = 0)
    (hp : flags.getLsbD 0 = true) : pml4.child (Pte.make (frameAddr f) flags) = some f := by
  rw [child_of_present (by rw [Pte.isPresent_make, hp]), Pte.frame_make hf hmask]

theorem tableEntry_make (a : Word) : TableEntry (Pte.make a Pte.tableFlags) := by
  refine ⟨?_, ?_, ?_⟩
  · rw [show Pte.WRITABLE = BitVec.twoPow 64 1 from rfl, Pte.has_make _ _ (by omega) (by omega)]
    decide
  · rw [show Pte.USER_ACCESSIBLE = BitVec.twoPow 64 2 from rfl,
      Pte.has_make _ _ (by omega) (by omega)]
    decide
  · rw [show Pte.HUGE_PAGE = BitVec.twoPow 64 7 from rfl, Pte.has_bit _ (by decide),
      Pte.flags_bit _ (by decide), Pte.make_bit _ _ (by omega)]
    decide

/-- No table is stored to. -/
theorem Allocated.agree (a : Allocated s s' f) (roots : Set Nat) :
    pml4.Agree s.mem s'.mem roots userRegion 3 :=
  pml4.agree_of_frames fun _ _ => by rw [a.mem]

theorem tableAt_some (h : tableAt s.mem g i = some c) :
    Pte.isPresent (s.mem g i) = true ∧ Pte.frame (s.mem g i) = c := by
  unfold tableAt at h
  split at h
  · rename_i hp
    exact ⟨hp, Option.some.inj h⟩
  · cases h

theorem tableAt_of_zero {mem : Nat → Nat → Word} (h : mem g i = 0) : tableAt mem g i = none := by
  rw [tableAt_eq, h]
  exact child_of_absent rfl

/-- A table that is there is used. -/
theorem returns_ensureTable {c' : Nat} (hc : tableAt s.mem g i = some c) :
    Returns (ensureTable g i msg) s c' s' ↔ c' = c ∧ s' = s := by
  obtain ⟨hp, rfl⟩ := tableAt_some hc
  simp only [ensureTable, readEntry, returns_bind, returns_get, returns_pure, and_assoc,
    exists_and_left, exists_eq_left, hp, Bool.not_true, Bool.false_eq_true, if_false]

/-- A cleared frame put below entry `i` of a table. -/
def KMem.attach (s : KMem) (t i f : Nat) : KMem :=
  (s.zeroFrame f).setEntry t i (Pte.make (frameAddr f) Pte.tableFlags)

section

variable {f t i : Nat} (a : Allocated s s' f)
include a

theorem Allocated.attach_other {j : Nat} (hg : g ≠ f) (hne : ¬(g = t ∧ j = i)) :
    (s'.attach t i f).mem g j = s.mem g j := by
  rw [KMem.attach, setEntry_mem, Radix.put_ne _ _ hne]
  simp [KMem.zeroFrame, a.mem, hg]

theorem Allocated.attach_frame (hg : g ≠ f) (hne : g ≠ t) : (s'.attach t i f).mem g = s.mem g :=
  funext fun _ => a.attach_other hg fun h => hne h.1

omit a in
/-- A new table is empty. -/
theorem attach_empty (hne : f ≠ t) (j : Nat) : (s'.attach t i f).mem f j = 0 := by
  rw [KMem.attach, setEntry_mem, Radix.put_frame _ _ _ hne]
  simp [KMem.zeroFrame]

theorem Allocated.attach_entry (hb : s.frames.endFrame ≤ 2 ^ 40) :
    tableAt (s'.attach t i f).mem t i = some f := by
  rw [tableAt_eq, KMem.attach, setEntry_mem, Radix.put_same,
    child_make (lt_of_lt_of_le a.fresh.2.1 hb) (by decide) (by decide)]

end

/-- The two ways to get a table: it is there, or a cleared frame is put in its
place. Without a frame nothing changes. -/
theorem ensureTable_ends (t i : Nat) (msg : String) (s : KMem) : Ends (ensureTable t i msg) s
      (fun c s' => (Pte.isPresent (s.mem t i) = true ∧ c = Pte.frame (s.mem t i) ∧ s' = s) ∨
        (Pte.isPresent (s.mem t i) = false ∧ ∃ f s1, Allocated s s1 f ∧
          s1.tracker = s.tracker.map (trackFrame f) ∧ (s.frames.endFrame ≤ 2 ^ 40 → c = f) ∧
          s' = s1.attach t i f))
      fun e s' => Pte.isPresent (s.mem t i) = false ∧ OutOfFrames e s ∧ s' = s := by
  simp only [ensureTable, readEntry, zeroFrame, writeEntry, ends_bind, ends_get, ends_pure]
  cases hp : Pte.isPresent (s.mem t i) with
  | true => exact .inl ⟨rfl, rfl, rfl⟩
  | false =>
    simp only [Bool.not_false, if_true, ends_bind, ends_modify]
    refine (allocatePageTableFrame_ends msg s).mono ?_ fun _ _ he => ⟨trivial, he⟩
    rintro f s1 ⟨a, htrack⟩
    refine .inr ⟨trivial, f, s1, a, htrack, fun hb => ?_, rfl⟩
    exact (tableAt_some (a.attach_entry hb)).2

theorem ensureTable_cases (h : Returns (ensureTable t i msg) s c s') :
    (Pte.isPresent (s.mem t i) = true ∧ c = Pte.frame (s.mem t i) ∧ s' = s) ∨
      (Pte.isPresent (s.mem t i) = false ∧ ∃ f s1, Allocated s s1 f ∧
        s1.tracker = s.tracker.map (trackFrame f) ∧ (s.frames.endFrame ≤ 2 ^ 40 → c = f) ∧
        s' = s1.attach t i f) :=
  h.of_ends (ensureTable_ends t i msg s)

/-- A fresh frame, cleared: nothing that is in use has changed. -/
theorem Allocated.cleared (a : Allocated s s' f) (h : Wf s roots K) :
    pml4.Agree s.mem (s'.zeroFrame f).mem roots userRegion 3 := by
  apply pml4.agree_of_frames
  intro t ht
  have hne : t ≠ f := by
    rintro rfl
    exact (h.table_owned t ht).not_fresh a.fresh
  simp [KMem.zeroFrame, a.mem, hne]

section

variable {f r d q i t : Nat} (h : Wf s roots K) (hr : r ∈ roots) (hd : d < 3)
  (hpos : userRegion.pos (d + 1) (q * 512 + i)) (hi : i < 512)
  (ht : pml4.node s.mem r d q = some t)
include h hr hd hpos hi ht

/-- An allocated and cleared frame is ready to be attached. -/
theorem Allocated.attach (a : Allocated s s' f) (habs : Pte.isPresent (s.mem t i) = false) :
    Attach (s'.zeroFrame f) roots K r d q i t f (Pte.make (frameAddr f) Pte.tableFlags) := by
  have ha := a.cleared h
  obtain ⟨hnt, hu, hk⟩ := h.fresh a.fresh
  have hwf : Wf (s'.zeroFrame f) roots K := h.of_agree ha a.frames
  have hq : userRegion.pos d q := pos_parent hi hpos
  have hne : t ≠ f := by
    rintro rfl
    exact hnt ⟨r, hr, d, by omega, q, hq, ht⟩
  have hbound : f < 2 ^ 40 := by
    have := a.fresh.2.1
    have := h.bound
    omega
  constructor
  case wf => exact hwf
  case root => exact hr
  case depth => exact hd
  case pos => exact hpos
  case index => exact hi
  case table => rwa [pml4.node_agree ha hr d (by omega) q hq]
  case absent =>
    have : (s'.zeroFrame f).mem t i = s.mem t i := by simp [KMem.zeroFrame, a.mem, hne]
    exact child_of_absent (by rw [this, habs])
  case owned => exact a.owned
  case new => rwa [isTable_iff_of_agree ha]
  case unmapped =>
    intro r' hr' v hv e he
    rw [leafOf_agree ha hr' hv] at he
    exact hu r' hr' v hv e he
  case user => exact hk
  case empty =>
    intro j _
    have : (s'.zeroFrame f).mem f j = 0 := by simp [KMem.zeroFrame]
    exact child_of_absent (by rw [this]; rfl)
  case word => exact child_make hbound (by decide) (by decide)
  case plain => exact tableEntry_make _

/-- The step from `s` to the state with a new table below `(t, i)`. -/
theorem Allocated.grows (a : Allocated s s' f) (habs : Pte.isPresent (s.mem t i) = false) :
    Grows roots s (s'.attach t i f) := by
  have hat := a.attach h hr hd hpos hi ht habs
  have ha := a.cleared h
  obtain ⟨hnt, -, -⟩ := h.fresh a.fresh
  have hq := pos_parent hi hpos
  have htab : IsTable s roots t := ⟨r, hr, d, by omega, q, hq, ht⟩
  constructor
  case cr3 => exact a.cr3
  case debug => exact a.debug
  case frames => exact a.frames
  case others =>
    intro g hg
    refine a.others g ?_
    rintro rfl
    exact hg ((hat.isTable_iff g).mpr (.inr rfl))
  case kept =>
    intro g hg
    have hgf : g ≠ f := fun heq => hg ((hat.isTable_iff g).mpr (.inr heq))
    have hgt' : g ≠ t :=
      fun heq => hg ((hat.isTable_iff g).mpr (.inl ((isTable_iff_of_agree ha g).mpr (heq ▸ htab))))
    exact a.attach_frame hgf hgt'
  case upper =>
    intro r' hr' j hj
    have hrf : r' ≠ f := fun heq => hnt (heq ▸ isTable_root hr')
    have hkeep : ¬(r' = t ∧ j = i) := by
      rintro ⟨rfl, rfl⟩
      -- a root is written to only in its user half
      obtain ⟨-, rfl, -⟩ := h.forest r' hr' r hr 0 (by omega) d (by omega) 0 q r'
        (by simp [userRegion, userPages]) hq rfl ht
      have := pos_top.mp hpos
      omega
    exact a.attach_other hrf hkeep
  case nodes =>
    intro r' hr' d' hd' q' g hq' hn
    refine hat.node_mono hr' hd' hq' ?_
    rwa [pml4.node_agree ha hr' d' (by omega) q' hq']
  case tables =>
    intro g hg
    rcases (hat.isTable_iff g).mp hg with hg | rfl
    · exact .inl ((isTable_iff_of_agree ha g).mp hg)
    · exact .inr a.fresh

/-- The table below an entry: the one that is there, or a new one. -/
theorem ensureTable_adds : Ends (ensureTable t i msg) s
      (fun c s' => AddsTables roots K s s' ∧ pml4.node s'.mem r (d + 1) (q * 512 + i) = some c)
      fun e s' => OutOfFrames e s ∧ s' = s := by
  refine (ensureTable_ends t i msg s).mono (fun c s' hc => ?_) fun _ _ he => he.2
  obtain ⟨hpres, rfl, rfl⟩ | ⟨habs, f, s1, a, -, hcf, rfl⟩ := hc
  · refine ⟨.refl h, ?_⟩
    rw [pml4.node_child hi ht, child_of_present hpres]
  · have hat := a.attach h hr hd hpos hi ht habs
    refine ⟨⟨a.grows h hr hd hpos hi ht habs, hat.wf_set, fun r' hr' v hv => ?_, fun g hg => ?_⟩,
      ?_⟩
    · exact (hat.leafOf_eq hr' hv).trans (leafOf_agree (a.cleared h) hr' hv)
    · refine a.rc g ?_
      rintro rfl
      exact hg ((hat.isTable_iff g).mpr (.inr rfl))
    · rw [hcf h.bound]
      exact hat.node_new

end

/-! ## Walking an address -/

theorem page_lt (hva : va < 2 ^ 47) : va / 4096 < userPages := by
  simp only [userPages]
  omega

/-- The index into the table at depth `d` on the way to an address. -/
def indexAt (va d : Nat) : Nat := va / 4096 / 512 ^ (3 - d) % 512

theorem indexAt_lt (va d : Nat) : indexAt va d < 512 := Nat.mod_lt _ (by omega)

/-- The table there is the one at position `va / 4096 / 512 ^ (4 - d)`. -/
theorem indexAt_pos (va : Nat) (hd : d ≤ 3) :
    va / 4096 / 512 ^ (4 - d) * 512 + indexAt va d = va / 4096 / 512 ^ (3 - d) := by
  rw [show 4 - d = 3 - d + 1 by omega, Nat.pow_succ, ← Nat.div_div_eq_div_mul]
  exact Nat.div_add_mod' _ 512

theorem pIndex_eq (va : Nat) : p4Index va = indexAt va 0 ∧ p3Index va = indexAt va 1 ∧
    p2Index va = indexAt va 2 ∧ p1Index va = indexAt va 3 := by
  simp only [p4Index, p3Index, p2Index, p1Index, indexAt]
  omega

theorem p1Index_eq (va : Nat) : va / 4096 / 512 * 512 + p1Index va = va / 4096 := by
  simp only [p1Index]
  omega

theorem pIndex_lt (va : Nat) : p4Index va < 512 ∧ p3Index va < 512 ∧
    p2Index va < 512 ∧ p1Index va < 512 := by
  simp only [p4Index, p3Index, p2Index, p1Index]
  omega

theorem pos_anc {v : Nat} (hv : v < userPages) (d : Nat) : userRegion.pos d (v / 512 ^ (4 - d)) :=
  lt_of_le_of_lt (Nat.div_mul_le_self v _) hv

/-- The entries on the way to a user address are those of the user half. -/
theorem pos_indexAt (hva : va < 2 ^ 47) (hd : d ≤ 3) :
    userRegion.pos (d + 1) (va / 4096 / 512 ^ (4 - d) * 512 + indexAt va d) := by
  rw [indexAt_pos va hd, show 3 - d = 4 - (d + 1) by omega]
  exact pos_anc (page_lt hva) (d + 1)

/-- The flags of a mapped page: PRESENT, and none of the address bits. -/
def PageFlags (flags : Word) : Prop := flags &&& Pte.addrMask = 0 ∧ flags.getLsbD 0 = true

/-- `map_page` from level to level: `P d` is what holds of the table at depth `d`. -/
theorem ends_mapPage {P : Nat → Nat → KMem → Prop} {Q : Unit → KMem → Prop} (h : P 0 pt s)
    (hstep : ∀ d t u msg, d < 3 → P d t u → Ends (ensureTable t (indexAt va d) msg) u (P (d + 1)) E)
    (hused : ∀ l1 u, P 3 l1 u → Pte.isPresent (u.mem l1 (p1Index va)) = true →
      E (.panic (remapText va (Pte.addr (u.mem l1 (p1Index va))) (frameAddr f))) u)
    (hstore : ∀ l1 u, P 3 l1 u → (Pte.isPresent (u.mem l1 (p1Index va)) = true →
        Pte.addr (u.mem l1 (p1Index va)) = frameAddr f) →
      Q () (u.setEntry l1 (p1Index va) (Pte.make (frameAddr f) flags))) :
    Ends (mapPage pt va f flags) s Q E := by
  obtain ⟨h4, h3, h2, -⟩ := pIndex_eq va
  simp only [mapPage, h4, h3, h2, ends_bind]
  refine (hstep 0 pt s _ (by omega) h).imp (fun l3 s₁ h₁ => ?_)
  refine (hstep 1 l3 s₁ _ (by omega) h₁).imp (fun l2 s₂ h₂ => ?_)
  refine (hstep 2 l2 s₂ _ (by omega) h₂).imp (fun l1 s₃ h₃ => ?_)
  simp only [readEntry, ends_bind, ends_get, ends_pure]
  split
  · rename_i hother
    exact hused l1 s₃ h₃ (Bool.and_eq_true_iff.mp hother).1
  · rename_i hfree
    exact hstore l1 s₃ h₃ fun hp => by simpa [hp] using hfree

/-- The entry of a page in its L1 table. -/
theorem leafOf_table (hi : i < 512) (ht : pml4.node s.mem r 3 q = some t) :
    leafOf s r (q * 512 + i) = (some (s.mem t i)).filter fun w => (pml4.child w).isSome := by
  unfold leafOf Radix.leaf Radix.slot
  rw [pml4.child_div q hi, ht, Option.map_some, pml4.child_mod q hi]

/-- A store to an entry of an L1 table changes no table. -/
theorem LeafStore.grows {w : Word} (a : LeafStore s roots K r q i t w) :
    Grows roots s (s.setEntry t i w) := by
  have hq : userRegion.pos 3 q := pos_parent a.index (pos_leaf.mpr a.page)
  constructor
  case cr3 => rfl
  case debug => rfl
  case frames => exact .refl _
  case others => exact fun _ _ => rfl
  case kept =>
    intro f hf
    rw [setEntry_mem, Radix.put_frame]
    rintro rfl
    exact hf ((a.isTable_iff f).mpr ⟨r, a.root, 3, le_rfl, q, hq, a.table⟩)
  case upper =>
    intro r' hr' j _
    rw [setEntry_mem, Radix.put_frame]
    rintro rfl
    obtain ⟨-, h, -⟩ := a.wf.forest r' hr' r a.root 0 (by omega) 3 le_rfl 0 q r'
      (by simp [userRegion, userPages]) hq rfl a.table
    cases h
  case nodes =>
    intro r' hr' d hd q' g hq' hn
    rwa [a.node_eq hr' hd hq']
  case tables => exact fun g hg => .inl ((a.isTable_iff g).mp hg)

/-- `map_page` in the user half adds tables and stores the entry. It stops for want
of a frame, or because the page maps another one. -/
theorem mapPage_adds (h : Wf s roots K) (hr : pt ∈ roots) (hva : va < 2 ^ 47) :
    Ends (mapPage pt va f flags) s (fun _ s' => ∃ l1 u, AddsTables roots K s u ∧
        pml4.node u.mem pt 3 (va / 4096 / 512) = some l1 ∧
        (Pte.isPresent (u.mem l1 (p1Index va)) = true →
          Pte.addr (u.mem l1 (p1Index va)) = frameAddr f) ∧
        s' = u.setEntry l1 (p1Index va) (Pte.make (frameAddr f) flags))
      fun e s' => AddsTables roots K s s' ∧
        ((∃ msg, e = .err msg) ∨ (leafOf s pt (va / 4096) ≠ none ∧
          ∃ existing, e = .panic (remapText va existing (frameAddr f)))) := by
  have hv := page_lt hva
  refine ends_mapPage (P := fun d t u => AddsTables roots K s u ∧
    pml4.node u.mem pt d (va / 4096 / 512 ^ (4 - d)) = some t) ⟨.refl h, rfl⟩ ?_ ?_ ?_
  · rintro d t u msg hd ⟨had, hn⟩
    refine (ensureTable_adds had.wf hr hd (pos_indexAt hva (by omega)) (indexAt_lt va d) hn).mono
      (fun c u' hc => ?_) ?_
    · rw [indexAt_pos va (by omega)] at hc
      rw [show 4 - (d + 1) = 3 - d by omega]
      exact ⟨had.trans hc.1, hc.2⟩
    · rintro e u' ⟨hout, rfl⟩
      exact ⟨had, .inl hout.1⟩
  · rintro l1 u ⟨had, hn⟩ hp
    have hn : pml4.node u.mem pt 3 (va / 4096 / 512) = some l1 := hn
    refine ⟨had, .inr ⟨?_, _, rfl⟩⟩
    rw [← had.leaves pt hr _ hv]
    nth_rewrite 1 [← p1Index_eq va]
    rw [leafOf_table (pIndex_lt va).2.2.2 hn, Option.filter_some, child_isSome, hp]
    simp
  · rintro l1 u ⟨had, hn⟩ hfree
    exact ⟨l1, u, had, hn, hfree, rfl⟩

/-- The page maps the frame, and nothing else has changed. Before, the page was not
mapped or already mapped to that frame. -/
theorem mapPage_ok {u : Unit} (h : Wf s roots K) (hr : pt ∈ roots)
    (hva : va < 2 ^ 47) (hf : Owned s.frames f) (hnt : ¬IsTable s roots f) (hk : f ∉ K)
    (hfl : PageFlags flags) (hret : Returns (mapPage pt va f flags) s u s') :
    Wf s' roots K ∧ Grows roots s s' ∧ SameCounts roots s s' ∧
      (∀ r ∈ roots, ∀ v < userPages, leafOf s' r v =
        if r = pt ∧ v = va / 4096 then some (Pte.make (frameAddr f) flags) else leafOf s r v) ∧
      ∀ e, leafOf s pt (va / 4096) = some e → Pte.frame e = f := by
  obtain ⟨l1, t, had, hn, hfree, rfl⟩ := hret.of_ends (mapPage_adds h hr hva)
  have hi := (pIndex_lt va).2.2.2
  have hv := page_lt hva
  have hbound : f < 2 ^ 40 := lt_of_lt_of_le hf.2.1 h.bound
  have hword := child_make hbound hfl.1 hfl.2
  have a : LeafStore t roots K pt (va / 4096 / 512) (p1Index va) l1
      (Pte.make (frameAddr f) flags) := by
    refine ⟨had.wf, hr, by rwa [p1Index_eq], hi, hn, fun g hgw => ?_⟩
    rw [hword] at hgw
    cases hgw
    exact ⟨had.frames.owned hf, had.not_isTable hf.not_fresh hnt, hk⟩
  refine ⟨a.wf_set, had.toGrows.trans a.grows, had.counts.trans (fun _ _ => rfl) a.grows,
    fun r hr' v hv' => ?_, fun e he => ?_⟩
  · rw [a.leafOf_eq hr' hv', p1Index_eq, Option.filter_some, hword, Option.isSome_some,
      if_pos rfl, had.leaves r hr' v hv']
  · -- the page was mapped before, so `map_page` has compared the frames
    rw [← had.leaves pt hr _ hv] at he
    nth_rewrite 1 [← p1Index_eq va] at he
    rw [leafOf_table hi hn, Option.filter_eq_some_iff] at he
    obtain ⟨he, hpres⟩ := he
    cases he
    exact Pte.frame_of_addr hbound (hfree (by rwa [child_isSome] at hpres))

/-! ## New address spaces -/

/-- A run of `create_user_page_table` that returned `c`. -/
structure NewSpace (s s' : KMem) (c : Nat) : Prop where
  cr3 : s'.cr3 = s.cr3
  debug : s'.debug = s.debug
  fresh : Fresh s.frames c
  owned : Owned s'.frames c
  frames : FramesLe s.frames s'.frames
  others : ∀ g, g ≠ c → s'.frames.allocated g = s.frames.allocated g
  rc : ∀ g, g ≠ c → rcOf s'.frames g = rcOf s.frames g
  content : ∀ g, g ≠ c → s'.mem g = s.mem g
  lower : ∀ i < 256, s'.mem c i = 0
  upper : s.cr3 ≠ c → ∀ i, 256 ≤ i → i < 512 → s'.mem c i = s.mem s.cr3 i

/-- Memory with `n` entries of `c` copied from `r`. -/
def KMem.copyEntries (s : KMem) (c r start n : Nat) : KMem :=
  { s with mem := fun f =>
      if f = c then fun j => if start ≤ j ∧ j < start + n then s.mem r j else s.mem c j
      else s.mem f }

theorem copyEntries_eq (c r start n : Nat) :
    (forRange start n fun i => do writeEntry c i (← readEntry r i) : KM Unit) =
      modify (·.copyEntries c r start n) := by
  funext s
  induction n generalizing start s with
  | zero =>
    have hmem : (s.copyEntries c r start 0).mem = s.mem := by
      funext f j
      by_cases hf : f = c
      · simp [KMem.copyEntries, hf]
      · simp [KMem.copyEntries, hf]
    show EStateM.Result.ok () s = .ok () (s.copyEntries c r start 0)
    rw [show s.copyEntries c r start 0 = { s with mem := (s.copyEntries c r start 0).mem } from rfl,
      hmem]
  | succ n ih =>
    have hmem : ((s.setEntry c start (s.mem r start)).copyEntries c r (start + 1) n).mem =
        (s.copyEntries c r start (n + 1)).mem := by
      funext f j
      by_cases hf : f = c
      · by_cases hj : j = start
        · simp [KMem.copyEntries, KMem.setEntry, hf, hj]
        · have hrange : start + 1 ≤ j ∧ j < start + 1 + n ↔ start ≤ j ∧ j < start + (n + 1) := by
            omega
          by_cases hr : r = c
          · simp [KMem.copyEntries, KMem.setEntry, hf, hj, hr]
          · simp only [KMem.copyEntries, KMem.setEntry, hf, hj, hr, hrange, ↓reduceIte]
      · simp [KMem.copyEntries, KMem.setEntry, hf]
    calc (forRange start (n + 1) fun i => do writeEntry c i (← readEntry r i) : KM Unit) s
        = (forRange (start + 1) n fun i => do writeEntry c i (← readEntry r i) : KM Unit)
            (s.setEntry c start (s.mem r start)) := rfl
      _ = .ok () ((s.setEntry c start (s.mem r start)).copyEntries c r (start + 1) n) := by
          rw [ih]
          rfl
      _ = .ok () { s.copyEntries c r start (n + 1) with
            mem := ((s.setEntry c start (s.mem r start)).copyEntries c r (start + 1) n).mem } := rfl
      _ = .ok () (s.copyEntries c r start (n + 1)) := by rw [hmem]

/-- The loop of `create_user_page_table` in one step. -/
theorem createUserPageTable_eq : createUserPageTable = (do
    let l4 ← allocatePageTableFrame "Failed to allocate L4 page table"
    modify fun s => (s.zeroFrame l4).copyEntries l4 s.cr3 256 256
    return l4) := by
  unfold createUserPageTable
  simp only [copyEntries_eq]
  rfl

/-- A new L4 table, or no frame for it and nothing has changed. -/
theorem createUserPageTable_ends (s : KMem) : Ends createUserPageTable s
      (fun c s' => NewSpace s s' c ∧ s'.tracker = s.tracker.map (trackFrame c))
      fun e s' => OutOfFrames e s ∧ s' = s := by
  simp only [createUserPageTable_eq, ends_bind, ends_modify, ends_pure]
  refine (allocatePageTableFrame_ends _ s).imp ?_
  rintro c s1 ⟨a, htrack⟩
  refine ⟨?_, htrack⟩
  refine ⟨a.cr3, a.debug, a.fresh, a.owned, a.frames, a.others,
    a.rc, fun g hg => ?_, fun i hi => ?_, fun hc i hlo hhi => ?_⟩
  · simp [KMem.copyEntries, KMem.zeroFrame, a.mem, hg]
  · simp only [KMem.copyEntries, KMem.zeroFrame, if_true]
    rw [if_neg (by omega)]
  · have hcr3 : s1.cr3 ≠ c := by rwa [a.cr3]
    simp only [KMem.copyEntries, KMem.zeroFrame, if_true, hcr3, if_false]
    rw [if_pos (by omega), a.mem, a.cr3]

theorem createUserPageTable_ok (h : Returns createUserPageTable s c s') : NewSpace s s' c :=
  (h.of_ends (createUserPageTable_ends s)).1

section

variable {c : Nat} (n : NewSpace s s' c)
include n

theorem NewSpace.empty : ∀ i < 256, pml4.child (s'.mem c i) = none := by
  intro i hi
  rw [n.lower i hi]
  exact child_of_absent rfl

variable (h : Wf s roots K)
include h

/-- The old address spaces do not see the new one. -/
theorem NewSpace.agree : pml4.Agree s.mem s'.mem roots userRegion 3 := by
  apply pml4.agree_of_frames
  intro t ht
  refine n.content t ?_
  rintro rfl
  exact (h.table_owned t ht).not_fresh n.fresh

theorem NewSpace.wf : Wf s' (insert c roots) K := by
  have ha := n.agree h
  obtain ⟨hnt, hu, hk⟩ := h.fresh n.fresh
  refine (h.of_agree ha n.frames).addRoot n.owned ?_ ?_ hk n.empty
  · rwa [isTable_iff_of_agree ha]
  · intro r hr v hv e he
    rw [leafOf_agree ha hr hv] at he
    exact hu r hr v hv e he

end

end PandaOS.Kernel
