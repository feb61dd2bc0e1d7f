import PandaOS.Logic.Ledger

/-!
# Freeing an address space

`free_process_address_space` walks the user half and frees children before
their parents. Each turn of the four loops keeps the ledger of the frames, so
that nothing is left over when the root has been freed. `Shrinks` is what the
rest of the machine sees of the walk.
-/

namespace PandaOS.Kernel

open Hal Lib

variable {s s' t : KMem} {ps : List Nat} {K : Set Nat} {pt f r tbl i d q : Nat} {a : FrameAllocator}

/-! ## Frames that are freed -/

theorem deallocateFrame_owned (debug : Bool) (h : Owned a f) :
    a.deallocateFrame debug f = some ((a.setRefcount f 0).release f) := by
  unfold FrameAllocator.deallocateFrame
  rw [if_neg (by simp [h.2.2.1]),
    if_pos (by simp [FrameAllocator.isAllocated, inRange_of_owned h, h.2.2.2])]

theorem deallocateFrame_returns (h : Owned s.frames f) : Returns (deallocateFrame f) s ()
      { s with frames := (s.frames.setRefcount f 0).release f } := by
  unfold deallocateFrame
  refine returns_bind.mpr ⟨s, s, get_returns s, ?_⟩
  rw [deallocateFrame_owned s.debug h]
  rfl

/-! ## What others see -/

/-- Tables and pages of `pt` were removed, and nothing else was touched. -/
structure Shrinks (pt : Nat) (s t : KMem) : Prop where
  cr3 : t.cr3 = s.cr3
  debug : t.debug = s.debug
  startFrame : t.frames.startFrame = s.frames.startFrame
  endFrame : t.frames.endFrame = s.frames.endFrame
  reserved : t.frames.reserved = s.frames.reserved
  kept : ∀ f, ¬IsTable s {pt} f → Unmapped s {pt} f → t.frames.allocated f = s.frames.allocated f
  tables : ∀ f, IsTable t {pt} f → IsTable s {pt} f
  leaves : ∀ v < userPages, ∀ e, leafOf t pt v = some e → leafOf s pt v = some e
  content : ∀ f, ¬IsTable s {pt} f → t.mem f = s.mem f
  upper : ∀ i, 256 ≤ i → t.mem pt i = s.mem pt i

namespace Shrinks

theorem refl (pt : Nat) (s : KMem) : Shrinks pt s s where
  cr3 := rfl
  debug := rfl
  startFrame := rfl
  endFrame := rfl
  reserved := rfl
  kept _ _ _ := rfl
  tables _ h := h
  leaves _ _ _ h := h
  content _ _ := rfl
  upper _ _ := rfl

theorem unmapped (h : Shrinks pt s t) (hu : Unmapped s {pt} f) : Unmapped t {pt} f := by
  rintro r rfl v hv e he
  exact hu r rfl v hv e (h.leaves v hv e he)

theorem trans (h : Shrinks pt s t) (h' : Shrinks pt t s') : Shrinks pt s s' where
  cr3 := h'.cr3.trans h.cr3
  debug := h'.debug.trans h.debug
  startFrame := h'.startFrame.trans h.startFrame
  endFrame := h'.endFrame.trans h.endFrame
  reserved := h'.reserved.trans h.reserved
  kept f hf hu := (h'.kept f (fun ht => hf (h.tables f ht)) (h.unmapped hu)).trans (h.kept f hf hu)
  tables f hf := h.tables f (h'.tables f hf)
  leaves v hv e he := h.leaves v hv e (h'.leaves v hv e he)
  content f hf := (h'.content f fun ht => hf (h.tables f ht)).trans (h.content f hf)
  upper i hi := (h'.upper i hi).trans (h.upper i hi)

end Shrinks

theorem mem_spaces : r ∈ spaces ps ↔ r ∈ ps := Iff.rfl

/-- A table of one space among the spaces. -/
theorem isTable_one (hr : pt ∈ ps) (h : IsTable s {pt} f) : IsTable s (spaces ps) f :=
  isTable_subset (Set.singleton_subset_iff.mpr hr) h

/-- An entry of a tree that is cleared, with the frame below it. -/
theorem Shrinks.clear (htbl : IsTable s {pt} tbl)
    (hup : tbl = pt → i < 256) (hrel : Released s.frames a f)
    (hf : IsTable s {pt} f ∨ ¬Unmapped s {pt} f)
    (htab : ∀ g, IsTable (s.setEntry tbl i 0) {pt} g → IsTable s {pt} g)
    (hleaf : ∀ v < userPages, ∀ e, leafOf (s.setEntry tbl i 0) pt v = some e →
      leafOf s pt v = some e) : Shrinks pt s { s.setEntry tbl i 0 with frames := a } where
  cr3 := rfl
  debug := rfl
  startFrame := hrel.startFrame
  endFrame := hrel.endFrame
  reserved := hrel.reserved
  kept g hg hu := by
    refine hrel.allocated g ?_
    rintro rfl
    rcases hf with hf | hf
    · exact hg hf
    · exact hf hu
  tables := htab
  leaves := hleaf
  content g hg := by
    show (s.setEntry tbl i 0).mem g = s.mem g
    rw [setEntry_mem, Radix.put_frame]
    rintro rfl
    exact hg htbl
  upper j hj := by
    show (s.setEntry tbl i 0).mem pt j = s.mem pt j
    rw [setEntry_mem, Radix.put_ne]
    rintro ⟨hpt, rfl⟩
    have := hup hpt.symm
    omega

/-- Entries of a root that belong to the tree are in its user half. -/
theorem Wf.root_index {roots : Set Nat} (h : Wf s roots K) (hr : r ∈ roots)
    (hd : d ≤ 3) (hi : i < 512) (hpos : userRegion.pos (d + 1) (q * 512 + i))
    (ht : pml4.node s.mem r d q = some r) : i < 256 := by
  have hq : userRegion.pos d q := pos_parent hi hpos
  obtain ⟨-, rfl, -⟩ := h.forest r hr r hr 0 (by omega) d hd 0 q r
    (by simp [userRegion, userPages]) hq rfl ht
  have := pos_top.mp hpos
  omega

/-! ## The ledger while frames are freed -/

theorem child_zero : pml4.child 0 = none := child_of_absent (by decide)

section

variable {roots : Set Nat} {q i tbl : Nat}

theorem leafOf_present (hi : i < 512) (ht : pml4.node s.mem pt 3 q = some tbl)
    (hp : Pte.isPresent (s.mem tbl i) = true) : leafOf s pt (q * 512 + i) = some (s.mem tbl i) := by
  rw [leafOf_table hi ht, Option.filter_some, child_isSome, hp]
  rfl

theorem leafStore_zero (h : Wf s roots K) (hr : pt ∈ roots) (hi : i < 512)
    (hv : q * 512 + i < userPages) (ht : pml4.node s.mem pt 3 q = some tbl) :
    LeafStore s roots K pt q i tbl 0 := by
  refine ⟨h, hr, hv, hi, ht, fun g hg => ?_⟩
  rw [child_zero] at hg
  cases hg

/-- A store to the entry of a page puts the reference in hand there and gives the old one back. -/
theorem Ledger.storePage {w : Word} (h : Ledger s ps K (pml4.child w))
    (a : LeafStore s (spaces ps) K pt q i tbl w) (hf : frameAt s pt (q * 512 + i) = some f) :
    Ledger { s.setEntry tbl i w with frames := (s.frames.decRefcount f).2 } ps K none ∧
      Released s.frames (s.frames.decRefcount f).2 f := by
  have hcounted := h.toCounted.exchange a
  rw [hf] at hcounted
  obtain ⟨ho, hnt, hk⟩ := hcounted.hand_user f rfl
  have hrc := hcounted.rc f ho hk hnt
  rw [held_self] at hrc
  obtain ⟨hre, -, hfree⟩ := decRefcount_ok (inRange_of_owned ho) h.storage hrc
  exact ⟨h.of_recounted hcounted.dec hre hfree fun g _ hg => (a.isTable_iff g).mpr hg, hre.released⟩

/-- The state after a page has lost its reference. -/
def KMem.dropPage (s : KMem) (tbl i : Nat) : KMem :=
  { s.setEntry tbl i 0 with frames := (s.frames.decRefcount (Pte.frame (s.mem tbl i))).2 }

/-- One turn of the innermost loop at a present entry. -/
theorem Ledger.dropPage (h : Ledger s ps K none) (hr : pt ∈ ps) (hi : i < 512)
    (hv : q * 512 + i < userPages) (ht : pml4.node s.mem pt 3 q = some tbl)
    (hp : Pte.isPresent (s.mem tbl i) = true) :
    Ledger (s.dropPage tbl i) ps K none ∧ Shrinks pt s (s.dropPage tbl i) := by
  have hleaf := leafOf_present hi ht hp
  obtain ⟨hledger, hrel⟩ := Ledger.storePage (by rw [child_zero]; exact h)
    (leafStore_zero h.wf hr hi hv ht) (congrArg (Option.map Pte.frame) hleaf)
  refine ⟨hledger, ?_⟩
  have hone := h.wf.dropRoots (Set.singleton_subset_iff.mpr hr)
  have a1 := leafStore_zero hone rfl hi hv ht
  have hq : userRegion.pos 3 q := pos_parent hi (pos_leaf.mpr hv)
  refine Shrinks.clear ⟨pt, rfl, 3, le_rfl, q, hq, ht⟩ (fun hpt => ?_) hrel (.inr ?_)
    (fun g hg => (a1.isTable_iff g).mp hg) fun v hv' e he => ?_
  · exact h.wf.root_index hr le_rfl hi (pos_leaf.mpr hv) (hpt ▸ ht)
  · exact fun hu => hu pt rfl _ hv _ hleaf rfl
  · rcases a1.leafOf_cases rfl hv' he with he | ⟨-, hw⟩
    · exact he
    · rw [child_zero] at hw
      cases hw

end

section

variable {roots : Set Nat} {d q i tbl : Nat}

/-- The state after an empty table has been freed and taken out. -/
def KMem.dropTable (s : KMem) (tbl i : Nat) : KMem :=
  let f := Pte.frame (s.mem tbl i)
  { s.setEntry tbl i 0 with frames := (s.frames.setRefcount f 0).release f }

theorem Wf.detach (h : Wf s roots K) (hr : pt ∈ roots) (hd : d < 3) (hi : i < 512)
    (hpos : userRegion.pos (d + 1) (q * 512 + i)) (ht : pml4.node s.mem pt d q = some tbl)
    (hp : Pte.isPresent (s.mem tbl i) = true)
    (hb : pml4.Barren s.mem (Pte.frame (s.mem tbl i))) :
    Detach s roots K pt d q i tbl (Pte.frame (s.mem tbl i)) 0 :=
  ⟨h, hr, hd, hpos, hi, ht, child_of_present hp, hb, child_zero⟩

/-- A freed table has no references, as no page maps a table. -/
theorem Counted.detach (h : Counted s ps K none)
    (x : Detach s (spaces ps) K pt d q i tbl f 0) (hre : Recounted s.frames a f 0) :
    Counted { s.setEntry tbl i 0 with frames := a } ps K none := by
  have hnt : ¬IsTable (s.setEntry tbl i 0) (spaces ps) f :=
    fun ht => ((x.isTable_iff f).mp ht).2 rfl
  have hu : Unmapped (s.setEntry tbl i 0) (spaces ps) f := by
    intro r hr v hv e he hfe
    rw [x.leafOf_eq hr hv] at he
    exact (h.wf.leaf_apart r hr v hv e he).1 (hfe ▸ x.isTable_old)
  have hk : f ∉ K := fun hk => h.wf.kernel_apart f hk x.isTable_old
  constructor
  case nodup => exact h.nodup
  case wf => exact x.wf_set.released rfl hre.released hnt hu hk
  case storage => rw [hre.storage]; exact h.storage
  case hand_user => rintro g ⟨⟩
  case rc =>
    intro g hgo hgk hgt
    show rcOf a g = mappings (s.setEntry tbl i 0) ps g + held none g
    rw [hre.rc]
    by_cases hgf : g = f
    · subst hgf
      rw [if_pos rfl, mappings_eq_zero.mpr hu]
      rfl
    · have hgt0 : ¬IsTable s (spaces ps) g := fun ht => hgt ((x.isTable_iff g).mpr ⟨ht, hgf⟩)
      rw [if_neg hgf, h.rc g (hre.released.owned hgf hgo) hgk hgt0,
        mappings_congr fun r hr v hv => x.leafOf_eq hr hv]

/-- One turn of an outer loop at a present entry, after everything below it is
gone. -/
theorem Ledger.dropTable (h : Ledger s ps K none) (hr : pt ∈ ps) (hd : d < 3) (hi : i < 512)
    (hpos : userRegion.pos (d + 1) (q * 512 + i)) (ht : pml4.node s.mem pt d q = some tbl)
    (hp : Pte.isPresent (s.mem tbl i) = true)
    (hb : pml4.Barren s.mem (Pte.frame (s.mem tbl i))) :
    Owned s.frames (Pte.frame (s.mem tbl i)) ∧ Ledger (s.dropTable tbl i) ps K none ∧
      Shrinks pt s (s.dropTable tbl i) := by
  have x := h.wf.detach hr hd hi hpos ht hp hb
  have ho := h.wf.table_owned _ x.isTable_old
  obtain ⟨hre, hfree⟩ := setRefcount_release_ok (inRange_of_owned ho) h.storage
  refine ⟨ho, h.of_recounted (h.toCounted.detach x hre) hre (fun _ => hfree)
    fun g hne hg => (x.isTable_iff g).mpr ⟨hg, hne⟩, ?_⟩
  have x1 := (h.wf.dropRoots (Set.singleton_subset_iff.mpr hr)).detach rfl hd hi hpos ht hp hb
  have hq : userRegion.pos d q := pos_parent hi hpos
  refine Shrinks.clear ⟨pt, rfl, d, by omega, q, hq, ht⟩ (fun hpt => ?_) hre.released
    (.inl x1.isTable_old) (fun g hg => ((x1.isTable_iff g).mp hg).1) fun v hv e he => ?_
  · exact h.wf.root_index hr (by omega) hi hpos (hpt ▸ ht)
  · rwa [x1.leafOf_eq rfl hv] at he

end

/-! ## The loops -/

/-- The loop over the entries of `tbl`, a table at depth `d`, as it began in `s`:
before turn `i` the first `i` entries are clear, and no table at depth `d` or
above has changed. -/
structure FreeInv (ps : List Nat) (K : Set Nat) (pt d tbl : Nat) (s : KMem) (i : Nat) (t : KMem) :
    Prop where
  ledger : Ledger t ps K none
  shrinks : Shrinks pt s t
  nodes : ∀ d' ≤ d, ∀ q, userRegion.pos d' q → pml4.node t.mem pt d' q = pml4.node s.mem pt d' q
  cleared : ∀ j < i, pml4.child (t.mem tbl j) = none

theorem FreeInv.first (h : Ledger s ps K none) : FreeInv ps K pt d tbl s 0 s :=
  ⟨h, Shrinks.refl pt s, fun _ _ _ _ => rfl, fun _ hj => absurd hj (Nat.not_lt_zero _)⟩

theorem FreeInv.skip (h : FreeInv ps K pt d tbl s i t)
    (habs : Pte.isPresent (t.mem tbl i) = false) : FreeInv ps K pt d tbl s (i + 1) t := by
  refine ⟨h.ledger, h.shrinks, h.nodes, fun j hj => ?_⟩
  rcases Nat.lt_succ_iff_lt_or_eq.mp hj with hj | rfl
  · exact h.cleared j hj
  · exact child_of_absent habs

/-- Freeing what is below a table at depth `d` returns with the table empty. -/
def Frees (ps : List Nat) (K : Set Nat) (pt d : Nat) (x : Word → KM Unit) : Prop :=
  ∀ s q e, Ledger s ps K none → userRegion.pos d q → TableEntry e → pml4.node s.mem pt d q =
    some (Pte.frame e) → ∃ t, Returns (x e) s () t ∧ FreeInv ps K pt d (Pte.frame e) s 512 t

/-- Of the entries of a table, a store to entry `i` that clears it changes no other. -/
theorem cleared_store (h : ∀ j < i, pml4.child (t.mem tbl j) = none) :
    ∀ j < i + 1, pml4.child ((t.setEntry tbl i 0).mem tbl j) = none := by
  intro j hj
  rw [setEntry_mem]
  rcases Nat.lt_succ_iff_lt_or_eq.mp hj with hj | rfl
  · rw [Radix.put_index _ _ _ (by omega)]
    exact h j hj
  · rw [Radix.put_same]
    exact child_zero

section

variable (hr : pt ∈ ps)
include hr

theorem freeLeaves_frees : Frees ps K pt 3 fun e => freeLeaves (Pte.frame e) := by
  intro s q e h hq _ ht
  refine forRange_returns (FreeInv ps K pt 3 (Pte.frame e) s) (FreeInv.first h)
    fun i t _ hi inv => ?_
  have hi : i < 512 := by omega
  have hv := pos_leaf.mp (pos_entry (by omega) le_rfl hq hi)
  have ht' := (inv.nodes 3 le_rfl q hq).trans ht
  cases hp : Pte.isPresent (t.mem (Pte.frame e) i) with
  | false =>
    refine ⟨t, ?_, inv.skip hp⟩
    simp [readEntry, hp]
  | true =>
    obtain ⟨hledger, hshrinks⟩ := inv.ledger.dropPage hr hi hv ht' hp
    have a := leafStore_zero inv.ledger.wf hr hi hv ht'
    refine ⟨t.dropPage (Pte.frame e) i, ?_, hledger, inv.shrinks.trans hshrinks,
      fun d' hd q' hq' => ?_, cleared_store inv.cleared⟩
    · simp [readEntry, hp, decFrameRefcount, writeEntry]
      rfl
    · exact (a.node_eq hr hd hq').trans (inv.nodes d' hd q' hq')

/-- One level above: the entries of a table at depth `d`, given the loops below. -/
theorem freeEntries_returns {n : Nat} {below : Word → KM Unit} (h : Ledger s ps K none)
    (hd : d < 3) (hn : n ≤ 512) (hq : userRegion.pos d q)
    (hentries : ∀ i < n, userRegion.pos (d + 1) (q * 512 + i))
    (ht : pml4.node s.mem pt d q = some tbl) (hbelow : Frees ps K pt (d + 1) below) :
    ∃ t, Returns (freeEntries tbl n below) s () t ∧ FreeInv ps K pt d tbl s n t := by
  suffices hloop : ∃ t, Returns (freeEntries tbl n below) s () t ∧
      FreeInv ps K pt d tbl s (0 + n) t by rwa [Nat.zero_add] at hloop
  refine forRange_returns (FreeInv ps K pt d tbl s) (FreeInv.first h) fun i t _ hi inv => ?_
  have hin : i < n := by omega
  have hi : i < 512 := by omega
  have ht' := (inv.nodes d le_rfl q hq).trans ht
  cases hp : Pte.isPresent (t.mem tbl i) with
  | false =>
    refine ⟨t, ?_, inv.skip hp⟩
    simp [readEntry, hp]
  | true =>
    have hpos := hentries i hin
    have hchild : pml4.node t.mem pt (d + 1) (q * 512 + i) = some (Pte.frame (t.mem tbl i)) := by
      rw [pml4.node_child hi ht', child_of_present hp]
    have hentry : TableEntry (t.mem tbl i) := by
      have hmod : (q * 512 + i) % 512 = i := by omega
      have hx := inv.ledger.wf.table_entry pt hr d hd (q * 512 + i) tbl hpos
        (by rw [show (q * 512 + i) / 512 = q by omega]; exact ht') (by rw [hmod]; exact hp)
      rwa [hmod] at hx
    obtain ⟨t1, hret, inv1⟩ := hbelow t _ _ inv.ledger hpos hentry hchild
    -- the loops below keep the tables down to depth `d + 1`, so all entries of `tbl`
    have ht1 : pml4.node t1.mem pt d q = some tbl := (inv1.nodes d (by omega) q hq).trans ht'
    have hsame : ∀ j < n, pml4.child (t1.mem tbl j) = pml4.child (t.mem tbl j) := by
      intro j hj
      have hj' : j < 512 := by omega
      rw [← pml4.node_child hj' ht1, ← pml4.node_child hj' ht']
      exact inv1.nodes (d + 1) le_rfl _ (hentries j hj)
    have hc1 : pml4.child (t1.mem tbl i) = some (Pte.frame (t.mem tbl i)) := by
      rw [hsame i hin, child_of_present hp]
    have hp1 : Pte.isPresent (t1.mem tbl i) = true := by rw [← child_isSome, hc1]; rfl
    have hf1 : Pte.frame (t1.mem tbl i) = Pte.frame (t.mem tbl i) := by
      rw [child_of_present hp1] at hc1
      exact Option.some.inj hc1
    have hb1 : pml4.Barren t1.mem (Pte.frame (t1.mem tbl i)) := by
      rw [hf1]
      exact inv1.cleared
    obtain ⟨ho, hledger, hshrinks⟩ := inv1.ledger.dropTable hr hd hi hpos ht1 hp1 hb1
    have x := inv1.ledger.wf.detach hr hd hi hpos ht1 hp1 hb1
    refine ⟨t1.dropTable tbl i, ?_, hledger, (inv.shrinks.trans inv1.shrinks).trans hshrinks,
      fun d' hd' q' hq' => ?_, cleared_store fun j hj => ?_⟩
    · simp only [readEntry, returns_bind, returns_get, returns_pure, and_assoc, exists_and_left,
        exists_eq_left, hp, if_true]
      rw [← hf1]
      exact ⟨(), t1, hret, (), _, deallocateFrame_returns ho, rfl⟩
    · rw [show (t1.dropTable tbl i).mem = (t1.setEntry tbl i 0).mem from rfl,
        x.node_eq hr (by omega) hq', if_neg (by omega), inv1.nodes d' (by omega) q' hq',
        inv.nodes d' hd' q' hq']
    · rw [hsame j (by omega)]
      exact inv.cleared j hj

/-- The loops below an L3 table. -/
def freeL3 (e4 : Word) : KM Unit :=
  freeEntries (Pte.frame e4) 512 fun e3 =>
    freeEntries (Pte.frame e3) 512 fun e2 =>
      if Pte.has (Pte.flags e2) Pte.HUGE_PAGE then
        throwErr "Huge pages not supported in cleanup"
      else freeLeaves (Pte.frame e2)

/-- A table entry is no huge page, so the loops do not stop there. -/
theorem freeL1_frees : Frees ps K pt 3 fun e2 =>
    if Pte.has (Pte.flags e2) Pte.HUGE_PAGE then throwErr "Huge pages not supported in cleanup"
    else freeLeaves (Pte.frame e2) := by
  intro s q e h hq he ht
  obtain ⟨t, hret, inv⟩ := freeLeaves_frees hr s q e h hq he ht
  refine ⟨t, ?_, inv⟩
  simp only
  rwa [if_neg (by rw [he.2.2]; simp)]

theorem frees_entries {below : Word → KM Unit} (hlo : 0 < d) (hd : d < 3)
    (hbelow : Frees ps K pt (d + 1) below) :
    Frees ps K pt d fun e => freeEntries (Pte.frame e) 512 below := by
  intro s q e h hq _ ht
  exact freeEntries_returns hr h hd le_rfl hq (fun i hi => pos_entry hlo (by omega) hq hi) ht hbelow

theorem freeL3_frees : Frees ps K pt 1 freeL3 :=
  frees_entries hr (by omega) (by omega)
    (frees_entries hr (by omega) (by omega) (freeL1_frees hr))

/-- The walk over the user half leaves an empty table. -/
theorem freeUserHalf_returns (h : Ledger s ps K none) :
    ∃ t, Returns (freeEntries pt 256 freeL3) s () t ∧ FreeInv ps K pt 0 pt s 256 t :=
  freeEntries_returns hr (q := 0) h (by omega) (by omega) (by simp [userRegion, userPages])
    (fun i hi => pos_top.mpr (by omega)) rfl (freeL3_frees hr)

end

/-! ## The root -/

/-- An empty space is one space less. -/
theorem spaces_erase (h : ps.Nodup) (hr : pt ∈ ps) :
    spaces ps = insert pt (spaces (ps.erase pt)) := by
  ext r
  rw [Set.mem_insert_iff, mem_spaces, mem_spaces, h.mem_erase_iff]
  by_cases hrp : r = pt
  · subst hrp
    simp [hr]
  · simp [hrp]

/-- The state after the root has been freed. -/
def KMem.dropRoot (s : KMem) (pt : Nat) : KMem :=
  { s with frames := (s.frames.setRefcount pt 0).release pt }

section

variable (h : Counted s ps K none) (hr : pt ∈ ps)
include h hr

/-- A root belongs to no other space. -/
theorem Counted.root_apart : ¬IsTable s (spaces (ps.erase pt)) pt := by
  rintro ⟨r, hm, d, hd, q, hq, hn⟩
  obtain ⟨hne, hm⟩ := (h.nodup.mem_erase_iff).mp hm
  exact hne (h.wf.forest r hm pt hr d hd 0 (by omega) q 0 pt hq
    (by simp [userRegion, userPages]) hn rfl).1

variable (hb : ∀ i < 256, pml4.child (s.mem pt i) = none)
include hb

theorem Counted.isTable_root_iff (g : Nat) : IsTable s (spaces ps) g ↔
    IsTable s (spaces (ps.erase pt)) g ∨ g = pt := by
  rw [spaces_erase h.nodup hr, isTable_insert_iff hb]

theorem Counted.dropRoot : Counted (s.dropRoot pt) (ps.erase pt) K none ∧
    Recounted s.frames (s.dropRoot pt).frames pt 0 ∧
    (s.dropRoot pt).frames.allocated pt = false := by
  have hroot : IsTable s (spaces ps) pt := isTable_root hr
  obtain ⟨hre, hfree⟩ : Recounted s.frames (s.dropRoot pt).frames pt 0 ∧
      (s.dropRoot pt).frames.allocated pt = false :=
    setRefcount_release_ok (inRange_of_owned (h.wf.table_owned pt hroot)) h.storage
  have hu : Unmapped s (spaces ps) pt := fun r hm v hv e he hfe =>
    (h.wf.leaf_apart r hm v hv e he).1 (hfe ▸ hroot)
  have hsub : spaces (ps.erase pt) ⊆ spaces ps := fun r hm => List.mem_of_mem_erase hm
  have hk : pt ∉ K := fun hk => h.wf.kernel_apart pt hk hroot
  refine ⟨?_, hre, hfree⟩
  constructor
  case nodup => exact h.nodup.erase pt
  case wf =>
    exact (h.wf.dropRoots hsub).released rfl hre.released (h.root_apart hr)
      (fun r hm => hu r (hsub hm)) hk
  case storage => rw [hre.storage]; exact h.storage
  case hand_user => rintro g ⟨⟩
  case rc =>
    intro g hgo hgk hgt
    show rcOf (s.dropRoot pt).frames g = tally (ps.erase pt) userPages (frameAt s) g + held none g
    -- the pages of the space that goes away map nothing
    have htally : tally ps userPages (frameAt s) g =
        tally (ps.erase pt) userPages (frameAt s) g := by
      rw [tally_erase hr, count_empty hb, Nat.zero_add]
    rw [hre.rc, ← htally]
    by_cases hgp : g = pt
    · subst hgp
      rw [if_pos rfl]
      exact (mappings_eq_zero.mpr hu).symm
    · have hgt0 : ¬IsTable s (spaces ps) g := by
        rw [h.isTable_root_iff hr hb]
        rintro (ht | heq)
        · exact hgt ht
        · exact hgp heq
      rw [if_neg hgp]
      exact h.rc g (hre.released.owned hgp hgo) hgk hgt0

end

theorem dropRoot_shrinks (hrel : Released s.frames (s.dropRoot pt).frames pt) :
    Shrinks pt s (s.dropRoot pt) where
  cr3 := rfl
  debug := rfl
  startFrame := hrel.startFrame
  endFrame := hrel.endFrame
  reserved := hrel.reserved
  kept g hg _ := hrel.allocated g fun heq => hg (heq ▸ isTable_root rfl)
  tables _ hg := hg
  leaves _ _ _ he := he
  content _ _ := rfl
  upper _ _ := rfl

theorem Ledger.dropRoot (h : Ledger s ps K none) (hr : pt ∈ ps)
    (hb : ∀ i < 256, pml4.child (s.mem pt i) = none) :
    Ledger (s.dropRoot pt) (ps.erase pt) K none ∧ Shrinks pt s (s.dropRoot pt) := by
  obtain ⟨hc, hre, hfree⟩ := h.toCounted.dropRoot hr hb
  refine ⟨h.of_recounted hc hre (fun _ => hfree) fun g hne hg => ?_, dropRoot_shrinks hre.released⟩
  rcases (h.toCounted.isTable_root_iff hr hb g).mp hg with hg | heq
  · exact hg
  · exact absurd heq hne

/-- `free_process_address_space` without the kernel stack returns, and frees
just the tables and pages of the space. -/
theorem freeProcessAddressSpace_returns (h : Ledger s ps K none) (hr : pt ∈ ps) :
    ∃ s', Returns (freeProcessAddressSpace pt false) s () s' ∧
      Ledger s' (ps.erase pt) K none ∧ Shrinks pt s s' := by
  obtain ⟨t, hret, inv⟩ := freeUserHalf_returns hr h
  obtain ⟨hledger, hshrinks⟩ := inv.ledger.dropRoot hr inv.cleared
  have ho := inv.ledger.wf.table_owned pt (isTable_root hr)
  refine ⟨t.dropRoot pt, ?_, hledger, inv.shrinks.trans hshrinks⟩
  exact returns_bind.mpr ⟨(), t, hret, deallocateFrame_returns ho⟩

end PandaOS.Kernel
