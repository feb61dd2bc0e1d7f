import PandaOS.Lib.Radix
import PandaOS.Logic.Pte

/-!
# Address spaces

The page tables of the live processes as radix trees in physical memory. Only
the user half of a table (L4 entries 0 to 255) is a tree of its own: the kernel
half is copied from table to table and its lower levels are shared.

`Wf` is what the paging code relies on: tables of different positions are
different frames, tables and mapped pages are allocated, no page is a table,
and a set `K` of frames belongs to the kernel alone. The lemmas below say what
each store to memory and each change of the allocator does to `Wf` and to the
map from pages to entries (`leaf`).
-/

namespace PandaOS.Kernel

open Hal Lib

/-- Four-level page tables. -/
abbrev pml4 : Radix Nat Word where
  fan := 512
  fan_pos := by decide
  child e := if Pte.isPresent e then some (Pte.frame e) else none

theorem child_isSome (e : Word) : (pml4.child e).isSome = Pte.isPresent e := by
  show (if Pte.isPresent e then some (Pte.frame e) else none).isSome = _
  cases Pte.isPresent e <;> rfl

theorem child_of_present {e : Word} (h : Pte.isPresent e = true) :
    pml4.child e = some (Pte.frame e) := if_pos h

theorem child_of_absent {e : Word} (h : Pte.isPresent e = false) : pml4.child e = none := by
  show (if Pte.isPresent e then some (Pte.frame e) else none) = none
  rw [h]
  rfl

theorem tableAt_eq (mem : Nat → Nat → Word) (g i : Nat) : tableAt mem g i = pml4.child (mem g i) :=
  rfl

/-- Number of pages below `userSpaceMax`. -/
def userPages : Nat := 2 ^ 35

/-- The positions of the user half. -/
def userRegion : Region 512 where
  pos d q := q * 512 ^ (4 - d) < userPages
  root q h := by
    simp only [userPages] at h
    omega
  parent d q h := by
    refine lt_of_le_of_lt ?_ h
    by_cases hd : d < 4
    · have hpow : 512 ^ (4 - d) = 512 * 512 ^ (4 - (d + 1)) := by
        rw [← Nat.pow_succ']
        congr 1
        omega
      rw [hpow, ← Nat.mul_assoc]
      exact Nat.mul_le_mul_right _ (Nat.div_mul_le_self q 512)
    · rw [Nat.sub_eq_zero_of_le (by omega), Nat.sub_eq_zero_of_le (by omega)]
      exact Nat.mul_le_mul_right _ (Nat.div_le_self q 512)

theorem pos_leaf {v : Nat} : userRegion.pos 4 v ↔ v < userPages := by
  simp [userRegion]

/-- A table with an entry in the user half is in it itself. -/
theorem pos_parent {d q i : Nat} (hi : i < 512) (hpos : userRegion.pos (d + 1) (q * 512 + i)) :
    userRegion.pos d q := by
  have hparent := userRegion.parent d _ hpos
  rwa [pml4.child_div q hi] at hparent

/-- The entry that maps a user page, if the page is mapped. -/
def leafOf (s : KMem) (r v : Nat) : Option Word := pml4.leaf 3 s.mem r v

/-- The frame is a page table of one of the trees. -/
def IsTable (s : KMem) (roots : Set Nat) (t : Nat) : Prop :=
  pml4.IsTable s.mem roots userRegion 3 t

/-! ## Frames -/

/-- The allocator could hand the frame out. -/
def Fresh (a : FrameAllocator) (f : Nat) : Prop :=
  a.startFrame ≤ f ∧ f < a.endFrame ∧ a.isReserved f = false ∧ a.allocated f = false

/-- The frame was handed out by the allocator. -/
def Owned (a : FrameAllocator) (f : Nat) : Prop :=
  a.startFrame ≤ f ∧ f < a.endFrame ∧ a.isReserved f = false ∧ a.allocated f = true

/-- The reference count of a frame. -/
def rcOf (a : FrameAllocator) (f : Nat) : Nat := (a.getRefcount f).getD 0

variable {f r v q r' d' q' g : Nat} {a' : FrameAllocator} {roots' : Set Nat}

theorem Owned.not_fresh {a : FrameAllocator} (h : Owned a f) : ¬Fresh a f := by
  intro hf
  have := hf.2.2.2
  rw [h.2.2.2] at this
  cases this

/-! ## Well-formed address spaces -/

/-- The flags of an entry for a lower-level table: it restricts no access, and
it is not a huge page. -/
def TableEntry (e : Word) : Prop :=
  Pte.has e Pte.WRITABLE = true ∧ Pte.has e Pte.USER_ACCESSIBLE = true ∧
    Pte.has (Pte.flags e) Pte.HUGE_PAGE = false

/-- The page tables at `roots` are separate trees of allocated frames, and the
frames of `K` are the kernel's. -/
structure Wf (s : KMem) (roots K : Set Nat) : Prop where
  forest : pml4.Forest s.mem roots userRegion 3
  table_owned : ∀ t, IsTable s roots t → Owned s.frames t
  table_entry : ∀ r ∈ roots, ∀ d < 3, ∀ q t, userRegion.pos (d + 1) q →
    pml4.node s.mem r d (q / 512) = some t → Pte.isPresent (s.mem t (q % 512)) = true →
    TableEntry (s.mem t (q % 512))
  leaf_owned : ∀ r ∈ roots, ∀ v < userPages, ∀ e, leafOf s r v = some e →
    Owned s.frames (Pte.frame e)
  leaf_apart : ∀ r ∈ roots, ∀ v < userPages, ∀ e, leafOf s r v = some e →
    ¬IsTable s roots (Pte.frame e) ∧ Pte.frame e ∉ K
  kernel_held : ∀ f ∈ K, ¬Fresh s.frames f
  kernel_apart : ∀ f ∈ K, ¬IsTable s roots f
  bound : s.frames.endFrame ≤ 2 ^ 40

variable {s s' : KMem} {roots K : Set Nat}

theorem isTable_root (hr : r ∈ roots) : IsTable s roots r :=
  ⟨r, hr, 0, by omega, 0, by simp [userRegion, userPages], rfl⟩

/-- Without page tables only the kernel's frames matter. -/
theorem Wf.empty (hK : ∀ f ∈ K, ¬Fresh s.frames f) (hb : s.frames.endFrame ≤ 2 ^ 40) :
    Wf s ∅ K where
  forest r hr := absurd hr (Set.notMem_empty r)
  table_owned _ := fun ⟨r, hr, _⟩ => absurd hr (Set.notMem_empty r)
  table_entry r hr := absurd hr (Set.notMem_empty r)
  leaf_owned r hr := absurd hr (Set.notMem_empty r)
  leaf_apart r hr := absurd hr (Set.notMem_empty r)
  kernel_held := hK
  kernel_apart _ _ := fun ⟨r, hr, _⟩ => absurd hr (Set.notMem_empty r)
  bound := hb

/-- No page maps the frame. -/
def Unmapped (s : KMem) (roots : Set Nat) (f : Nat) : Prop :=
  ∀ r ∈ roots, ∀ v < userPages, ∀ e, leafOf s r v = some e → Pte.frame e ≠ f

/-- A frame that could be handed out has no use yet. -/
theorem Wf.fresh (h : Wf s roots K) (hf : Fresh s.frames f) :
    ¬IsTable s roots f ∧ Unmapped s roots f ∧ f ∉ K := by
  refine ⟨fun ht => (h.table_owned f ht).not_fresh hf, ?_, fun hk => h.kernel_held f hk hf⟩
  intro r hr v hv e he hfe
  exact (h.leaf_owned r hr v hv e he).not_fresh (hfe ▸ hf)

/-! ## Changes that no tree sees -/

/-- Frames that were allocated still are; the interval and the reservations are
the same. -/
structure FramesLe (a a' : FrameAllocator) : Prop where
  startFrame : a'.startFrame = a.startFrame
  endFrame : a'.endFrame = a.endFrame
  reserved : a'.reserved = a.reserved
  counted : a'.refcounts.isSome = a.refcounts.isSome
  allocated : ∀ f, a.allocated f = true → a'.allocated f = true

theorem FramesLe.refl (a : FrameAllocator) : FramesLe a a := ⟨rfl, rfl, rfl, rfl, fun _ h => h⟩

theorem FramesLe.trans {a b c : FrameAllocator} (h : FramesLe a b) (h' : FramesLe b c) :
    FramesLe a c :=
  ⟨h'.startFrame.trans h.startFrame, h'.endFrame.trans h.endFrame, h'.reserved.trans h.reserved,
    h'.counted.trans h.counted, fun f hf => h'.allocated f (h.allocated f hf)⟩

theorem FramesLe.isReserved {a : FrameAllocator} (h : FramesLe a a') (f : Nat) :
    a'.isReserved f = a.isReserved f := by
  unfold FrameAllocator.isReserved
  rw [h.reserved]

theorem FramesLe.owned {a : FrameAllocator} (h : FramesLe a a') (ho : Owned a f) : Owned a' f := by
  obtain ⟨hs, he, hr, ha⟩ := ho
  exact ⟨h.startFrame ▸ hs, h.endFrame ▸ he, h.isReserved f ▸ hr, h.allocated f ha⟩

/-- A frame in use whose bit has not changed was in use before. -/
theorem FramesLe.owned_of {a : FrameAllocator} (h : FramesLe a a') (ho : Owned a' f)
    (hf : a'.allocated f = a.allocated f) : Owned a f := by
  obtain ⟨hs, he, hr, ha⟩ := ho
  exact ⟨h.startFrame ▸ hs, h.endFrame ▸ he, h.isReserved f ▸ hr, hf.symm.trans ha⟩

theorem FramesLe.fresh {a : FrameAllocator} (h : FramesLe a a') (hf : Fresh a' f) : Fresh a f := by
  obtain ⟨hs, he, hr, ha⟩ := hf
  refine ⟨h.startFrame ▸ hs, h.endFrame ▸ he, h.isReserved f ▸ hr, ?_⟩
  cases hb : a.allocated f with
  | false => rfl
  | true => exact absurd (h.allocated f hb) (by simp [ha])

section

variable (ha : pml4.Agree s.mem s'.mem roots userRegion 3)
include ha

theorem leafOf_agree (hr : r ∈ roots) (hv : v < userPages) : leafOf s' r v = leafOf s r v :=
  pml4.leaf_agree ha hr (pos_leaf.mpr hv)

theorem isTable_iff_of_agree (t : Nat) : IsTable s' roots t ↔ IsTable s roots t :=
  pml4.isTable_agree ha t

/-- Stores outside the tables and further allocations keep the spaces well formed. -/
theorem Wf.of_agree (h : Wf s roots K) (hle : FramesLe s.frames s'.frames) : Wf s' roots K where
  forest := h.forest.agree pml4 ha
  table_owned t ht := hle.owned (h.table_owned t ((isTable_iff_of_agree ha t).mp ht))
  table_entry r hr d hd q t hq hn hp := by
    rw [pml4.node_agree ha hr d (by omega) _ (userRegion.parent d q hq)] at hn
    rw [ha r hr d (by omega) q t hn hq] at hp ⊢
    exact h.table_entry r hr d hd q t hq hn hp
  leaf_owned r hr v hv e he :=
    hle.owned (h.leaf_owned r hr v hv e (by rwa [leafOf_agree ha hr hv] at he))
  leaf_apart r hr v hv e he := by
    rw [leafOf_agree ha hr hv] at he
    rw [isTable_iff_of_agree ha]
    exact h.leaf_apart r hr v hv e he
  kernel_held f hf hfr := h.kernel_held f hf (hle.fresh hfr)
  kernel_apart f hf := by
    rw [isTable_iff_of_agree ha]
    exact h.kernel_apart f hf
  bound := by
    rw [hle.endFrame]
    exact h.bound

end

/-- Switching page tables changes neither memory nor frames. -/
theorem Wf.switch (h : Wf s roots K) (pt : Nat) : Wf { s with cr3 := pt } roots K := by
  have hsame : pml4.Agree s.mem { s with cr3 := pt }.mem roots userRegion 3 :=
    fun _ _ _ _ _ _ _ _ => rfl
  exact h.of_agree hsame (.refl _)

/-! ## Stores to tables -/

theorem setEntry_mem (s : KMem) (t i : Nat) (w : Word) :
    (s.setEntry t i w).mem = Radix.put s.mem t i w := rfl

/-- A store to an edge keeps the flags of the edges if its own are right. -/
theorem tableEntry_put {d i t : Nat} {w : Word} (h : Wf s roots K)
    (e : pml4.EdgeStore s.mem roots userRegion 3 r d q i t w)
    (hw : d < 3 → Pte.isPresent w = true → TableEntry w) :
    ∀ r' ∈ roots, ∀ d' < 3, ∀ q' t', userRegion.pos (d' + 1) q' →
      pml4.node (s.setEntry t i w).mem r' d' (q' / 512) = some t' →
      Pte.isPresent ((s.setEntry t i w).mem t' (q' % 512)) = true →
      TableEntry ((s.setEntry t i w).mem t' (q' % 512)) := by
  intro r' hr d' hd q' t' hq hn hp
  have hc : pml4.child ((s.setEntry t i w).mem t' (q' % 512)) ≠ none := by
    rw [child_of_present hp]
    simp
  rcases e.edge_put pml4 hr (by omega) hq hn hc with ⟨rfl, heq⟩ | ⟨hn', heq⟩
  · rw [show (s.setEntry t i w).mem t' (q' % 512) = w from heq] at hp ⊢
    exact hw hd hp
  · rw [show (s.setEntry t i w).mem t' (q' % 512) = s.mem t' (q' % 512) from heq] at hp ⊢
    exact h.table_entry r' hr d' hd q' t' hq hn' hp

section

variable {r d q i t f : Nat} {w : Word}

/-- An empty table that had no use is attached below an absent entry. -/
structure Attach (s : KMem) (roots K : Set Nat) (r d q i t f : Nat) (w : Word) : Prop where
  wf : Wf s roots K
  root : r ∈ roots
  depth : d < 3
  pos : userRegion.pos (d + 1) (q * 512 + i)
  index : i < 512
  table : pml4.node s.mem r d q = some t
  absent : pml4.child (s.mem t i) = none
  owned : Owned s.frames f
  new : ¬IsTable s roots f
  unmapped : Unmapped s roots f
  user : f ∉ K
  empty : pml4.Barren s.mem f
  word : pml4.child w = some f
  plain : TableEntry w

namespace Attach

variable (a : Attach s roots K r d q i t f w)
include a

/-- In terms of the tree: an empty subtree is hung below an absent entry. -/
theorem edge : pml4.EdgeStore s.mem roots userRegion 3 r d q i t w where
  forest := a.wf.forest
  root := a.root
  depth := a.depth.le
  pos := a.pos
  index := a.index
  table := a.table
  before _ g hg := by rw [a.absent] at hg; cases hg
  after _ g hg := by
    rw [a.word] at hg
    cases hg
    refine ⟨?_, a.empty⟩
    rintro rfl
    exact a.new ⟨r, a.root, d, a.depth.le, q, pos_parent a.index a.pos, a.table⟩

/-- A new table maps no page. -/
theorem leafOf_eq (hr : r' ∈ roots) (hv : v < userPages) :
    leafOf (s.setEntry t i w) r' v = leafOf s r' v :=
  a.edge.leaf_put_inner pml4 a.depth hr (pos_leaf.mpr hv)

/-- The nodes after the store. -/
theorem node_eq (hr : r' ∈ roots) (hd : d' ≤ 3)
    (hq : userRegion.pos d' q') : pml4.node (s.setEntry t i w).mem r' d' q' =
      if r' = r ∧ d' = d + 1 ∧ q' = q * 512 + i then some f else pml4.node s.mem r' d' q' := by
  rw [setEntry_mem, a.edge.node_put pml4 hr d' (by omega) q' hq, a.word]

theorem node_new : pml4.node (s.setEntry t i w).mem r (d + 1) (q * 512 + i) = some f := by
  rw [a.node_eq a.root a.depth a.pos, if_pos ⟨rfl, rfl, rfl⟩]

/-- Old nodes stay. -/
theorem node_mono (hr : r' ∈ roots) (hd : d' ≤ 3)
    (hq : userRegion.pos d' q') (hn : pml4.node s.mem r' d' q' = some g) :
    pml4.node (s.setEntry t i w).mem r' d' q' = some g := by
  rw [a.node_eq hr hd hq, if_neg]
  · exact hn
  · rintro ⟨rfl, rfl, rfl⟩
    rw [pml4.node_child a.index a.table, a.absent] at hn
    cases hn

theorem isTable_iff (g : Nat) : IsTable (s.setEntry t i w) roots g ↔ IsTable s roots g ∨ g = f := by
  constructor
  · intro hg
    rcases a.edge.isTable_put pml4 hg with hg | ⟨-, hg⟩
    · exact .inl hg
    · rw [a.word] at hg
      exact .inr (Option.some.inj hg).symm
  · rintro (⟨r', hr, d', hd, q', hq, hn⟩ | rfl)
    · exact ⟨r', hr, d', hd, q', hq, a.node_mono hr hd hq hn⟩
    · exact ⟨r, a.root, d + 1, a.depth, q * 512 + i, a.pos, a.node_new⟩

theorem wf_set : Wf (s.setEntry t i w) roots K where
  forest := a.edge.forest_put pml4 fun _ g hg => by
    rw [a.word] at hg
    cases hg
    exact a.new
  table_owned g hg := by
    rcases (a.isTable_iff g).mp hg with hg | rfl
    · exact a.wf.table_owned g hg
    · exact a.owned
  table_entry := tableEntry_put a.wf a.edge fun _ _ => a.plain
  leaf_owned r' hr v hv e he := a.wf.leaf_owned r' hr v hv e (by rwa [a.leafOf_eq hr hv] at he)
  leaf_apart r' hr v hv e he := by
    rw [a.leafOf_eq hr hv] at he
    obtain ⟨hnt, hnk⟩ := a.wf.leaf_apart r' hr v hv e he
    refine ⟨fun ht => ?_, hnk⟩
    rcases (a.isTable_iff _).mp ht with ht | heq
    · exact hnt ht
    · exact a.unmapped r' hr v hv e he heq
  kernel_held := a.wf.kernel_held
  kernel_apart g hg ht := by
    rcases (a.isTable_iff g).mp ht with ht | rfl
    · exact a.wf.kernel_apart g hg ht
    · exact a.user hg
  bound := a.wf.bound

end Attach

end

section

variable {r q i t : Nat} {w : Word}

/-- A store to an entry of an L1 table; a page it maps is an allocated frame
that is neither a table nor the kernel's. -/
structure LeafStore (s : KMem) (roots K : Set Nat) (r q i t : Nat) (w : Word) : Prop where
  wf : Wf s roots K
  root : r ∈ roots
  page : q * 512 + i < userPages
  index : i < 512
  table : pml4.node s.mem r 3 q = some t
  fits : ∀ f, pml4.child w = some f → Owned s.frames f ∧ ¬IsTable s roots f ∧ f ∉ K

namespace LeafStore

variable (a : LeafStore s roots K r q i t w)
include a

/-- In terms of the tree: a store at the lowest level. -/
theorem edge : pml4.EdgeStore s.mem roots userRegion 3 r 3 q i t w where
  forest := a.wf.forest
  root := a.root
  depth := le_rfl
  pos := pos_leaf.mpr a.page
  index := a.index
  table := a.table
  before h := absurd h (by omega)
  after h := absurd h (by omega)

/-- The store changes the entry of one page. -/
theorem leafOf_eq (hr : r' ∈ roots) (hv : v < userPages) : leafOf (s.setEntry t i w) r' v =
      if r' = r ∧ v = q * 512 + i then (some w).filter fun w => (pml4.child w).isSome
      else leafOf s r' v :=
  a.edge.leaf_put_leaf pml4 rfl hr (pos_leaf.mpr hv)

theorem node_eq (hr : r' ∈ roots) (hd : d' ≤ 3) (hq : userRegion.pos d' q') :
    pml4.node (s.setEntry t i w).mem r' d' q' = pml4.node s.mem r' d' q' := by
  rw [setEntry_mem, a.edge.node_put pml4 hr d' (by omega) q' hq, if_neg (by omega)]

theorem isTable_iff (g : Nat) : IsTable (s.setEntry t i w) roots g ↔ IsTable s roots g := by
  constructor
  · rintro ⟨r', hr, d', hd, q', hq, hn⟩
    exact ⟨r', hr, d', hd, q', hq, by rwa [a.node_eq hr hd hq] at hn⟩
  · rintro ⟨r', hr, d', hd, q', hq, hn⟩
    exact ⟨r', hr, d', hd, q', hq, by rwa [a.node_eq hr hd hq]⟩

/-- An entry after the store is an old one or the stored one. -/
theorem leafOf_cases (hr : r' ∈ roots) (hv : v < userPages) {e : Word}
    (he : leafOf (s.setEntry t i w) r' v = some e) :
    leafOf s r' v = some e ∨ (e = w ∧ pml4.child w = some (Pte.frame e)) := by
  rw [a.leafOf_eq hr hv] at he
  split at he
  · rw [Option.filter_eq_some_iff] at he
    obtain ⟨he, hs⟩ := he
    cases he
    rw [child_isSome] at hs
    exact .inr ⟨rfl, child_of_present hs⟩
  · exact .inl he

theorem wf_set : Wf (s.setEntry t i w) roots K where
  forest := a.edge.forest_put pml4 fun h => absurd h (by omega)
  table_owned g hg := a.wf.table_owned g ((a.isTable_iff g).mp hg)
  table_entry := tableEntry_put a.wf a.edge fun h => absurd h (by omega)
  leaf_owned r' hr v hv e he := by
    rcases a.leafOf_cases hr hv he with he | ⟨-, hw⟩
    · exact a.wf.leaf_owned r' hr v hv e he
    · exact (a.fits _ hw).1
  leaf_apart r' hr v hv e he := by
    rw [a.isTable_iff]
    rcases a.leafOf_cases hr hv he with he | ⟨-, hw⟩
    · exact a.wf.leaf_apart r' hr v hv e he
    · exact (a.fits _ hw).2
  kernel_held := a.wf.kernel_held
  kernel_apart g hg := by
    rw [a.isTable_iff]
    exact a.wf.kernel_apart g hg
  bound := a.wf.bound

end LeafStore

end

section

variable {r d q i t f : Nat} {w : Word}

/-- An empty table is taken out of its tree. -/
structure Detach (s : KMem) (roots K : Set Nat) (r d q i t f : Nat) (w : Word) : Prop where
  wf : Wf s roots K
  root : r ∈ roots
  depth : d < 3
  pos : userRegion.pos (d + 1) (q * 512 + i)
  index : i < 512
  table : pml4.node s.mem r d q = some t
  below : pml4.child (s.mem t i) = some f
  empty : pml4.Barren s.mem f
  word : pml4.child w = none

namespace Detach

variable (a : Detach s roots K r d q i t f w)
include a

/-- In terms of the tree: an empty subtree is cut off. -/
theorem edge : pml4.EdgeStore s.mem roots userRegion 3 r d q i t w where
  forest := a.wf.forest
  root := a.root
  depth := a.depth.le
  pos := a.pos
  index := a.index
  table := a.table
  before _ g hg := by
    rw [a.below] at hg
    cases hg
    exact a.empty
  after _ g hg := by rw [a.word] at hg; cases hg

theorem leafOf_eq (hr : r' ∈ roots) (hv : v < userPages) :
    leafOf (s.setEntry t i w) r' v = leafOf s r' v :=
  a.edge.leaf_put_inner pml4 a.depth hr (pos_leaf.mpr hv)

theorem node_eq (hr : r' ∈ roots) (hd : d' ≤ 3)
    (hq : userRegion.pos d' q') : pml4.node (s.setEntry t i w).mem r' d' q' =
      if r' = r ∧ d' = d + 1 ∧ q' = q * 512 + i then none else pml4.node s.mem r' d' q' := by
  rw [setEntry_mem, a.edge.node_put pml4 hr d' (by omega) q' hq, a.word]

theorem node_old : pml4.node s.mem r (d + 1) (q * 512 + i) = some f := by
  rw [pml4.node_child a.index a.table, a.below]

theorem isTable_old : IsTable s roots f :=
  ⟨r, a.root, d + 1, a.depth, q * 512 + i, a.pos, a.node_old⟩

theorem isTable_iff (g : Nat) : IsTable (s.setEntry t i w) roots g ↔ IsTable s roots g ∧ g ≠ f := by
  constructor
  · rintro ⟨r', hr, d', hd, q', hq, hn⟩
    rw [a.node_eq hr hd hq] at hn
    split at hn
    · cases hn
    · rename_i hp
      refine ⟨⟨r', hr, d', hd, q', hq, hn⟩, ?_⟩
      rintro rfl
      exact hp (a.wf.forest r' hr r a.root d' hd (d + 1)
        a.depth q' _ g hq a.pos hn a.node_old)
  · rintro ⟨⟨r', hr, d', hd, q', hq, hn⟩, hne⟩
    refine ⟨r', hr, d', hd, q', hq, ?_⟩
    rw [a.node_eq hr hd hq, if_neg]
    · exact hn
    · rintro ⟨rfl, rfl, rfl⟩
      rw [a.node_old] at hn
      exact hne (Option.some.inj hn).symm

theorem wf_set : Wf (s.setEntry t i w) roots K where
  forest := a.edge.forest_put pml4 fun _ g hg => by
    rw [a.word] at hg
    cases hg
  table_owned g hg := a.wf.table_owned g ((a.isTable_iff g).mp hg).1
  table_entry := tableEntry_put a.wf a.edge fun _ hp => by
    have hw := a.word
    rw [child_of_present hp] at hw
    cases hw
  leaf_owned r' hr v hv e he := a.wf.leaf_owned r' hr v hv e (by rwa [a.leafOf_eq hr hv] at he)
  leaf_apart r' hr v hv e he := by
    rw [a.leafOf_eq hr hv] at he
    obtain ⟨hnt, hnk⟩ := a.wf.leaf_apart r' hr v hv e he
    exact ⟨fun ht => hnt ((a.isTable_iff _).mp ht).1, hnk⟩
  kernel_held := a.wf.kernel_held
  kernel_apart g hg ht := a.wf.kernel_apart g hg ((a.isTable_iff g).mp ht).1
  bound := a.wf.bound

end Detach

end

/-! ## Adding and removing address spaces -/

theorem pos_top : userRegion.pos 1 q ↔ q < 256 := by
  show q * 512 ^ 3 < userPages ↔ q < 256
  simp only [userPages]
  omega

section

variable {f : Nat}

section

variable (hb : ∀ i < 256, pml4.child (s.mem f i) = none)
include hb

theorem absent_of_top (q : Nat) (hq : userRegion.pos 1 q) :
    pml4.child (s.mem f (q % pml4.fan)) = none := by
  have hlt := pos_top.mp hq
  exact hb _ (by show q % 512 < 256; omega)

/-- Below a table whose user half is empty there is no other table. -/
theorem isTable_insert_iff (g : Nat) :
    IsTable s (insert f roots) g ↔ IsTable s roots g ∨ g = f := by
  constructor
  · rintro ⟨r, hr, d, hd, q, hq, hn⟩
    rcases hr with rfl | hr
    · cases d with
      | zero => exact .inr (Option.some.inj hn).symm
      | succ d => rw [pml4.node_empty (absent_of_top hb) d q hq] at hn; cases hn
    · exact .inl ⟨r, hr, d, hd, q, hq, hn⟩
  · rintro (⟨r, hr, d, hd, q, hq, hn⟩ | rfl)
    · exact ⟨r, Set.mem_insert_of_mem _ hr, d, hd, q, hq, hn⟩
    · exact isTable_root (Set.mem_insert _ _)

theorem leafOf_empty (hv : v < userPages) : leafOf s f v = none :=
  pml4.leaf_empty (absent_of_top hb) (pos_leaf.mpr hv)

end

/-- A frame without a use becomes the root of an empty address space. -/
theorem Wf.addRoot (h : Wf s roots K) (ho : Owned s.frames f) (hnew : ¬IsTable s roots f)
    (hu : Unmapped s roots f) (hk : f ∉ K) (hb : ∀ i < 256, pml4.child (s.mem f i) = none) :
    Wf s (insert f roots) K where
  forest := h.forest.insert pml4 hnew (absent_of_top hb)
  table_owned g hg := by
    rcases (isTable_insert_iff hb g).mp hg with hg | rfl
    · exact h.table_owned g hg
    · exact ho
  table_entry r hr d hd q t hq hn hp := by
    -- the new root is empty, so nothing is below it
    rcases hr with rfl | hr
    · have hc := child_of_present hp
      cases d with
      | zero =>
        cases hn
        have hlt := pos_top.mp hq
        rw [hb _ (by omega)] at hc
        cases hc
      | succ d =>
        rw [pml4.node_empty (absent_of_top hb) d _ (userRegion.parent (d + 1) q hq)] at hn
        cases hn
    · exact h.table_entry r hr d hd q t hq hn hp
  leaf_owned r hr v hv e he := by
    rcases hr with rfl | hr
    · rw [leafOf_empty hb hv] at he; cases he
    · exact h.leaf_owned r hr v hv e he
  leaf_apart r hr v hv e he := by
    rcases hr with rfl | hr
    · rw [leafOf_empty hb hv] at he; cases he
    · obtain ⟨hnt, hnk⟩ := h.leaf_apart r hr v hv e he
      refine ⟨fun ht => ?_, hnk⟩
      rcases (isTable_insert_iff hb _).mp ht with ht | heq
      · exact hnt ht
      · exact hu r hr v hv e he heq
  kernel_held := h.kernel_held
  kernel_apart g hg ht := by
    rcases (isTable_insert_iff hb g).mp ht with ht | rfl
    · exact h.kernel_apart g hg ht
    · exact hk hg
  bound := h.bound

theorem isTable_subset (hs : roots' ⊆ roots) (h : IsTable s roots' g) : IsTable s roots g := by
  obtain ⟨r, hr, d, hd, q, hq, hn⟩ := h
  exact ⟨r, hs hr, d, hd, q, hq, hn⟩

/-- Fewer address spaces. -/
theorem Wf.dropRoots (h : Wf s roots K) (hs : roots' ⊆ roots) : Wf s roots' K where
  forest := h.forest.subset pml4 hs
  table_owned g hg := h.table_owned g (isTable_subset hs hg)
  table_entry r hr := h.table_entry r (hs hr)
  leaf_owned r hr := h.leaf_owned r (hs hr)
  leaf_apart r hr v hv e he := by
    obtain ⟨hnt, hnk⟩ := h.leaf_apart r (hs hr) v hv e he
    exact ⟨fun ht => hnt (isTable_subset hs ht), hnk⟩
  kernel_held := h.kernel_held
  kernel_apart g hg ht := h.kernel_apart g hg (isTable_subset hs ht)
  bound := h.bound

end

/-- Fewer frames of the kernel. -/
theorem Wf.dropKernel {K' : Set Nat} (h : Wf s roots K) (hs : K' ⊆ K) : Wf s roots K' where
  forest := h.forest
  table_owned := h.table_owned
  table_entry := h.table_entry
  leaf_owned := h.leaf_owned
  leaf_apart r hr v hv e he := by
    obtain ⟨hnt, hnk⟩ := h.leaf_apart r hr v hv e he
    exact ⟨hnt, fun hm => hnk (hs hm)⟩
  kernel_held f hf := h.kernel_held f (hs hf)
  kernel_apart f hf := h.kernel_apart f (hs hf)
  bound := h.bound

/-! ## Freeing a frame -/

/-- One frame is free afterwards, nothing else has changed. -/
structure Released (a a' : FrameAllocator) (f : Nat) : Prop where
  startFrame : a'.startFrame = a.startFrame
  endFrame : a'.endFrame = a.endFrame
  reserved : a'.reserved = a.reserved
  allocated : ∀ g, g ≠ f → a'.allocated g = a.allocated g

theorem Released.isReserved {a : FrameAllocator} (h : Released a a' f) (g : Nat) :
    a'.isReserved g = a.isReserved g := by
  unfold FrameAllocator.isReserved
  rw [h.reserved]

/-- A frame in use after one was released was in use before. -/
theorem Released.owned {a : FrameAllocator} (h : Released a a' f) (hg : g ≠ f)
    (ho : Owned a' g) : Owned a g := by
  obtain ⟨hs, he, hr, ha⟩ := ho
  exact ⟨h.startFrame ▸ hs, h.endFrame ▸ he, h.isReserved g ▸ hr, (h.allocated g hg).symm.trans ha⟩

/-- Freeing a frame without a use keeps the spaces well formed. -/
theorem Wf.released (h : Wf s roots K) (hm : s'.mem = s.mem)
    (hrel : Released s.frames s'.frames f) (hnt : ¬IsTable s roots f) (hu : Unmapped s roots f)
    (hk : f ∉ K) : Wf s' roots K := by
  have hleaf : ∀ r v, leafOf s' r v = leafOf s r v := by
    intro r v
    unfold leafOf
    rw [hm]
  have htab : ∀ g, IsTable s' roots g ↔ IsTable s roots g := by
    intro g
    unfold IsTable
    rw [hm]
  have howned : ∀ g, g ≠ f → Owned s.frames g → Owned s'.frames g := by
    rintro g hg ⟨hs, he, hr, ha⟩
    exact ⟨hrel.startFrame ▸ hs, hrel.endFrame ▸ he, hrel.isReserved g ▸
      hr, (hrel.allocated g hg).trans ha⟩
  refine ⟨hm ▸ h.forest, ?_, hm ▸ h.table_entry, ?_, ?_, ?_, ?_, hrel.endFrame ▸ h.bound⟩
  · intro g hg
    have hg := (htab g).mp hg
    exact howned g (fun heq => hnt (heq ▸ hg)) (h.table_owned g hg)
  · intro r hr v hv e he
    rw [hleaf] at he
    exact howned _ (hu r hr v hv e he) (h.leaf_owned r hr v hv e he)
  · intro r hr v hv e he
    rw [hleaf] at he
    rw [htab]
    exact h.leaf_apart r hr v hv e he
  · rintro g hg ⟨hs, he, hr, ha⟩
    have hgf : g ≠ f := fun heq => hk (heq ▸ hg)
    exact h.kernel_held g hg ⟨hrel.startFrame ▸ hs, hrel.endFrame ▸ he, hrel.isReserved g ▸ hr,
      (hrel.allocated g hgf).symm.trans ha⟩
  · intro g hg
    rw [htab]
    exact h.kernel_apart g hg

end PandaOS.Kernel
