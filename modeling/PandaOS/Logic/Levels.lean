import PandaOS.Logic.Vm

/-!
# Tables by level

`map_page` on any address, the kernel half included, where tables may be shared
and no radix tree separates them. What it relies on there is less: every table
has one level, the entries of a table lead to tables one level down, and no
table is a frame the allocator could hand out. `Levels` says so for some slots of
an L4 table, `Builds` is what mapping fresh frames below those slots does.
-/

namespace PandaOS.Kernel

open Hal Lib

/-- An entry that leads to a lower table and takes no permission away. -/
def Opens (e : Word) : Prop :=
  Pte.has e Pte.WRITABLE = true ∧ Pte.has e Pte.NO_EXECUTE = false ∧
    Pte.has (Pte.flags e) Pte.HUGE_PAGE = false

/-- The tables below the slots `I` of the L4 table `pt`. `D` gives each table its
level, 3 for an L4 table and 0 for an L1 table. -/
structure Levels (s : KMem) (pt : Nat) (I : Set Nat) (D : Nat → Option Nat) : Prop where
  root : D pt = some 3
  below : ∀ t k i, D t = some (k + 1) → i < 512 → (t = pt → i ∈ I) →
    Pte.isPresent (s.mem t i) = true → D (Pte.frame (s.mem t i)) = some k ∧ Opens (s.mem t i)
  used : ∀ t k, D t = some k → ¬Fresh s.frames t
  bound : s.frames.endFrame ≤ 2 ^ 40

/-- Tables and pages in fresh frames were added; what was in use is as before. -/
structure Builds (D : Nat → Option Nat) (s : KMem) (D' : Nat → Option Nat) (s' : KMem) : Prop where
  tables : ∀ t k, D t = some k → D' t = some k
  entries : ∀ t k i, D t = some k → Pte.isPresent (s.mem t i) = true →
    (k = 0 → ¬Fresh s.frames (Pte.frame (s.mem t i))) → s'.mem t i = s.mem t i
  pages : ∀ g, D g = none → ¬Fresh s.frames g → D' g = none ∧ s'.mem g = s.mem g
  frames : FramesLe s.frames s'.frames

variable {s s' s1 s2 : KMem} {pt t k i c f : Nat} {I : Set Nat} {D D' D1 : Nat → Option Nat}
  {e : Word}

namespace Builds

theorem refl (D : Nat → Option Nat) (s : KMem) : Builds D s D s where
  tables _ _ h := h
  entries _ _ _ _ _ _ := rfl
  pages _ h _ := ⟨h, rfl⟩
  frames := .refl _

theorem trans (x : Builds D s D1 s1) (x' : Builds D1 s1 D' s') : Builds D s D' s' where
  tables t k h := x'.tables t k (x.tables t k h)
  entries t k i h hp hfr := by
    have hsame := x.entries t k i h hp hfr
    have hnext := x'.entries t k i (x.tables t k h) (by rwa [hsame])
      (by rw [hsame]; exact fun hk hf => hfr hk (x.frames.fresh hf))
    rw [hnext, hsame]
  pages g h hfr := by
    obtain ⟨hpage, hsame⟩ := x.pages g h hfr
    obtain ⟨hpage', hsame'⟩ := x'.pages g hpage fun hf => hfr (x.frames.fresh hf)
    exact ⟨hpage', hsame'.trans hsame⟩
  frames := x.frames.trans x'.frames

/-- The table below an entry above the L1 tables stays. -/
theorem tableAt (x : Builds D s D' s') (ht : D t = some (k + 1))
    (hc : tableAt s.mem t i = some c) : Kernel.tableAt s'.mem t i = some c := by
  have hp : Pte.isPresent (s.mem t i) = true := by
    rw [← child_isSome, ← tableAt_eq, hc]
    rfl
  rw [← hc, tableAt_eq, tableAt_eq, x.entries t (k + 1) i ht hp (by omega)]

end Builds

/-! ## One table -/

theorem opens_make (a : Word) : Opens (Pte.make a Pte.tableFlags) := by
  obtain ⟨hw, -, hh⟩ := tableEntry_make a
  refine ⟨hw, ?_, hh⟩
  rw [show Pte.NO_EXECUTE = BitVec.twoPow 64 63 from rfl, Pte.has_make _ _ (by omega) (by omega)]
  decide

/-- Only the tables above the L1 tables matter. -/
theorem Levels.of_tables (h : Levels s pt I D) (hmem : ∀ t k, D t = some (k + 1) →
    s'.mem t = s.mem t) (hle : FramesLe s.frames s'.frames) : Levels s' pt I D where
  root := h.root
  below t k i ht hi hI hp := by
    rw [hmem t k ht] at hp ⊢
    exact h.below t k i ht hi hI hp
  used t k ht hf := h.used t k ht (hle.fresh hf)
  bound := by
    rw [hle.endFrame]
    exact h.bound

theorem Levels.not_table (h : Levels s pt I D) (hf : Fresh s.frames f) : D f = none := by
  cases hd : D f with
  | none => rfl
  | some k => exact absurd hf (h.used f k hd)

section

variable {t i f k : Nat} (h : Levels s pt I D) (a : Allocated s s1 f) (ht : D t = some (k + 1))
include h a ht

/-- A cleared table below a missing entry. -/
theorem Levels.attach : Levels (s1.attach t i f) pt I (Function.update D f (some k)) := by
  have hnew := h.not_table a.fresh
  have hne : t ≠ f := fun heq => by simp [heq, hnew] at ht
  have hbound : f < 2 ^ 40 := lt_of_lt_of_le a.fresh.2.1 h.bound
  constructor
  case root =>
    rw [Function.update_of_ne, h.root]
    rintro rfl
    have := h.root
    simp [hnew] at this
  case below =>
    intro t' k' j ht' hj hI hp
    by_cases htf : t' = f
    · -- the new table is empty
      rw [htf, attach_empty (Ne.symm hne)] at hp
      simp [Pte.isPresent] at hp
    rw [Function.update_of_ne htf] at ht'
    by_cases hat : t' = t ∧ j = i
    · obtain ⟨rfl, rfl⟩ := hat
      rw [KMem.attach, setEntry_mem, Radix.put_same, Pte.frame_make hbound (by decide),
        Function.update_self]
      rw [ht] at ht'
      exact ⟨by simpa using ht', opens_make _⟩
    · rw [a.attach_other htf hat] at hp ⊢
      obtain ⟨hbelow, hopens⟩ := h.below t' k' j ht' hj hI hp
      refine ⟨?_, hopens⟩
      rw [Function.update_of_ne _ _ _, hbelow]
      intro heq
      rw [heq, hnew] at hbelow
      cases hbelow
  case used =>
    intro t' k' ht' hf
    by_cases htf : t' = f
    · exact a.owned.not_fresh (htf ▸ hf)
    · rw [Function.update_of_ne htf] at ht'
      exact h.used t' k' ht' (a.frames.fresh hf)
  case bound =>
    show s1.frames.endFrame ≤ 2 ^ 40
    rw [a.frames.endFrame]
    exact h.bound

theorem Levels.attach_builds (habs : Pte.isPresent (s.mem t i) = false) :
    Builds D s (Function.update D f (some k)) (s1.attach t i f) := by
  have hnew := h.not_table a.fresh
  constructor
  case tables =>
    intro t' k' ht'
    rw [Function.update_of_ne, ht']
    rintro rfl
    simp [hnew] at ht'
  case entries =>
    intro t' k' j ht' hp _
    have htf : t' ≠ f := by
      rintro rfl
      simp [hnew] at ht'
    have hat : ¬(t' = t ∧ j = i) := by
      rintro ⟨rfl, rfl⟩
      simp [habs] at hp
    exact a.attach_other htf hat
  case pages =>
    intro g hg hfr
    have hgf : g ≠ f := fun heq => hfr (heq ▸ a.fresh)
    have hgt : g ≠ t := fun heq => by simp [heq, ht] at hg
    rw [Function.update_of_ne hgf]
    exact ⟨hg, a.attach_frame hgf hgt⟩
  case frames => exact a.frames

end

/-- The table below an entry: the one that is there, or a new one. -/
theorem ensureTable_levels {msg : String} (h : Levels s pt I D)
    (ht : D t = some (k + 1)) (hi : i < 512) (hI : t = pt → i ∈ I)
    (hret : Returns (ensureTable t i msg) s c s') :
    ∃ D', Levels s' pt I D' ∧ Builds D s D' s' ∧ D' c = some k ∧ tableAt s'.mem t i = some c := by
  obtain ⟨hpres, rfl, rfl⟩ | ⟨habs, f, s1, a, -, hcf, rfl⟩ := ensureTable_cases hret
  · exact ⟨D, h, .refl D s', (h.below t k i ht hi hI hpres).1, child_of_present hpres⟩
  · rw [hcf h.bound]
    exact ⟨_, h.attach a ht, h.attach_builds a ht habs, Function.update_self _ _ _,
      a.attach_entry h.bound⟩

/-! ## One page -/

/-- A page in use that is no table is mapped at an address. -/
structure Placed (s : KMem) (pt : Nat) (D : Nat → Option Nat) (va : Nat) (e : Word) : Prop where
  walk : walkEntry s pt va = some e
  page : D (Pte.frame e) = none
  held : ¬Fresh s.frames (Pte.frame e)

section

variable {va : Nat} (h : Levels s pt I D) (hI : p4Index va ∈ I)
include h hI

/-- The tables on the way to a mapped page. -/
theorem Levels.path (hw : walkEntry s pt va = some e) :
    ∃ l3 l2 l1, (tableAt s.mem pt (p4Index va) = some l3 ∧ D l3 = some 2 ∧
      Opens (s.mem pt (p4Index va))) ∧
      (tableAt s.mem l3 (p3Index va) = some l2 ∧ D l2 = some 1 ∧ Opens (s.mem l3 (p3Index va))) ∧
      (tableAt s.mem l2 (p2Index va) = some l1 ∧ D l1 = some 0 ∧ Opens (s.mem l2 (p2Index va))) ∧
      Pte.isPresent e = true ∧ s.mem l1 (p1Index va) = e := by
  obtain ⟨l3, l2, l1, h3, h2, h1, hp, he⟩ := walkEntry_eq_some.mp hw
  obtain ⟨hi4, hi3, hi2, -⟩ := pIndex_lt va
  -- one step down, from a table of known level
  have hstep : ∀ {t k i c : Nat}, D t = some (k + 1) → i < 512 → (t = pt → i ∈ I) →
      tableAt s.mem t i = some c → D c = some k ∧ Opens (s.mem t i) := by
    intro t k i c ht hi hI hc
    rw [tableAt_eq] at hc
    have hpres : Pte.isPresent (s.mem t i) = true := by
      rw [← child_isSome, hc]
      rfl
    rw [child_of_present hpres] at hc
    cases hc
    exact h.below t k i ht hi hI hpres
  have d3 := hstep h.root hi4 (fun _ => hI) h3
  have hne : ∀ {t k : Nat}, D t = some k → k < 3 → t ≠ pt := by
    rintro t k ht hk rfl
    rw [h.root] at ht
    cases ht
    omega
  have d2 := hstep d3.1 hi3 (fun heq => absurd heq (hne d3.1 (by omega))) h2
  have d1 := hstep d2.1 hi2 (fun heq => absurd heq (hne d2.1 (by omega))) h1
  exact ⟨l3, l2, l1, ⟨h3, d3⟩, ⟨h2, d2⟩, ⟨h1, d1⟩, hp, he⟩

/-- A page stays where it is, with its contents. -/
theorem Placed.stays (p : Placed s pt D va e) (x : Builds D s D' s') :
    Placed s' pt D' va e ∧ s'.mem (Pte.frame e) = s.mem (Pte.frame e) := by
  obtain ⟨l3, l2, l1, ⟨h3, d3, -⟩, ⟨h2, d2, -⟩, ⟨h1, d1, -⟩, hp, rfl⟩ := h.path hI p.walk
  obtain ⟨hpage, hsame⟩ := x.pages _ p.page p.held
  have hentry := x.entries l1 0 (p1Index va) d1 hp fun _ => p.held
  refine ⟨⟨?_, hpage, fun hf => p.held (x.frames.fresh hf)⟩, hsame⟩
  exact walkEntry_eq_some.mpr ⟨l3, l2, l1, x.tableAt h.root h3,
    x.tableAt d3 h2, x.tableAt d2 h1, hp, hentry⟩

/-- The MMU grants what the entry of the page grants. -/
theorem Placed.granted (p : Placed s pt D va e) :
    (∃ t, translate s.mem pt va = some t ∧ t.frame = Pte.frame e ∧
      t.writable = Pte.has e Pte.WRITABLE) ∧ executable s.mem pt va =
        some !Pte.has e Pte.NO_EXECUTE := by
  obtain ⟨l3, l2, l1, ⟨h3, -, o3⟩, ⟨h2, -, o2⟩, ⟨h1, -, o1⟩, hp, rfl⟩ := h.path hI p.walk
  have hf : tableAt s.mem l1 (p1Index va) = some (Pte.frame (s.mem l1 (p1Index va))) :=
    child_of_present hp
  constructor
  · unfold translate
    simp only [h3, h2, h1, hf, o3.1, o2.1, o1.1, Bool.true_and,
      Option.bind_eq_bind, Option.bind_some]
    exact ⟨_, rfl, rfl, rfl⟩
  · unfold executable
    simp only [h3, h2, h1, hf, o3.2.1, o2.2.1, o1.2.1, Bool.false_or,
      Option.bind_eq_bind, Option.bind_some]

/-- The three tables above the page of an address. -/
theorem ensureTables_levels {l3 l2 l1 : Nat} {m3 m2 m1 : String} {t3 t2 : KMem}
    (h3 : Returns (ensureTable pt (p4Index va) m3) s l3 t3)
    (h2 : Returns (ensureTable l3 (p3Index va) m2) t3 l2 t2)
    (h1 : Returns (ensureTable l2 (p2Index va) m1) t2 l1 s') :
    ∃ D', Levels s' pt I D' ∧ Builds D s D' s' ∧ D' l3 = some 2 ∧ D' l2 = some 1 ∧
      D' l1 = some 0 ∧ tableAt s'.mem pt (p4Index va) = some l3 ∧
      tableAt s'.mem l3 (p3Index va) = some l2 ∧ tableAt s'.mem l2 (p2Index va) = some l1 := by
  obtain ⟨hi4, hi3, hi2, -⟩ := pIndex_lt va
  have hne : ∀ {E : Nat → Option Nat} {t k : Nat}, E pt = some 3 →
      E t = some k → k < 3 → t ≠ pt := by
    rintro E t k hroot ht hk rfl
    rw [hroot] at ht
    cases ht
    omega
  obtain ⟨D3, v3, x3, d3, a3⟩ := ensureTable_levels h h.root hi4 (fun _ => hI) h3
  obtain ⟨D2, v2, x2, d2, a2⟩ := ensureTable_levels v3 d3 hi3
    (fun heq => absurd heq (hne v3.root d3 (by omega))) h2
  obtain ⟨D1, v1, x1, d1, a1⟩ := ensureTable_levels v2 d2 hi2
    (fun heq => absurd heq (hne v2.root d2 (by omega))) h1
  have e3 := x2.tables _ _ d3
  exact ⟨D1, v1, (x3.trans x2).trans x1, x1.tables _ _ e3, x1.tables _ _ d2, d1,
    x1.tableAt v2.root (x2.tableAt v3.root a3), x1.tableAt e3 a2, a1⟩

/-- Allocating, mapping and filling a frame places a page. -/
theorem newPage_levels {flags : Word} {u : Unit} (hfl : PageFlags flags)
    (a : Allocated s s1 f) (hmap : Returns (mapPage pt va f flags) s1 u s2)
    (hfill : Filled s2 s' f) :
    ∃ D', Levels s' pt I D' ∧ Builds D s D' s' ∧ Placed s' pt D' va
      (Pte.make (frameAddr f) flags) := by
  have hbound : f < 2 ^ 40 := lt_of_lt_of_le a.fresh.2.1 h.bound
  have hframe := Pte.frame_make hbound hfl.1
  have hword := child_make hbound hfl.1 hfl.2
  simp only [mapPage, readEntry, returns_bind, returns_get, returns_pure, and_assoc,
    exists_and_left, exists_eq_left] at hmap
  obtain ⟨l3, t3, h3, l2, t2, h2, l1, t1, h1, hmap⟩ := hmap
  have hv1 : Levels s1 pt I D := h.of_tables (fun _ _ _ => by rw [a.mem]) a.frames
  obtain ⟨D', v, x, d3, d2, d1, a3, a2, a1⟩ := ensureTables_levels hv1 hI h3 h2 h1
  obtain ⟨hpage, -⟩ := x.pages f (h.not_table a.fresh) a.owned.not_fresh
  split at hmap
  · exact absurd hmap not_returns_throw
  rename_i hfree
  simp only [writeEntry, returns_modify] at hmap
  subst hmap
  -- a table is not the new page
  have hnf : ∀ {t k : Nat}, D' t = some k → t ≠ f := by
    rintro t k ht rfl
    rw [hpage] at ht
    cases ht
  have hmem : ∀ t k, D' t = some (k + 1) → s'.mem t = t1.mem t := by
    intro t k ht
    have hl1 : t ≠ l1 := by
      rintro rfl
      rw [d1] at ht
      cases ht
    rw [hfill.mem t (hnf ht), setEntry_mem, Radix.put_frame _ _ _ hl1]
  have hleaf : s'.mem l1 (p1Index va) = Pte.make (frameAddr f) flags := by
    rw [hfill.mem l1 (hnf d1), setEntry_mem, Radix.put_same]
  have hframes : s'.frames = t1.frames := hfill.frames
  refine ⟨D', v.of_tables hmem (hframes ▸ .refl _), ?_, ⟨?_, by rwa [hframe], ?_⟩⟩
  · constructor
    case tables => exact x.tables
    case entries =>
      intro t k i ht hp hfr
      have hsame := x.entries t k i ht (by rwa [a.mem])
        (fun hk hf => hfr hk (by rw [a.mem] at hf; exact a.frames.fresh hf))
      rw [a.mem] at hsame
      have hat : ¬(t = l1 ∧ i = p1Index va) := by
        -- the entry that was replaced maps the new frame, which was fresh
        rintro ⟨rfl, rfl⟩
        have hk := x.tables t k ht
        rw [d1] at hk
        cases hk
        rw [← hsame] at hp hfr
        have haddr : Pte.addr (t1.mem t (p1Index va)) = frameAddr f := by
          simpa [hp] using hfree
        apply hfr rfl
        rw [Pte.frame_of_addr hbound haddr]
        exact a.fresh
      rw [hfill.mem t (hnf (x.tables t k ht)), setEntry_mem, Radix.put_ne _ _ hat, hsame]
    case pages =>
      intro g hg hfr
      obtain ⟨hg', hsame⟩ := x.pages g hg fun hf => hfr (a.frames.fresh hf)
      have hgf : g ≠ f := fun heq => hfr (heq ▸ a.fresh)
      have hgl : g ≠ l1 := by
        rintro rfl
        rw [d1] at hg'
        cases hg'
      rw [hfill.mem g hgf, setEntry_mem, Radix.put_frame _ _ _ hgl, hsame, a.mem]
      exact ⟨hg', rfl⟩
    case frames => exact a.frames.trans (hframes ▸ x.frames)
  · have hpres : Pte.isPresent (Pte.make (frameAddr f) flags) = true := by
      rw [← child_isSome, hword]
      rfl
    have hkeep : ∀ {t k i c : Nat}, D' t = some (k + 1) → tableAt t1.mem t i = some c →
        tableAt s'.mem t i = some c := by
      intro t k i c ht hc
      rw [← hc, tableAt_eq, tableAt_eq, hmem t k ht]
    exact walkEntry_eq_some.mpr ⟨l3, l2, l1, hkeep v.root a3,
      hkeep d3 a2, hkeep d2 a1, hpres, hleaf⟩
  · rw [hframe, hframes]
    exact (x.frames.owned a.owned).not_fresh

end

end PandaOS.Kernel
