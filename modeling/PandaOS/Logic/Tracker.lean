import PandaOS.Logic.Clone
import PandaOS.Logic.Untouched

/-!
# Tables in use and tables tracked

`page_table_tracker` keeps a list of the frames handed out for page tables.
`InUse` is what the list should say: the frames that walks from the L4 tables
in `R` go through, in both halves. A table is entered in the list when it is
allocated and put below an entry right after that, so every function that
builds tables keeps the two in step (`Tabled`).
-/

namespace PandaOS.Kernel

open Hal Lib

variable {s s' s1 : KMem} {R : Set Nat} {mem mem' : Nat → Nat → Word} {f g d t i c : Nat}
  {msg : String}

/-- The frame is an L4, L3, L2 or L1 table of one of the roots. -/
def InUse (s : KMem) (R : Set Nat) (f : Nat) : Prop := ∃ d ≤ 3, f ∈ tablesBelow s.mem R d

/-- The tracker lists the tables in use. Each of them has one level, none could
be handed out, and the active table is among them. -/
structure Tabled (s : KMem) (R : Set Nat) : Prop where
  initialised : s.tracker.isSome = true
  exact : ∀ f, s.isPageTableFrame f = true ↔ InUse s R f
  levels : ∀ d ≤ 3, ∀ d' ≤ 3, ∀ f, f ∈ tablesBelow s.mem R d → f ∈ tablesBelow s.mem R d' → d = d'
  held : ∀ f, InUse s R f → ¬Fresh s.frames f
  active : s.cr3 ∈ R
  bound : s.frames.endFrame ≤ 2 ^ 40

/-! ## The list -/

theorem mem_trackFrame {l : List Nat} : g ∈ trackFrame f l ↔ g ∈ l ∨ g = f := by
  unfold trackFrame
  split
  · rename_i hf
    constructor
    · exact .inl
    · rintro (hg | rfl)
      · exact hg
      · exact hf
  · simp

theorem isPageTableFrame_track (h : s.tracker.isSome = true)
    (ht : s'.tracker = s.tracker.map (trackFrame f)) :
    s'.isPageTableFrame g = true ↔ s.isPageTableFrame g = true ∨ g = f := by
  obtain ⟨l, hl⟩ := Option.isSome_iff_exists.mp h
  simp only [KMem.isPageTableFrame, ht, hl, Option.map_some, Option.any_some, decide_eq_true_eq]
  exact mem_trackFrame

/-! ## Walks -/

theorem below_succ (ht : t ∈ tablesBelow mem R d) (hi : i < 512)
    (hc : tableAt mem t i = some c) : c ∈ tablesBelow mem R (d + 1) :=
  ⟨t, ht, i, hi, hc⟩

/-- Walks see only the entries of tables above the last level. -/
theorem below_congr (h : ∀ k < 3, ∀ t ∈ tablesBelow mem R k, ∀ i < 512, tableAt mem' t i =
    tableAt mem t i) : ∀ k ≤ 3, tablesBelow mem' R k = tablesBelow mem R k := by
  intro k
  induction k with
  | zero => intro _; rfl
  | succ k ih =>
    intro hk
    ext c
    simp only [tablesBelow, ih (by omega), Set.mem_ofPred_eq]
    constructor
    · rintro ⟨t, ht, i, hi, hc⟩
      exact ⟨t, ht, i, hi, (h k (by omega) t ht i hi).symm.trans hc⟩
    · rintro ⟨t, ht, i, hi, hc⟩
      exact ⟨t, ht, i, hi, (h k (by omega) t ht i hi).trans hc⟩

/-- A change that no walk sees. -/
theorem Tabled.of_same (h : Tabled s R)
    (hT : ∀ k ≤ 3, tablesBelow s'.mem R k = tablesBelow s.mem R k) (ht : s'.tracker = s.tracker)
    (hc : s'.cr3 = s.cr3) (hf : ∀ f, Fresh s'.frames f → Fresh s.frames f)
    (hb : s'.frames.endFrame = s.frames.endFrame) : Tabled s' R := by
  have huse : ∀ f, InUse s' R f ↔ InUse s R f := by
    intro f
    constructor
    · rintro ⟨d, hd, hm⟩
      exact ⟨d, hd, hT d hd ▸ hm⟩
    · rintro ⟨d, hd, hm⟩
      exact ⟨d, hd, (hT d hd).symm ▸ hm⟩
  constructor
  case initialised => rw [ht]; exact h.initialised
  case exact =>
    intro f
    rw [huse, ← h.exact, KMem.isPageTableFrame, ht]
    rfl
  case levels =>
    intro d hd d' hd' f
    rw [hT d hd, hT d' hd']
    exact h.levels d hd d' hd' f
  case held => exact fun f hs hfr => h.held f ((huse f).mp hs) (hf f hfr)
  case active => rw [hc]; exact h.active
  case bound => rw [hb]; exact h.bound

/-- Stores to L1 tables do not change which frames are tables. -/
theorem Tabled.below_leaf (h : Tabled s R) (ht : t ∈ tablesBelow s.mem R 3) (i : Nat)
    (w : Word) : ∀ k ≤ 3, tablesBelow (s.setEntry t i w).mem R k = tablesBelow s.mem R k := by
  refine below_congr fun k hk t' ht' j _ => ?_
  have hne : t' ≠ t := by
    rintro rfl
    have := h.levels k (by omega) 3 le_rfl t' ht' ht
    omega
  rw [tableAt, tableAt, setEntry_mem, Radix.put_frame _ _ _ hne]

theorem Tabled.leaf (h : Tabled s R) (ht : t ∈ tablesBelow s.mem R 3) (i : Nat)
    (w : Word) : Tabled (s.setEntry t i w) R :=
  h.of_same (h.below_leaf ht i w) rfl rfl (fun _ hf => hf) rfl

/-! ## New tables -/

/-- One table more, at depth `d`. -/
theorem Tabled.addTable {R' : Set Nat} (h : Tabled s R) (hd : d ≤ 3)
    (hbelow : ∀ k ≤ 3, tablesBelow s'.mem R' k = tablesBelow s.mem R k ∪ { g | g = f ∧ k = d })
    (hfresh : Fresh s.frames f) (hused : ¬Fresh s'.frames f) (hle : FramesLe s.frames s'.frames)
    (htrack : s'.tracker = s.tracker.map (trackFrame f)) (hactive : s'.cr3 ∈ R') :
    Tabled s' R' := by
  -- the frame was free, so it was a table at no level
  have hnew : ∀ k ≤ 3, f ∉ tablesBelow s.mem R k := fun k hk hm => h.held f ⟨k, hk, hm⟩ hfresh
  have huse : ∀ g, InUse s' R' g ↔ InUse s R g ∨ g = f := by
    intro g
    constructor
    · rintro ⟨k, hk, hm⟩
      rw [hbelow k hk] at hm
      rcases hm with hm | ⟨rfl, -⟩
      · exact .inl ⟨k, hk, hm⟩
      · exact .inr rfl
    · rintro (⟨k, hk, hm⟩ | rfl)
      · exact ⟨k, hk, by rw [hbelow k hk]; exact .inl hm⟩
      · exact ⟨d, hd, by rw [hbelow d hd]; exact .inr ⟨rfl, rfl⟩⟩
  constructor
  case initialised =>
    rw [htrack, Option.isSome_map]
    exact h.initialised
  case exact =>
    intro g
    rw [huse, ← h.exact]
    exact isPageTableFrame_track h.initialised htrack
  case levels =>
    intro k hk k' hk' g hg hg'
    rw [hbelow k hk] at hg
    rw [hbelow k' hk'] at hg'
    rcases hg with hg | ⟨rfl, hkd⟩
    · rcases hg' with hg' | ⟨rfl, -⟩
      · exact h.levels k hk k' hk' g hg hg'
      · exact absurd hg (hnew k hk)
    · rcases hg' with hg' | ⟨-, hkd'⟩
      · exact absurd hg' (hnew k' hk')
      · exact hkd.trans hkd'.symm
  case held =>
    intro g hs hfr
    rcases (huse g).mp hs with hs | rfl
    · exact h.held g hs (hle.fresh hfr)
    · exact hused hfr
  case active => exact hactive
  case bound =>
    rw [hle.endFrame]
    exact h.bound

/-- A new table adds itself and nothing below it. -/
theorem Tabled.below_attach (h : Tabled s R) (hd : d < 3)
    (ht : t ∈ tablesBelow s.mem R d) (hi : i < 512) (habs : Pte.isPresent (s.mem t i) = false)
    (a : Allocated s s1 f) : ∀ k ≤ 3, tablesBelow (s1.attach t i f).mem R k =
      tablesBelow s.mem R k ∪ { g | g = f ∧ k = d + 1 } := by
  have hnew : ∀ k ≤ 3, f ∉ tablesBelow s.mem R k := fun k hk hm => h.held f ⟨k, hk, hm⟩ a.fresh
  have hft : f ≠ t := fun heq => hnew d (by omega) (heq ▸ ht)
  have hword := a.attach_entry (t := t) (i := i) h.bound
  have hold : ∀ k ≤ 3, ∀ t' ∈ tablesBelow s.mem R k, ∀ j, ¬(t' = t ∧ j = i) →
      tableAt (s1.attach t i f).mem t' j = tableAt s.mem t' j := by
    intro k hk t' ht' j hne
    rw [tableAt, tableAt, a.attach_other (fun heq => hnew k hk (heq ▸ ht')) hne]
  intro k
  -- level by level: the new table is one level below its parent and is empty
  induction k with
  | zero =>
    intro _
    ext c
    simp [tablesBelow]
  | succ k ih =>
    intro hk
    ext c
    simp only [tablesBelow, ih (by omega), Set.mem_union, Set.mem_ofPred_eq]
    constructor
    · rintro ⟨t', ht' | ⟨rfl, -⟩, j, hj, hc⟩
      · by_cases hti : t' = t ∧ j = i
        · obtain ⟨rfl, rfl⟩ := hti
          obtain rfl := h.levels k (by omega) d (by omega) t' ht' ht
          rw [hword] at hc
          exact .inr ⟨(Option.some.inj hc).symm, rfl⟩
        · exact .inl ⟨t', ht', j, hj, by rwa [hold k (by omega) t' ht' j hti] at hc⟩
      · rw [tableAt_of_zero (attach_empty hft j)] at hc
        cases hc
    · rintro (⟨t', ht', j, hj, hc⟩ | ⟨rfl, hkd⟩)
      · refine ⟨t', .inl ht', j, hj, ?_⟩
        rw [hold k (by omega) t' ht' j]
        · exact hc
        · rintro ⟨rfl, rfl⟩
          rw [tableAt_eq, child_of_absent habs] at hc
          cases hc
      · obtain rfl : k = d := by omega
        exact ⟨t, .inl ht, i, hi, hword⟩

/-- No table was given up. -/
def Extends (R : Set Nat) (s s' : KMem) : Prop :=
  ∀ k ≤ 3, tablesBelow s.mem R k ⊆ tablesBelow s'.mem R k

theorem Extends.refl (R : Set Nat) (s : KMem) : Extends R s s := fun _ _ => subset_rfl

theorem Extends.trans (h : Extends R s s1) (h' : Extends R s1 s') : Extends R s s' :=
  fun k hk => (h k hk).trans (h' k hk)

/-- Tabled, with the tables there were in `s`. -/
structure TabledAfter (R : Set Nat) (s s' : KMem) : Prop where
  tabled : Tabled s' R
  more : Extends R s s'

/-- One level of `map_page`, whether it completes or not. -/
theorem ensureTable_tabled (h : Tabled s R) (hd : d < 3)
    (ht : t ∈ tablesBelow s.mem R d) (hi : i < 512) :
    Ends (ensureTable t i msg) s (fun c s' => TabledAfter R s s' ∧ c ∈ tablesBelow s'.mem R (d + 1))
      (fun _ s' => TabledAfter R s s') := by
  have hsame : TabledAfter R s s := ⟨h, Extends.refl R s⟩
  refine (ensureTable_ends t i msg s).mono (fun c s' hc => ?_) fun _ _ ⟨_, _, heq⟩ => heq ▸ hsame
  obtain ⟨hp, rfl, rfl⟩ | ⟨hp, f, s1, a, htrack, hcf, rfl⟩ := hc
  · exact ⟨hsame, below_succ ht hi (child_of_present hp)⟩
  · obtain rfl := hcf h.bound
    have hbelow := h.below_attach hd ht hi hp a
    have hactive : s1.cr3 ∈ R := a.cr3 ▸ h.active
    refine ⟨⟨h.addTable (by omega) hbelow a.fresh a.owned.not_fresh a.frames htrack hactive,
      fun k hk => ?_⟩, ?_⟩
    · rw [hbelow k hk]
      exact Set.subset_union_left
    · rw [hbelow (d + 1) (by omega)]
      exact .inr ⟨rfl, rfl⟩

/-- `map_page` at any address, whether it completes or not. -/
theorem mapPage_tabled {pt va : Nat} {flags : Word} (h : Tabled s R) (hpt : pt ∈ R) :
    Ends (mapPage pt va f flags) s (fun _ s' => Tabled s' R) (fun _ s' => Tabled s' R) := by
  refine ends_mapPage (P := fun d t u => Tabled u R ∧ t ∈ tablesBelow u.mem R d) ⟨h, hpt⟩ ?_
    (fun _ _ hu _ => hu.1) fun _ _ hu _ => hu.1.leaf hu.2 _ _
  exact fun d t u msg hd hu => (ensureTable_tabled hu.1 hd hu.2 (indexAt_lt va d)).mono
    (fun _ _ k => ⟨k.1.tabled, k.2⟩) fun _ _ k => k.tabled

/-! ## New roots -/

/-- A new L4 table shares the lower levels of the active one. -/
theorem NewSpace.below (n : NewSpace s s' c) (h : Tabled s R) : ∀ k ≤ 3,
    tablesBelow s'.mem (insert c R) k = tablesBelow s.mem R k ∪ { g | g = c ∧ k = 0 } := by
  have hnew : ∀ k ≤ 3, c ∉ tablesBelow s.mem R k := fun k hk hm => h.held c ⟨k, hk, hm⟩ n.fresh
  have hcr3 : s.cr3 ≠ c := fun heq => hnew 0 (by omega) (heq ▸ h.active)
  have hmem : ∀ k ≤ 3, ∀ t ∈ tablesBelow s.mem R k, ∀ i, tableAt s'.mem t i =
      tableAt s.mem t i := by
    intro k hk t ht i
    rw [tableAt, tableAt, n.content t fun heq => hnew k hk (heq ▸ ht)]
  intro k
  induction k with
  | zero =>
    intro _
    ext g
    simp only [tablesBelow, Set.mem_insert_iff, Set.mem_union, Set.mem_ofPred_eq, and_true]
    exact Or.comm
  | succ k ih =>
    intro hk
    ext g
    simp only [tablesBelow, ih (by omega), Set.mem_union, Set.mem_ofPred_eq]
    constructor
    · rintro ⟨t, ht | ⟨rfl, rfl⟩, i, hi, hc⟩
      · exact .inl ⟨t, ht, i, hi, by rwa [hmem k (by omega) t ht i] at hc⟩
      · -- an entry of the new table was copied, or is empty
        refine .inl ⟨s.cr3, h.active, i, hi, ?_⟩
        by_cases hlow : i < 256
        · rw [tableAt, n.lower i hlow] at hc
          cases hc
        · rwa [tableAt, n.upper hcr3 i (by omega) hi] at hc
    · rintro (⟨t, ht, i, hi, hc⟩ | ⟨-, hk0⟩)
      · exact ⟨t, .inl ht, i, hi, by rwa [hmem k (by omega) t ht i]⟩
      · omega

theorem createUserPageTable_tabled (h : Tabled s R)
    (hret : Returns createUserPageTable s c s') : Tabled s' (insert c R) := by
  obtain ⟨n, htrack⟩ := hret.of_ends (createUserPageTable_ends s)
  exact h.addTable (Nat.zero_le 3) (n.below h) n.fresh n.owned.not_fresh n.frames htrack
    (n.cr3 ▸ Set.mem_insert_of_mem _ h.active)

/-! ## Clones -/

/-- A level of the clone's loops: from a table of each space at depth `d` on, it
keeps the tables in step, whether it completes or not. -/
def KeepsTables (R : Set Nat) (d : Nat) (x : Nat → Nat → KM Unit) : Prop :=
  ∀ s tp tc, Tabled s R → tp ∈ tablesBelow s.mem R d → tc ∈ tablesBelow s.mem R d →
    Ends (x tp tc) s (fun _ s' => TabledAfter R s s') (fun _ s' => TabledAfter R s s')

theorem cloneLeaves_tables : KeepsTables R 3 cloneLeaves := by
  intro s tp tc h hp hc
  refine ends_forRange (I := TabledAfter R s) ⟨h, Extends.refl R s⟩ fun i t _ _ ht => ?_
  have hp' := ht.more 3 le_rfl hp
  have hc' := ht.more 3 le_rfl hc
  have hstore : ∀ {t : KMem} {g : Nat} (j : Nat) (w : Word), TabledAfter R s t →
      g ∈ tablesBelow t.mem R 3 → TabledAfter R s (t.setEntry g j w) := fun j w hk hg =>
    ⟨hk.tabled.leaf hg j w, hk.more.trans fun k hk' => (hk.tabled.below_leaf hg j w k hk').ge⟩
  have hcount : ∀ {t : KMem} (g : Nat), TabledAfter R s t →
      TabledAfter R s { t with frames := (t.frames.incRefcount g).2 } := fun g hk => by
    obtain ⟨hle, -⟩ := framesLe_incRefcount _ g
    exact ⟨hk.tabled.of_same (fun _ _ => rfl) rfl rfl (fun _ hf => hle.fresh hf) hle.endFrame,
      hk.more⟩
  simp only [readEntry, writeEntry, incFrameRefcount, ends_bind, ends_get, ends_pure]
  split
  · split
    · simp only [ends_bind, ends_modify]
      have hk :=
        hstore i (Pte.make (Pte.addr (t.mem tp i)) (cowFlags (Pte.flags (t.mem tp i)))) ht hp'
      exact hcount _ (hstore i _ hk (by rwa [ht.tabled.below_leaf hp' i _ 3 le_rfl]))
    · simp only [ends_bind, ends_modify]
      exact hcount _ (hstore i _ ht hc')
  · exact ht

theorem cloneEntries_tables {n : Nat} {check : Word → KM Unit}
    {below : Nat → Nat → KM Unit} (hd : d < 3) (hn : n ≤ 512)
    (hcheck : ∀ e s, Ends (check e) s (fun _ s' => s' = s) (fun _ s' => s' = s))
    (hbelow : KeepsTables R (d + 1) below) :
    KeepsTables R d fun tp tc => cloneEntries tp tc n msg check below := by
  intro s tp tc h hp hc
  refine ends_forRange (I := TabledAfter R s) ⟨h, Extends.refl R s⟩ fun i t _ hi ht => ?_
  simp only [readEntry, ends_bind, ends_get, ends_pure]
  split
  · rename_i hpres
    simp only [ends_bind]
    refine (hcheck _ t).mono (fun _ t' heq => ?_) fun _ t' heq => heq ▸ ht
    subst heq
    refine (ensureTable_tabled ht.tabled hd (ht.more d (by omega) hc) (by omega)).mono
      (fun c t1 k1 => ?_) fun _ _ k => ⟨k.tabled, ht.more.trans k.more⟩
    have hchild := below_succ (ht.more d (by omega) hp) (by omega) (child_of_present hpres)
    refine (hbelow t1 _ c k1.1.tabled (k1.1.more (d + 1) (by omega) hchild) k1.2).mono
      (fun _ _ k => ?_) fun _ _ k => ?_
    · exact ⟨k.tabled, (ht.more.trans k1.1.more).trans k.more⟩
    · exact ⟨k.tabled, (ht.more.trans k1.1.more).trans k.more⟩
  · exact ht

theorem checkNotHuge_ends (e : Word) (s : KMem) :
    Ends (checkNotHuge e) s (fun _ s' => s' = s) (fun _ s' => s' = s) := by
  unfold checkNotHuge
  split
  · rfl
  · rfl

/-- The loops of the clone. -/
theorem cloneLoops_tables : KeepsTables R 0 fun tp tc =>
    cloneEntries tp tc 256 "Failed to allocate L3 for clone" (fun _ => pure ()) cloneL3 :=
  cloneEntries_tables (by omega) (by omega) (fun _ _ => ends_pure.mpr rfl)
    (cloneEntries_tables (by omega) le_rfl (fun _ _ => ends_pure.mpr rfl)
      (cloneEntries_tables (by omega) le_rfl checkNotHuge_ends cloneLeaves_tables))

/-- A clone adds the child to the roots; a clone that fails half way leaves it. -/
theorem cloneUserAddressSpace_tabled {parent : Nat} (h : Tabled s R) (hp : parent ∈ R)
    (hnew : Returns createUserPageTable s c s1) :
    Ends (cloneUserAddressSpace parent) s (fun c' s' => c' = c ∧ Tabled s' (insert c R))
      (fun _ s' => Tabled s' (insert c R)) := by
  have h1 := createUserPageTable_tabled h hnew
  simp only [cloneUserAddressSpace, ends_bind]
  refine hnew.ends ?_
  exact (cloneLoops_tables s1 parent c h1 (Set.mem_insert_of_mem c hp) (Set.mem_insert c R)).mono
    (fun _ _ k => ⟨rfl, k.tabled⟩) fun _ _ k => k.tabled

end PandaOS.Kernel
