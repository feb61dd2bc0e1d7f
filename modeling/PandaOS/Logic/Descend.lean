import PandaOS.Logic.Spare
import PandaOS.Logic.Walk

/-!
# Going down through tables

`map_page` goes down from the L4 table one index at a time and creates the tables
that are missing. `descend` is this walk for any list of indices. Frames are taken
for the missing tables only, and once one is missing so are all that follow, for a
new table is empty: what the walk costs and where it ends can be read off the state
before it (`descend_ends`). No tree is assumed here; tables may be shared.
-/

namespace PandaOS.Kernel

open Hal Lib

variable {s s' s1 : KMem} {mem : Nat → Nat → Word} {path : List Nat} {l : Nat} {H : Set Nat}

/-! ## Paths -/

/-- The table at the end of a path. -/
def follow (mem : Nat → Nat → Word) : List Nat → Nat → Option Nat
  | [], t => some t
  | i :: path, t => (tableAt mem t i).bind (follow mem path)

/-- The number of tables that are missing on a path. -/
def missingTables (mem : Nat → Nat → Word) : List Nat → Nat → Nat
  | [], _ => 0
  | i :: path, t =>
    match tableAt mem t i with
    | some c => missingTables mem path c
    | none => path.length + 1

/-- As far as a path goes, its tables are in `H`. -/
def PathIn (H : Set Nat) (mem : Nat → Nat → Word) : List Nat → Nat → Prop
  | [], t => t ∈ H
  | i :: path, t => t ∈ H ∧ ∀ c, tableAt mem t i = some c → PathIn H mem path c

/-- The frames in use other than those of `A`. -/
def heldBut (s : KMem) (A : Set Nat) : Set Nat := { g | ¬Fresh s.frames g ∧ g ∉ A }

section

variable {mem : Nat → Nat → Word} {t : Nat} (h : ∀ j, mem t j = 0)
include h

theorem follow_of_zero (path : List Nat) (hl : follow mem path t = some l) : l = t := by
  cases path with
  | nil => exact (Option.some.inj hl).symm
  | cons i path =>
    rw [follow, tableAt_of_zero (h i)] at hl
    cases hl

theorem missingTables_of_zero (path : List Nat) : missingTables mem path t = path.length := by
  cases path with
  | nil => rfl
  | cons i path => rw [missingTables, tableAt_of_zero (h i), List.length_cons]

theorem pathIn_of_zero (ht : t ∈ H) (path : List Nat) : PathIn H mem path t := by
  cases path with
  | nil => exact ht
  | cons i path =>
    refine ⟨ht, fun c hc => ?_⟩
    rw [tableAt_of_zero (h i)] at hc
    cases hc

end

/-- A path that can be followed misses nothing. -/
theorem missingTables_eq_zero {t : Nat} (h : follow mem path t = some l) :
    missingTables mem path t = 0 := by
  induction path generalizing t with
  | nil => rfl
  | cons i path ih =>
    obtain ⟨c, hc, hrest⟩ := Option.bind_eq_some_iff.mp h
    rw [missingTables, hc]
    exact ih hrest

theorem PathIn.mono {H' : Set Nat} {t : Nat} (h : PathIn H mem path t) (hsub : H ⊆ H') :
    PathIn H' mem path t := by
  induction path generalizing t with
  | nil => exact hsub h
  | cons i path ih => exact ⟨hsub h.1, fun c hc => ih (h.2 c hc)⟩

theorem PathIn.last_mem {t : Nat}
    (h : PathIn H mem path t) (hl : follow mem path t = some l) : l ∈ H := by
  induction path generalizing t with
  | nil => exact Option.some.inj hl ▸ h
  | cons i path ih =>
    obtain ⟨c, hc, hrest⟩ := Option.bind_eq_some_iff.mp hl
    exact ih (h.2 c hc) hrest

/-- A complete path stays as long as the present entries of its tables do. -/
theorem PathIn.kept {mem' : Nat → Nat → Word} {t : Nat}
    (h : PathIn H mem path t) (hl : follow mem path t = some l)
    (hkeep : ∀ g ∈ H, ∀ i c, tableAt mem g i = some c → tableAt mem' g i = some c) :
    PathIn H mem' path t ∧ follow mem' path t = some l := by
  induction path generalizing t with
  | nil => exact ⟨h, hl⟩
  | cons i path ih =>
    obtain ⟨c, hc, hrest⟩ := Option.bind_eq_some_iff.mp hl
    obtain ⟨hin, hlast⟩ := ih (h.2 c hc) hrest
    have hc' := hkeep t h.1 i c hc
    refine ⟨⟨h.1, fun d hd => ?_⟩, by rw [follow, hc']; exact hlast⟩
    rw [hc'] at hd
    cases hd
    exact hin

/-! ## The walk -/

/-- Go down from a table, with the text of the error at each level. -/
def descend : List (Nat × String) → Nat → KM Nat
  | [], t => pure t
  | (i, msg) :: path, t => do
    let c ← ensureTable t i msg
    descend path c

/-- What the walk along a path has done. Frames in `A` are not touched. -/
structure Descended (A : Set Nat) (path : List Nat) (t l : Nat) (s s' : KMem) : Prop where
  count : spare s = spare s' + missingTables s.mem path t
  frames : FramesLe s.frames s'.frames
  kept : ∀ g j, ¬Fresh s.frames g → Pte.isPresent (s.mem g j) = true → s'.mem g j = s.mem g j
  inside : PathIn (heldBut s' A) s'.mem path t
  last : follow s'.mem path t = some l
  /-- The table was there and nothing has changed, or it is new. -/
  cases : (s' = s ∧ follow s.mem path t = some l) ∨
    (follow s.mem path t = none ∧ ∀ j, s'.mem l j = 0)

variable {A : Set Nat} {path : List Nat} {t l i c : Nat}

theorem Descended.refl (h : t ∈ heldBut s A) : Descended A [] t t s s where
  count := rfl
  frames := .refl _
  kept _ _ _ _ := rfl
  inside := h
  last := rfl
  cases := .inl ⟨rfl, rfl⟩

/-- A table on the path that is there. -/
theorem Descended.old (d : Descended A path c l s s') (ht : t ∈ heldBut s A)
    (hc : tableAt s.mem t i = some c) : Descended A (i :: path) t l s s' := by
  have hkept : tableAt s'.mem t i = some c := by
    rw [tableAt_eq, d.kept t i ht.1 (tableAt_some hc).1, ← tableAt_eq, hc]
  constructor
  case count =>
    rw [missingTables, hc]
    exact d.count
  case frames => exact d.frames
  case kept => exact d.kept
  case inside =>
    refine ⟨⟨fun hf => ht.1 (d.frames.fresh hf), ht.2⟩, fun c' hc' => ?_⟩
    rw [hkept] at hc'
    cases hc'
    exact d.inside
  case last =>
    rw [follow, hkept]
    exact d.last
  case cases =>
    rw [follow, hc]
    exact d.cases

/-- A run of `ensureTable` where the table was missing. -/
structure Made (s s1 : KMem) (t i c : Nat) : Prop where
  fresh : Fresh s.frames c
  held : ¬Fresh s1.frames c
  frames : FramesLe s.frames s1.frames
  count : spare s = spare s1 + 1
  empty : ∀ j, s1.mem c j = 0
  entry : tableAt s1.mem t i = some c
  kept : ∀ g j, ¬Fresh s.frames g → Pte.isPresent (s.mem g j) = true → s1.mem g j = s.mem g j

theorem ensureTable_made {msg : String} (ht : ¬Fresh s.frames t) (hb : s.frames.endFrame ≤ 2 ^ 40)
    (hc : tableAt s.mem t i = none) :
    Ends (ensureTable t i msg) s (fun c s1 => Made s s1 t i c) fun e _ => (∃ msg, e = .err msg) ∧
      spare s = 0 := by
  have habs : Pte.isPresent (s.mem t i) = false := by
    rw [← child_isSome, ← tableAt_eq, hc]
    rfl
  refine (ensureTable_ends t i msg s).mono (fun c s1 h => ?_) fun e _ ⟨_, hout, _⟩ =>
    ⟨hout.1, spare_eq_zero.mpr hout.2⟩
  obtain ⟨hp, -, -⟩ | ⟨-, f, s2, a, -, hcf, rfl⟩ := h
  · rw [habs] at hp
    cases hp
  · obtain rfl := hcf hb
    refine ⟨a.fresh, a.owned.not_fresh, a.frames, a.spare.symm,
      attach_empty fun heq => ht (heq ▸ a.fresh),
      a.attach_entry hb, fun g j hg hp => a.attach_other (fun heq => hg (heq ▸ a.fresh)) ?_⟩
    rintro ⟨rfl, rfl⟩
    rw [habs] at hp
    cases hp

/-- A table on the path that is missing: the rest of the path is missing too. -/
theorem Descended.new (d : Descended A path c l s1 s') (ht : t ∈ heldBut s A)
    (m : Made s s1 t i c) (hc : tableAt s.mem t i = none) : Descended A (i :: path) t l s s' := by
  have hkept : tableAt s'.mem t i = some c := by
    rw [tableAt_eq, d.kept t i (fun hf => ht.1 (m.frames.fresh hf))
      (tableAt_some m.entry).1, ← tableAt_eq, m.entry]
  constructor
  case count =>
    have hone := m.count
    have hrest := d.count
    rw [missingTables_of_zero m.empty] at hrest
    rw [missingTables, hc]
    simp only
    omega
  case frames => exact m.frames.trans d.frames
  case kept =>
    intro g j hg hp
    have hsame := m.kept g j hg hp
    rw [d.kept g j (fun hf => hg (m.frames.fresh hf)) (by rwa [hsame]), hsame]
  case inside =>
    refine ⟨⟨fun hf => ht.1 ((m.frames.trans d.frames).fresh hf), ht.2⟩, fun c' hc' => ?_⟩
    rw [hkept] at hc'
    cases hc'
    exact d.inside
  case last =>
    rw [follow, hkept]
    exact d.last
  case cases =>
    refine .inr ⟨by rw [follow, hc]; rfl, ?_⟩
    rcases d.cases with ⟨rfl, hl⟩ | ⟨-, hl⟩
    · rw [follow_of_zero m.empty path hl]
      exact m.empty
    · exact hl

/-- The walk takes the missing tables from the frames left, and fails if there are
fewer. -/
theorem descend_ends (hA : ∀ g ∈ A, ¬Fresh s.frames g) (hb : s.frames.endFrame ≤ 2 ^ 40)
    (levels : List (Nat × String)) (h : PathIn (heldBut s A) s.mem (levels.map Prod.fst) t) :
    Ends (descend levels t) s (fun l s' => Descended A (levels.map Prod.fst) t l s s')
      fun e _ => (∃ msg, e = .err msg) ∧ spare s < missingTables s.mem (levels.map Prod.fst) t := by
  induction levels generalizing s t with
  | nil => exact Descended.refl h
  | cons level levels ih =>
    obtain ⟨i, msg⟩ := level
    obtain ⟨ht, hrest⟩ := h
    simp only [descend, ends_bind, List.map_cons]
    cases hc : tableAt s.mem t i with
    | some c =>
      have hens : Returns (ensureTable t i msg) s c s := (returns_ensureTable hc).mpr ⟨rfl, rfl⟩
      refine hens.ends ((ih hA hb (hrest c hc)).mono (fun l s' d => d.old ht hc)
        fun _ _ hfail => ?_)
      rwa [missingTables, hc]
    | none =>
      have hlen : missingTables s.mem (i :: levels.map Prod.fst) t =
          (levels.map Prod.fst).length + 1 := by
        rw [missingTables, hc]
      refine (ensureTable_made ht.1 hb hc).mono (fun c s1 m => ?_) fun e _ hnone => ?_
      · have hA1 : ∀ g ∈ A, ¬Fresh s1.frames g := fun g hg hf => hA g hg (m.frames.fresh hf)
        have hcin : c ∈ heldBut s1 A := ⟨m.held, fun hin => hA c hin m.fresh⟩
        have hdown := ih hA1 (by rw [m.frames.endFrame]; exact hb) (pathIn_of_zero m.empty hcin _)
        refine hdown.mono (fun l s' d => d.new ht m hc) fun _ _ hfail => ?_
        have hone := m.count
        rw [missingTables_of_zero m.empty] at hfail
        exact ⟨hfail.1, by omega⟩
      · exact ⟨hnone.1, by omega⟩

/-! ## Mapping a page -/

/-- The indices above the L1 table of an address. -/
def indices (va : Nat) : List Nat := [p4Index va, p3Index va, p2Index va]

/-- The same with `map_page`'s texts. -/
def levels (va : Nat) : List (Nat × String) :=
  [(p4Index va, "Failed to allocate L3 page table"),
    (p3Index va, "Failed to allocate L2 page table"),
    (p2Index va, "Failed to allocate L1 page table")]

variable {pt va f : Nat} {flags : Word}

theorem mapPage_eq : mapPage pt va f flags = (do
    let l1 ← descend (levels va) pt
    let e ← readEntry l1 (p1Index va)
    if Pte.isPresent e && Pte.addr e != frameAddr f then
      throwPanic (remapText va (Pte.addr e) (frameAddr f))
    else writeEntry l1 (p1Index va) (Pte.make (frameAddr f) flags)) := by
  simp only [mapPage, levels, descend, bind_assoc, pure_bind]

/-- The entry of a page, if it is present. -/
def presentEntry (s : KMem) (l1 i : Nat) : Option Word :=
  if Pte.isPresent (s.mem l1 i) then some (s.mem l1 i) else none

theorem walkEntry_follow (s : KMem) (pt va : Nat) :
    walkEntry s pt va = (follow s.mem (indices va) pt).bind fun l1 => presentEntry s l1
      (p1Index va) := by
  have hleaf : leafTable s.mem pt va = follow s.mem (indices va) pt := by
    show _ = (tableAt s.mem pt (p4Index va)).bind fun l3 =>
      (tableAt s.mem l3 (p3Index va)).bind fun l2 => (tableAt s.mem l2 (p2Index va)).bind some
    simp only [Option.bind_fun_some]
    rfl
  have hwalk : walkPageTable s.mem pt va = (leafTable s.mem pt va).bind fun l1 =>
      if Pte.isPresent (s.mem l1 (p1Index va)) then some (l1, p1Index va) else none := rfl
  rw [walkEntry, hwalk, hleaf]
  cases follow s.mem (indices va) pt with
  | none => rfl
  | some l1 =>
    simp only [Option.bind_some, presentEntry]
    split
    · rfl
    · rfl

/-- The pages of the L1 table were those that the walk finds. -/
theorem Descended.walkEntry (d : Descended A (indices va) pt l s s') :
    walkEntry s pt va = presentEntry s' l (p1Index va) := by
  rw [walkEntry_follow]
  rcases d.cases with ⟨rfl, hl⟩ | ⟨hl, hzero⟩
  · rw [hl, Option.bind_some]
  · rw [hl, presentEntry, hzero]
    rfl

/-- `map_page` of a frame that the page does not map yet. It panics if the page maps
another frame, and gives up if there are fewer frames left than tables missing. -/
theorem mapPage_takes (hA : ∀ g ∈ A, ¬Fresh s.frames g) (hb : s.frames.endFrame ≤ 2 ^ 40)
    (hpath : PathIn (heldBut s A) s.mem (indices va) pt)
    (hother : ∀ e, walkEntry s pt va = some e → Pte.addr e ≠ frameAddr f) :
    Ends (mapPage pt va f flags) s (fun _ s' => walkEntry s pt va = none ∧
        spare s = spare s' + missingTables s.mem (indices va) pt ∧ FramesLe s.frames s'.frames ∧
        PathIn (heldBut s' A) s'.mem (indices va) pt ∧ follow s'.mem (indices va) pt ≠ none ∧
        ∀ va', indices va' = indices va → p1Index va' ≠ p1Index va →
          walkEntry s' pt va' = walkEntry s pt va')
      fun e _ => ((∃ msg, e = .err msg) ∧ spare s < missingTables s.mem (indices va) pt) ∨
        ((∃ msg, e = .panic msg) ∧ walkEntry s pt va ≠ none ∧
          missingTables s.mem (indices va) pt = 0) := by
  rw [mapPage_eq]
  simp only [ends_bind]
  refine (descend_ends hA hb (levels va) hpath).mono (fun l1 s1 d => ?_) fun _ _ => .inl
  have d : Descended A (indices va) pt l1 s s1 := d
  have hwalk := d.walkEntry
  simp only [readEntry, ends_bind, ends_get, ends_pure]
  cases hp : Pte.isPresent (s1.mem l1 (p1Index va)) with
  | true =>
    rw [presentEntry, hp, if_pos rfl] at hwalk
    have hne := hother _ hwalk
    simp only [Bool.true_and, bne_iff_ne, ne_eq, hne, not_false_eq_true, if_true]
    refine .inr ⟨⟨_, rfl⟩, by simp [hwalk], ?_⟩
    rw [walkEntry_follow] at hwalk
    obtain ⟨l, hl, -⟩ := Option.bind_eq_some_iff.mp hwalk
    exact missingTables_eq_zero hl
  | false =>
    rw [presentEntry, hp, if_neg (by simp)] at hwalk
    simp only [Bool.false_and, Bool.false_eq_true, if_false, writeEntry, ends_modify]
    -- the entry was absent, so the store is to no entry of the path
    have hput : ∀ g i c, tableAt s1.mem g i = some c →
        tableAt (s1.setEntry l1 (p1Index va) (Pte.make (frameAddr f) flags)).mem g i = some c := by
      intro g i c hc
      rw [tableAt_eq, setEntry_mem, Radix.put_ne, ← tableAt_eq, hc]
      rintro ⟨rfl, rfl⟩
      rw [(tableAt_some hc).1] at hp
      cases hp
    obtain ⟨hin, hlast⟩ := d.inside.kept d.last fun g _ => hput g
    refine ⟨hwalk, d.count, d.frames, hin, by simp [hlast], fun va' hind hne => ?_⟩
    have d' : Descended A (indices va') pt l1 s s1 := hind ▸ d
    rw [d'.walkEntry, walkEntry_follow, hind, hlast, Option.bind_some, presentEntry, presentEntry,
      setEntry_mem, Radix.put_ne _ _ fun heq => hne heq.2]

end PandaOS.Kernel
