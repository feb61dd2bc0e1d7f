import PandaOS.Logic.Spare
import Mathlib.Order.Interval.Finset.Nat

/-!
# Cloning an address space

`clone_user_address_space` walks the parent's tables in the order of the pages,
so its progress is one number: the pages below `b` are shared, those from `b`
on are still as they were (`Cloned`). Every level of the nested loops takes the
bound from the first page below its table to the page after the last one.
-/

namespace PandaOS.Kernel

open Hal Lib

variable {s s' s1 t : KMem} {roots K : Set Nat} {parent child b r b' : Nat} {e : Word}
  {q i tp tc : Nat} {d : Nat}

/-! ## Reference counts -/

/-- What `inc_refcount` does to a count. -/
def bump (n : Nat) : Nat := if 0 < n ∧ n < maxRefcount then n + 1 else n

theorem rcOf_incRefcount (a : FrameAllocator) (f g : Nat) :
    rcOf (a.incRefcount f).2 g = if g = f then bump (rcOf a f) else rcOf a g := by
  unfold FrameAllocator.incRefcount
  cases hrc : a.getRefcount f with
  | none =>
    simp only
    split
    · rename_i hgf
      subst hgf
      simp [rcOf, hrc, bump]
    · rfl
  | some n =>
    simp only
    have hrcf : rcOf a f = n := by simp [rcOf, hrc]
    by_cases hn : 0 < n ∧ n < maxRefcount
    · rw [if_pos hn]
      have hin : a.inRange f = true := by
        by_contra hin
        simp [FrameAllocator.getRefcount, hin] at hrc
      simp only [FrameAllocator.setRefcount, hin, if_true]
      unfold rcOf FrameAllocator.getRefcount FrameAllocator.inRange at *
      by_cases hgf : g = f
      · subst hgf
        cases hr : a.refcounts with
        | none => simp [hr] at hrc
        | some rc => simp_all [bump]
      · cases a.refcounts with
        | none => simp [hgf]
        | some rc => simp [hgf]
    · rw [if_neg hn]
      by_cases hgf : g = f
      · subst hgf
        rw [if_pos rfl, hrcf, bump, if_neg hn]
      · rw [if_neg hgf]

theorem framesLe_incRefcount (a : FrameAllocator) (f : Nat) :
    FramesLe a (a.incRefcount f).2 ∧ (a.incRefcount f).2.allocated = a.allocated := by
  unfold FrameAllocator.incRefcount
  cases a.getRefcount f with
  | none => exact ⟨.refl a, rfl⟩
  | some n =>
    simp only
    split
    · unfold FrameAllocator.setRefcount
      split
      · exact ⟨⟨rfl, rfl, rfl, by simp, fun _ h => h⟩, rfl⟩
      · exact ⟨.refl a, rfl⟩
    · exact ⟨.refl a, rfl⟩

/-! ## Progress -/

/-- How many of the first `b` pages of an address space map a frame. -/
def refs (s : KMem) (r f b : Nat) : Nat :=
  Nat.count (fun v => (leafOf s r v).map Pte.frame = some f) b

/-- The entry a page of the parent has after the clone. -/
def shareParent (e : Word) : Word :=
  if Pte.has (Pte.flags e) Pte.WRITABLE then Pte.make (Pte.addr e) (cowFlags (Pte.flags e)) else e

/-- The entry the child gets for a page of the parent. -/
def shareChild (e : Word) : Word := Pte.make (Pte.addr e) (cowFlags (Pte.flags e))

/-- The clone that began in `s1` has shared the pages below `b`. -/
structure Cloned (s1 : KMem) (roots K : Set Nat) (parent child b : Nat) (s : KMem) : Prop where
  wf : Wf s roots K
  grows : Grows roots s1 s
  parent_leaf : ∀ v < userPages, leafOf s parent v =
    if v < b then (leafOf s1 parent v).map shareParent else leafOf s1 parent v
  child_leaf : ∀ v < userPages, leafOf s child v =
    if v < b then (leafOf s1 parent v).map shareChild else none
  other_leaf : ∀ r ∈ roots, r ≠ parent → r ≠ child → ∀ v < userPages, leafOf s r v = leafOf s1 r v
  rc : ∀ f, ¬IsTable s roots f → rcOf s.frames f = bump^[refs s1 parent f b] (rcOf s1.frames f)

/-- New tables do not change the progress. -/
theorem Cloned.grow (h : Cloned s1 roots K parent child b s) (hp : parent ∈ roots)
    (hc : child ∈ roots) (a : AddsTables roots K s s') : Cloned s1 roots K parent child b s' where
  wf := a.wf
  grows := h.grows.trans a.toGrows
  parent_leaf v hv := (a.leaves parent hp v hv).trans (h.parent_leaf v hv)
  child_leaf v hv := (a.leaves child hc v hv).trans (h.child_leaf v hv)
  other_leaf r hr hrp hrc v hv := (a.leaves r hr v hv).trans (h.other_leaf r hr hrp hrc v hv)
  rc f hf := (a.counts f hf).trans (h.rc f fun ht => hf (a.isTable ht))

theorem refs_skip {f : Nat} (hb : b ≤ b')
    (hnone : ∀ v, b ≤ v → v < b' → leafOf s r v = none) : refs s r f b' = refs s r f b := by
  induction b', hb using Nat.le_induction with
  | base => rfl
  | succ n hn ih =>
    have hnone' := hnone n hn (by omega)
    have hstep : refs s r f (n + 1) = refs s r f n := by
      unfold refs
      rw [Nat.count_succ, if_neg (by simp [hnone']), Nat.add_zero]
    rw [hstep]
    exact ih fun v hlo hhi => hnone v hlo (by omega)

/-- Pages that the parent does not map need nothing. -/
theorem Cloned.skip (h : Cloned s1 roots K parent child b s) (hb : b ≤ b')
    (hnone : ∀ v, b ≤ v → v < b' → leafOf s1 parent v = none) :
    Cloned s1 roots K parent child b' s where
  wf := h.wf
  grows := h.grows
  parent_leaf v hv := by
    rw [h.parent_leaf v hv]
    split_ifs
    all_goals first | rfl | omega | (rw [hnone v (by omega) (by omega)]; rfl)
  child_leaf v hv := by
    rw [h.child_leaf v hv]
    split_ifs
    all_goals first | rfl | omega | (rw [hnone v (by omega) (by omega)]; rfl)
  other_leaf := h.other_leaf
  rc f hf := by rw [h.rc f hf, refs_skip hb hnone]

/-! ## Sharing one page -/

theorem pageFlags_cow (h : Pte.isPresent e = true) : PageFlags (cowFlags (Pte.flags e)) := by
  refine ⟨Pte.cowFlags_mask (Pte.flags_mask e), ?_⟩
  rw [Pte.cowFlags_bit _ (by decide) (by decide) (by decide),
    Pte.flags_bit e (by decide), ← Pte.isPresent_eq, h]

theorem child_shareChild (h : Pte.isPresent e = true) :
    pml4.child (shareChild e) = some (Pte.frame e) := by
  have hf := pageFlags_cow h
  unfold shareChild
  rw [child_of_present (by rw [Pte.isPresent_make, hf.2]), Pte.frame_make_addr hf.1]

theorem child_shareParent (h : Pte.isPresent e = true) :
    pml4.child (shareParent e) = some (Pte.frame e) := by
  unfold shareParent
  split
  · exact child_shareChild h
  · exact child_of_present h

/-- Changing reference counts only. -/
theorem Grows.of_counts {a : FrameAllocator} (hle : FramesLe s.frames a)
    (hal : a.allocated = s.frames.allocated) : Grows roots s { s with frames := a } where
  cr3 := rfl
  debug := rfl
  frames := hle
  others f _ := congrFun hal f
  kept _ _ := rfl
  upper _ _ _ _ := rfl
  nodes _ _ _ _ _ _ _ h := h
  tables _ h := .inl h

/-- Storing the word that is there changes nothing. -/
theorem setEntry_self (s : KMem) (t i : Nat) : s.setEntry t i (s.mem t i) = s := by
  unfold KMem.setEntry
  have hmem : (fun f => if f = t then fun j =>
      if j = i then s.mem t i else s.mem t j else s.mem f) = s.mem := by
    funext f j
    by_cases hf : f = t
    · by_cases hj : j = i
      · simp [hf, hj]
      · simp [hf, hj]
    · simp [hf]
  rw [hmem]

/-- The state after the page with entry `e` has been shared. -/
def sharePage (s : KMem) (tp tc i : Nat) (e : Word) : KMem :=
  let s := (s.setEntry tp i (shareParent e)).setEntry tc i (shareChild e)
  { s with frames := (s.frames.incRefcount (Pte.frame e)).2 }

section

variable (hp : parent ∈ roots) (hc : child ∈ roots) (hi : i < 512) (hv : q * 512 + i < userPages)
  (htp : pml4.node s.mem parent 3 q = some tp) (htc : pml4.node s.mem child 3 q = some tc)
  (he : leafOf s parent (q * 512 + i) = some e) (hpres : Pte.isPresent e = true)
include hp hc hi hv htp htc he hpres

/-- The two stores of one page. -/
theorem sharePage_stores (h : Wf s roots K) : LeafStore s roots K parent q i tp (shareParent e) ∧
      LeafStore (s.setEntry tp i (shareParent e)) roots K child q i tc (shareChild e) := by
  have hown := h.leaf_owned parent hp _ hv e he
  have hap := h.leaf_apart parent hp _ hv e he
  have a : LeafStore s roots K parent q i tp (shareParent e) := by
    refine ⟨h, hp, hv, hi, htp, fun f hf => ?_⟩
    rw [child_shareParent hpres] at hf
    cases hf
    exact ⟨hown, hap⟩
  refine ⟨a, a.wf_set, hc, hv, hi, ?_, fun f hf => ?_⟩
  · have hq : userRegion.pos 3 q := pos_parent hi (pos_leaf.mpr hv)
    rwa [a.node_eq hc le_rfl hq]
  · rw [child_shareChild hpres] at hf
    cases hf
    exact ⟨hown, fun ht => hap.1 ((a.isTable_iff _).mp ht), hap.2⟩

/-- Sharing the next page. -/
theorem Cloned.share (h : Cloned s1 roots K parent child (q * 512 + i) s) (hne : parent ≠ child) :
    Cloned s1 roots K parent child (q * 512 + i + 1) (sharePage s tp tc i e) ∧
      Grows roots s (sharePage s tp tc i e) := by
  obtain ⟨a, a'⟩ := sharePage_stores hp hc hi hv htp htc he hpres h.wf
  obtain ⟨hle, hal⟩ := framesLe_incRefcount s.frames (Pte.frame e)
  have hg : Grows roots s (sharePage s tp tc i e) :=
    (a.grows.trans a'.grows).trans (.of_counts hle hal)
  have he1 : leafOf s1 parent (q * 512 + i) = some e := by
    rw [← he, h.parent_leaf _ hv, if_neg (by omega)]
  have hleaf : ∀ r ∈ roots, ∀ v < userPages, leafOf (sharePage s tp tc i e) r v =
      if r = child ∧ v = q * 512 + i then some (shareChild e)
      else if r = parent ∧ v = q * 512 + i then some (shareParent e) else leafOf s r v := by
    intro r hr v hv'
    show leafOf ((s.setEntry tp i (shareParent e)).setEntry tc i (shareChild e)) r v = _
    rw [a'.leafOf_eq hr hv', a.leafOf_eq hr hv', Option.filter_some, Option.filter_some,
      child_shareChild hpres, child_shareParent hpres]
    rfl
  refine ⟨⟨?_, h.grows.trans hg, ?_, ?_, ?_, ?_⟩, hg⟩
  · have ha : pml4.Agree ((s.setEntry tp i (shareParent e)).setEntry tc i (shareChild e)).mem
        (sharePage s tp tc i e).mem roots userRegion 3 := pml4.agree_of_frames fun _ _ => rfl
    exact a'.wf_set.of_agree ha hle
  · intro v hv'
    rw [hleaf parent hp v hv', if_neg (by tauto)]
    by_cases hvb : v = q * 512 + i
    · subst hvb
      rw [if_pos ⟨rfl, rfl⟩, if_pos (by omega), he1]
      rfl
    · rw [if_neg (by tauto), h.parent_leaf v hv']
      exact if_congr (by omega) rfl rfl
  · intro v hv'
    rw [hleaf child hc v hv']
    by_cases hvb : v = q * 512 + i
    · subst hvb
      rw [if_pos ⟨rfl, rfl⟩, if_pos (by omega), he1]
      rfl
    · rw [if_neg (by tauto), if_neg (by tauto), h.child_leaf v hv']
      exact if_congr (by omega) rfl rfl
  · intro r hr hrp hrc v hv'
    rw [hleaf r hr v hv', if_neg (by tauto), if_neg (by tauto)]
    exact h.other_leaf r hr hrp hrc v hv'
  · intro f hf
    have hf' : ¬IsTable s roots f := fun ht => hf (hg.isTable ht)
    show rcOf (s.frames.incRefcount (Pte.frame e)).2 f = _
    rw [rcOf_incRefcount]
    -- the shared frame gains the child's reference, and only it does
    by_cases hfe : f = Pte.frame e
    · subst hfe
      have hcount : refs s1 parent (Pte.frame e) (q * 512 + i + 1) =
          refs s1 parent (Pte.frame e) (q * 512 + i) + 1 := by
        unfold refs
        rw [Nat.count_succ, he1, Option.map_some, if_pos rfl]
      rw [if_pos rfl, hcount, Function.iterate_succ_apply', h.rc _ hf']
    · have hcount : refs s1 parent f (q * 512 + i + 1) = refs s1 parent f (q * 512 + i) := by
        unfold refs
        rw [Nat.count_succ, he1, Option.map_some, if_neg, Nat.add_zero]
        exact fun heq => hfe (Option.some.inj heq).symm
      rw [if_neg hfe, hcount, h.rc _ hf']

end

/-! ## The levels -/

/-- Below the top level the user half is a whole number of tables. -/
theorem userPages_eq (hd : 0 < d) (hd4 : d ≤ 4) :
    userPages = 256 * 512 ^ (d - 1) * 512 ^ (4 - d) := by
  rw [Nat.mul_assoc, ← Nat.pow_add, show d - 1 + (4 - d) = 3 by omega]
  rfl

theorem pos_iff {d q : Nat} (hd : 0 < d) (hd4 : d ≤ 4) :
    userRegion.pos d q ↔ q < 256 * 512 ^ (d - 1) := by
  show q * 512 ^ (4 - d) < userPages ↔ _
  rw [userPages_eq hd hd4]
  exact Nat.mul_lt_mul_right (Nat.pow_pos (by omega))

/-- All entries of a table below the top level belong to the user half. -/
theorem pos_entry {d q : Nat} (hd : 0 < d) (hd3 : d ≤ 3) (hq : userRegion.pos d q)
    (hi : i < 512) : userRegion.pos (d + 1) (q * 512 + i) := by
  rw [pos_iff hd (by omega)] at hq
  rw [pos_iff (by omega) (by omega)]
  have hpow : 512 ^ (d + 1 - 1) = 512 ^ (d - 1) * 512 := by
    rw [← Nat.pow_succ]
    congr 1
    omega
  rw [hpow]
  omega

/-- The pages below a position are user pages. -/
theorem range_le {d q : Nat} (hd : 0 < d) (hd4 : d ≤ 4) (hq : userRegion.pos d q) :
    (q + 1) * 512 ^ (4 - d) ≤ userPages := by
  rw [pos_iff hd hd4] at hq
  rw [userPages_eq hd hd4]
  exact Nat.mul_le_mul_right _ hq

/-- Pages below a missing table are not mapped. -/
theorem leafOf_below_none {d v : Nat} (hd : d ≤ 3)
    (h : pml4.node s.mem r d (v / 512 ^ (4 - d)) = none) : leafOf s r v = none := by
  have hdiv : v / 512 ^ (4 - d) = v / 512 / 512 ^ (3 - d) := by
    rw [Nat.div_div_eq_div_mul, ← Nat.pow_succ']
    congr 2
    omega
  rw [hdiv] at h
  have hn := pml4.node_below_none (3 - d) (v / 512) h
  rw [show d + (3 - d) = 3 by omega] at hn
  unfold leafOf Radix.leaf Radix.slot
  rw [hn]
  rfl

/-- The pages below an entry, counted in entries of the level. -/
theorem mul_pow_below (a : Nat) (hd : d ≤ 3) :
    a * 512 * 512 ^ (4 - (d + 1)) = a * 512 ^ (4 - d) := by
  rw [Nat.mul_assoc, ← Nat.pow_succ', show (4 - (d + 1)).succ = 4 - d by omega]

/-! ## Tables of the parent -/

/-- The tables that entry `i` of a table leads to, if `count` gives those below a
table one level down. -/
def entryTables (mem : Nat → Nat → Word) (count : Nat → Nat) (t i : Nat) : Nat :=
  match tableAt mem t i with
  | some f => 1 + count f
  | none => 0

/-- The tables of the next `k` levels below the first `n` entries of a table. -/
def countTables (mem : Nat → Nat → Word) : Nat → Nat → Nat → Nat
  | 0, _, _ => 0
  | k + 1, n, t => ((List.range n).map (entryTables mem (countTables mem k 512) t)).sum

theorem countTables_succ (mem : Nat → Nat → Word) (k n t : Nat) :
    countTables mem (k + 1) (n + 1) t =
      countTables mem (k + 1) n t + entryTables mem (countTables mem k 512) t n := by
  simp [countTables, List.range_succ]

theorem countTables_mono (mem : Nat → Nat → Word) (k t : Nat) {m n : Nat} (h : m ≤ n) :
    countTables mem (k + 1) m t ≤ countTables mem (k + 1) n t := by
  induction n, h using Nat.le_induction with
  | base => exact le_rfl
  | succ n _ ih =>
    rw [countTables_succ]
    omega

/-- Storing below depth `d` of the child: to its tables from there on, to the L1
tables of the parent and to frames that were not in use. -/
def StoresBelow (roots : Set Nat) (parent child d : Nat) (s s' : KMem) : Prop :=
  ∀ r ∈ roots, ∀ d' ≤ 3, ∀ q g, userRegion.pos d' q → pml4.node s.mem r d' q = some g →
    (r = parent → d' < 3) → (r = child → d' < d) → s'.mem g = s.mem g

/-- The tables of the first part are tables in the second. -/
theorem StoresBelow.trans (h : StoresBelow roots parent child d s t)
    (hg : Grows roots s t) (h' : StoresBelow roots parent child d t s') :
    StoresBelow roots parent child d s s' := by
  intro r hr d' hd' q g hq hn hp hc
  rw [h' r hr d' hd' q g hq (hg.nodes r hr d' hd' q g hq hn) hp hc, h r hr d' hd' q g hq hn hp hc]

theorem StoresBelow.mono {d d' : Nat} (h : StoresBelow roots parent child d' s s') (hd : d ≤ d') :
    StoresBelow roots parent child d s s' :=
  fun r hr d'' hd'' q g hq hn hp hc =>
    h r hr d'' hd'' q g hq hn hp fun heq => lt_of_lt_of_le (hc heq) hd

/-- The tables of the parent are counted from entries that the clone leaves alone. -/
theorem StoresBelow.countTables_eq {d e : Nat} (h : StoresBelow roots parent child e s s')
    (hp : parent ∈ roots) (hne : parent ≠ child) (k : Nat) {n q g : Nat} (hd : d + k = 3)
    (hn : n ≤ 512) (hq : userRegion.pos d q) (hpos : ∀ i < n, userRegion.pos (d + 1) (q * 512 + i))
    (hg : pml4.node s.mem parent d q = some g) :
    countTables s'.mem k n g = countTables s.mem k n g := by
  induction k generalizing d n q g with
  | zero => rfl
  | succ k ih =>
    have hsame : s'.mem g = s.mem g :=
      h parent hp d (by omega) q g hq hg (fun _ => by omega) fun heq => absurd heq hne
    unfold countTables
    congr 1
    refine List.map_congr_left fun i hi => ?_
    have hi : i < n := List.mem_range.mp hi
    have hi' : i < 512 := by omega
    unfold entryTables
    rw [show tableAt s'.mem g i = tableAt s.mem g i by rw [tableAt_eq, tableAt_eq, hsame]]
    cases hc : tableAt s.mem g i with
    | none => rfl
    | some c =>
      have hchild : pml4.node s.mem parent (d + 1) (q * 512 + i) = some c := by
        rw [pml4.node_child hi' hg, ← tableAt_eq, hc]
      simp only
      cases k with
      | zero => rfl
      | succ k =>
        rw [ih (by omega) le_rfl (hpos i hi)
          (fun j hj => pos_entry (by omega) (by omega) (hpos i hi) hj) hchild]

/-! ## The loops -/

/-- The invariant of the loop over the entries of a table, which started in `s`: before
turn `i` the pages below the first `i` entries are shared, a frame was taken for each
table of the parent there, and the child's entries from `i` on are as they were. -/
structure CloneInv (s1 : KMem) (roots K : Set Nat) (parent child d q tp tc : Nat)
    (s : KMem) (i : Nat) (t : KMem) : Prop where
  cloned : Cloned s1 roots K parent child ((q * 512 + i) * 512 ^ (4 - (d + 1))) t
  grows : Grows roots s t
  count : spare s = spare t + countTables s.mem (3 - d) i tp
  stores : StoresBelow roots parent child d s t
  rest : ∀ j, i ≤ j → t.mem tc j = s.mem tc j

/-- Before the first entry. -/
theorem CloneInv.first {d q : Nat} (hd : d ≤ 3)
    (h : Cloned s1 roots K parent child (q * 512 ^ (4 - d)) s) :
    CloneInv s1 roots K parent child d q tp tc s 0 s where
  cloned := by rwa [Nat.add_zero, mul_pow_below q hd]
  grows := .refl _ _
  count := by cases h : 3 - d <;> rfl
  stores _ _ _ _ _ _ _ _ _ _ := rfl
  rest _ _ := rfl

/-- The loops below a table at depth `d` share all its pages, from an empty table of the
child on. They fail only for want of a frame for one of the parent's tables. -/
def Level (s1 : KMem) (roots K : Set Nat) (parent child d : Nat) (x : Nat → Nat → KM Unit) : Prop :=
  ∀ s q tp tc, userRegion.pos d q → Cloned s1 roots K parent child (q * 512 ^ (4 - d)) s →
    pml4.node s.mem parent d q = some tp → pml4.node s.mem child d q = some tc →
    (∀ j < 512, Pte.isPresent (s.mem tc j) = false) →
    Ends (x tp tc) s (fun _ s' => CloneInv s1 roots K parent child d q tp tc s 512 s')
      fun e s' => OutOfFrames e s' ∧ spare s < countTables s.mem (3 - d) 512 tp

/-- One turn of the innermost loop. -/
theorem cloneLeaf_turn (h : CloneInv s1 roots K parent child 3 q tp tc s i t)
    (hp : parent ∈ roots) (hc : child ∈ roots) (hne : parent ≠ child) (hi : i < 512)
    (hq : userRegion.pos 3 q) (htp : pml4.node s.mem parent 3 q = some tp)
    (htc : pml4.node s.mem child 3 q = some tc) :
    Ends (do
      let e ← readEntry tp i
      if Pte.isPresent e then
        let flags := cowFlags (Pte.flags e)
        if Pte.has (Pte.flags e) Pte.WRITABLE then
          writeEntry tp i (Pte.make (Pte.addr e) flags)
        writeEntry tc i (Pte.make (Pte.addr e) flags)
        incFrameRefcount (Pte.frame e)) t
      (fun _ t' => CloneInv s1 roots K parent child 3 q tp tc s (i + 1) t') fun _ _ => False := by
  have hv := pos_leaf.mp (pos_entry (by omega) le_rfl hq hi)
  have htp' := h.grows.nodes parent hp 3 le_rfl q tp hq htp
  have htc' := h.grows.nodes child hc 3 le_rfl q tc hq htc
  have hone : ∀ i, (q * 512 + i) * 512 ^ (4 - (3 + 1)) = q * 512 + i := fun _ => Nat.mul_one _
  have hcl : Cloned s1 roots K parent child (q * 512 + i) t := hone i ▸ h.cloned
  have hleaf := leafOf_table hi htp'
  simp only [readEntry, ends_bind, ends_get, ends_pure]
  cases hpres : Pte.isPresent (t.mem tp i) with
  | false =>
    simp only [Bool.false_eq_true, if_false, ends_pure]
    refine ⟨?_, h.grows, h.count, h.stores, fun j hj => h.rest j (by omega)⟩
    rw [hone]
    refine hcl.skip (Nat.le_succ _) fun v hlo hhi => ?_
    obtain rfl : v = q * 512 + i := by omega
    have := hcl.parent_leaf _ hv
    rw [if_neg (by omega)] at this
    rw [← this, hleaf, Option.filter_some, child_isSome, hpres]
    rfl
  | true =>
    have he : leafOf t parent (q * 512 + i) = some (t.mem tp i) := by
      rw [hleaf, Option.filter_some, child_isSome, hpres]
      rfl
    obtain ⟨hcl', hg⟩ := hcl.share hp hc hi hv htp' htc' he hpres hne
    -- the stores are to the L1 tables of the parent and of the child
    have hput : ∀ g j, (g = tc → j ≠ i) → g ≠ tp →
        (sharePage t tp tc i (t.mem tp i)).mem g j = t.mem g j := by
      intro g j htc htp
      show ((t.setEntry tp i _).setEntry tc i _).mem g j = _
      rw [setEntry_mem, Radix.put_ne _ _ fun heq => htc heq.1 heq.2,
        setEntry_mem, Radix.put_frame _ _ _ htp]
    obtain ⟨hle, hal⟩ := framesLe_incRefcount t.frames (Pte.frame (t.mem tp i))
    have hdone : CloneInv s1 roots K parent child 3 q tp tc s (i + 1)
        (sharePage t tp tc i (t.mem tp i)) := by
      refine ⟨by rw [hone, ← Nat.add_assoc]; exact hcl', h.grows.trans hg,
        ?_, h.stores.trans h.grows ?_, fun j hj => ?_⟩
      · have hspare : spare (sharePage t tp tc i (t.mem tp i)) = spare t :=
          spare_of_allocated (s := t) hle hal
        rw [hspare]
        exact h.count
      · intro r hr d hd q' g hq' hn hdp hdc
        refine funext fun j => hput g j ?_ ?_
        · rintro rfl
          obtain ⟨rfl, rfl, -⟩ := hcl.wf.forest r hr child hc d hd 3 le_rfl q' q g hq' hq hn htc'
          exact absurd (hdc rfl) (lt_irrefl _)
        · rintro rfl
          obtain ⟨rfl, rfl, -⟩ := hcl.wf.forest r hr parent hp d hd 3 le_rfl q' q g hq' hq hn htp'
          exact absurd (hdp rfl) (lt_irrefl _)
      · rw [hput tc j (fun _ => by omega), h.rest j (by omega)]
        rintro rfl
        obtain ⟨heq, -, -⟩ :=
          hcl.wf.forest parent hp child hc 3 le_rfl 3 le_rfl q q tc hq hq htp' htc'
        exact hne heq
    simp only [if_true]
    by_cases hw : Pte.has (Pte.flags (t.mem tp i)) Pte.WRITABLE = true
    · rw [sharePage, shareParent, if_pos hw] at hdone
      simp only [hw, if_true, writeEntry, incFrameRefcount, ends_bind, ends_modify]
      exact hdone
    · rw [sharePage, shareParent, if_neg hw, setEntry_self] at hdone
      simp only [hw, Bool.false_eq_true, if_false, writeEntry,
        incFrameRefcount, ends_bind, ends_modify]
      exact hdone

theorem cloneLeaves_level (hp : parent ∈ roots) (hc : child ∈ roots) (hne : parent ≠ child) :
    Level s1 roots K parent child 3 cloneLeaves := fun s q tp tc hq h htp htc _ =>
  (ends_forRange_from (CloneInv s1 roots K parent child 3 q tp tc s) (CloneInv.first le_rfl h)
    fun i t _ hi hinv => cloneLeaf_turn hinv hp hc hne (by omega) hq htp htc).mono
    (fun _ _ hinv => hinv) fun _ _ => False.elim

/-- What a turn of the loop over the entries of a table does. -/
def cloneTurn (tp tc : Nat) (msg : String) (check : Word → KM Unit) (below : Nat → Nat → KM Unit)
    (i : Nat) : KM Unit := do
  let e ← readEntry tp i
  if Pte.isPresent e then
    check e
    let c ← ensureTable tc i msg
    below (Pte.frame e) c

/-- The loop over `n` entries of the tables at depth `d` and position `q`, as
it starts in state `s`. -/
structure CloneLoop (s1 : KMem) (roots K : Set Nat) (parent child d q n tp tc : Nat)
    (check : Word → KM Unit) (below : Nat → Nat → KM Unit) (s : KMem) : Prop where
  parent_mem : parent ∈ roots
  child_mem : child ∈ roots
  apart : parent ≠ child
  depth : d < 3
  count : n ≤ 512
  pos : userRegion.pos d q
  entries : ∀ i < n, userRegion.pos (d + 1) (q * 512 + i)
  check : ∀ w s, TableEntry w → Returns (check w) s () s
  below : Level s1 roots K parent child (d + 1) below
  parent_node : pml4.node s.mem parent d q = some tp
  child_node : pml4.node s.mem child d q = some tc
  empty : ∀ j < n, Pte.isPresent (s.mem tc j) = false
  start : Cloned s1 roots K parent child (q * 512 ^ (4 - d)) s

namespace CloneLoop

variable {d q n tp tc i : Nat} {msg : String} {check : Word → KM Unit}
  {below : Nat → Nat → KM Unit}
  (L : CloneLoop s1 roots K parent child d q n tp tc check below s)
  (h : CloneInv s1 roots K parent child d q tp tc s i t)
include L h

theorem nodes : pml4.node t.mem parent d q = some tp ∧ pml4.node t.mem child d q = some tc := by
  have hd := L.depth
  exact ⟨h.grows.nodes parent L.parent_mem d (by omega) q tp L.pos L.parent_node,
    h.grows.nodes child L.child_mem d (by omega) q tc L.pos L.child_node⟩

/-- The parent's table is as it was. -/
theorem parent_kept : t.mem tp = s.mem tp := by
  have hd := L.depth
  exact h.stores parent L.parent_mem d (by omega) q tp L.pos L.parent_node (fun _ => by omega)
    fun heq => absurd heq L.apart

/-- Without a table the parent has no pages there. -/
theorem skip (hi : i < n) (habs : Pte.isPresent (t.mem tp i) = false) :
    CloneInv s1 roots K parent child d q tp tc s (i + 1) t := by
  have hd := L.depth
  have hn := L.count
  have hpos := L.entries i hi
  obtain ⟨k, hk⟩ : ∃ k, 3 - d = k + 1 := ⟨2 - d, by omega⟩
  refine ⟨h.cloned.skip (Nat.mul_le_mul_right _ (by omega)) fun v hlo hhi => ?_,
    h.grows, ?_, h.stores, fun j hj => h.rest j (by omega)⟩
  · rw [← Nat.add_assoc] at hhi
    have hv : v < userPages := by
      have := range_le (by omega) (by omega) hpos
      omega
    have hdiv : v / 512 ^ (4 - (d + 1)) = q * 512 + i := Nat.div_eq_of_lt_le hlo hhi
    have hleaf := h.cloned.parent_leaf v hv
    rw [if_neg (by omega)] at hleaf
    rw [← hleaf]
    apply leafOf_below_none (d := d + 1) (by omega)
    have hi' : i < 512 := by omega
    rw [hdiv, pml4.node_child hi' (L.nodes h).1, child_of_absent habs]
  · have hcount := h.count
    have hnone : entryTables s.mem (countTables s.mem k 512) tp i = 0 := by
      unfold entryTables
      rw [tableAt_eq, ← L.parent_kept h, child_of_absent habs]
    rwa [hk, countTables_succ, hnone, ← hk]

/-- With one, the child gets a table there too, and the inner loops go on below. -/
theorem enter {k : Nat} (hi : i < n) (hk : 3 - d = k + 1) (hp : Pte.isPresent (t.mem tp i) = true) :
    Ends (do let c ← ensureTable tc i msg; below (Pte.frame (t.mem tp i)) c) t
      (fun _ t' => CloneInv s1 roots K parent child d q tp tc s (i + 1) t')
      fun e t' => OutOfFrames e t' ∧ spare t < entryTables s.mem
        (countTables s.mem k 512) tp i := by
  have hd := L.depth
  have hn := L.count
  have hpos := L.entries i hi
  have hi' : i < 512 := by omega
  obtain ⟨hnp, hnc⟩ := L.nodes h
  have hwf := h.cloned.wf
  have hsome : entryTables s.mem (countTables s.mem k 512) tp i =
      1 + countTables s.mem k 512 (Pte.frame (t.mem tp i)) := by
    unfold entryTables
    rw [tableAt_eq, ← L.parent_kept h, child_of_present hp]
  have habs : Pte.isPresent (t.mem tc i) = false := by
    rw [h.rest i le_rfl]
    exact L.empty i hi
  have htc := (hwf.table_owned tc ⟨child, L.child_mem, d, by omega, q, L.pos, hnc⟩).not_fresh
  simp only [ends_bind]
  refine (Ends.and (ensureTable_adds hwf L.child_mem hd hpos hi' hnc)
    (ensureTable_ends tc i msg t)).mono ?_ ?_
  · rintro c t2 ⟨⟨had, hnew⟩, ⟨hpres, -, -⟩ | ⟨-, f, u, a, -, hcf, rfl⟩⟩
    · rw [habs] at hpres
      cases hpres
    obtain rfl := hcf hwf.bound
    have hct : c ≠ tc := fun heq => htc (heq ▸ a.fresh)
    have hone := a.spare
    have hstore : StoresBelow roots parent child d t (u.attach tc i c) := by
      intro r hr d' hd' q' g hq' hg _ hdc
      refine a.attach_frame (fun heq => ?_) ?_
      · exact (hwf.table_owned g ⟨r, hr, d', hd', q', hq', hg⟩).not_fresh (heq ▸ a.fresh)
      · rintro rfl
        obtain ⟨rfl, rfl, -⟩ :=
          hwf.forest r hr child L.child_mem d' hd' d (by omega) q' q g hq' L.pos hg hnc
        exact absurd (hdc rfl) (lt_irrefl _)
    have hnp' : pml4.node t.mem parent (d + 1) (q * 512 + i) = some (Pte.frame (t.mem tp i)) := by
      rw [pml4.node_child hi' hnp, child_of_present hp]
    -- the parent's tables below the entry are still those of the first state
    have hsame : countTables (u.attach tc i c).mem k 512 (Pte.frame (t.mem tp i)) =
        countTables s.mem k 512 (Pte.frame (t.mem tp i)) := by
      have hnode : pml4.node s.mem parent (d + 1) (q * 512 + i) =
          some (Pte.frame (t.mem tp i)) := by
        rw [pml4.node_child hi' L.parent_node, ← L.parent_kept h, child_of_present hp]
      exact (h.stores.trans h.grows hstore).countTables_eq L.parent_mem L.apart k (by omega) le_rfl
        hpos (fun j hj => pos_entry (by omega) (by omega) hpos hj) hnode
    have hdown := L.below _ (q * 512 + i) _ c hpos (h.cloned.grow L.parent_mem L.child_mem had)
      (had.nodes parent L.parent_mem (d + 1) (by omega) _ _ hpos hnp') hnew fun j _ => by
        rw [attach_empty hct j]
        rfl
    have hk' : 3 - (d + 1) = k := by omega
    refine hdown.mono (fun _ t' hinv => ?_) fun _ _ hfail => ⟨hfail.1, ?_⟩
    · have hcount := h.count
      have hbelow := hinv.count
      rw [hk', hsame] at hbelow
      refine ⟨?_, h.grows.trans (had.toGrows.trans hinv.grows), ?_,
        h.stores.trans h.grows (hstore.trans had.toGrows (hinv.stores.mono (by omega))),
        fun j hj => ?_⟩
      · have hcl := hinv.cloned
        rwa [show (q * 512 + i) * 512 + 512 = (q * 512 + (i + 1)) * 512 by omega,
          mul_pow_below _ (by omega)] at hcl
      · rw [hk] at hcount ⊢
        rw [countTables_succ, hsome]
        change spare u = _ at hbelow
        omega
      · have hlast := hinv.stores child L.child_mem d (by omega) q tc L.pos
          (had.nodes child L.child_mem d (by omega) q tc L.pos hnc)
          (fun heq => absurd heq.symm L.apart) fun _ => by omega
        rw [hlast, a.attach_other (Ne.symm hct) (by omega), h.rest j (by omega)]
    · have hlt := hfail.2
      rw [hk', hsame] at hlt
      change spare u < _ at hlt
      rw [hsome]
      omega
  · rintro e t' ⟨⟨hout, rfl⟩, -⟩
    have := spare_eq_zero.mpr hout.2
    exact ⟨hout, by omega⟩

/-- One entry: nothing is there, or a table is made and filled. -/
theorem turn (hi : i < n) : Ends (cloneTurn tp tc msg check below i) t
      (fun _ t' => CloneInv s1 roots K parent child d q tp tc s (i + 1) t')
      fun e t' => OutOfFrames e t' ∧ spare s < countTables s.mem (3 - d) n tp := by
  have hd := L.depth
  have hn := L.count
  obtain ⟨k, hk⟩ : ∃ k, 3 - d = k + 1 := ⟨2 - d, by omega⟩
  simp only [cloneTurn, readEntry, ends_bind, ends_get, ends_pure]
  cases hp : Pte.isPresent (t.mem tp i) with
  | false => exact L.skip h hi hp
  | true =>
    have hentry : TableEntry (t.mem tp i) := by
      have hi' : i < 512 := by omega
      have := h.cloned.wf.table_entry parent L.parent_mem d hd (q * 512 + i) tp (L.entries i hi)
      rw [pml4.child_div q hi', pml4.child_mod q hi'] at this
      exact this (L.nodes h).1 hp
    simp only [if_true, ends_bind]
    refine (L.check _ t hentry).ends ?_
    rw [← ends_bind]
    refine (L.enter h hi hk hp).mono (fun _ _ hinv => hinv) fun _ _ hfail => ⟨hfail.1, ?_⟩
    have hlt := hfail.2
    have htotal := countTables_mono s.mem k tp (show i + 1 ≤ n by omega)
    have hcount := h.count
    rw [countTables_succ] at htotal
    rw [hk] at hcount ⊢
    omega

omit h in
/-- All entries of a table. It fails only if there are too few frames for the tables. -/
theorem ends : Ends (cloneEntries tp tc n msg check below) s
    (fun _ s' => CloneInv s1 roots K parent child d q tp tc s n s')
    fun e s' => OutOfFrames e s' ∧ spare s < countTables s.mem (3 - d) n tp := by
  have hd := L.depth
  refine (ends_forRange_from (CloneInv s1 roots K parent child d q tp tc s)
    (CloneInv.first (by omega) L.start) fun i t _ hi h => L.turn h (by omega)).imp ?_
  rintro - s' h
  rwa [Nat.zero_add] at h

end CloneLoop

theorem checkNotHuge_ok (w : Word) (s : KMem) (hw : TableEntry w) :
    Returns (checkNotHuge w) s () s := by
  simp [checkNotHuge, hw.2.2]

/-- The loops below an L3 table. -/
def cloneL3 (parentL3 childL3 : Nat) : KM Unit :=
  cloneEntries parentL3 childL3 512 "Failed to allocate L2 for clone" (fun _ => pure ())
    fun parentL2 childL2 =>
      cloneEntries parentL2 childL2 512 "Failed to allocate L1 for clone" checkNotHuge cloneLeaves

/-- A loop over all entries of the tables below the top. -/
theorem cloneEntries_level {msg : String} {check : Word → KM Unit}
    {below : Nat → Nat → KM Unit} (hp : parent ∈ roots) (hc : child ∈ roots) (hne : parent ≠ child)
    (hd : 0 < d) (hd3 : d < 3) (hcheck : ∀ w s, TableEntry w → Returns (check w) s () s)
    (hbelow : Level s1 roots K parent child (d + 1) below) :
    Level s1 roots K parent child d fun tp tc => cloneEntries tp tc 512 msg check below :=
  fun _ _ _ _ hq h htp htc hempty => CloneLoop.ends ⟨hp, hc, hne, hd3, le_rfl, hq,
    fun _ hi => pos_entry hd (by omega) hq hi, hcheck, hbelow, htp, htc, hempty, h⟩

theorem cloneL3_level (hp : parent ∈ roots) (hc : child ∈ roots) (hne : parent ≠ child) :
    Level s1 roots K parent child 1 cloneL3 :=
  cloneEntries_level hp hc hne (by omega) (by omega) (fun _ s _ => pure_returns () s)
    (cloneEntries_level hp hc hne (by omega) (by omega) checkNotHuge_ok
      (cloneLeaves_level hp hc hne))

/-- Before the first page nothing is shared. -/
theorem NewSpace.cloned (n : NewSpace s s1 child) (h : Wf s roots K) :
    Cloned s1 (insert child roots) K parent child 0 s1 where
  wf := n.wf h
  grows := .refl _ _
  parent_leaf v _ := by rw [if_neg (by omega)]
  child_leaf v hv := by rw [if_neg (by omega), leafOf_empty n.empty hv]
  other_leaf _ _ _ _ _ _ := rfl
  rc f _ := by rw [refs, Nat.count_zero]; rfl

/-- `clone_user_address_space` makes an address space and shares every page of the parent
with it. It needs a frame for the L4 table and one for every lower table of the parent,
and with these it does not fail. -/
theorem cloneUserAddressSpace_ends (h : Wf s roots K) (hp : parent ∈ roots) :
    Ends (cloneUserAddressSpace parent) s
      (fun child s' => (∃ s1, NewSpace s s1 child ∧
        Cloned s1 (insert child roots) K parent child userPages s') ∧
        spare s = spare s' + (1 + countTables s.mem 3 256 parent))
      fun e s' => OutOfFrames e s' ∧ spare s < 1 + countTables s.mem 3 256 parent := by
  simp only [cloneUserAddressSpace, ends_bind, ends_pure]
  refine ((createUserPageTable_ends s).and createUserPageTable_spare).mono ?_ ?_
  · rintro c s1 ⟨⟨n, -⟩, -, hone⟩
    have hnew := (h.fresh n.fresh).1
    have hne : parent ≠ c := fun heq => hnew (heq ▸ isTable_root hp)
    have hstore : StoresBelow roots parent c 0 s s1 := by
      intro r hr d hd q g hq hg _ _
      exact n.content g fun heq => hnew (heq ▸ ⟨r, hr, d, hd, q, hq, hg⟩)
    have hsame : countTables s1.mem 3 256 parent = countTables s.mem 3 256 parent :=
      hstore.countTables_eq (q := 0) hp hne 3 (by omega) (by omega)
        (by simp [userRegion, userPages]) (fun i hi => pos_top.mpr (by omega)) rfl
    have L : CloneLoop s1 (insert c roots) K parent c 0 0 256 parent c
        (fun _ => pure ()) cloneL3 s1 :=
      ⟨Set.mem_insert_of_mem _ hp, Set.mem_insert _ _, hne, by omega, by omega,
        by simp [userRegion, userPages], fun _ hi => pos_top.mpr (by omega),
        fun _ s _ => pure_returns () s,
        cloneL3_level (Set.mem_insert_of_mem _ hp) (Set.mem_insert _ _) hne, rfl, rfl,
        fun j hj => by rw [n.lower j hj]; rfl, by rw [Nat.zero_mul]; exact n.cloned h⟩
    refine L.ends.mono (fun _ s' hinv => ⟨⟨s1, n, hinv.cloned⟩, ?_⟩)
      fun _ _ ⟨hout, hlt⟩ => ⟨hout, ?_⟩
    · have hcount := hinv.count
      rw [Nat.sub_zero, hsame] at hcount
      omega
    · rw [Nat.sub_zero, hsame] at hlt
      omega
  · rintro e s' ⟨⟨hout, rfl⟩, hnone⟩
    exact ⟨hout, by omega⟩

end PandaOS.Kernel
