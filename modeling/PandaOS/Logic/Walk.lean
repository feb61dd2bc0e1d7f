import PandaOS.Logic.Mapping

/-!
# Walks of the user half

For an address of the user half the functions that walk the tables
(`leafTable`, `walkPageTable`, `requireTable`) find the nodes of the radix tree.
-/

namespace PandaOS.Kernel

open Hal Lib

variable {s s' : KMem} {pt va t i f : Nat} {msg : String} {e : Word}

/-- The entry `walk_page_table` finds. -/
def walkEntry (s : KMem) (pt va : Nat) : Option Word :=
  (walkPageTable s.mem pt va).map fun place => s.mem place.1 place.2

section

variable (mem : Nat → Nat → Word) (pt va : Nat)

/-- One level down on the way to an address. -/
theorem node_next {d : Nat} (hd : d ≤ 3) : pml4.node mem pt (d + 1) (va / 4096 / 512 ^ (3 - d)) =
    (pml4.node mem pt d (va / 4096 / 512 ^ (4 - d))).bind fun t => tableAt mem t
    (indexAt va d) := by
  have hi := indexAt_lt va d
  rw [← indexAt_pos va hd, pml4.node_succ, pml4.child_div _ hi, pml4.child_mod _ hi]
  rfl

theorem leafTable_eq : leafTable mem pt va = pml4.node mem pt 3 (va / 4096 / 512) := by
  obtain ⟨h4, h3, h2, -⟩ := pIndex_eq va
  have hnode : pml4.node mem pt 3 (va / 4096 / 512) =
      (((some pt).bind fun t => tableAt mem t (p4Index va)).bind
        fun t => tableAt mem t (p3Index va)).bind fun t => tableAt mem t (p2Index va) := by
    rw [h4, h3, h2]
    refine (node_next mem pt va (d := 2) (by omega)).trans ?_
    rw [node_next mem pt va (d := 1) (by omega), node_next mem pt va (d := 0) (by omega)]
    rfl
  rw [hnode, Option.bind_some, Option.bind_assoc]
  rfl

end

/-- The entry of a user page is the leaf of the tree. -/
theorem walkEntry_eq : walkEntry s pt va = leafOf s pt (va / 4096) := by
  have hwalk : walkPageTable s.mem pt va = (leafTable s.mem pt va).bind fun l1 =>
      if Pte.isPresent (s.mem l1 (p1Index va)) then some (l1, p1Index va) else none := rfl
  rw [walkEntry, hwalk, leafTable_eq]
  have hleaf : leafOf s pt (va / 4096) = ((pml4.node s.mem pt 3 (va / 4096 / 512)).map fun t =>
      s.mem t (p1Index va)).filter fun w => (pml4.child w).isSome := by
    have hi := (pIndex_lt va).2.2.2
    nth_rewrite 1 [← p1Index_eq va]
    unfold leafOf Radix.leaf Radix.slot
    rw [pml4.child_div _ hi, pml4.child_mod _ hi]
  rw [hleaf]
  cases pml4.node s.mem pt 3 (va / 4096 / 512) with
  | none => rfl
  | some l1 =>
    rw [Option.bind_some, Option.map_some, Option.filter_some, child_isSome]
    cases Pte.isPresent (s.mem l1 (p1Index va)) with
    | false => rfl
    | true => rfl

/-- Pages of the user half apart from each other. -/
theorem page_ne {va' : Nat} (h : pageOf va' ≠ pageOf va) : va' / 4096 ≠ va / 4096 := fun heq =>
  h (by rw [pageOf, pageOf, pageSize, heq])

theorem requireTable_returns :
    Returns (requireTable t i msg) s f s' ↔ tableAt s.mem t i = some f ∧ s' = s := by
  unfold requireTable
  simp only [returns_bind, returns_get, and_assoc, exists_and_left, exists_eq_left]
  cases tableAt s.mem t i with
  | none => exact iff_of_false not_returns_throw (by simp)
  | some g =>
    rw [returns_pure, Option.some.injEq]
    exact and_congr_left fun _ => eq_comm

theorem requireTable_throws (h : tableAt s.mem t i = none) :
    Throws (requireTable t i msg) s (.err msg) s := by
  unfold requireTable
  refine throws_bind.mpr (.inr ⟨s, s, rfl, ?_⟩)
  rw [h]
  rfl

/-- What `unmap_page` looks up on its way to the entry. -/
theorem walkEntry_eq_some : walkEntry s pt va = some e ↔
    ∃ l3 l2 l1, tableAt s.mem pt (p4Index va) = some l3 ∧ tableAt s.mem l3 (p3Index va) = some l2 ∧
      tableAt s.mem l2 (p2Index va) = some l1 ∧ Pte.isPresent e = true ∧
      s.mem l1 (p1Index va) = e := by
  have hwalk : walkEntry s pt va = (((tableAt s.mem pt (p4Index va)).bind fun l3 =>
      (tableAt s.mem l3 (p3Index va)).bind fun l2 => tableAt s.mem l2 (p2Index va)).bind fun l1 =>
        if Pte.isPresent (s.mem l1 (p1Index va)) then some (l1, p1Index va) else none).map
          fun place => s.mem place.1 place.2 := rfl
  simp only [hwalk, Option.map_eq_some_iff, Option.bind_eq_some_iff]
  constructor
  · rintro ⟨place, ⟨l1, ⟨l3, h3, l2, h2, h1⟩, hplace⟩, he⟩
    split at hplace
    · rename_i hp
      cases hplace
      subst he
      exact ⟨l3, l2, l1, h3, h2, h1, hp, rfl⟩
    · cases hplace
  · rintro ⟨l3, l2, l1, h3, h2, h1, hp, rfl⟩
    exact ⟨_, ⟨l1, ⟨l3, h3, l2, h2, h1⟩, if_pos hp⟩, rfl⟩

theorem throws_after_requireTable {α : Type} {k : Nat → KM α}
    {e : Fault} (hf : tableAt s.mem t i = some f) (h : Throws (k f) s e s') :
    Throws (requireTable t i msg >>= k) s e s' :=
  throws_bind.mpr (.inr ⟨f, s, requireTable_returns.mpr ⟨hf, rfl⟩, h⟩)

/-- `unmap_page` of a page that is not mapped fails and changes nothing. -/
theorem unmapPage_throws (h : walkEntry s pt va = none) :
    ∃ msg, Throws (unmapPage pt va) s (.err msg) s := by
  unfold unmapPage
  -- the walk ends at the first level that is missing
  cases h3 : tableAt s.mem pt (p4Index va) with
  | none => exact ⟨_, throws_bind.mpr (.inl (requireTable_throws h3))⟩
  | some l3 =>
  cases h2 : tableAt s.mem l3 (p3Index va) with
  | none =>
    exact ⟨_, throws_after_requireTable h3 <| throws_bind.mpr (.inl (requireTable_throws h2))⟩
  | some l2 =>
  cases h1 : tableAt s.mem l2 (p2Index va) with
  | none =>
    exact ⟨_, throws_after_requireTable h3 <| throws_after_requireTable h2 <|
      throws_bind.mpr (.inl (requireTable_throws h1))⟩
  | some l1 =>
  cases hp : Pte.isPresent (s.mem l1 (p1Index va)) with
  | false =>
    exact ⟨_, throws_after_requireTable h3 <| throws_after_requireTable h2 <|
      throws_after_requireTable h1 <|
        throws_bind.mpr (.inl (requireTable_throws (child_of_absent hp)))⟩
  | true =>
    have hsome := walkEntry_eq_some.mpr ⟨l3, l2, l1, h3, h2, h1, hp, rfl⟩
    rw [h] at hsome
    cases hsome

/-- `unmap_page` of a mapped user page returns its frame and clears the entry. -/
theorem unmapPage_returns (hva : va < 2 ^ 47) (he : walkEntry s pt va = some e) :
    ∃ l1, pml4.node s.mem pt 3 (va / 4096 / 512) = some l1 ∧
      Returns (unmapPage pt va) s (Pte.frame e) (s.setEntry l1 (p1Index va) 0) := by
  obtain ⟨l3, l2, l1, h3, h2, h1, hp, rfl⟩ := walkEntry_eq_some.mp he
  have hcanonical : canonical va = true := by
    rw [canonical, decide_eq_true hva, Bool.true_or]
  refine ⟨l1, ?_, ?_⟩
  · rw [← leafTable_eq]
    simp only [leafTable, h3, h2, h1, Option.bind_eq_bind, Option.bind_some]
  · simp only [unmapPage, writeEntry, flushPage, hcanonical, if_true, returns_bind, returns_modify,
      returns_pure, requireTable_returns]
    exact ⟨l3, s, ⟨h3, rfl⟩, l2, s, ⟨h2, rfl⟩, l1, s, ⟨h1, rfl⟩, _, s,
      ⟨child_of_present hp, rfl⟩, (), _, rfl, (), _, ⟨trivial, rfl⟩, rfl, rfl⟩

end PandaOS.Kernel
