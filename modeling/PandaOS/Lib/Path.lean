import Mathlib.Data.List.Basic

/-!
# Separated paths

An absolute path is a list of components, each written behind a separator. The root
has no component and is the separator alone. The text of a path determines its
components as long as these are nonempty and free of the separator, and a path lies
below another exactly if its text continues the other's behind a separator.
-/

namespace PandaOS.Lib.Path

variable {α : Type} [DecidableEq α] {sep : α} {cs ds es : List (List α)}

/-- The text of a path. -/
def render (sep : α) (cs : List (List α)) : List α := sep :: [sep].intercalate cs

/-- The components of `cs` can be read back from its text. -/
def Named (sep : α) (cs : List (List α)) : Prop := ∀ c ∈ cs, c ≠ [] ∧ sep ∉ c

instance : Decidable (Named sep cs) := inferInstanceAs (Decidable (∀ c ∈ cs, c ≠ [] ∧ sep ∉ c))

omit [DecidableEq α] in
theorem render_append (hcs : cs ≠ []) (hds : ds ≠ []) :
    render sep (cs ++ ds) = render sep cs ++ render sep ds := by
  suffices h : [sep].intercalate (cs ++ ds) = [sep].intercalate cs ++ sep :: [sep].intercalate ds by
    simp [render, h]
  induction cs with
  | nil => exact absurd rfl hcs
  | cons c cs ih =>
    rw [List.cons_append, List.intercalate_cons_of_ne_nil (by simp [hds])]
    by_cases hnil : cs = []
    · simp [hnil]
    · rw [ih hnil, List.intercalate_cons_of_ne_nil hnil]
      simp

/-- No piece of a split holds the separator. -/
theorem sep_notMem_of_mem_splitOn {c l : List α} (hc : c ∈ l.splitOn sep) : sep ∉ c := by
  induction l generalizing c with
  | nil => simp_all
  | cons a l ih =>
    obtain ⟨first, rest, hl⟩ := List.exists_cons_of_ne_nil (List.splitOn_ne_nil sep l)
    rw [List.splitOn_cons_eq_if_modifyHead, hl] at hc
    rw [hl] at ih
    split at hc
    · rcases List.mem_cons.mp hc with rfl | hc
      · simp
      · exact ih hc
    · -- The first piece grows by `a`, the others stay.
      rename_i ha
      rcases List.mem_cons.mp hc with rfl | hc
      · have hfirst := ih List.mem_cons_self
        have hsep : sep ≠ a := fun h => ha (by simp [h])
        simp [hfirst, hsep]
      · exact ih (List.mem_cons_of_mem _ hc)

theorem splitOn_render (hcs : Named sep cs) :
    (render sep cs).splitOn sep = [] :: (if cs = [] then [[]] else cs) := by
  have hsplit := List.splitOn_append_cons_self (a := sep) [] ([sep].intercalate cs)
  rw [List.nil_append] at hsplit
  rw [render, hsplit]
  split_ifs with hroot
  · subst hroot
    rfl
  · rw [List.splitOn_intercalate sep (fun c hc => (hcs c hc).2) hroot]
    rfl

theorem render_inj (hcs : Named sep cs) (hds : Named sep ds) :
    render sep cs = render sep ds ↔ cs = ds := by
  refine ⟨fun h => ?_, fun h => h ▸ rfl⟩
  have hsplit := congrArg (List.splitOn sep) h
  rw [splitOn_render hcs, splitOn_render hds, List.cons.injEq] at hsplit
  have hempty : ∀ {es : List (List α)}, Named sep es → es ≠ [[]] := by
    rintro es hes rfl
    exact (hes [] (by simp)).1 rfl
  have heq := hsplit.2
  split_ifs at heq with hc hd hd
  · rw [hc, hd]
  · exact absurd heq.symm (hempty hds)
  · exact absurd heq (hempty hcs)
  · exact heq

/-- A path's text continues that of another, which is not the root, behind a separator
exactly if it lies below. -/
theorem render_prefix_iff (hcs : Named sep cs) (hds : Named sep ds) (hne : cs ≠ []) :
    render sep cs ++ [sep] <+: render sep ds ↔ ∃ es, es ≠ [] ∧ ds = cs ++ es := by
  constructor
  · rintro ⟨rest, hrest⟩
    have hsplit := congrArg (List.splitOn sep) hrest
    rw [List.append_assoc, List.singleton_append, List.splitOn_append_cons_self,
      splitOn_render hcs, splitOn_render hds, if_neg hne, List.cons_append,
      List.cons.injEq] at hsplit
    have hpieces := List.splitOn_ne_nil sep rest
    refine ⟨rest.splitOn sep, hpieces, ?_⟩
    have heq := hsplit.2
    split_ifs at heq with hroot
    · have hlength := congrArg List.length heq
      have hcsLength := List.length_pos_of_ne_nil hne
      have hpiecesLength := List.length_pos_of_ne_nil hpieces
      simp only [List.length_append, List.length_singleton] at hlength
      omega
    · exact heq.symm
  · rintro ⟨es, hes, rfl⟩
    rw [render_append hne hes]
    exact (List.prefix_append_right_inj _).mpr ⟨[sep].intercalate es, rfl⟩

/-- No path's text starts with two separators. -/
theorem not_render_root_prefix (hds : Named sep ds) :
    ¬ render sep [] ++ [sep] <+: render sep ds := by
  rintro ⟨rest, hrest⟩
  have hsplit := congrArg (List.splitOn sep) hrest
  have hsecond := List.splitOn_append_cons_self (a := sep) [] rest
  have hboth : render sep [] ++ [sep] ++ rest = [] ++ sep :: ([] ++ sep :: rest) := rfl
  rw [hboth, List.splitOn_append_cons_self, hsecond, splitOn_render hds] at hsplit
  have heq := (List.cons.inj hsplit).2
  split_ifs at heq with hroot
  · exact List.splitOn_ne_nil sep rest (List.cons.inj heq).2
  · exact (hds [] (heq ▸ List.mem_cons_self)).1 rfl

end PandaOS.Lib.Path
