import PandaOS.Kernel.Vfs
import PandaOS.Lib.Path

/-!
# Paths and mounts

`normalize_path` keeps a stack of components. Pushing the pieces of a text one after
the other makes it a homomorphism: the components of `p/q` are those of `p` with the
pieces of `q` pushed. `resolve_mount` takes the first mount point whose text the path
continues, which is the deepest one above the path only for some orders of the mounts,
and never for a mount at the root.
-/

namespace PandaOS.Kernel

open Lib.Path

/-! ## Normalization -/

/-- What is left of a sequence of components, read from left to right over a stack whose
top comes first. -/
def stacked (stack : List (List Byte)) : List (List Byte) → List (List Byte)
  | [] => stack.reverse
  | component :: rest =>
    if component = [] ∨ component = [dot] then stacked stack rest
    else if component = [dot, dot] then stacked stack.tail rest
    else stacked (component :: stack) rest

/-- A component that stands for itself. -/
def Plain (c : List Byte) : Prop := c ≠ [] ∧ c ≠ [dot] ∧ c ≠ [dot, dot] ∧ slash ∉ c

theorem foldl_pushComponent (stack cs : List (List Byte)) :
    cs.foldl pushComponent stack.reverse = stacked stack cs := by
  induction cs generalizing stack with
  | nil => rfl
  | cons c cs ih =>
    rw [List.foldl_cons, stacked, pushComponent]
    split_ifs
    · exact ih stack
    · rw [List.dropLast_reverse]
      exact ih stack.tail
    · rw [← List.reverse_cons]
      exact ih (c :: stack)

theorem plain_foldl {kept cs : List (List Byte)} (hkept : ∀ c ∈ kept, Plain c)
    (hcs : ∀ c ∈ cs, slash ∉ c) : ∀ c ∈ cs.foldl pushComponent kept, Plain c := by
  induction cs generalizing kept with
  | nil => exact hkept
  | cons c cs ih =>
    refine ih ?_ fun d hd => hcs d (List.mem_cons_of_mem _ hd)
    intro d hd
    unfold pushComponent at hd
    split_ifs at hd with hskip hup
    · exact hkept d hd
    · exact hkept d (List.mem_of_mem_dropLast hd)
    · rcases List.mem_append.mp hd with hd | hd
      · exact hkept d hd
      · rw [List.mem_singleton.mp hd]
        exact ⟨fun h => hskip (.inl h), fun h => hskip (.inr h), hup, hcs c List.mem_cons_self⟩

/-- Plain components are all kept. -/
theorem foldl_plain (kept : List (List Byte)) {cs : List (List Byte)} (hcs : ∀ c ∈ cs, Plain c) :
    cs.foldl pushComponent kept = kept ++ cs := by
  induction cs generalizing kept with
  | nil => simp
  | cons c cs ih =>
    obtain ⟨hempty, hdot, hup, -⟩ := hcs c List.mem_cons_self
    rw [List.foldl_cons, pushComponent, if_neg (by simp [hempty, hdot]), if_neg hup,
      ih _ fun d hd => hcs d (List.mem_cons_of_mem _ hd)]
    simp

/-- The components `normalize_path` keeps. -/
def keptParts (path : List Byte) : List (List Byte) := (path.splitOn slash).foldl pushComponent []

theorem plain_keptParts (path : List Byte) : ∀ c ∈ keptParts path, Plain c :=
  plain_foldl (by simp) fun _ hc => sep_notMem_of_mem_splitOn hc

theorem normalizePath_eq {path : List Byte} (habs : path.head? = some slash) :
    normalizePath path = .ok (render slash (keptParts path)) := by
  rw [normalizePath, if_neg (by simp [habs])]
  rfl

/-- The components of a text behind another and a slash. -/
theorem keptParts_append (p q : List Byte) :
    keptParts (p ++ slash :: q) = (q.splitOn slash).foldl pushComponent (keptParts p) := by
  rw [keptParts, List.splitOn_append_cons_self, List.foldl_append]
  rfl

theorem keptParts_render {cs : List (List Byte)} (hcs : ∀ c ∈ cs, Plain c) :
    keptParts (render slash cs) = cs := by
  have hnamed : Named slash cs := fun c hc => ⟨(hcs c hc).1, (hcs c hc).2.2.2⟩
  rw [keptParts, splitOn_render hnamed]
  split_ifs with hroot
  · subst hroot
    rfl
  · exact foldl_plain [] hcs

/-- A relative path is pushed on the components of the directory, whether or not that
ends in a slash. -/
theorem resolvePath_eq {cwd path : List Byte} (hcwd : cwd.head? = some slash)
    (hrel : path.head? ≠ some slash) :
    resolvePath cwd path = .ok
      (render slash ((path.splitOn slash).foldl pushComponent (keptParts cwd))) := by
  rw [resolvePath, if_neg hrel]
  split_ifs with hlast
  · -- The slash that ends the directory is the one before the path.
    obtain ⟨front, rfl⟩ : ∃ front, cwd = front ++ [slash] := List.getLast?_eq_some_iff.mp hlast
    have habs : (front ++ [slash] ++ path).head? = some slash := by
      rw [List.head?_append, hcwd]
      rfl
    have hempty : keptParts (front ++ [slash]) = keptParts front := by
      rw [keptParts_append]
      rfl
    rw [normalizePath_eq habs, List.append_assoc, List.singleton_append, keptParts_append, hempty]
  · rw [normalizePath_eq (by simp [List.head?_append, hcwd]), keptParts_append]

/-- **Path normalization.** An absolute path is normalized to what its components leave on a
stack, each behind one slash; none of these is empty, `.` or `..`, and normalizing again
changes nothing. Resolving two relative paths one after the other is resolving the second
behind the first. -/
theorem normalize_path_laws : (∀ path : List Byte, path.head? = some slash →
      normalizePath path = .ok (render slash (stacked [] (path.splitOn slash))) ∧
      (∀ c ∈ stacked [] (path.splitOn slash), Plain c) ∧
      (normalizePath path >>= normalizePath) = normalizePath path) ∧
    ∀ cwd a b : List Byte, cwd.head? = some slash → a ≠ [] → a.head? ≠ some slash →
      b.head? ≠ some slash →
      (resolvePath cwd a >>= fun directory => resolvePath directory b) =
        resolvePath cwd (a ++ slash :: b) := by
  refine ⟨fun path habs => ?_, fun cwd a b hcwd hne ha hb => ?_⟩
  · have hstacked : stacked [] (path.splitOn slash) = keptParts path :=
      (foldl_pushComponent [] _).symm
    rw [hstacked]
    refine ⟨normalizePath_eq habs, plain_keptParts path, ?_⟩
    rw [normalizePath_eq habs]
    have hagain : normalizePath (render slash (keptParts path)) =
        .ok (render slash (keptParts (render slash (keptParts path)))) := normalizePath_eq rfl
    rw [keptParts_render (plain_keptParts path)] at hagain
    exact hagain
  · have hboth : (a ++ slash :: b).head? ≠ some slash := by
      rwa [List.head?_append_of_ne_nil _ hne]
    have hplain : ∀ c ∈ (a.splitOn slash).foldl pushComponent (keptParts cwd), Plain c :=
      plain_foldl (plain_keptParts cwd) fun _ hc => sep_notMem_of_mem_splitOn hc
    rw [resolvePath_eq hcwd ha, resolvePath_eq hcwd hboth, List.splitOn_append_cons_self,
      List.foldl_append]
    generalize (a.splitOn slash).foldl pushComponent (keptParts cwd) = parts at hplain
    have hsecond : resolvePath (render slash parts) b = _ := resolvePath_eq rfl hb
    rw [keptParts_render hplain] at hsecond
    exact hsecond

/-- `/a/./b`, and `..` followed by `c` from there. -/
theorem normalize_path_laws_at :
    normalizePath [slash, 97, slash, dot, slash, 98] = .ok [slash, 97, slash, 98] ∧
      (resolvePath [slash, 97] [dot, dot] >>= fun directory => resolvePath directory [99]) =
        resolvePath [slash, 97] [dot, dot, slash, 99] :=
  ⟨(normalize_path_laws.1 [slash, 97, slash, dot, slash, 98] rfl).1.trans (by decide),
    normalize_path_laws.2 [slash, 97] [dot, dot] [99] rfl (by decide) (by decide) (by decide)⟩

/-! ## Mounts -/

/-- A mount point by its components, and the file system on it. -/
abbrev Mount := List FileName × FsType

/-- The mount list `resolve_mount` reads. -/
def mountTexts (ms : List Mount) : List (PathName × FsType) :=
  ms.map fun m => (render '/' m.1, m.2)

/-- `r` is the answer for the path with components `ds`: the deepest mount point above it,
with the components below it, or `none` if no mount point is above. -/
def DeepestAbove (ms : List Mount) (ds : List FileName) :
    Option (PathName × PathName × FsType) → Prop
  | none => ∀ m ∈ ms, ¬ m.1 <+: ds
  | some r => ∃ m ∈ ms, m.1 <+: ds ∧ (∀ m' ∈ ms, m'.1 <+: ds → m'.1.length ≤ m.1.length) ∧
      r = (render '/' m.1, render '/' (ds.drop m.1.length), m.2)

/-- The first mount point above the path, where one at the root is above the root only. -/
def firstAbove (ms : List Mount) (ds : List FileName) : Option Mount :=
  ms.find? fun m => decide (m.1 <+: ds ∧ (m.1 = [] → ds = []))

theorem resolveMount_eq {ms : List Mount} {ds : List FileName}
    (hms : ∀ m ∈ ms, Named '/' m.1) (hds : Named '/' ds) :
    resolveMount (mountTexts ms) (render '/' ds) = (firstAbove ms ds).map fun m =>
      (render '/' m.1, render '/' (ds.drop m.1.length), m.2) := by
  induction ms with
  | nil => rfl
  | cons m ms ih =>
    have hm := hms m List.mem_cons_self
    have hrest := ih fun m' hm' => hms m' (List.mem_cons_of_mem _ hm')
    have hstep : resolveMount (mountTexts (m :: ms)) (render '/' ds) =
        if render '/' ds = render '/' m.1 then some (render '/' m.1, ['/'], m.2)
        else if render '/' m.1 ++ ['/'] <+: render '/' ds then
          some (render '/' m.1, (render '/' ds).drop (render '/' m.1).length, m.2)
        else resolveMount (mountTexts ms) (render '/' ds) := rfl
    rw [hstep]
    unfold firstAbove at hrest ⊢
    rw [List.find?_cons]
    by_cases hsame : ds = m.1
    · rw [if_pos ((render_inj hds hm).mpr hsame)]
      simp [hsame, render]
    rw [if_neg (hsame ∘ (render_inj hds hm).mp)]
    by_cases hroot : m.1 = []
    · -- A mount at the root asks for two slashes at the front.
      have hno : ¬ render '/' m.1 ++ ['/'] <+: render '/' ds :=
        hroot ▸ not_render_root_prefix hds
      have hds' : ds ≠ [] := hroot ▸ hsame
      rw [if_neg hno, hrest]
      simp [hroot, hds']
    split_ifs with hbelow
    · obtain ⟨es, hes, rfl⟩ := (render_prefix_iff hm hds hroot).mp hbelow
      simp [hroot, render_append hroot hes]
    · have hnot : ¬ m.1 <+: ds := by
        rintro ⟨es, hes⟩
        refine hbelow ((render_prefix_iff hm hds hroot).mpr ⟨es, ?_, hes.symm⟩)
        rintro rfl
        exact hsame (by simpa using hes.symm)
      rw [hrest]
      simp [hnot]

/-- **Mount resolution.** The answer is the deepest mount point above the path exactly if the
first one above it is the deepest, and if a path with only the root's mount above it is the
root. -/
theorem resolve_mount_iff {ms : List Mount} {ds : List FileName}
    (hms : ∀ m ∈ ms, Named '/' m.1) (hds : Named '/' ds) :
    DeepestAbove ms ds (resolveMount (mountTexts ms) (render '/' ds)) ↔
      (∀ first, firstAbove ms ds = some first →
        ∀ m ∈ ms, m.1 <+: ds → m.1.length ≤ first.1.length) ∧
      (firstAbove ms ds = none → ∀ m ∈ ms, m.1 ≠ []) := by
  rw [resolveMount_eq hms hds]
  cases hfirst : firstAbove ms ds with
  | none =>
    simp only [Option.map_none, DeepestAbove, reduceCtorEq, false_implies, implies_true,
      true_and, true_implies]
    unfold firstAbove at hfirst
    rw [List.find?_eq_none] at hfirst
    refine forall₂_congr fun m hm => ⟨fun h hroot => h (hroot ▸ List.nil_prefix), ?_⟩
    intro hne habove
    exact hfirst m hm (by simp [habove, hne])
  | some first =>
    have hmem := List.mem_of_find?_eq_some hfirst
    have habove := List.find?_some hfirst
    rw [decide_eq_true_iff] at habove
    simp only [Option.map_some, DeepestAbove, Option.some.injEq, forall_eq', reduceCtorEq,
      false_implies, and_true]
    constructor
    · rintro ⟨m, hm, -, hdeepest, heq⟩
      have hsame := (render_inj (hms first hmem) (hms m hm)).mp (Prod.ext_iff.mp heq).1
      rw [hsame]
      exact hdeepest
    · intro hdeepest
      exact ⟨first, hmem, habove.1, hdeepest, rfl⟩

/-- With the inner mount first, a path below both belongs to the inner one. -/
theorem resolve_mount_inner_first :
    DeepestAbove [([['m'], ['n']], .disk), ([['m']], .tmpfs)] [['m'], ['n'], ['x']]
      (resolveMount (mountTexts [([['m'], ['n']], .disk), ([['m']], .tmpfs)])
        (render '/' [['m'], ['n'], ['x']])) :=
  (resolve_mount_iff (by decide) (by decide)).mpr ⟨by decide, by decide⟩

/-- With the outer mount first, the path is looked up in the outer one; and a mount at the
root has no path but the root. -/
theorem resolve_mount_order_matters :
    ¬ DeepestAbove [([['m']], .tmpfs), ([['m'], ['n']], .disk)] [['m'], ['n'], ['x']]
        (resolveMount (mountTexts [([['m']], .tmpfs), ([['m'], ['n']], .disk)])
          (render '/' [['m'], ['n'], ['x']])) ∧
      resolveMount (mountTexts [([], .disk)]) (render '/' [['x']]) = none := by
  refine ⟨?_, by decide⟩
  rintro ⟨m, hm, -, hdeepest, heq⟩
  rcases List.mem_pair.mp hm with rfl | rfl
  · exact absurd (hdeepest _ (List.mem_pair.mpr (.inr rfl)) (by decide)) (by decide)
  · exact absurd heq (by decide)

end PandaOS.Kernel
