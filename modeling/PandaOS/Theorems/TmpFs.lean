import PandaOS.Kernel.TmpFs

/-!
# The temporary file system is a tree

Each operation either fails with the file system as it was or makes one change
to the entries: `create` adds a leaf, `unlink` removes one, `rename` moves a node,
and the others change no entry. A move keeps the tree only if the node does not
go below itself, which `rename` does not check.
-/

namespace PandaOS.Kernel.TmpFs

open Lib Relation

variable {fs fs' : TmpFs} {Q : α → TmpFs → Prop} {E : FsFault → TmpFs → Prop} {inode d p : Inode}
  {es : Entries} {op : Op} {debug : Bool}

/-! ## Outcomes of the operations -/

theorem ends_getNode {Q : TmpFsNode → TmpFs → Prop}
    (hQ : ∀ node, fs.nodes inode = some node → Q node fs) (hE : ∀ e, E e fs) :
    Ends (getNode inode) fs Q E := by
  unfold getNode
  rw [ends_bind, ends_get]
  cases hnode : fs.nodes inode with
  | none => exact hE _
  | some node => exact hQ node hnode

theorem ends_getEntries {Q : Entries → TmpFs → Prop}
    (hQ : ∀ es, fs.nodes inode = some (.directory es) → Q es fs)
    (hE : ∀ e, E e fs) :
    Ends (getEntries inode) fs Q E := by
  unfold getEntries
  rw [ends_bind]
  refine ends_getNode (fun node hnode => ?_) hE
  cases node with
  | file data => exact hE _
  | directory es => exact hQ es hnode

theorem ends_getData {Q : List Byte → TmpFs → Prop}
    (hQ : ∀ data, fs.nodes inode = some (.file data) → Q data fs)
    (hE : ∀ e, E e fs) :
    Ends (getData inode) fs Q E := by
  unfold getData
  rw [ends_bind]
  refine ends_getNode (fun node hnode => ?_) hE
  cases node with
  | file data => exact hQ data hnode
  | directory es => exact hE _

theorem ends_getEntry {parent : Inode} {name : FileName} {Q : Inode → TmpFs → Prop}
    (hQ : ∀ es inode, fs.nodes parent = some (.directory es) → es.lookup name = some inode →
      Q inode fs) (hE : ∀ e, E e fs) :
    Ends (getEntry parent name) fs Q E := by
  unfold getEntry
  rw [ends_bind]
  refine ends_getEntries (fun es hes => ?_) hE
  cases hentry : es.lookup name with
  | none => exact hE _
  | some inode => exact hQ es inode hes hentry

/-- A directory that is there is found. -/
theorem getEntries_returns (h : fs.nodes inode = some (.directory es)) :
    Returns (getEntries inode) fs es fs := by
  simp [getEntries, getNode, h]

/-! ## Entries after an update -/

theorem entry_of_directory (h : fs.nodes d = some (.directory es)) (name : FileName) :
    fs.entry d name = es.lookup name := by
  unfold entry
  rw [h]

@[simp] theorem setNode_nodes (inode c : Inode) (node : Option TmpFsNode) :
    (fs.setNode inode node).nodes c = if c = inode then node else fs.nodes c := rfl

theorem entry_setNode_ne (h : d ≠ inode) (node : Option TmpFsNode) (name : FileName) :
    (fs.setNode inode node).entry d name = fs.entry d name := by
  unfold entry
  rw [setNode_nodes, if_neg h]

theorem entry_setNode_directory (inode : Inode) (es : Entries) (name : FileName) :
    (fs.setNode inode (some (.directory es))).entry inode name = es.lookup name :=
  entry_of_directory (if_pos rfl) name

/-- The entries of a directory after one is added. -/
theorem entry_insert (hp : fs.nodes p = some (.directory es)) (n : FileName)
    (x d : Inode) (k : FileName) : (fs.setNode p (some (.directory (es.insert n x)))).entry d k =
      if d = p ∧ k = n then some x else fs.entry d k := by
  by_cases hd : d = p
  · subst hd
    rw [entry_setNode_directory, entry_of_directory hp]
    by_cases hk : k = n
    · subst hk
      simp
    · simp [hk, AList.lookup_insert_ne hk]
  · simp [hd, entry_setNode_ne hd]

/-- The entries of a directory after one is removed. -/
theorem entry_erase (hp : fs.nodes p = some (.directory es)) (n : FileName)
    (d : Inode) (k : FileName) : (fs.setNode p (some (.directory (es.erase n)))).entry d k =
      if d = p ∧ k = n then none else fs.entry d k := by
  by_cases hd : d = p
  · subst hd
    rw [entry_setNode_directory, entry_of_directory hp]
    by_cases hk : k = n
    · subst hk
      simp
    · simp [hk, AList.lookup_erase_ne hk]
  · simp [hd, entry_setNode_ne hd]

/-- A node without entries is put in place of a node without entries. -/
theorem entry_setNode_leaf {node : Option TmpFsNode} (hnode : ∀ es, node = some (.directory es) →
    es = ∅) (hleaf : ∀ k, fs.entry inode k = none) (d : Inode) (k : FileName) :
    (fs.setNode inode node).entry d k = fs.entry d k := by
  by_cases hd : d = inode
  · subst hd
    rw [hleaf k]
    unfold entry
    rw [setNode_nodes, if_pos rfl]
    match node, hnode with
    | none, _ => rfl
    | some (.file _), _ => rfl
    | some (.directory es), hnode =>
      obtain rfl := hnode es rfl
      exact AList.lookup_empty k
  · exact entry_setNode_ne hd node k

theorem entry_of_file {data : List Byte} (h : fs.nodes inode = some (.file data)) (k : FileName) :
    fs.entry inode k = none := by
  unfold entry
  rw [h]

theorem entry_of_none (h : fs.nodes inode = none) (k : FileName) : fs.entry inode k = none := by
  unfold entry
  rw [h]

/-! ## Changes of the tree -/

/-- The entries form a tree over the nodes. -/
def Rooted (fs : TmpFs) : Prop := IsTree (fun c => fs.nodes c ≠ none) fs.entry fs.rootInode

/-- The tree is a matter of the nodes. -/
theorem Rooted.congr (h : Rooted fs) (hnodes : fs'.nodes = fs.nodes)
    (hroot : fs'.rootInode = fs.rootInode) : Rooted fs' := by
  unfold Rooted
  rw [hroot]
  refine IsTree.congr h (fun c => by rw [hnodes]) fun d k => ?_
  unfold entry
  rw [hnodes]

/-- Other file contents, the same tree. -/
theorem Rooted.setFile (h : Rooted fs) {old : List Byte} (hold : fs.nodes inode = some (.file old))
    (data : List Byte) : Rooted (fs.setNode inode (some (.file data))) := by
  refine IsTree.congr h (fun c => ?_) (entry_setNode_leaf (by simp) (entry_of_file hold))
  by_cases hc : c = inode
  · simp [hc, hold]
  · simp [hc]

section

variable {p q x : Inode} {n m : FileName} {es es' : Entries} {node : TmpFsNode}

section

variable (h : Rooted fs) (hp : fs.nodes p = some (.directory es))
include h hp

/-- A new node without entries, named in directory `p`. -/
theorem Rooted.addNode (hn : es.lookup n = none) (hx : fs.nodes x = none)
    (hempty : ∀ es, node = .directory es → es = ∅) :
    Rooted ((fs.setNode x (some node)).setNode p (some (.directory (es.insert n x)))) := by
  have hpx : p ≠ x := by
    rintro rfl
    rw [hp] at hx
    cases hx
  have hp' : (fs.setNode x (some node)).nodes p = some (.directory es) := by
    rw [setNode_nodes, if_neg hpx, hp]
  have hsame : ∀ d k, (fs.setNode x (some node)).entry d k = fs.entry d k :=
    entry_setNode_leaf (fun es heq => hempty es (by simpa using heq)) (entry_of_none hx)
  refine IsTree.add h (p := p) (x := x) (n := n) (by simp [hp]) (by simp [hx]) ?_ ?_ ?_
  · intro c
    by_cases hcp : c = p
    · simp [hcp, hp]
    · by_cases hcx : c = x
      · subst hcx
        simp [hcp]
      · simp [hcp, hcx]
  · intro d k c
    rw [entry_insert hp', hsame]
    by_cases hdk : d = p ∧ k = n
    · simp [hdk, eq_comm]
    · rw [if_neg hdk]
      tauto
  · rw [entry_of_directory hp, hn]

/-- A node without entries and its name in directory `p` are removed. -/
theorem Rooted.removeNode (hn : es.lookup n = some x) (hleaf : ∀ k, fs.entry x k = none) :
    Rooted ((fs.setNode p (some (.directory (es.erase n)))).setNode x none) := by
  have hentry : fs.entry p n = some x := by rw [entry_of_directory hp, hn]
  have hleaf' : ∀ k, (fs.setNode p (some (.directory (es.erase n)))).entry x k = none := by
    intro k
    rw [entry_erase hp, hleaf k, ite_self]
  refine IsTree.remove h hentry hleaf ?_ ?_
  · intro c
    by_cases hcx : c = x
    · simp [hcx]
    · by_cases hcp : c = p
      · simp [hcp, hp]
      · simp [hcx, hcp]
  · intro d k c
    rw [entry_setNode_leaf (by simp) hleaf', entry_erase hp]
    by_cases hdk : d = p ∧ k = n
    · simp [hdk]
    · simp [hdk]

/-- The name of a node moves to a directory that is not below the node. -/
theorem Rooted.moveNode (hn : es.lookup n = some x)
    (hq : (fs.setNode p (some (.directory (es.erase n)))).nodes q = some (.directory es'))
    (hm : fs.entry q m = none) (hbelow : ¬ReflTransGen (Child fs.entry) x q) :
    Rooted ((fs.setNode p (some (.directory (es.erase n)))).setNode q
      (some (.directory (es'.insert m x)))) := by
  have hentry : fs.entry p n = some x := by rw [entry_of_directory hp, hn]
  have hnode : ∀ c, (fs.setNode p (some (.directory (es.erase n)))).nodes c ≠ none ↔
      fs.nodes c ≠ none := by
    intro c
    by_cases hcp : c = p
    · simp [hcp, hp]
    · simp [hcp]
  have hq' : fs.nodes q ≠ none := (hnode q).mp (by rw [hq]; exact Option.some_ne_none _)
  refine IsTree.move h hentry hq' hm hbelow ?_ ?_
  · intro c
    rw [← hnode c, setNode_nodes]
    by_cases hcq : c = q
    · subst hcq
      rw [if_pos rfl, hq]
      simp only [ne_eq, reduceCtorEq]
    · rw [if_neg hcq]
  · intro d k c
    rw [entry_insert hq, entry_erase hp]
    by_cases hdk : d = q ∧ k = m
    · simp [hdk, eq_comm]
    · by_cases hold : d = p ∧ k = n
      · rw [if_neg hdk, if_pos hold]
        tauto
      · rw [if_neg hdk, if_neg hold]
        tauto

end

end

/-! ## One operation -/

section

variable (h : Rooted fs)
include h

theorem Rooted.create (hfree : fs.nodes fs.nextInode = none) (debug : Bool)
    (parent : Inode) (name : FileName) (isDir : Bool) :
    Ends (TmpFs.create debug parent name isDir) fs (fun _ => Rooted) (fun _ => Rooted) := by
  unfold TmpFs.create allocateInode
  simp only [ends_bind]
  refine ends_failIf (fun _ => ?_) h
  refine ends_getEntries (fun es hes => ?_) fun _ => h
  refine ends_failIf (fun hnew => ?_) h
  rw [ends_get]
  refine ends_failIf (fun _ => ?_) h
  simp only [ends_modify, ends_pure]
  -- the parent is another node than the new one, so it is found again as it was
  have hne : parent ≠ fs.nextInode := by
    rintro rfl
    rw [hes] at hfree
    cases hfree
  have hfound : (fs.setNode fs.nextInode
      (some (if isDir then .newDirectory else .newFile))).nodes parent = some (.directory es) := by
    rw [setNode_nodes, if_neg hne, hes]
  refine Returns.ends (getEntries_returns hfound) ?_
  · refine (h.addNode hes (by simpa using hnew) hfree ?_).congr rfl rfl
    intro es' heq
    cases isDir with
    | false => cases heq
    | true =>
      cases heq
      rfl

theorem Rooted.unlink (parent : Inode) (name : FileName) :
    Ends (TmpFs.unlink parent name) fs (fun _ => Rooted) (fun _ => Rooted) := by
  unfold TmpFs.unlink
  simp only [ends_bind]
  refine ends_failIf (fun _ => ?_) h
  refine ends_getEntry (fun es inode hes hentry => ?_) fun _ => h
  refine ends_getNode (fun node hnode => ?_) fun _ => h
  refine ends_failIf (fun hempty => ?_) h
  refine (getEntries_returns hes).ends ?_
  simp only [ends_modify]
  refine h.removeNode hes hentry fun k => ?_
  cases node with
  | file data => exact entry_of_file hnode k
  | directory dirEntries =>
    rw [entry_of_directory hnode]
    obtain rfl : dirEntries = ∅ := AList.ext (by simpa [TmpFsNode.nonEmptyDirectory] using hempty)
    exact AList.lookup_empty k

theorem Rooted.rename {oldParent newParent : Inode} {oldName : FileName} (newName : FileName)
    (hbelow : ∀ inode, fs.entry oldParent oldName = some inode →
      ¬ReflTransGen (Child fs.entry) inode newParent) :
    Ends (TmpFs.rename oldParent oldName newParent newName) fs
      (fun _ => Rooted) (fun _ => Rooted) := by
  unfold TmpFs.rename
  simp only [ends_bind]
  refine ends_failIf (fun _ => ?_) h
  refine ends_getEntry (fun es inode hes hentry => ?_) fun _ => h
  refine ends_getEntries (fun es' hes' => ?_) fun _ => h
  refine ends_failIf (fun hnew => ?_) h
  refine (getEntries_returns hes).ends ?_
  rw [ends_modify]
  -- the new parent is still a directory, also where it is the old one
  have hfound : ∃ esq, (fs.setNode oldParent (some (.directory (es.erase oldName)))).nodes
      newParent = some (.directory esq) := by
    by_cases heq : newParent = oldParent
    · exact ⟨es.erase oldName, by simp [heq]⟩
    · exact ⟨es', by simp [heq, hes']⟩
  obtain ⟨esq, hdir⟩ := hfound
  refine (getEntries_returns hdir).ends ?_
  rw [ends_modify]
  refine h.moveNode hes hentry hdir ?_ (hbelow inode ?_)
  · rw [entry_of_directory hes']
    simpa using hnew
  · rw [entry_of_directory hes, hentry]

theorem Rooted.write (heap : HeapRoom) (inode : Inode) (offset : Nat) (data : List Byte) :
    Ends (TmpFs.write heap inode offset data) fs (fun _ => Rooted) (fun _ => Rooted) := by
  unfold TmpFs.write
  simp only [ends_bind]
  refine ends_getData (fun old hold => ?_) fun _ => h
  refine ends_failIf (fun _ => ?_) h
  simp only [ends_modify, ends_pure]
  exact h.setFile hold _

theorem Rooted.truncate (inode : Inode) :
    Ends (TmpFs.truncate inode) fs (fun _ => Rooted) (fun _ => Rooted) := by
  unfold TmpFs.truncate
  rw [ends_bind]
  refine ends_getData (fun old hold => ?_) fun _ => h
  rw [ends_modify]
  exact h.setFile hold _

theorem Rooted.chmod (inode : Inode) (mode : Mode) :
    Ends (TmpFs.chmod inode mode) fs (fun _ => Rooted) (fun _ => Rooted) := by
  unfold TmpFs.chmod
  rw [ends_bind]
  refine ends_getNode (fun node _ => ?_) fun _ => h
  rw [ends_modify]
  exact h.congr rfl rfl

/-- An operation under its condition keeps the tree, whatever its outcome. -/
theorem Rooted.call (debug : Bool) (hop : KeepsTree fs op) :
    Ends (op.call debug) fs (fun _ => Rooted) (fun _ => Rooted) := by
  cases op with
  | create parent name isDir =>
    unfold Op.call
    exact (h.create hop debug parent name isDir).seq (fun _ _ h => h)
  | unlink parent name => exact h.unlink parent name
  | rename oldParent oldName newParent newName => exact h.rename newName hop
  | write heap inode offset data =>
    unfold Op.call
    exact (h.write heap inode offset data).seq (fun _ _ h => h)
  | truncate inode => exact h.truncate inode
  | chmod inode mode => exact h.chmod inode mode

theorem Rooted.step (hop : KeepsTree fs op) (hstep : fs.step debug op = some fs') : Rooted fs' := by
  have hends := h.call debug hop
  unfold Ends at hends
  unfold TmpFs.step at hstep
  split at hstep <;> simp_all

end

/-! ## Runs -/

theorem rooted_new : Rooted new := by
  have hentry : ∀ d k, new.entry d k = none := by
    intro d k
    by_cases hd : d = 1
    · subst hd
      exact AList.lookup_empty k
    · exact entry_of_none (if_neg hd) k
  have hchild : ∀ d c, ¬Child new.entry d c := by
    rintro d c ⟨k, hk⟩
    rw [hentry] at hk
    cases hk
  refine ⟨by simp [new], ?_, ?_, ?_, ?_⟩
  · intro d k c hk
    exact absurd ⟨k, hk⟩ (hchild d c)
  · intro d k d' k' c hk
    exact absurd ⟨k, hk⟩ (hchild d c)
  · intro c hc
    obtain rfl : c = 1 := by
      by_contra hne
      exact hc (if_neg hne)
    exact .refl
  · intro c hc
    obtain ⟨d, hd, -⟩ := TransGen.head'_iff.mp hc
    exact hchild c d hd

theorem Rooted.tree (h : Rooted fs) : Tree fs where
  entries_exist d name c hentry := (h.valid d name c hentry).2
  one_entry c hc hne := by
    obtain ⟨d, k, hk⟩ := h.linked hc hne
    refine ⟨(d, k), hk, ?_⟩
    rintro ⟨d', k'⟩ hk'
    obtain ⟨rfl, rfl⟩ := h.once d' k' d k c hk' hk
    rfl
  reachable := h.reach
  no_cycle := h.acyclic

/-- In every run whose creations find their inode number free and whose renames
do not move a node below itself, the file system is a tree. -/
theorem tmpfs_tree {debug : Bool} {fs : TmpFs} (h : (runs debug KeepsTree).Reachable fs) :
    Tree fs := by
  have hind : (runs debug KeepsTree).Inductive Rooted := by
    refine ⟨?_, ?_⟩
    · rintro fs rfl
      exact rooted_new
    · rintro fs fs' hfs ⟨op, hop, hstep⟩
      exact hfs.step hop hstep
  exact (hind.invariant fs h).tree

/-- The run of a list of operations from a new file system; one that panics is
left out. -/
def after (debug : Bool) (ops : List Op) : TmpFs :=
  ops.foldl (fun fs op => (fs.step debug op).getD fs) new

theorem reachable_after {P : TmpFs → Op → Prop} {ops : List Op}
    (h : (runs debug P).Reachable (after debug ops)) (op : Op) (hop : P (after debug ops) op)
    (hstep : ((after debug ops).step debug op).isSome) :
    (runs debug P).Reachable (after debug (ops ++ [op])) := by
  obtain ⟨fs', hfs'⟩ := Option.isSome_iff_exists.mp hstep
  refine h.step ⟨op, hop, ?_⟩
  have hafter : after debug (ops ++ [op]) = ((after debug ops).step debug op).getD
      (after debug ops) := by
    simp [after]
  rw [hafter, hfs', Option.getD_some]

/-- Two directories, the second moved into the first. -/
theorem tmpfs_tree_after_rename :
    (after true [.create 1 ['a'] true, .create 1 ['b'] true, .rename 1 ['b'] 2 ['c']]).entry 2
        ['c'] = some 3 ∧
      Tree (after true [.create 1 ['a'] true, .create 1 ['b'] true, .rename 1 ['b'] 2 ['c']]) := by
  have h₀ : (runs true KeepsTree).Reachable (after true []) := .init rfl
  have h₁ := reachable_after h₀ (.create 1 ['a'] true) rfl (by decide +kernel)
  have h₂ := reachable_after h₁ (.create 1 ['b'] true) rfl (by decide +kernel)
  have h₃ := reachable_after h₂ (.rename 1 ['b'] 2 ['c']) ?_ (by decide +kernel)
  · exact ⟨by decide +kernel, tmpfs_tree h₃⟩
  · intro inode hentry hbelow
    have hthree : (after true [.create 1 ['a'] true, .create 1 ['b'] true]).entry 1 ['b'] =
        some 3 := by
      decide +kernel
    obtain rfl : inode = 3 := Option.some.inj (hentry.symm.trans hthree)
    -- the new directory is empty, so nothing is below it
    rcases ReflTransGen.cases_head hbelow with heq | ⟨c, ⟨k, hk⟩, -⟩
    · exact absurd heq (by decide)
    · have hempty : (after true [.create 1 ['a'] true, .create 1 ['b'] true]).nodes 3 =
          some (.directory ∅) := rfl
      have hnone := (entry_of_directory hempty k).trans (AList.lookup_empty k)
      cases hk.symm.trans hnone

/-- A directory renamed into itself is its own descendant, and no longer
reachable from the root. -/
theorem rename_into_itself : ∃ fs, (runs true fun _ _ => True).Reachable fs ∧ fs.nodes 2 ≠ none ∧
      TransGen (Child fs.entry) 2 2 ∧ ¬ReflTransGen (Child fs.entry) fs.rootInode 2 ∧ ¬Tree fs := by
  have h₀ : (runs true fun _ _ => True).Reachable (after true []) := .init rfl
  have h₁ := reachable_after h₀ (.create 1 ['a'] true) trivial (by decide +kernel)
  have h₂ := reachable_after h₁ (.rename 1 ['a'] 2 ['b']) trivial (by decide +kernel)
  have hcycle : TransGen (Child (after true [.create 1 ['a'] true, .rename 1 ['a'] 2 ['b']]).entry)
      2 2 :=
    .single ⟨['b'], by decide +kernel⟩
  refine ⟨_, h₂, by decide +kernel, hcycle, ?_, fun htree => htree.no_cycle 2 hcycle⟩
  -- the root has no entry left
  intro hreach
  rcases ReflTransGen.cases_head hreach with heq | ⟨c, ⟨k, hk⟩, -⟩
  · exact absurd heq (by decide)
  · have hroot : (after true [.create 1 ['a'] true, .rename 1 ['a'] 2 ['b']]).nodes 1 =
        some (.directory ∅) := rfl
    have hnone := (entry_of_directory hroot k).trans (AList.lookup_empty k)
    cases hk.symm.trans hnone

end PandaOS.Kernel.TmpFs
