import PandaOS.Logic.Files
import PandaOS.Theorems.TmpFs

/-!
# Opens that fail

An open call on the tmpfs truncates or creates the file before it looks at the
permissions and before it looks for a free descriptor, so a call that is refused
may have emptied a file or left a new one. On the memory file system every call
that would create a file leaves it behind and fails, since the new file has no
node in the table. `openErrors_iff` says exactly which failed calls leave every file as it
was.
-/

namespace PandaOS.Kernel

open Lib

variable {α : Type} {inode parent : Inode} {data : List Byte} {Q : Inode → Files → Prop}
  {E : FsFault → Files → Prop} {x : FileM α} {st : Files} {cs : List FileName} {name : FileName}

/-! ## What a call could change -/

/-- A path of a file that can change. On the tmpfs it is a list of components. -/
inductive FilePath
  | memory (path : PathName)
  | tmpfs (components : List FileName)

namespace TmpFs

/-- The node a path leads to. -/
def nodeAt (fs : TmpFs) (components : List FileName) : Option TmpFsNode :=
  match fs.walk fs.rootInode components with
  | .ok inode => fs.nodes inode
  | .error _ => none

/-- What a read of the node gives. -/
def dataOf : TmpFsNode → Option (List Byte)
  | .file data => some data
  | .directory _ => none

end TmpFs

namespace Vfs

/-- The path exists. -/
def existsAt (v : Vfs) : FilePath → Bool
  | .memory path => (v.lookupNode path).isSome
  | .tmpfs components => (v.tmpfs.bind fun fs => fs.nodeAt components).isSome

/-- The contents of the file the path names. -/
def contentsAt (v : Vfs) : FilePath → Option (List Byte)
  | .memory path => (v.lookupNode path).bind fun (index, node) =>
    match v.writableFiles index with
    | some data => some data
    | none => if node.fileType = .file then some node.data else none
  | .tmpfs components => (v.tmpfs.bind fun fs => fs.nodeAt components).bind TmpFs.dataOf

end Vfs

/-- The descriptor table, the existing paths and the contents of all files are the same;
the mounted volumes are only read. -/
structure SameFiles (st st' : Files) : Prop where
  table : st'.table = st.table
  paths : ∀ p, st'.vfs.existsAt p = st.vfs.existsAt p
  contents : ∀ p, st'.vfs.contentsAt p = st.vfs.contentsAt p
  disk : st'.vfs.disk = st.vfs.disk
  fat32 : st'.vfs.fat32 = st.vfs.fat32

theorem SameFiles.refl (st : Files) : SameFiles st st := ⟨rfl, fun _ => rfl, fun _ => rfl, rfl, rfl⟩

/-- If the call returns an error, every file is as before. -/
def KeptOnError {α : Type} (x : FileM α) (st : Files) : Prop :=
  ∀ e st', Throws x st (.err e) st' → SameFiles st st'

theorem keptOnError_iff :
    KeptOnError x st ↔ Ends x st (fun _ _ => True) fun fault st' => (∃ e, fault = .err e) →
      SameFiles st st' := by
  rw [ends_iff]
  constructor
  · intro h
    refine ⟨fun _ _ _ => trivial, ?_⟩
    rintro _ st' hrun ⟨e, rfl⟩
    exact h e st' hrun
  · intro h e st' hrun
    exact h.2 _ st' hrun ⟨e, rfl⟩

theorem keptOnError_get {f : Files → FileM α} :
    KeptOnError (get >>= f) st ↔ KeptOnError (f st) st := by
  rw [keptOnError_iff, keptOnError_iff, ends_bind, ends_get]

theorem Files.Quiet.kept (h : Files.Quiet x) (st : Files) : KeptOnError x st := by
  intro e st' hrun
  rw [hrun.of_ends (h st)]
  exact SameFiles.refl st

/-! ## The memory file system -/

namespace Files

variable {st : Files} {path : PathName} {flags : Word} {proc : Credentials}

theorem openMemory_kept (h : st.vfs.lookupNode path = none → hasFlag flags oCreat = true →
    ¬"/tmp/".toList <+: path) : KeptOnError (openMemory path flags proc) st := by
  have hfind : Ends (findMemory path flags) st (fun _ st' => st' = st) fun _ st' => st' = st := by
    unfold findMemory
    rw [ends_bind, ends_get]
    cases hlook : st.vfs.lookupNode path with
    | some found => exact rfl
    | none =>
      dsimp only
      split
      · -- the file would be created, but not outside /tmp
        rename_i hcreat
        have hout : decide ("/tmp/".toList <+: path) = false := decide_eq_false (h hlook hcreat)
        unfold createDynamicFile
        rw [hout]
        exact rfl
      · exact rfl
  rw [keptOnError_iff]
  unfold openMemory
  refine hfind.bind (fun index st' hst => ?_) fun _ st' hst _ => ?_
  · subst hst
    exact keptOnError_iff.mp ((quiet_openNodeWithFlags flags proc index).kept st')
  · subst hst
    exact SameFiles.refl st'

/-- The memory file system after a file was created on it. -/
def withDynamic (st : Files) (path : PathName) : Files :=
  let index := staticFiles.length + st.vfs.dynamicFiles.entries.length
  { st with vfs :=
    { st.vfs with dynamicFiles := st.vfs.dynamicFiles.insert path index }.setWritable index [] }

section

variable (hnew : st.vfs.lookupNode path = none)
include hnew

/-- A new file is created, but there is no node to open. -/
theorem openMemory_throws (hcreat : hasFlag flags oCreat = true) (htmp : "/tmp/".toList <+: path) :
    Throws (openMemory path flags proc) st (.err .enoent) (st.withDynamic path) := by
  let index := staticFiles.length + st.vfs.dynamicFiles.entries.length
  have hfind : Returns (findMemory path flags) st index (st.withDynamic path) := by
    apply Ends.returns_eq
    unfold findMemory createDynamicFile
    rw [ends_bind, ends_get, hnew]
    dsimp only
    rw [if_pos hcreat, decide_eq_true htmp]
    simp [hnew, ends_failIf_iff, withDynamic, index]
  have hnode : staticFiles[index]? = none := List.getElem?_eq_none (Nat.le_add_right _ _)
  refine throws_bind.mpr (Or.inr ⟨index, _, hfind, ?_⟩)
  unfold openNodeWithFlags
  rw [hnode]
  exact throws_throw.mpr ⟨rfl, rfl⟩

/-- The new file is found afterwards. -/
theorem lookupNode_withDynamic : ((st.withDynamic path).vfs.lookupNode path).isSome = true := by
  have hstatic : staticFiles.findIdx? (·.path = path) = none := by
    unfold Vfs.lookupNode at hnew
    split at hnew
    · rename_i index hfound
      have hlt := (List.findIdx?_eq_some_iff_findIdx_eq.mp hfound).1
      rw [List.getElem?_eq_getElem hlt] at hnew
      cases hnew
    · assumption
  unfold Vfs.lookupNode
  rw [hstatic]
  simp [withDynamic, Vfs.setWritable, AList.lookup_insert, staticFiles]

theorem openMemory_leaves (hcreat : hasFlag flags oCreat = true)
    (htmp : "/tmp/".toList <+: path) : ¬KeptOnError (openMemory path flags proc) st := by
  intro h
  have hsame := (h _ _ (openMemory_throws hnew hcreat htmp)).paths (.memory path)
  simp only [Vfs.existsAt, lookupNode_withDynamic hnew, hnew] at hsame
  cases hsame

end

end Files

/-! ## Walks on the tmpfs -/

namespace TmpFs

variable {fs fs' : TmpFs}

theorem lookup_eq_walk (base : Inode) (path : List Char) :
    fs.lookup base path = fs.walk base (components path) := by
  unfold lookup
  split
  · rename_i h
    rcases h with rfl | rfl
    · rfl
    · rfl
  · rfl

theorem walk_append (inode : Inode) (cs ds : List FileName) :
    fs.walk inode (cs ++ ds) = (fs.walk inode cs).bind fun i => fs.walk i ds := by
  induction cs generalizing inode with
  | nil => rfl
  | cons c cs ih =>
    simp only [List.cons_append, walk]
    split
    · rfl
    · rfl
    · split
      · rfl
      · exact ih _

/-- The entries of a directory, and nothing of the contents of a file. -/
def shape : TmpFsNode → Option Entries
  | .file _ => none
  | .directory entries => some entries

/-- A walk does not read the files. -/
theorem walk_congr (h : ∀ i, (fs'.nodes i).map shape = (fs.nodes i).map shape) (inode : Inode)
    (cs : List FileName) : fs'.walk inode cs = fs.walk inode cs := by
  induction cs generalizing inode with
  | nil => rfl
  | cons c cs ih =>
    have hnode := h inode
    simp only [walk]
    cases hold : fs.nodes inode with
    | none =>
      rw [hold, Option.map_none, Option.map_eq_none_iff] at hnode
      rw [hnode]
    | some node =>
      cases hnew : fs'.nodes inode with
      | none => simp [hold, hnew] at hnode
      | some node' =>
        rw [hold, hnew, Option.map_some, Option.map_some, Option.some.injEq] at hnode
        cases node with
        | file data =>
          cases node' with
          | file data' => rfl
          | directory es' => cases hnode
        | directory es =>
          cases node' with
          | file data' => cases hnode
          | directory es' =>
            cases hnode
            dsimp only
            cases es.lookup c with
            | none => rfl
            | some child => exact ih child

/-! ### Truncation -/

/-- The file system after a file was truncated. -/
def emptied (fs : TmpFs) (inode : Inode) : TmpFs := fs.setNode inode (some (.file []))

theorem walk_emptied (hnode : fs.nodes inode = some (.file data)) (i : Inode) (cs : List FileName) :
    (fs.emptied inode).walk i cs = fs.walk i cs := by
  refine walk_congr (fun j => ?_) i cs
  unfold emptied
  rw [setNode_nodes]
  split
  · rename_i hj
    rw [hj, hnode]
    rfl
  · rfl

theorem nodeAt_emptied (hnode : fs.nodes inode = some (.file data))
    (hwalk : fs.walk fs.rootInode cs = .ok inode) :
    fs.nodeAt cs = some (.file data) ∧ (fs.emptied inode).nodeAt cs = some (.file []) := by
  constructor
  · unfold nodeAt
    rw [hwalk]
    exact hnode
  · unfold nodeAt
    rw [show (fs.emptied inode).rootInode = fs.rootInode from rfl, walk_emptied hnode, hwalk]
    simp [emptied]

/-! ### Creation -/

/-- The nodes after an empty file `new` was made, and entered as `name` in the directory
`parent` unless that was the node that was replaced. -/
structure Created (fs fs' : TmpFs) (parent new : Inode) (entries : Entries) (name : FileName) :
    Prop where
  root : fs'.rootInode = fs.rootInode
  dir : fs.nodes parent = some (.directory entries)
  free : entries.lookup name = none
  new_node : fs'.nodes new = some (.file [])
  parent_node : parent ≠ new → fs'.nodes parent = some (.directory (entries.insert name new))
  others : ∀ i, i ≠ new → i ≠ parent → fs'.nodes i = fs.nodes i

namespace Created

variable {parent new : Inode} {entries : Entries} {name : FileName}

section

variable (h : Created fs fs' parent new entries name)
include h

/-- A step to a child leads there still, from any node but the new one. -/
theorem step {i child : Inode} {es : Entries}
    {c : FileName} (hi : i ≠ new) (hes : fs.nodes i = some (.directory es))
    (hc : es.lookup c = some child) :
    ∃ es', fs'.nodes i = some (.directory es') ∧ es'.lookup c = some child := by
  by_cases hp : i = parent
  · subst hp
    obtain rfl : entries = es := by
      have := h.dir.symm.trans hes
      cases this
      rfl
    refine ⟨_, h.parent_node hi, ?_⟩
    have hne : c ≠ name := by
      rintro rfl
      rw [h.free] at hc
      cases hc
    rw [AList.lookup_insert_ne hne, hc]
  · exact ⟨es, by rw [h.others i hi hp, hes], hc⟩

/-- The walk to the parent leads there still, or it comes by the node that was replaced. -/
theorem walk (cs : List FileName) (i : Inode) (hwalk : fs.walk i cs = .ok parent) :
    fs'.walk i cs = .ok parent ∨
      ∃ ds es, fs.walk i ds = .ok new ∧ fs'.walk i ds = .ok new ∧
        fs.nodes new = some (.directory es) := by
  induction cs generalizing i with
  | nil => exact .inl hwalk
  | cons c cs ih =>
    rw [TmpFs.walk] at hwalk
    split at hwalk
    · cases hwalk
    · cases hwalk
    · rename_i es hes
      split at hwalk
      · cases hwalk
      · rename_i child hc
        by_cases hi : i = new
        · subst hi
          exact .inr ⟨[], es, rfl, rfl, hes⟩
        · obtain ⟨es', hes', hc'⟩ := h.step hi hes hc
          have hstep : ∀ ds, fs'.walk i (c :: ds) = fs'.walk child ds := fun ds => by
            rw [TmpFs.walk, hes']
            dsimp only
            rw [hc']
          have hstep0 : ∀ ds, fs.walk i (c :: ds) = fs.walk child ds := fun ds => by
            rw [TmpFs.walk, hes]
            dsimp only
            rw [hc]
          rcases ih child hwalk with hsame | ⟨ds, es'', hold, hnew, hdir⟩
          · exact .inl (by rw [hstep, hsame])
          · exact .inr ⟨c :: ds, es'', by rw [hstep0, hold], by rw [hstep, hnew], hdir⟩

/-- Some path has become a file. -/
theorem changed (hwalk : fs.walk fs.rootInode cs = .ok parent) :
    ∃ ds, fs'.nodeAt ds = some (.file []) ∧ (fs.nodeAt ds).bind dataOf = none := by
  have hfile : ∀ {ds}, fs'.walk fs.rootInode ds = .ok new → fs'.nodeAt ds = some (.file []) := by
    intro ds hds
    unfold nodeAt
    rw [h.root, hds]
    exact h.new_node
  have hdir : ∀ {ds i es}, fs.walk fs.rootInode ds = .ok i → fs.nodes i = some (.directory es) →
      (fs.nodeAt ds).bind dataOf = none := by
    intro ds i es hds hes
    unfold nodeAt
    rw [hds]
    dsimp only
    rw [hes]
    rfl
  rcases h.walk cs _ hwalk with hsame | ⟨ds, es, hold, hnew, hes⟩
  · by_cases hp : parent = new
    · subst hp
      exact ⟨cs, hfile hsame, hdir hwalk h.dir⟩
    · -- the new entry is found below the parent
      refine ⟨cs ++ [name], hfile ?_, ?_⟩
      · rw [walk_append, hsame]
        show fs'.walk parent [name] = _
        simp [TmpFs.walk, h.parent_node hp]
      · unfold nodeAt
        rw [walk_append, hwalk]
        have hmiss : fs.walk parent [name] = .error .enoent := by
          simp [TmpFs.walk, h.dir, h.free]
        show Option.bind (match fs.walk parent [name] with | .ok inode => _ | .error _ => _) _ = _
        rw [hmiss]
        rfl
  · exact ⟨ds, hfile hnew, hdir hold hes⟩

end

end Created

/-- `create` comes to the point where it takes an inode. -/
def Creates (debug : Bool) (fs : TmpFs) (parent : Inode) (name : FileName) : Prop :=
  badName name = false ∧ (∃ entries, fs.nodes parent = some (.directory entries) ∧
    entries.lookup name = none) ∧ (debug && fs.nextInode == BitVec.allOnes 32) = false

/-- The file system with a new empty file that no directory names yet. -/
def withFile (fs : TmpFs) : TmpFs :=
  ({ fs with nextInode := fs.nextInode + 1 }.setNode fs.nextInode (some .newFile)).setMode
    fs.nextInode defaultFileMode

/-- The file system with a new empty file in the directory `parent`. -/
def withEntry (fs : TmpFs) (parent : Inode) (entries : Entries) (name : FileName) : TmpFs :=
  fs.withFile.setNode parent (some (.directory (entries.insert name fs.nextInode)))

variable {debug : Bool} {parent : Inode} {name : FileName} {entries : Entries}

theorem withFile_nodes (i : Inode) : fs.withFile.nodes i = if i = fs.nextInode then some .newFile
    else fs.nodes i := rfl

theorem create_keeps (h : ¬Creates debug fs parent name) :
    Ends (create debug parent name false) fs (fun _ _ => False) fun _ fs' => fs' = fs := by
  unfold create
  rw [ends_bind]
  refine ends_failIf (fun hname => ?_) rfl
  rw [ends_bind]
  refine ends_getEntries (fun entries hdir => ?_) fun _ => rfl
  rw [ends_bind]
  refine ends_failIf (fun hfree => ?_) rfl
  rw [ends_bind]
  unfold allocateInode
  simp only [ends_bind, ends_get]
  refine ends_failIf (fun hroom => ?_) rfl
  exact absurd ⟨hname, ⟨entries, hdir, by simpa using hfree⟩, hroom⟩ h

section

variable (hdir : fs.nodes parent = some (.directory entries)) (hfree : entries.lookup name = none)
include hdir hfree

section

variable (hname : badName name = false)
  (hroom : (debug && fs.nextInode == BitVec.allOnes 32) = false)
include hname hroom

/-- The run of `create` up to the second look at the parent. -/
theorem create_ends {Q : Inode → TmpFs → Prop} {E : FsFault → TmpFs → Prop} :
    Ends (create debug parent name false) fs Q E ↔
      Ends (getEntries parent) fs.withFile (fun es fs1 => Q fs.nextInode
        (fs1.setNode parent (some (.directory (es.insert name fs.nextInode))))) E := by
  unfold create allocateInode
  simp only [ends_bind, ends_failIf_iff, hname, hroom, hfree, Option.isSome_none,
    Bool.false_eq_true, false_implies, and_true, forall_const, (getEntries_returns hdir).ends_iff,
    ends_get, ends_modify, ends_pure]
  exact .rfl

/-- A file is made and entered into its directory. -/
theorem create_returns (hne : parent ≠ fs.nextInode) : Returns (create debug parent name false)
    fs fs.nextInode (fs.withEntry parent entries name) := by
  apply Ends.returns_eq
  have hdir' : fs.withFile.nodes parent = some (.directory entries) := by
    rw [withFile_nodes, if_neg hne, hdir]
  rw [create_ends hdir hfree hname hroom, (getEntries_returns hdir').ends_iff]
  exact ⟨rfl, rfl⟩

/-- The inode numbers have wrapped around to the parent, and the new file replaces it. -/
theorem create_throws (heq : parent = fs.nextInode) :
    Throws (create debug parent name false) fs (.err .enotdir) fs.withFile := by
  apply Ends.throws_eq
  rw [create_ends hdir hfree hname hroom]
  unfold getEntries getNode
  simp [withFile_nodes, heq, TmpFsNode.newFile]

end

theorem created_withFile (heq : parent = fs.nextInode) :
    Created fs fs.withFile parent fs.nextInode entries name where
  root := rfl
  dir := hdir
  free := hfree
  new_node := by rw [withFile_nodes, if_pos rfl]; rfl
  parent_node h := absurd heq h
  others i hi _ := by rw [withFile_nodes, if_neg hi]

theorem created_entered (hne : parent ≠ fs.nextInode) :
    Created fs (fs.withEntry parent entries name) parent fs.nextInode entries name where
  root := rfl
  dir := hdir
  free := hfree
  new_node := by simp [withEntry, withFile_nodes, hne.symm, TmpFsNode.newFile]
  parent_node _ := by simp [withEntry]
  others i hi hp := by simp [withEntry, withFile_nodes, hi, hp]

end

theorem modeOf_withEntry : (fs.withEntry parent entries name).modeOf fs.nextInode (.file []) =
    defaultFileMode := by
  simp [modeOf, withEntry, setNode, withFile, setMode]

end TmpFs

/-! ## The tmpfs behind the open call -/

namespace Files

variable {st st' : Files} {fs fs' : TmpFs} {relPath path : PathName} {flags : Word}
  {proc : Credentials} {debug : Bool}

/-- The same state with another tmpfs. -/
def onTmpfs (st : Files) (fs : TmpFs) : Files := { st with vfs := { st.vfs with tmpfs := some fs } }

/-- The call fails once it has the file: its mode does not allow the access, or there is no
free descriptor. -/
def Refused (st : Files) (flags : Word) (proc : Credentials) (mode : Mode) : Prop :=
  refuses flags proc ⟨false, mode, 0, 0⟩ = true ∨ st.table.freeFds = []

section

variable (hfs : st.vfs.tmpfs = some fs)
include hfs

theorem onTmpfs_self : st.onTmpfs fs = st := by
  unfold onTmpfs
  rw [← hfs]

theorem tmpfsLookup_eq : st.vfs.tmpfsLookup relPath =
    Vfs.lift (fs.lookup fs.rootInode (stripSlash relPath)) := by
  unfold Vfs.tmpfsLookup Vfs.getTmpfs
  rw [hfs]
  rfl

theorem not_same_of_contents (cs : List FileName)
    (h : (fs'.nodeAt cs).bind TmpFs.dataOf ≠ (fs.nodeAt cs).bind TmpFs.dataOf) :
    ¬SameFiles st (st.onTmpfs fs') := by
  intro hsame
  have hcontents := hsame.contents (.tmpfs cs)
  simp only [Vfs.contentsAt, onTmpfs, hfs, Option.bind_some] at hcontents
  exact h hcontents

theorem not_same_of_created {new : Inode} {entries : Entries}
    (h : TmpFs.Created fs fs' parent new entries name) {path : PathName}
    (hwalk : fs.lookup fs.rootInode path = .ok parent) : ¬SameFiles st (st.onTmpfs fs') := by
  rw [TmpFs.lookup_eq_walk] at hwalk
  obtain ⟨ds, hnew, hold⟩ := h.changed hwalk
  refine not_same_of_contents hfs ds ?_
  rw [hnew, hold]
  simp [TmpFs.dataOf]

/-- The end of the call fails exactly if it is refused, and then without a change. -/
theorem ends_openInode (flags : Word) (proc : Credentials) {node : TmpFsNode}
    (hnode : fs.nodes inode = some node) :
    Ends (openInode inode flags proc) st (fun _ _ => ¬Refused st flags proc (fs.modeOf inode node))
      fun e st' => (∃ c, e = .err c) ∧ st' = st ∧ Refused st flags proc (fs.modeOf inode node) := by
  unfold openInode
  rw [ends_bind, ends_query]
  have hget : st.vfs.getTmpfs = .ok fs := by
    unfold Vfs.getTmpfs
    rw [hfs]
  have hstat : ∃ file, st.vfs.tmpfsStat inode = .ok file ∧ file.mode = fs.modeOf inode node ∧
      file.uid = 0 ∧ file.gid = 0 := by
    unfold Vfs.tmpfsStat
    rw [hget]
    simp only [bind, Except.bind, hnode]
    exact ⟨_, rfl, rfl, rfl, rfl⟩
  obtain ⟨file, hfile, hmode, huid, hgid⟩ := hstat
  have hrefuses : refuses flags proc file.toFileMetadata =
      refuses flags proc ⟨false, fs.modeOf inode node, 0, 0⟩ := by
    unfold refuses
    rw [hmode, huid, hgid]
  refine ⟨fun file' hfile' => ?_, fun e he => ?_⟩
  · obtain rfl : file = file' := by
      rw [hfile] at hfile'
      cases hfile'
      rfl
    rw [ends_bind, ends_failIf_iff, hrefuses]
    refine ⟨fun hok => ?_, fun hno => ⟨⟨_, rfl⟩, rfl, .inl hno⟩⟩
    rw [ends_openKind]
    refine ⟨fun fd rest hfree => ?_, fun hfree => ⟨⟨_, rfl⟩, rfl, .inr hfree⟩⟩
    intro hrefused
    rcases hrefused with hno | hnil
    · rw [hok] at hno
      cases hno
    · rw [hfree] at hnil
      cases hnil
  · rw [hfile] at he
    cases he

end

/-- The call has changed something and goes on to the end. -/
theorem openTmpfs_changed_iff {node : TmpFsNode}
    (hfind : Returns (findTmpfs debug relPath flags) st inode (st.onTmpfs fs'))
    (hnode : fs'.nodes inode = some node)
    (hchanged : ¬SameFiles st (st.onTmpfs fs')) :
    KeptOnError (openTmpfs debug relPath flags proc) st ↔
      ¬Refused st flags proc (fs'.modeOf inode node) := by
  have htmpfs : (st.onTmpfs fs').vfs.tmpfs = some fs' := rfl
  have hend := ends_openInode htmpfs flags proc hnode
  rw [keptOnError_iff]
  unfold openTmpfs
  rw [ends_bind, hfind.ends_iff]
  rcases returns_or_throws (openInode inode flags proc) (st.onTmpfs fs') with ⟨fd, st2, h⟩ |
    ⟨e, st2, h⟩
  · rw [h.ends_iff] at hend ⊢
    exact ⟨fun _ => hend, fun _ => trivial⟩
  · rw [h.ends_iff] at hend ⊢
    obtain ⟨herr, rfl, hrefused⟩ := hend
    exact ⟨fun hsame => absurd (hsame herr) hchanged, fun hno => absurd hrefused hno⟩

/-- The call has changed nothing before its end. -/
theorem openTmpfs_kept (hfind : Ends (findTmpfs debug relPath flags) st (fun _ st' => st' = st)
    fun _ st' => st' = st) : KeptOnError (openTmpfs debug relPath flags proc) st := by
  rw [keptOnError_iff]
  unfold openTmpfs
  refine hfind.bind (fun inode st' hst => ?_) fun _ st' hst _ => ?_
  · subst hst
    exact keptOnError_iff.mp ((quiet_openInode flags proc inode).kept st')
  · subst hst
    exact SameFiles.refl st'

/-- The root is found by its path like any other directory. -/
theorem parent_lookup (parentPath : PathName) :
    (if parentPath = ['/'] ∨ parentPath = [] then .ok fs.rootInode
      else fs.lookup fs.rootInode (stripSlash parentPath)) =
      fs.lookup fs.rootInode (stripSlash parentPath) := by
  split
  · rename_i h
    rcases h with rfl | rfl
    · rfl
    · rfl
  · rfl

section

variable (hfs : st.vfs.tmpfs = some fs)
include hfs

/-! ### An existing file -/

section

variable (hlook : fs.lookup fs.rootInode (stripSlash relPath) = .ok inode)
include hlook

theorem ends_findTmpfs_ok : Ends (findTmpfs debug relPath flags) st Q E ↔
      if hasFlag flags oTrunc && opensWritable flags then
        Ends (withTmpfs (TmpFs.truncate inode)) st (fun _ => Q inode) E
      else Q inode st := by
  unfold findTmpfs
  rw [ends_bind, ends_get, tmpfsLookup_eq hfs, hlook]
  dsimp only [Vfs.lift]
  split
  · simp
  · simp

/-- An open that truncates: kept if there was nothing to lose or nothing to refuse. -/
theorem openTmpfs_trunc_iff (hnode : fs.nodes inode = some (.file data))
    (htrunc : (hasFlag flags oTrunc && opensWritable flags) = true) :
    KeptOnError (openTmpfs debug relPath flags proc) st ↔
      (data ≠ [] → ¬Refused st flags proc (fs.modeOf inode (.file data))) := by
  have hfind : Returns (findTmpfs debug relPath flags) st inode
      (st.onTmpfs (fs.emptied inode)) := by
    apply Ends.returns_eq
    rw [ends_findTmpfs_ok hfs hlook, if_pos htrunc, ends_withTmpfs hfs]
    unfold TmpFs.truncate TmpFs.getData TmpFs.getNode
    simp only [ends_bind, ends_get, hnode, ends_pure, ends_modify]
    exact ⟨trivial, rfl⟩
  by_cases hempty : data = []
  · -- truncating an empty file is no change
    subst hempty
    have hsame : st.onTmpfs (fs.emptied inode) = st := by
      have hfs' : fs.emptied inode = fs := by
        unfold TmpFs.emptied TmpFs.setNode
        congr 1
        funext i
        by_cases hi : i = inode
        · rw [if_pos hi, hi, hnode]
        · rw [if_neg hi]
      rw [hfs', onTmpfs_self hfs]
    rw [hsame] at hfind
    refine ⟨fun _ hne => absurd rfl hne, fun _ => openTmpfs_kept ?_⟩
    rw [hfind.ends_iff]
  · have hwalk := hlook
    rw [TmpFs.lookup_eq_walk] at hwalk
    obtain ⟨hold, hnew⟩ := TmpFs.nodeAt_emptied hnode hwalk
    have hchanged : ¬SameFiles st (st.onTmpfs (fs.emptied inode)) := by
      refine not_same_of_contents hfs (TmpFs.components (stripSlash relPath)) ?_
      rw [hold, hnew]
      simpa [TmpFs.dataOf] using Ne.symm hempty
    have hnode' : (fs.emptied inode).nodes inode = some (.file []) := if_pos rfl
    rw [openTmpfs_changed_iff hfind hnode' hchanged]
    exact ⟨fun h _ => h, fun h => h hempty⟩

/-- Nothing is truncated where there is no file, or none is asked to be. -/
theorem openTmpfs_plain_kept (debug : Bool) (proc : Credentials)
    (h : (hasFlag flags oTrunc && opensWritable flags) = true →
      ∀ data, fs.nodes inode ≠ some (.file data)) :
    KeptOnError (openTmpfs debug relPath flags proc) st := by
  apply openTmpfs_kept
  rw [ends_findTmpfs_ok hfs hlook]
  split
  · rename_i htrunc
    rw [ends_withTmpfs hfs]
    unfold TmpFs.truncate
    rw [ends_bind]
    exact TmpFs.ends_getData (fun data hnode => absurd hnode (h htrunc data))
      fun _ => onTmpfs_self hfs
  · rfl

end

/-! ### A new file -/

theorem ends_tmpfsCreate {parentPath : PathName} :
    Ends (tmpfsCreate debug parentPath name false) st Q E ↔
      match fs.lookup fs.rootInode (stripSlash parentPath) with
      | .error e => E (.err e) st
      | .ok parent =>
        Ends (TmpFs.create debug parent name false) fs (fun a fs' => Q a (st.onTmpfs fs'))
          fun e fs' => E e (st.onTmpfs fs') := by
  unfold tmpfsCreate
  rw [ends_withTmpfs hfs, ends_bind, ends_get, parent_lookup]
  cases fs.lookup fs.rootInode (stripSlash parentPath) with
  | error e =>
    show E _ (st.onTmpfs fs) ↔ _
    rw [onTmpfs_self hfs]
  | ok parent => exact .rfl

section

variable (hlook : fs.lookup fs.rootInode (stripSlash relPath) = .error .enoent)
  (hcreat : hasFlag flags oCreat = true)
include hlook hcreat

theorem ends_findTmpfs_enoent : Ends (findTmpfs debug relPath flags) st Q E ↔
      Ends (tmpfsCreate debug (splitParent relPath).1 (splitParent relPath).2 false) st Q E := by
  unfold findTmpfs
  rw [ends_bind, ends_get, tmpfsLookup_eq hfs, hlook]
  dsimp only [Vfs.lift]
  rw [if_pos hcreat]

theorem ends_findTmpfs_creat
    (hparent : fs.lookup fs.rootInode (stripSlash (splitParent relPath).1) = .ok parent) :
    Ends (findTmpfs debug relPath flags) st Q E ↔
      Ends (TmpFs.create debug parent (splitParent relPath).2 false) fs
        (fun a fs' => Q a (st.onTmpfs fs')) fun e fs' => E e (st.onTmpfs fs') := by
  rw [ends_findTmpfs_enoent hfs hlook hcreat, ends_tmpfsCreate hfs, hparent]

/-- An open that creates: kept if there is nothing to create, or if the new file can be
entered and opened. -/
theorem openTmpfs_creat_iff
    (hparent : fs.lookup fs.rootInode (stripSlash (splitParent relPath).1) = .ok parent) :
    KeptOnError (openTmpfs debug relPath flags proc) st ↔
      (TmpFs.Creates debug fs parent (splitParent relPath).2 →
        parent ≠ fs.nextInode ∧ ¬Refused st flags proc defaultFileMode) := by
  by_cases hcreates : TmpFs.Creates debug fs parent (splitParent relPath).2
  · have ⟨hname, ⟨entries, hdir, hfree⟩, hroom⟩ := hcreates
    by_cases hne : parent = fs.nextInode
    · -- the directory has become a file, and the call fails
      have hrun := TmpFs.create_throws hdir hfree hname hroom hne
      have hchanged := not_same_of_created hfs (TmpFs.created_withFile hdir hfree hne) hparent
      have hends : ¬KeptOnError (openTmpfs debug relPath flags proc) st := by
        rw [keptOnError_iff]
        unfold openTmpfs
        rw [ends_bind, ends_findTmpfs_creat hfs hlook hcreat hparent, hrun.ends_iff]
        exact fun hsame => hchanged (hsame ⟨_, rfl⟩)
      exact ⟨fun h => absurd h hends, fun h => absurd hne (h hcreates).1⟩
    · have hrun := TmpFs.create_returns hdir hfree hname hroom hne
      have hmade := TmpFs.created_entered hdir hfree hne
      have hfind : Returns (findTmpfs debug relPath flags) st fs.nextInode
          (st.onTmpfs (fs.withEntry parent entries (splitParent relPath).2)) := by
        apply Ends.returns_eq
        rw [ends_findTmpfs_creat hfs hlook hcreat hparent, hrun.ends_iff]
        exact ⟨rfl, rfl⟩
      rw [openTmpfs_changed_iff hfind hmade.new_node (not_same_of_created hfs hmade hparent),
        TmpFs.modeOf_withEntry]
      exact ⟨fun h _ => ⟨hne, h⟩, fun h => (h hcreates).2⟩
  · refine ⟨fun _ h => absurd h hcreates, fun _ => openTmpfs_kept ?_⟩
    rw [ends_findTmpfs_creat hfs hlook hcreat hparent]
    refine (TmpFs.create_keeps hcreates).mono (fun _ _ h => h.elim) fun _ fs' h => ?_
    rw [h, onTmpfs_self hfs]

end

/-- The lookup fails, and nothing is created. -/
theorem openTmpfs_missing_kept (debug : Bool) (proc : Credentials) {e : ErrorCode}
    (hlook : fs.lookup fs.rootInode (stripSlash relPath) = .error e)
    (h : e = .enoent → hasFlag flags oCreat = true →
      ∃ e', fs.lookup fs.rootInode (stripSlash (splitParent relPath).1) = .error e') :
    KeptOnError (openTmpfs debug relPath flags proc) st := by
  apply openTmpfs_kept
  by_cases henoent : e = .enoent ∧ hasFlag flags oCreat = true
  · obtain ⟨rfl, hcreat⟩ := henoent
    obtain ⟨e', hparent⟩ := h rfl hcreat
    rw [ends_findTmpfs_enoent hfs hlook hcreat, ends_tmpfsCreate hfs, hparent]
  · unfold findTmpfs
    rw [ends_bind, ends_get, tmpfsLookup_eq hfs, hlook]
    dsimp only [Vfs.lift]
    split
    · rename_i heq
      cases heq
    · rename_i heq
      cases heq
      rw [if_neg fun hcreat => henoent ⟨rfl, hcreat⟩]
      exact rfl
    · exact rfl

end

/-! ## Which failed calls change nothing -/

/-- The condition on a path of the tmpfs. -/
def TmpfsKept (debug : Bool) (st : Files) (fs : TmpFs) (relPath : PathName) (flags : Word)
    (proc : Credentials) : Prop :=
  match fs.lookup fs.rootInode (stripSlash relPath) with
  | .ok inode =>
    -- a file that would lose its data is truncated before the checks
    hasFlag flags oTrunc = true → opensWritable flags = true →
      ∀ data, fs.nodes inode = some (.file data) → data ≠ [] →
        ¬Refused st flags proc (fs.modeOf inode (.file data))
  | .error e =>
    -- a new file is made before the checks
    e = .enoent → hasFlag flags oCreat = true →
      ∀ parent, fs.lookup fs.rootInode (stripSlash (splitParent relPath).1) = .ok parent →
        TmpFs.Creates debug fs parent (splitParent relPath).2 →
          parent ≠ fs.nextInode ∧ ¬Refused st flags proc defaultFileMode

/-- The open calls that leave every file as it was if they fail. -/
def KeepsOnError (debug : Bool) (st : Files) (path : PathName) (flags : Word) (proc : Credentials) :
    Prop :=
  match st.vfs.resolveMountPath path with
  | some (_, _, .disk) => True
  | some (_, _, .fat32) => True
  | some (_, relPath, .tmpfs) =>
    ∀ fs, st.vfs.tmpfs = some fs → TmpfsKept debug st fs relPath flags proc
  | none => st.vfs.lookupNode path = none → hasFlag flags oCreat = true → ¬"/tmp/".toList <+: path

theorem openTmpfs_iff : KeptOnError (openTmpfs debug relPath flags proc) st ↔
    ∀ fs, st.vfs.tmpfs = some fs → TmpfsKept debug st fs relPath flags proc := by
  cases hfs : st.vfs.tmpfs with
  | none =>
    have hfind : Ends (findTmpfs debug relPath flags) st (fun _ st' => st' = st) fun _ st' => st' =
        st := by
      unfold findTmpfs Vfs.tmpfsLookup Vfs.getTmpfs
      rw [ends_bind, ends_get, hfs]
      exact rfl
    simp [openTmpfs_kept hfind]
  | some fs =>
    simp only [Option.some.injEq, forall_eq']
    unfold TmpfsKept
    cases hlook : fs.lookup fs.rootInode (stripSlash relPath) with
    | ok inode =>
      dsimp only
      by_cases hfile : (hasFlag flags oTrunc && opensWritable flags) = true ∧
        ∃ data, fs.nodes inode = some (.file data)
      · obtain ⟨htrunc, data, hnode⟩ := hfile
        rw [openTmpfs_trunc_iff hfs hlook hnode htrunc]
        rw [Bool.and_eq_true] at htrunc
        simp [htrunc.1, htrunc.2, hnode]
      · have hkept := openTmpfs_plain_kept hfs hlook debug proc fun htrunc data hnode =>
          hfile ⟨htrunc, data, hnode⟩
        refine ⟨fun _ htrunc hwrite data hnode => absurd ?_ hfile, fun _ => hkept⟩
        exact ⟨by rw [htrunc, hwrite]; rfl, data, hnode⟩
    | error e =>
      dsimp only
      cases hparent : fs.lookup fs.rootInode (stripSlash (splitParent relPath).1) with
      | error e' =>
        have hkept : KeptOnError (openTmpfs debug relPath flags proc) st :=
          openTmpfs_missing_kept hfs debug proc hlook fun _ _ => ⟨e', hparent⟩
        simp [hkept]
      | ok parent =>
        by_cases hcreat : e = .enoent ∧ hasFlag flags oCreat = true
        · obtain ⟨rfl, hcreat⟩ := hcreat
          rw [openTmpfs_creat_iff hfs hlook hcreat hparent]
          simp [hcreat]
        · have hkept := openTmpfs_missing_kept hfs debug proc hlook
            fun henoent hset => absurd ⟨henoent, hset⟩ hcreat
          exact ⟨fun _ henoent hset => absurd ⟨henoent, hset⟩ hcreat, fun _ => hkept⟩

end Files

/-- An open call that fails leaves the table, the paths and the contents of all files as
they were, exactly under `KeepsOnError`. -/
theorem openErrors_iff (debug : Bool) (st : Files) (path : PathName) (flags : Word)
    (proc : Credentials) :
    KeptOnError (Files.openPathWithFlags debug path flags proc) st ↔
      Files.KeepsOnError debug st path flags proc := by
  unfold Files.openPathWithFlags Files.KeepsOnError
  rw [keptOnError_get]
  cases st.vfs.resolveMountPath path with
  | none =>
    constructor
    · intro hkept hnew hcreat htmp
      exact Files.openMemory_leaves hnew hcreat htmp hkept
    · exact Files.openMemory_kept
  | some mount =>
    obtain ⟨mountPoint, relPath, fsType⟩ := mount
    cases fsType with
    | disk => exact ⟨fun _ => trivial, fun _ => (Files.quiet_openDisk flags proc relPath).kept st⟩
    | fat32 => exact ⟨fun _ => trivial, fun _ => (Files.quiet_openFat32 flags proc relPath).kept st⟩
    | tmpfs => exact Files.openTmpfs_iff

/-- The tmpfs at `/tmp` has one file, which belongs to root. -/
def Files.withNote : Files where
  table := FdTable.new
  pool := PipePool.new
  vfs := { Vfs.boot with
    mounts := some [("/tmp".toList, .tmpfs)]
    tmpfs := some (TmpFs.after false [.create 1 ['a'] false, .write emptyHeap 2 0 [7]]) }

/-- Another user opens it for writing with `O_TRUNC`, is refused, and has emptied it. -/
theorem open_refused_truncates : ∃ st',
    Throws (Files.openPathWithFlags false "/tmp/a".toList (oWronly ||| oTrunc) ⟨1000, 1000⟩)
      Files.withNote (.err .eacces) st' ∧
    Files.withNote.vfs.contentsAt (.tmpfs [['a']]) = some [7] ∧
    st'.vfs.contentsAt (.tmpfs [['a']]) = some [] := by
  refine ⟨_, rfl, ?_, ?_⟩
  · decide
  · decide

end PandaOS.Kernel
