import PandaOS.Theorems.DynamicFiles

/-!
# Directories

`stat_path` finds a directory on the mounted file system that its path belongs to;
`validate_directory` looks at the table of static files alone.
-/

namespace PandaOS.Kernel.Vfs

variable {v : Vfs} {path : PathName}

/-- The path is that of a directory. -/
def IsDirectory (v : Vfs) (path : PathName) : Prop :=
  ∃ stat, v.statPath path = .ok stat ∧ stat.isDir = true

/-- The directories of `FILES`. -/
def staticDirectories : List PathName := ["/", "/bin", "/etc", "/tmp", "/mnt"].map String.toList

/-- The other paths of `FILES`. -/
def staticRegular : List PathName := ["/etc/motd", "/etc/version"].map String.toList

/-- A directory of `FILES`, or a file created at run time under a name that `FILES` does
not have. -/
def InTable (v : Vfs) (path : PathName) : Prop :=
  path ∈ staticDirectories ∨ path ∈ v.dynamicFiles ∧ path ∉ staticRegular

/-- The mounted file system has a directory there. -/
def MountHas (v : Vfs) (relPath : PathName) : FsType → Prop
  | .disk => ∃ disk inode size, v.disk = some disk ∧ disk.resolvePath relPath = .ok inode ∧
    disk.stat inode = .ok (.directory, size)
  | .tmpfs => ∃ fs inode entries, v.tmpfs = some fs ∧
    fs.lookup fs.rootInode (stripSlash relPath) = .ok inode ∧
      fs.nodes inode = some (.directory entries)
  | .fat32 =>
    ∃ fat32 handle, v.fat32 = some fat32 ∧ fat32.resolvePath relPath = .ok handle ∧
      handle.isDir = true

theorem validateDirectory_iff : v.validateDirectory path = .ok () ↔ v.InTable path := by
  unfold InTable
  by_cases hdir : path ∈ staticDirectories
  · refine iff_of_true ?_ (.inl hdir)
    simp only [staticDirectories, List.map_cons, List.map_nil, List.mem_cons, List.not_mem_nil,
      or_false] at hdir
    rcases hdir with rfl | rfl | rfl | rfl | rfl <;> rfl
  by_cases hfile : path ∈ staticRegular
  · refine iff_of_false (fun hok => ?_) (by simp [hdir, hfile])
    simp only [staticRegular, List.map_cons, List.map_nil, List.mem_cons, List.not_mem_nil,
      or_false] at hfile
    rcases hfile with rfl | rfl <;> cases hok
  · -- the placeholder of a file created at run time is the directory `/`
    have hnot : path ∉ staticFiles.map (·.path) := fun hmem =>
      (List.mem_append (s := staticDirectories).mp hmem).elim hdir hfile
    have hnone : staticFiles.findIdx? (·.path = path) = none := by
      simpa [List.findIdx?_eq_none_iff] using hnot
    rw [← AList.lookup_isSome]
    unfold validateDirectory lookupNode
    rw [hnone]
    cases v.dynamicFiles.lookup path <;> simp [hdir, hfile, staticFiles, dirNode]

theorem isDirectory_mounted {mountPoint relPath : PathName} {fsType : FsType}
    (h : v.resolveMountPath path = some (mountPoint, relPath, fsType)) :
    v.IsDirectory path ↔ v.MountHas relPath fsType := by
  unfold IsDirectory statPath
  rw [h]
  cases fsType with
  | disk =>
    unfold diskfsStat getDisk MountHas
    cases v.disk with
    | none => simp [bind, Except.bind]
    | some disk =>
      cases hinode : disk.resolvePath relPath with
      | error e => simp [bind, Except.bind, hinode]
      | ok inode =>
        rcases hfile : disk.stat inode with e | ⟨fileType, size⟩
        · simp [bind, Except.bind, hinode, hfile]
        · simp [bind, Except.bind, hinode, hfile, pure, Except.pure, defaultStat]
  | fat32 =>
    unfold getFat32 MountHas
    cases v.fat32 with
    | none => simp [bind, Except.bind]
    | some fat32 =>
      cases hhandle : fat32.resolvePath relPath with
      | error e => simp [bind, Except.bind, hhandle]
      | ok handle =>
        cases hdir : handle.isDir <;>
          simp [bind, Except.bind, hhandle, pure, Except.pure, fat32Stat, defaultStat, hdir]
  | tmpfs =>
    unfold tmpfsLookup tmpfsStat getTmpfs MountHas
    cases v.tmpfs with
    | none => simp [bind, Except.bind]
    | some fs =>
      cases hinode : fs.lookup fs.rootInode (stripSlash relPath) with
      | error e => simp [bind, Except.bind, hinode, lift]
      | ok inode =>
        rcases hnode : fs.nodes inode with _ | _ | _ <;>
          simp [bind, Except.bind, hinode, hnode, lift, pure, Except.pure, TmpFsNode.fileType]

theorem isDirectory_memory (h : v.resolveMountPath path = none) : v.IsDirectory path ↔
    ∃ index node, v.lookupNode path = some (index, node) ∧ node.fileType = .directory ∧
      v.writableFiles index = none := by
  unfold IsDirectory statPath
  rw [h]
  dsimp only
  cases v.lookupNode path with
  | none => simp
  | some found =>
    obtain ⟨index, node⟩ := found
    cases hwritten : v.writableFiles index with
    | none => simp [memoryStat, nodeStat, hwritten]
    | some data => simp [memoryStat, nodeStat, hwritten]

/-- `chdir` accepts exactly the directories of `stat_path`, if there are no contents behind
a directory node, and if the mounted file system has a directory exactly where the table does. -/
theorem validate_directory_iff (v : Vfs) (path : PathName) :
    (v.validateDirectory path = .ok () ↔ v.IsDirectory path) ↔
      match v.resolveMountPath path with
      | none => ∀ index node, v.lookupNode path = some (index, node) → node.fileType = .directory →
          v.writableFiles index = none
      | some (_, relPath, fsType) => v.InTable path ↔ v.MountHas relPath fsType := by
  cases hmount : v.resolveMountPath path with
  | some mount => rw [validateDirectory_iff, isDirectory_mounted hmount]
  | none =>
    rw [isDirectory_memory hmount]
    unfold validateDirectory
    cases v.lookupNode path with
    | none => simp
    | some found =>
      obtain ⟨index, node⟩ := found
      simp

/-- A directory in the tmpfs at `/tmp`. -/
def oneDirectory : Vfs :=
  { boot with
    mounts := some [("/tmp".toList, .tmpfs)]
    tmpfs := some (TmpFs.after false [.create 1 ['d'] true]) }

/-- A file created at run time. -/
def oneDynamicFile : Vfs :=
  { boot with dynamicFiles := AList.singleton "/tmp/a".toList 7 }.setWritable 7 []

/-- The directory is refused, and the file is accepted. -/
theorem chdir_mismatch : (oneDirectory.validateDirectory "/tmp/d".toList = .error .enoent ∧
      (oneDirectory.statPath "/tmp/d".toList).map (·.isDir) = .ok true) ∧
    oneDynamicFile.validateDirectory "/tmp/a".toList = .ok () ∧
      (oneDynamicFile.statPath "/tmp/a".toList).map (·.isDir) = .ok false :=
  ⟨⟨rfl, rfl⟩, rfl, rfl⟩

end PandaOS.Kernel.Vfs
