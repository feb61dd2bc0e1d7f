import PandaOS.Kernel.FdTable
import PandaOS.Kernel.Path
import PandaOS.Kernel.TmpFs
import PandaOS.Lib.Zoom

/-!
# Opening files

The file system layer of `fs.rs` over the mounts of `mount.rs`: a table of
static files with the contents written over them, files created at run time,
and mounted file systems. `open_path_with_flags` finds the file a path names on
one of them and puts a descriptor for it into a table.

A mounted disk or FAT32 volume is only read; what reading it gives is a
parameter (`DiskReader`, `Fat32Reader`), with errors already turned into error
codes. The maps of the source by node index are functions here, and an absent
map is an empty one.
-/

namespace PandaOS.Kernel

open Lib

/-- The characters of a path. -/
abbrev PathName := List Char

/-! ## Flags and permissions -/

def oWronly : Word := 0x0001
def oRdwr : Word := 0x0002
def oCreat : Word := 0x0040
def oTrunc : Word := 0x0200
def oAppend : Word := 0x0400

/-- `(flags & flag) != 0`. -/
def hasFlag (flags flag : Word) : Bool := flags &&& flag != 0

/-- `writable` of the open calls. -/
def opensWritable (flags : Word) : Bool := hasFlag flags oWronly || hasFlag flags oRdwr

/-- `readable` of the open calls. -/
def opensReadable (flags : Word) : Bool := !hasFlag flags oWronly || hasFlag flags oRdwr

def S_IRUSR : Mode := 0o400
def S_IRGRP : Mode := 0o040
def S_IROTH : Mode := 0o004
def S_IWUSR : Mode := 0o200
def S_IWGRP : Mode := 0o020
def S_IWOTH : Mode := 0o002

/-- The user and group of a process. -/
structure Credentials where
  uid : BitVec 32
  gid : BitVec 32
  deriving DecidableEq, Repr

/-- The check of `can_read` and `can_write`, for the bits of the owner, the group and
the others. Any of the bits is enough for root. -/
def permits (usr grp oth : Mode) (proc : Credentials) (fileUid fileGid : BitVec 32) (mode : Mode) :
    Bool :=
  if proc.uid = 0 then mode &&& (usr ||| grp ||| oth) != 0
  else if proc.uid = fileUid then mode &&& usr != 0
  else if proc.gid = fileGid then mode &&& grp != 0
  else mode &&& oth != 0

def canRead : Credentials → BitVec 32 → BitVec 32 → Mode → Bool := permits S_IRUSR S_IRGRP S_IROTH

def canWrite : Credentials → BitVec 32 → BitVec 32 → Mode → Bool := permits S_IWUSR S_IWGRP S_IWOTH

/-- `FileMetadata`, with the size. -/
structure FileStat extends FileMetadata where
  size : Nat
  deriving DecidableEq, Repr

/-- The two checks of every open call; `true` is `EACCES`. -/
def refuses (flags : Word) (proc : Credentials) (file : FileMetadata) : Bool :=
  opensReadable flags && !canRead proc file.uid file.gid file.mode ||
    opensWritable flags && !canWrite proc file.uid file.gid file.mode

/-! ## The static files -/

/-- An entry of `FILES`. -/
structure FileNode where
  path : PathName
  data : List Byte
  fileType : FileType
  mode : Mode
  uid : BitVec 32
  gid : BitVec 32

/-- The bytes of an ASCII text. -/
def ascii (text : String) : List Byte := text.toList.map fun c => BitVec.ofNat 8 c.toNat

def dirNode (path : String) : FileNode := ⟨path.toList, [], .directory, defaultDirMode, 0, 0⟩

def fileNode (path text : String) : FileNode :=
  ⟨path.toList, ascii text, .file, defaultFileMode, 0, 0⟩

/-- `FILES`. -/
def staticFiles : List FileNode :=
  [dirNode "/", dirNode "/bin", dirNode "/etc", dirNode "/tmp", dirNode "/mnt",
    fileNode "/etc/motd" "Welcome to PandaOS.\r\nType 'help' for commands.\r\n",
    fileNode "/etc/version" "PandaOS 0.1.0\r\n"]

/-! ## Mounted file systems -/

inductive FsType
  | disk | fat32 | tmpfs
  deriving DecidableEq, Repr

/-- What the kernel reads from a mounted disk. -/
structure DiskReader where
  resolvePath : PathName → Except FsFault Inode
  stat : Inode → Except FsFault (FileType × Nat)
  readFile : Inode → Nat → Nat → Except FsFault (List Byte)
  listDir : Inode → Except FsFault (List (FileName × FileType))
  /-- A read fills at most the buffer. -/
  read_le : ∀ inode offset count bytes, readFile inode offset count = .ok bytes →
    bytes.length ≤ count

/-- `Fat32Handle`. -/
structure Fat32Handle where
  cluster : BitVec 32
  size : BitVec 32
  isDir : Bool
  deriving DecidableEq, Repr

/-- What the kernel reads from a mounted FAT32 volume. -/
structure Fat32Reader where
  resolvePath : PathName → Except FsFault Fat32Handle
  readFile : BitVec 32 → BitVec 32 → Nat → Nat → Except FsFault (List Byte)
  listDir : BitVec 32 → Except FsFault (List (FileName × FileType))
  /-- A read fills at most the buffer. -/
  read_le : ∀ cluster size offset count bytes,
    readFile cluster size offset count = .ok bytes → bytes.length ≤ count

/-- The mount table and the global maps of `fs.rs`. -/
structure Vfs where
  /-- The mount points, `None` before `init_mount_table`. -/
  mounts : Option (List (PathName × FsType))
  disk : Option DiskReader
  fat32 : Option Fat32Reader
  tmpfs : Option TmpFs
  /-- `WRITABLE_FILES`. -/
  writableFiles : Nat → Option (List Byte)
  /-- `DYNAMIC_FILES`. -/
  dynamicFiles : AList fun _ : PathName => Nat
  /-- `FILE_MODES`. -/
  fileModes : Nat → Option Mode
  /-- `FILE_OWNERSHIP`. -/
  fileOwnership : Nat → Option (BitVec 32 × BitVec 32)

/-- Nothing is mounted and nothing is written yet. -/
def Vfs.boot : Vfs where
  mounts := none
  disk := none
  fat32 := none
  tmpfs := none
  writableFiles _ := none
  dynamicFiles := ∅
  fileModes _ := none
  fileOwnership _ := none

/-- `resolve_mount`: the mount point, the path below it and the type. -/
def resolveMount : List (PathName × FsType) → PathName → Option (PathName × PathName × FsType)
  | [], _ => none
  | (mountPoint, fsType) :: rest, path =>
    if path = mountPoint then some (mountPoint, ['/'], fsType)
    else if mountPoint ++ ['/'] <+: path then some (mountPoint, path.drop mountPoint.length, fsType)
    else resolveMount rest path

/-- `path.strip_prefix('/').unwrap_or(path)`. -/
def stripSlash : PathName → PathName
  | '/' :: rest => rest
  | path => path

/-- The parent and the name at the last slash, as the calls that create or remove split a
path. -/
def splitParent (path : PathName) : PathName × FileName :=
  let name := (path.reverse.takeWhile (· ≠ '/')).reverse
  if name.length = path.length then (['/'], path)
  else
    let parent := path.take (path.length - name.length - 1)
    (if parent = [] then ['/'] else parent, name)

namespace Vfs

/-- `resolve_mount_path`. -/
def resolveMountPath (v : Vfs) (path : PathName) : Option (PathName × PathName × FsType) :=
  v.mounts.bind fun mounts => resolveMount mounts path

/-- The readers of a mounted disk, or `EIO`. -/
def getDisk (v : Vfs) : Except FsFault DiskReader :=
  match v.disk with
  | some disk => .ok disk
  | none => .error (.err .eio)

def getFat32 (v : Vfs) : Except FsFault Fat32Reader :=
  match v.fat32 with
  | some fat32 => .ok fat32
  | none => .error (.err .eio)

def getTmpfs (v : Vfs) : Except FsFault TmpFs :=
  match v.tmpfs with
  | some fs => .ok fs
  | none => .error (.err .eio)

/-- The metadata of a file that belongs to root and has the default mode. -/
def defaultStat (fileType : FileType) (size : Nat) : FileStat where
  isDir := fileType = .directory
  mode := if fileType = .directory then defaultDirMode else defaultFileMode
  uid := 0
  gid := 0
  size := size

/-- `diskfs_stat`. -/
def diskfsStat (v : Vfs) (inode : Inode) : Except FsFault FileStat := do
  let (fileType, size) ← (← v.getDisk).stat inode
  return defaultStat fileType size

/-- `fat32_stat`. -/
def fat32Stat (handle : Fat32Handle) : FileStat :=
  defaultStat (if handle.isDir then .directory else .file) handle.size.toNat

/-- An error code as a fault. -/
def lift {α : Type} (x : Except ErrorCode α) : Except FsFault α :=
  match x with
  | .ok a => .ok a
  | .error e => .error (.err e)

/-- `tmpfs_lookup`. -/
def tmpfsLookup (v : Vfs) (path : PathName) : Except FsFault Inode := do
  let fs ← v.getTmpfs
  lift (fs.lookup fs.rootInode (stripSlash path))

/-- `tmpfs_stat`. -/
def tmpfsStat (v : Vfs) (inode : Inode) : Except FsFault FileStat := do
  let fs ← v.getTmpfs
  match fs.nodes inode with
  | none => .error (.err .enoent)
  | some node =>
    let size := match node with
      | .file data => data.length
      | .directory _ => 0
    return { isDir := node.fileType = .directory, mode := fs.modeOf inode node, uid := 0, gid := 0,
             size := size }

/-- `lookup_node`: the node index and the node. For a file created at run time the node is
the first of the table, as a placeholder. -/
def lookupNode (v : Vfs) (path : PathName) : Option (Nat × FileNode) :=
  match staticFiles.findIdx? (·.path = path) with
  | some index => staticFiles[index]?.map fun node => (index, node)
  | none =>
    (v.dynamicFiles.lookup path).bind fun index => staticFiles[0]?.map fun node => (index, node)

/-- The mode and the owner of a node of the table, where they have been changed. -/
def nodeStat (v : Vfs) (index : Nat) (node : FileNode) (isDir : Bool) (size : Nat) : FileStat where
  isDir := isDir
  mode := (v.fileModes index).getD node.mode
  uid := ((v.fileOwnership index).getD (node.uid, node.gid)).1
  gid := ((v.fileOwnership index).getD (node.uid, node.gid)).2
  size := size

/-- The metadata of a node: what has been written to it makes it a file. -/
def memoryStat (v : Vfs) (index : Nat) (node : FileNode) : FileStat :=
  match v.writableFiles index with
  | some data => v.nodeStat index node false data.length
  | none =>
    v.nodeStat index node (node.fileType = .directory)
      (if node.fileType = .directory then 0 else node.data.length)

/-- `stat_path`. -/
def statPath (v : Vfs) (path : PathName) : Except FsFault FileStat :=
  match v.resolveMountPath path with
  | some (_, relPath, .disk) => do
    let inode ← (← v.getDisk).resolvePath relPath
    v.diskfsStat inode
  | some (_, relPath, .tmpfs) => do
    let inode ← v.tmpfsLookup relPath
    v.tmpfsStat inode
  | some (_, relPath, .fat32) => do
    let handle ← (← v.getFat32).resolvePath relPath
    return fat32Stat handle
  | none =>
    match v.lookupNode path with
    | none => .error (.err .enoent)
    | some (index, node) => .ok (v.memoryStat index node)

/-- `validate_directory`. -/
def validateDirectory (v : Vfs) (path : PathName) : Except ErrorCode Unit :=
  match v.lookupNode path with
  | none => .error .enoent
  | some (_, node) => if node.fileType ≠ .directory then .error .enotdir else .ok ()

/-- The contents of a node of the table, or of a file created at run time. -/
def memoryData (v : Vfs) (index : Nat) : Except FsFault (List Byte) :=
  match v.writableFiles index with
  | some data => .ok data
  | none =>
    match staticFiles[index]? with
    | some node => .ok node.data
    | none => .error (.err .enoent)

/-- The name of `path` in the directory `dirPath`, if it is directly in it. -/
def childName (dirPath path : PathName) : Option FileName :=
  let dirPrefix := if dirPath = ['/'] then ['/'] else dirPath ++ ['/']
  let name := path.drop dirPrefix.length
  if path = dirPath ∨ ¬dirPrefix <+: path ∨ name.contains '/' ∨ dirPath = ['/'] ∧ name = [] then
    none
  else some name

/-- The files created at run time that are directly in `/tmp`. -/
def dynamicNames (v : Vfs) : List FileName :=
  (TmpFs.sortNames v.dynamicFiles.keys).filterMap fun path =>
    let name := path.drop 5
    if "/tmp/".toList <+: path ∧ ¬name.contains '/' then some name else none

/-- `list_directory`. -/
def listDirectory (v : Vfs) (dirPath : PathName) : Except FsFault (List (FileName × FileType)) :=
  match v.resolveMountPath dirPath with
  | some (_, relPath, .disk) => do
    let disk ← v.getDisk
    disk.listDir (← disk.resolvePath relPath)
  | some (_, relPath, .tmpfs) => do
    let inode ← v.tmpfsLookup relPath
    lift ((← v.getTmpfs).readDir inode)
  | some (_, relPath, .fat32) => do
    let fat32 ← v.getFat32
    fat32.listDir (← fat32.resolvePath relPath).cluster
  | none =>
    match v.lookupNode dirPath with
    | none => .error (.err .enoent)
    | some (_, node) =>
      if node.fileType ≠ .directory then .error (.err .enotdir)
      else
        let static := staticFiles.filterMap fun file =>
          (childName dirPath file.path).map fun name => (name, file.fileType)
        .ok (static ++
          if dirPath = "/tmp".toList then v.dynamicNames.map fun name => (name, .file) else [])

def setWritable (v : Vfs) (index : Nat) (data : List Byte) : Vfs :=
  { v with writableFiles := fun i => if i = index then some data else v.writableFiles i }

end Vfs

/-! ## Opening -/

/-- The descriptor table of a process, and what all processes share. -/
structure Files where
  table : FdTable
  pool : PipePool
  vfs : Vfs

abbrev FileM := EStateM FsFault Files

namespace Files

/-- A question to the file systems. -/
def query {α : Type} (x : Vfs → Except FsFault α) : FileM α := ask fun st => x st.vfs

/-- A call on the table and the pool. -/
def onFds {α : Type} (x : FdM α) : FileM α :=
  zoom (fun st => ⟨st.table, st.pool⟩) (fun st fds =>
    { st with table := fds.table, pool := fds.pool }) .err x

/-- `with_tmpfs`. -/
def withTmpfs {α : Type} (x : TmpFsM α) : FileM α :=
  zoomOr (·.vfs.tmpfs) (fun st fs => { st with vfs := { st.vfs with tmpfs := some fs } })
    (.err .eio) id x

/-- `tmpfs_create`. -/
def tmpfsCreate (debug : Bool) (parentPath : PathName) (name : FileName) (isDir : Bool) :
    FileM Inode :=
  withTmpfs do
    let fs ← get
    let parent := if parentPath = ['/'] ∨ parentPath = [] then .ok fs.rootInode
      else fs.lookup fs.rootInode (stripSlash parentPath)
    match parent with
    | .error e => throw (.err e)
    | .ok parentInode => TmpFs.create debug parentInode name isDir

/-- `create_dynamic_file`. -/
def createDynamicFile (path : PathName) : FileM Nat := do
  failIf (!decide ("/tmp/".toList <+: path)) (.err .eacces)
  let v := (← get).vfs
  failIf (v.lookupNode path).isSome (.err .eexist)
  let index := staticFiles.length + v.dynamicFiles.entries.length
  modify fun st => { st with vfs :=
    { v with dynamicFiles := v.dynamicFiles.insert path index }.setWritable index [] }
  return index

/-- `open_node_with_flags`. -/
def openNodeWithFlags (index : Nat) (flags : Word) (proc : Credentials) : FileM Nat := do
  match staticFiles[index]? with
  | none => throw (.err .enoent)
  | some node =>
    match (← get).table.allocateFd with
    | .error e => throw (.err e)
    | .ok fd =>
      let file ← query (·.statPath node.path)
      failIf (refuses flags proc file.toFileMetadata) (.err .eacces)
      match node.fileType with
      | .file =>
        if opensWritable flags && hasFlag flags oTrunc then
          modify fun st => { st with vfs := st.vfs.setWritable index [] }
        modify fun st => { st with
          table := st.table.setEntry fd (some (.file ⟨index, 0, flags⟩ (opensWritable flags))) }
        return fd
      | .directory =>
        failIf (opensWritable flags) (.err .eisdir)
        modify fun st =>
          { st with table := st.table.setEntry fd (some (.directory ⟨index, 0, flags⟩)) }
        return fd

/-- The end of an open call on a mounted file system. -/
def openKind (kind : FdKind) : FileM Nat := onFds (FdTable.openKind kind)

/-- The read-only file systems refuse to open for writing. -/
def checkReadOnly (flags : Word) (proc : Credentials) (file : FileStat) : FileM Unit := do
  failIf (refuses flags proc file.toFileMetadata) (.err .eacces)
  failIf (opensWritable flags) (.err .erofs)

def openDisk (relPath : PathName) (flags : Word) (proc : Credentials) : FileM Nat := do
  let inode ← query fun v => do (← v.getDisk).resolvePath relPath
  let file ← query (·.diskfsStat inode)
  checkReadOnly flags proc file
  openKind (if file.isDir then .diskDirectory ⟨inode, 0, flags⟩ else .diskFile ⟨inode, 0, flags⟩)

def openFat32 (relPath : PathName) (flags : Word) (proc : Credentials) : FileM Nat := do
  let handle ← query fun v => do (← v.getFat32).resolvePath relPath
  let file := Vfs.fat32Stat handle
  checkReadOnly flags proc file
  let openFile : OpenFat32File := ⟨handle.cluster, handle.size, handle.isDir, 0, flags⟩
  openKind (if file.isDir then .fat32Directory openFile else .fat32File openFile)

/-- The inode of the file to open: an existing one, truncated if that is asked for, or a
new one. -/
def findTmpfs (debug : Bool) (relPath : PathName) (flags : Word) : FileM Inode := do
  match (← get).vfs.tmpfsLookup relPath with
  | .ok inode =>
    if hasFlag flags oTrunc && opensWritable flags then withTmpfs (TmpFs.truncate inode)
    return inode
  | .error (.err .enoent) =>
    if hasFlag flags oCreat then
      let (parent, name) := splitParent relPath
      tmpfsCreate debug parent name false
    else throw (.err .enoent)
  | .error e => throw e

/-- The rest of the open call, with the inode found. -/
def openInode (inode : Inode) (flags : Word) (proc : Credentials) : FileM Nat := do
  let file ← query (·.tmpfsStat inode)
  failIf (refuses flags proc file.toFileMetadata) (.err .eacces)
  openKind (if file.isDir then .tmpfsDirectory ⟨inode, 0, flags⟩ else .tmpfsFile ⟨inode, 0, flags⟩)

def openTmpfs (debug : Bool) (relPath : PathName) (flags : Word) (proc : Credentials) :
    FileM Nat := do
  let inode ← findTmpfs debug relPath flags
  openInode inode flags proc

/-- The node index of the file to open, created if that is asked for. -/
def findMemory (path : PathName) (flags : Word) : FileM Nat := do
  match (← get).vfs.lookupNode path with
  | some (index, _) => return index
  | none => if hasFlag flags oCreat then createDynamicFile path else throw (.err .enoent)

def openMemory (path : PathName) (flags : Word) (proc : Credentials) : FileM Nat := do
  let index ← findMemory path flags
  openNodeWithFlags index flags proc

/-- `open_path_with_flags`. -/
def openPathWithFlags (debug : Bool) (path : PathName) (flags : Word) (proc : Credentials) :
    FileM Nat := do
  match (← get).vfs.resolveMountPath path with
  | some (_, relPath, .disk) => openDisk relPath flags proc
  | some (_, relPath, .fat32) => openFat32 relPath flags proc
  | some (_, relPath, .tmpfs) => openTmpfs debug relPath flags proc
  | none => openMemory path flags proc

/-- `tmpfs_unlink`. -/
def tmpfsUnlink (parentPath : PathName) (name : FileName) : FileM Unit :=
  withTmpfs do
    let fs ← get
    let parent := if parentPath = ['/'] ∨ parentPath = [] then .ok fs.rootInode
      else fs.lookup fs.rootInode (stripSlash parentPath)
    match parent with
    | .error e => throw (.err e)
    | .ok parentInode => TmpFs.unlink parentInode name

/-- `unlink_path`. In the memory file system only files created at run time can be removed. -/
def unlinkPath (path : PathName) : FileM Unit := do
  match (← get).vfs.resolveMountPath path with
  | some (_, relPath, .tmpfs) =>
    let (parent, name) := splitParent relPath
    tmpfsUnlink parent name
  | some _ => throw (.err .erofs)
  | none =>
    failIf (!decide ("/tmp/".toList <+: path)) (.err .eacces)
    let v := (← get).vfs
    match v.dynamicFiles.lookup path with
    | none => throw (.err .enoent)
    | some index =>
      modify fun st => { st with vfs :=
        { v with
          dynamicFiles := v.dynamicFiles.erase path
          writableFiles := fun i => if i = index then none else v.writableFiles i } }

end Files

end PandaOS.Kernel
