import PandaOS.Kernel.Blocking
import PandaOS.Kernel.Vfs

/-!
# System calls on descriptors

`read`, `write`, `getdents64`, `fstat` and `lseek` of `fs.rs`, `main.rs` and
`syscall.rs`. They all begin with the same lookup of the descriptor, which
refuses 0, 1 and 2, and store back at most the entry found (`onEntry`); the rest
works on that entry, the pipes and the file systems (`OpenEntry`).

User memory counts as accessible: a copy fails only for the address it is given.
What a call stores there is part of its reply. A call that waits for a pipe gives
up the processor and does not return.
-/

namespace PandaOS.Kernel

open Lib

/-! ## Entries -/

namespace FdKind

/-- The offset of the open file; a pipe end has none. -/
def offset : FdKind → Nat
  | .file f _ | .directory f => f.offset
  | .diskFile f | .diskDirectory f | .tmpfsFile f | .tmpfsDirectory f => f.offset
  | .fat32File f | .fat32Directory f => f.offset
  | .pipeRead _ | .pipeWrite _ => 0

/-- The same open file at another offset. -/
def withOffset (offset : Nat) : FdKind → FdKind
  | .file f writable => .file { f with offset := offset } writable
  | .directory f => .directory { f with offset := offset }
  | .diskFile f => .diskFile { f with offset := offset }
  | .diskDirectory f => .diskDirectory { f with offset := offset }
  | .tmpfsFile f => .tmpfsFile { f with offset := offset }
  | .tmpfsDirectory f => .tmpfsDirectory { f with offset := offset }
  | .fat32File f => .fat32File { f with offset := offset }
  | .fat32Directory f => .fat32Directory { f with offset := offset }
  | .pipeRead id => .pipeRead id
  | .pipeWrite id => .pipeWrite id

/-- An open file, which has an offset to seek to. -/
def isFile : FdKind → Bool
  | .file _ _ | .diskFile _ | .tmpfsFile _ | .fat32File _ => true
  | _ => false

def isPipe : FdKind → Bool
  | .pipeRead _ | .pipeWrite _ => true
  | _ => false

/-- The bytes `FdTable::read` returns. -/
def readBytes (v : Vfs) (count : Nat) : FdKind → Except FsFault (List Byte)
  | .file f _ => do return TmpFs.slice (← v.memoryData f.nodeIndex) f.offset count
  | .diskFile f => do (← v.getDisk).readFile f.inode f.offset count
  | .tmpfsFile f => do Vfs.lift ((← v.getTmpfs).read f.inode f.offset count)
  | .fat32File f => do (← v.getFat32).readFile f.cluster f.size f.offset count
  | .directory _ | .diskDirectory _ | .tmpfsDirectory _ | .fat32Directory _ => .error (.err .eisdir)
  | .pipeRead _ | .pipeWrite _ => .error (.err .ebadf)

/-- `get_offset`. -/
def getOffset (kind : FdKind) : Except FsFault Nat :=
  if kind.isFile then .ok kind.offset
  else if kind.isPipe then .error (.err .espipe)
  else .error (.err .eisdir)

/-- `get_file_size`. -/
def getFileSize (v : Vfs) : FdKind → Except FsFault Nat
  | .file f _ =>
    match staticFiles[f.nodeIndex]? with
    | none => .error (.err .enoent)
    | some node => .ok ((v.writableFiles f.nodeIndex).getD node.data).length
  | .diskFile f => do return (← v.diskfsStat f.inode).size
  | .tmpfsFile f => do return (← v.tmpfsStat f.inode).size
  | .fat32File f => .ok f.size.toNat
  | .directory _ | .diskDirectory _ | .tmpfsDirectory _ | .fat32Directory _ => .error (.err .eisdir)
  | .pipeRead _ | .pipeWrite _ => .error (.err .espipe)

/-- `fstat_fd`. -/
def stat (v : Vfs) : FdKind → Except FsFault FileStat
  | .file f _ =>
    match staticFiles[f.nodeIndex]? with
    | none => .error (.err .enoent)
    | some node => .ok (v.memoryStat f.nodeIndex node)
  | .directory f =>
    match staticFiles[f.nodeIndex]? with
    | none => .error (.err .enoent)
    | some node => .ok (v.nodeStat f.nodeIndex node (node.fileType = .directory) 0)
  | .diskFile f | .diskDirectory f => v.diskfsStat f.inode
  | .tmpfsFile f | .tmpfsDirectory f => v.tmpfsStat f.inode
  | .fat32File f | .fat32Directory f => .ok (Vfs.fat32Stat ⟨f.cluster, f.size, f.isDir⟩)
  | .pipeRead _ | .pipeWrite _ => .error (.err .ebadf)

/-- The entries `getdents64_handler` lists; a FAT32 directory is no directory to it. -/
def dirEntries (v : Vfs) : FdKind → Except FsFault (List (FileName × FileType))
  | .directory f =>
    match staticFiles[f.nodeIndex]? with
    | none => .error (.err .enoent)
    | some node =>
      if node.fileType ≠ .directory then .error (.err .enotdir) else v.listDirectory node.path
  | .diskDirectory f => do (← v.getDisk).listDir f.inode
  | .tmpfsDirectory f => do Vfs.lift ((← v.getTmpfs).readDir f.inode)
  | _ => .error (.err .enotdir)

end FdKind

/-- An entry of a descriptor table, and what a call on it can reach. -/
structure OpenEntry where
  kind : FdKind
  pool : PipePool
  vfs : Vfs

abbrev EntryM := EStateM FsFault OpenEntry

/-- What a call returns. -/
inductive Reply
  /-- A number. -/
  | value (n : Nat)
  /-- Bytes, which are now in user memory. -/
  | bytes (data : List Byte)
  /-- Nothing: the process waits. -/
  | waits
  /-- The bytes went to the serial port. -/
  | serial (data : List Byte)
  /-- The call goes on to wait for the terminal. -/
  | terminal (count : Nat)
  deriving DecidableEq

namespace OpenEntry

/-- A question to the file systems. -/
def query {α : Type} (x : Vfs → Except FsFault α) : EntryM α := ask fun s => x s.vfs

/-- A call on the pipes. -/
def onPipes {α : Type} (x : EStateM ErrorCode PipePool α) : EntryM α :=
  zoom (·.pool) (fun s pool => { s with pool := pool }) .err x

/-- `with_tmpfs`. -/
def withTmpfs {α : Type} (x : TmpFsM α) : EntryM α :=
  zoomOr (·.vfs.tmpfs) (fun s fs => { s with vfs := { s.vfs with tmpfs := some fs } })
    (.err .eio) id x

/-- The entry is stored back at another offset. -/
def moveTo (offset : Nat) : EntryM Unit :=
  modify fun s => { s with kind := s.kind.withOffset offset }

/-- `copy_to_user_bytes`. -/
def copyOut (buf : Word) (data : List Byte) : EntryM Unit :=
  match copyError buf data.length with
  | some e => throw (.err e)
  | none => pure ()

/-! ### Reading -/

/-- `FdTable::read`. -/
def read (count : Nat) : EntryM (List Byte) := do
  let kind := (← get).kind
  let data ← query (kind.readBytes · count)
  moveTo (kind.offset + data.length)
  return data

/-- The copy to the user at the end of a read; nothing is copied where nothing was read. -/
def deliver (buf : Word) (data : List Byte) : EntryM Reply := do
  if data ≠ [] then copyOut buf data
  return .bytes data

/-- A call on a pipe that may have to wait. -/
def orWait {α : Type} (x : EntryM α) : EntryM (Option α) :=
  tryCatch (some <$> x) fun e => if e = .err .eagain then pure none else throw e

def readPipe (id : PipeId) (buf : Word) (count : Nat) : EntryM Reply := do
  match ← orWait (onPipes (PipePool.read id (List.replicate (min count tempBufSize) 0))) with
  | none => return .waits
  | some (n, data) => deliver buf (data.take n)

/-- `read_handler`. -/
def readHandler (buf : Word) (count : Nat) : EntryM Reply := do
  match (← get).kind with
  | .pipeRead id => readPipe id buf count
  | .pipeWrite _ => throw (.err .ebadf)
  | .directory _ | .diskDirectory _ | .tmpfsDirectory _ | .fat32Directory _ => throw (.err .eisdir)
  | .file _ _ | .diskFile _ | .tmpfsFile _ | .fat32File _ =>
    let data ← read (min count tempBufSize)
    deliver buf data

/-! ### Writing -/

/-- Where a write goes: with `O_APPEND` to the end of the file. -/
def writeOffset (flags : Word) (size offset : Nat) : Nat :=
  if hasFlag flags oAppend then size else offset

/-- The branch of `FdTable::write` for the memory file system. A file that has not been
written to counts as empty, and gets its entry in the map now. -/
def writeMemory (heap : HeapRoom) (f : OpenFile) (data : List Byte) : EntryM Nat := do
  let stored := (← get).vfs.writableFiles f.nodeIndex
  let fileData := stored.getD []
  let offset := writeOffset f.flags fileData.length f.offset
  failIf (!((stored.isSome || heap.inserts) && heap.holds fileData.length offset data.length))
    .panic
  modify fun s =>
    { s with vfs := s.vfs.setWritable f.nodeIndex (TmpFs.overwrite fileData offset data) }
  moveTo (offset + data.length)
  return data.length

/-- The branch for the tmpfs. -/
def writeTmpfs (heap : HeapRoom) (f : OpenInode) (data : List Byte) : EntryM Nat := do
  let offset ← query fun v =>
    if hasFlag f.flags oAppend then (·.size) <$> v.tmpfsStat f.inode else .ok f.offset
  let written ← withTmpfs (TmpFs.write heap f.inode offset data)
  moveTo (offset + written)
  return written

/-- `FdTable::write`. -/
def write (heap : HeapRoom) (data : List Byte) : EntryM Nat := do
  match (← get).kind with
  | .file f writable => if writable then writeMemory heap f data else throw (.err .ebadf)
  | .tmpfsFile f => writeTmpfs heap f data
  | .diskFile _ | .diskDirectory _ | .fat32File _ | .fat32Directory _ => throw (.err .erofs)
  | .directory _ | .tmpfsDirectory _ | .pipeRead _ | .pipeWrite _ => throw (.err .ebadf)

/-- `copy_user_bytes` into the handler's buffer, where `data` is what the user asks to write. -/
def copyIn (buf : Word) (data : List Byte) : EntryM (List Byte) :=
  if buf = 0 then throw (.err .efault) else pure (data.take tempBufSize)

def writeFile (heap : HeapRoom) (buf : Word) (data : List Byte) : EntryM Reply := do
  let copied ← copyIn buf data
  return .value (← write heap copied)

def writePipe (id : PipeId) (buf : Word) (data : List Byte) : EntryM Reply := do
  let copied ← copyIn buf data
  match ← orWait (onPipes (PipePool.write id copied)) with
  | none => return .waits
  | some n => return .value n

/-- `write_handler`. -/
def writeHandler (heap : HeapRoom) (buf : Word) (data : List Byte) : EntryM Reply := do
  match (← get).kind with
  | .file _ writable => if writable then writeFile heap buf data else throw (.err .ebadf)
  | .tmpfsFile _ => writeFile heap buf data
  | .pipeWrite id => writePipe id buf data
  | _ => throw (.err .ebadf)

/-! ### Directories and metadata -/

/-- The bytes of a name. -/
def nameBytes (name : FileName) : List Byte :=
  name.flatMap fun c => (String.utf8EncodeChar c).map fun b => b.toBitVec

/-- The size of a record: header, name, NUL and padding to eight bytes. -/
def recordSize (name : FileName) : Nat := (19 + (nameBytes name).length + 1 + 7) / 8 * 8

/-- The record of the entry with the given number. -/
def record (number : Nat) (name : FileName) (fileType : FileType) : List Byte :=
  let dType : Byte := match fileType with
    | .file => 8
    | .directory => 4
  let unpadded := fieldBytes 8 number ++ fieldBytes 8 number ++
    fieldBytes 2 (recordSize name) ++ [dType] ++ nameBytes name ++ [0]
  unpadded ++ List.replicate (recordSize name - unpadded.length) 0

/-- The loop of `getdents64_handler`: the records that fit, from the one after `index` on. -/
def packRecords (count : Nat) : Nat → Nat → List (FileName × FileType) → List (List Byte)
  | _, _, [] => []
  | index, written, (name, fileType) :: rest =>
    if written + recordSize name > count then []
    else record (index + 1) name fileType ::
      packRecords count (index + 1) (written + recordSize name) rest

/-- `getdents64_handler`. -/
def getdents64Handler (buf : Word) (count : Nat) : EntryM Reply := do
  let kind := (← get).kind
  let entries ← query (kind.dirEntries ·)
  if kind.offset ≥ entries.length then return .bytes []
  else
    let records := packRecords count kind.offset 0 (entries.drop kind.offset)
    if records = [] then return .bytes []
    else
      copyOut buf records.flatten
      moveTo (kind.offset + records.length)
      return .bytes records.flatten

/-- The 32 bytes of `struct stat`. -/
def statBytes (file : FileStat) : List Byte :=
  fieldBytes 2 file.mode.toNat ++ fieldBytes 2 0 ++ fieldBytes 4 1 ++
    fieldBytes 4 0 ++ fieldBytes 4 0 ++ fieldBytes 8 file.size ++ fieldBytes 8 0

/-- `fstat_handler`. -/
def fstatHandler (buf : Word) : EntryM Reply := do
  let kind := (← get).kind
  let file ← query (kind.stat ·)
  copyOut buf (statBytes file)
  return .bytes (statBytes file)

/-! ### Seeking -/

/-- A `usize` as an `i64`. -/
def toI64 (n : Nat) : Int := (BitVec.ofNat 64 n).toInt

/-- `set_offset`, which gets no negative offset. -/
def setOffset (newOffset : Nat) : EntryM Reply := do
  let kind := (← get).kind
  let _ ← query fun _ => kind.getOffset
  moveTo newOffset
  return .value newOffset

/-- `checked_add` to the base; the sum must not be negative. -/
def seekFrom (base : Nat) (offset : Int) : EntryM Reply :=
  let result := toI64 base + offset
  if 0 ≤ result ∧ result < 2 ^ 63 then setOffset result.toNat else throw (.err .einval)

def seekCur (offset : Int) : EntryM Reply := do
  let kind := (← get).kind
  let base ← query fun _ => kind.getOffset
  seekFrom base offset

def seekEnd (offset : Int) : EntryM Reply := do
  let kind := (← get).kind
  let base ← query (kind.getFileSize ·)
  seekFrom base offset

end OpenEntry

/-! ## System calls -/

namespace Files

/-- The entry `FdTable::get` finds. -/
def entryOf (st : Files) (fd : Int) : Option OpenEntry :=
  (st.table.get? fd).map fun kind => ⟨kind, st.pool, st.vfs⟩

/-- Store the entry a call leaves. -/
def storeEntry (fd : Int) (st : Files) (s : OpenEntry) : Files where
  table := st.table.setEntry fd.toNat (some s.kind)
  pool := s.pool
  vfs := s.vfs

/-- A call on the entry of a descriptor. -/
def onEntry {α : Type} (fd : Int) (x : EntryM α) : FileM α :=
  zoomOr (entryOf · fd) (storeEntry fd) (.err .ebadf) id x

/-- `EBADF` from the handler means that 0, 1 or 2 is not redirected. -/
def orStandard (x y : FileM Reply) : FileM Reply :=
  tryCatch x fun e => if e = .err .ebadf then y else throw e

/-- The part of `sys_read` for the terminal. -/
def readTerminal (count : Nat) : FileM Reply :=
  if count > 4096 then throw (.err .einval) else pure (.terminal count)

/-- `sys_read`. -/
def sysRead (fd : Int) (buf : Word) (count : Nat) : FileM Reply :=
  if count = 0 then pure (.bytes [])
  else if buf = 0 then throw (.err .efault)
  else if fd = 0 then orStandard (onEntry fd (OpenEntry.readHandler buf count)) (readTerminal count)
  else if fd = 1 ∨ fd = 2 then throw (.err .ebadf)
  else onEntry fd (OpenEntry.readHandler buf count)

/-- The part of `sys_write` for the serial port. -/
def writeSerial (buf : Word) (data : List Byte) : FileM Reply :=
  if buf = 0 ∨ data = [] then pure (.value 0)
  else if data.length > 4096 then throw (.err .einval)
  else pure (.serial data)

/-- `sys_write` of the bytes `data`, which are at `buf`. -/
def sysWrite (heap : HeapRoom) (fd : Int) (buf : Word) (data : List Byte) : FileM Reply :=
  if fd = 1 ∨ fd = 2 then
    orStandard (onEntry fd (OpenEntry.writeHandler heap buf data)) (writeSerial buf data)
  else onEntry fd (OpenEntry.writeHandler heap buf data)

/-- `lseek_handler`: `SEEK_SET` is 0, `SEEK_CUR` 1 and `SEEK_END` 2. -/
def lseekHandler (fd offset whence : Int) : FileM Reply :=
  if whence = 0 then
    if offset < 0 then throw (.err .einval) else onEntry fd (OpenEntry.setOffset offset.toNat)
  else if whence = 1 then onEntry fd (OpenEntry.seekCur offset)
  else if whence = 2 then onEntry fd (OpenEntry.seekEnd offset)
  else throw (.err .einval)

end Files

/-- The system calls on a descriptor. -/
inductive FileCall
  | read (buf : Word) (count : Nat)
  | write (heap : HeapRoom) (buf : Word) (data : List Byte)
  | getdents (buf : Word) (count : Nat)
  | fstat (buf : Word)
  | lseek (offset whence : Int)

namespace Files

def sysCall (fd : Int) : FileCall → FileM Reply
  | .read buf count => sysRead fd buf count
  | .write heap buf data => sysWrite heap fd buf data
  | .getdents buf count => onEntry fd (OpenEntry.getdents64Handler buf count)
  | .fstat buf => onEntry fd (OpenEntry.fstatHandler buf)
  | .lseek offset whence => lseekHandler fd offset whence

/-- What a process does with its table, and what the others do meanwhile. -/
inductive Op
  | openPath (path : PathName) (flags : Word)
  | close (fd : Int)
  | dup2 (oldfd newfd : Int)
  | pipe (copied : Option ErrorCode)
  | call (fd : Int) (c : FileCall)
  /-- The other processes change the pipes and the file systems. -/
  | others (pool : PipePool) (vfs : Vfs)

/-- The operation as a program, its result dropped. -/
def Op.run (debug : Bool) (proc : Credentials) : Op → FileM Unit
  | .openPath path flags => do let _ ← openPathWithFlags debug path flags proc
  | .close fd => onFds (FdTable.close fd)
  | .dup2 oldfd newfd => onFds (FdTable.dup2 oldfd newfd)
  | .pipe copied => onFds (pipeHandler copied)
  | .call fd c => do let _ ← sysCall fd c
  | .others pool vfs => modify fun st => { st with pool := pool, vfs := vfs }

/-- What an operation leaves, whether it returns or fails; there is nothing after a panic. -/
def Leaves (debug : Bool) (proc : Credentials) (op : Op) (st st' : Files) : Prop :=
  Returns (op.run debug proc) st () st' ∨ ∃ e, Throws (op.run debug proc) st (.err e) st'

end Files

end PandaOS.Kernel
