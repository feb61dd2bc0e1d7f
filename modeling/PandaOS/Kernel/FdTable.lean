import PandaOS.Kernel.Pipe
import PandaOS.Lib.Run
import PandaOS.Lib.Tally

/-!
# File descriptor tables

The descriptor table of `fs.rs` as far as pipes go through it, with
`pipe_handler` of `main.rs`. Methods of a table that open or close pipe ends
change the pool as well, so they run on both (`FdState`).

The last part puts the tables of all live processes over one pool. A process
that exits leaves its table as it is: `exit_handler` closes nothing.
-/

namespace PandaOS.Kernel

open Lib

/-- `MAX_FDS`. -/
def maxFds : Nat := 16

/-- `FIRST_NONSTD_FD`. -/
def firstNonstdFd : Nat := 3

/-- `OpenFile`. -/
structure OpenFile where
  nodeIndex : Nat
  offset : Nat
  flags : Word
  deriving DecidableEq, Repr

/-- `OpenDiskFile` and `OpenTmpfsFile`, which have the same fields. -/
structure OpenInode where
  inode : BitVec 32
  offset : Nat
  flags : Word
  deriving DecidableEq, Repr

/-- `OpenFat32File`. -/
structure OpenFat32File where
  cluster : BitVec 32
  size : BitVec 32
  isDir : Bool
  offset : Nat
  flags : Word
  deriving DecidableEq, Repr

/-- What a descriptor refers to (`FdKind`). -/
inductive FdKind
  | file (openFile : OpenFile) (writable : Bool)
  | directory (openFile : OpenFile)
  | diskFile (openFile : OpenInode)
  | diskDirectory (openFile : OpenInode)
  | tmpfsFile (openFile : OpenInode)
  | tmpfsDirectory (openFile : OpenInode)
  | fat32File (openFile : OpenFat32File)
  | fat32Directory (openFile : OpenFat32File)
  | pipeRead (id : PipeId)
  | pipeWrite (id : PipeId)
  deriving DecidableEq, Repr

/-- Close the pipe end a descriptor referred to. -/
def FdKind.closeEnd : FdKind → EStateM ErrorCode PipePool Unit
  | .pipeRead id => PipePool.closeReadEnd id
  | .pipeWrite id => PipePool.closeWriteEnd id
  | _ => pure ()

/-- Open the pipe end a copied descriptor refers to. -/
def FdKind.openEnd : FdKind → EStateM ErrorCode PipePool Unit
  | .pipeRead id => PipePool.openReadEnd id
  | .pipeWrite id => PipePool.openWriteEnd id
  | _ => pure ()

/-- A descriptor table (`FdTable`); only the first sixteen entries exist. -/
structure FdTable where
  entries : Nat → Option FdKind

/-- A table and the pool its pipes are in. -/
structure FdState where
  table : FdTable
  pool : PipePool

abbrev FdM := EStateM ErrorCode FdState

/-- A call on the pool. -/
def onPool (x : EStateM ErrorCode PipePool α) : FdM α := fun st =>
  match x.run st.pool with
  | .ok a pool => .ok a { st with pool := pool }
  | .error e pool => .error e { st with pool := pool }

namespace FdTable

def new : FdTable := ⟨fun _ => none⟩

/-- Store one entry. -/
def setEntry (t : FdTable) (fd : Nat) (entry : Option FdKind) : FdTable :=
  ⟨fun i => if i = fd then entry else t.entries i⟩

/-- The descriptors from 3 on that are not in use. -/
def freeFds (t : FdTable) : List Nat :=
  (List.range' firstNonstdFd (maxFds - firstNonstdFd)).filter fun fd => (t.entries fd).isNone

/-- `allocate_fd`: the lowest of them. -/
def allocateFd (t : FdTable) : Except ErrorCode Nat :=
  match t.freeFds with
  | fd :: _ => .ok fd
  | [] => .error .emfile

/-- Store an entry at the lowest free descriptor, as `open_pipe_read`,
`open_pipe_write` and the file variants do. -/
def openKind (kind : FdKind) : FdM Nat := do
  match (← get).table.allocateFd with
  | .error e => throw e
  | .ok fd =>
    modify fun st => { st with table := st.table.setEntry fd (some kind) }
    return fd

def openPipeRead (id : PipeId) : FdM Nat := openKind (.pipeRead id)

def openPipeWrite (id : PipeId) : FdM Nat := openKind (.pipeWrite id)

/-- `close`. The entry is gone even if closing the pipe end fails. -/
def close (fd : Int) : FdM Unit := do
  if fd < 0 ∨ maxFds ≤ fd then throw .ebadf
  else if fd < firstNonstdFd then throw .einval
  else
    match (← get).table.entries fd.toNat with
    | none => throw .ebadf
    | some kind =>
      modify fun st => { st with table := st.table.setEntry fd.toNat none }
      onPool kind.closeEnd

/-- `dup2`. An open `newfd` is closed first, unless it is 0, 1 or 2. -/
def dup2 (oldfd newfd : Int) : FdM Unit := do
  if oldfd < 0 ∨ maxFds ≤ oldfd then throw .ebadf
  else if newfd < 0 ∨ maxFds ≤ newfd then throw .ebadf
  else if oldfd < firstNonstdFd then throw .einval
  else
    match (← get).table.entries oldfd.toNat with
    | none => throw .ebadf
    | some oldKind =>
      let openAt := (← get).table.entries newfd.toNat
      if firstNonstdFd ≤ newfd ∧ openAt.isSome then close newfd else pure ()
      onPool oldKind.openEnd
      modify fun st => { st with table := st.table.setEntry newfd.toNat (some oldKind) }

/-- `fork_copy`: open every pipe end once more. -/
def forkCopy (t : FdTable) : EStateM ErrorCode PipePool FdTable := do
  forRange 0 maxFds fun fd =>
    match t.entries fd with
    | some kind => kind.openEnd
    | none => pure ()
  return t

end FdTable

/-- `pipe_handler` for a process; `copied` is what copying the two descriptors
to user memory reports. The ends stay open on every failure. -/
def pipeHandler (copied : Option ErrorCode) : FdM Unit := do
  let ends ← onPool PipePool.pipeCreate
  let _ ← FdTable.openPipeRead ends.1
  let _ ← FdTable.openPipeWrite ends.2
  match copied with
  | some e => throw e
  | none => pure ()

/-! ## All processes -/

/-- One end of a pipe. -/
inductive PipeEnd
  | read (id : PipeId)
  | write (id : PipeId)
  deriving DecidableEq, Repr

/-- The pipe end a descriptor refers to. -/
def FdKind.pipeEnd : FdKind → Option PipeEnd
  | .pipeRead id => some (.read id)
  | .pipeWrite id => some (.write id)
  | _ => none

/-- The pipe end behind a descriptor. -/
def FdTable.endAt (t : FdTable) (fd : Nat) : Option PipeEnd := (t.entries fd).bind FdKind.pipeEnd

/-- The count kept of an end. -/
def PipePool.refcount (pool : PipePool) : PipeEnd → Nat
  | .read id => (pool.pipes id).readRefcount
  | .write id => (pool.pipes id).writeRefcount

/-- The pool and the descriptor tables of the live processes. -/
structure FdSystem where
  pool : PipePool
  live : List Pid
  tables : Pid → FdTable

namespace FdSystem

def boot : FdSystem := ⟨PipePool.new, [], fun _ => FdTable.new⟩

/-- What the processes do with their descriptors. -/
inductive Op
  /-- `Process::new`. -/
  | spawn (pid : Pid)
  | pipe (pid : Pid) (copied : Option ErrorCode)
  /-- The calls that open a file or a directory. -/
  | openFile (pid : Pid) (kind : FdKind)
  | dup2 (pid : Pid) (oldfd newfd : Int)
  | close (pid : Pid) (fd : Int)
  | fork (pid child : Pid)
  | exit (pid : Pid)

def setTable (s : FdSystem) (pid : Pid) (t : FdTable) : Pid → FdTable :=
  fun i => if i = pid then t else s.tables i

/-- Run a call of a live process; what it wrote stays, whatever the outcome. -/
def call (s : FdSystem) (pid : Pid) (x : FdM α) : Option FdSystem :=
  if pid ∈ s.live then
    match x.run ⟨s.tables pid, s.pool⟩ with
    | .ok _ st => some { s with pool := st.pool, tables := s.setTable pid st.table }
    | .error _ st => some { s with pool := st.pool, tables := s.setTable pid st.table }
  else none

/-- One operation; `none` if it cannot happen. -/
def step (s : FdSystem) : Op → Option FdSystem
  | .spawn pid =>
    if pid ∈ s.live then none
    else some { s with live := pid :: s.live, tables := s.setTable pid FdTable.new }
  | .pipe pid copied => s.call pid (pipeHandler copied)
  | .openFile pid kind => if kind.pipeEnd = none then s.call pid (FdTable.openKind kind) else none
  | .dup2 pid oldfd newfd => s.call pid (FdTable.dup2 oldfd newfd)
  | .close pid fd => s.call pid (FdTable.close fd)
  | .fork pid child =>
    if pid ∈ s.live ∧ child ∉ s.live then
      match (s.tables pid).forkCopy.run s.pool with
      | .ok t pool =>
        some { pool := pool, live := child :: s.live, tables := s.setTable child t }
      | .error _ pool => some { s with pool := pool }
    else none
  | .exit pid => if pid ∈ s.live then some { s with live := s.live.erase pid } else none

/-- The descriptors of live processes that refer to an end. -/
def descriptors (s : FdSystem) (e : PipeEnd) : Nat :=
  tally s.live maxFds (fun pid fd => (s.tables pid).endAt fd) e

/-- Every count is the number of descriptors that refer to its end. -/
def EndsCounted (s : FdSystem) : Prop :=
  ∀ id < maxPipes, (s.pool.pipes id).readRefcount = s.descriptors (.read id) ∧
    (s.pool.pipes id).writeRefcount = s.descriptors (.write id)

/-- No count is about to saturate. -/
def Roomy (pool : PipePool) : Prop := ∀ e, pool.refcount e + maxFds ≤ usizeMax

/-- The operations that keep the counts: `pipe` with two free descriptors (or
no free pipe), `dup2` onto 0, 1 or 2 while no pipe end is open there, and the
exit of a process that holds no pipe end. -/
def KeepsCounts (s : FdSystem) : Op → Prop
  | .pipe pid _ => s.pool.firstFree = none ∨ 2 ≤ (s.tables pid).freeFds.length
  | .dup2 pid _ newfd =>
    Roomy s.pool ∧
      (newfd < 0 ∨ firstNonstdFd ≤ newfd ∨ (s.tables pid).endAt newfd.toNat = none)
  | .fork _ _ => Roomy s.pool
  | .exit pid => ∀ fd < maxFds, (s.tables pid).endAt fd = none
  | _ => True

/-- Runs from boot whose operations all satisfy `P`. -/
def runs (P : FdSystem → Op → Prop) : TSys FdSystem where
  init s := s = boot
  step s s' := ∃ op, P s op ∧ s.step op = some s'

end FdSystem

end PandaOS.Kernel
