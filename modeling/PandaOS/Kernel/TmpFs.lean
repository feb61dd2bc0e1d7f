import Mathlib.Data.Char
import Mathlib.Data.List.AList
import Mathlib.Data.List.Lex
import PandaOS.Kernel.Heap
import PandaOS.Kernel.Syscall
import PandaOS.Lib.Links
import PandaOS.Lib.Run
import PandaOS.Lib.TSys

/-!
# The temporary file system

`tmpfs.rs`: nodes by inode number, a directory holding its entries by name.
The maps of the source by inode are functions here; a directory's entries stay a
finite map, since `unlink` asks whether there are any. `next_inode` is a `u32`:
raising it past its maximum panics in a debug build and wraps around otherwise.
-/

namespace PandaOS.Kernel

open Lib Relation

/-- Why a file system operation stops. -/
inductive FsFault
  | err (e : ErrorCode)
  | panic
  deriving DecidableEq, Repr

abbrev Inode := BitVec 32

/-- The characters of a file name. -/
abbrev FileName := List Char

/-- `name.is_empty() || name.contains('/')`. -/
def badName (name : FileName) : Bool := name.isEmpty || name.contains '/'

abbrev Mode := BitVec 16

def sIfdir : Mode := 0o040000

def sIfreg : Mode := 0o100000

def defaultDirMode : Mode := sIfdir ||| 0o755

def defaultFileMode : Mode := sIfreg ||| 0o644

inductive FileType
  | file | directory
  deriving DecidableEq, Repr

/-- A directory's entries (`BTreeMap<String, Inode>`). -/
abbrev Entries := AList fun _ : FileName => Inode

inductive TmpFsNode
  | file (data : List Byte)
  | directory (entries : Entries)

namespace TmpFsNode

def newFile : TmpFsNode := .file []

def newDirectory : TmpFsNode := .directory ∅

def fileType : TmpFsNode → FileType
  | .file _ => .file
  | .directory _ => .directory

/-- A directory with entries, which `unlink` refuses. -/
def nonEmptyDirectory : TmpFsNode → Bool
  | .file _ => false
  | .directory entries => !entries.entries.isEmpty

end TmpFsNode

structure TmpFs where
  nextInode : Inode
  nodes : Inode → Option TmpFsNode
  modes : Inode → Option Mode
  rootInode : Inode

abbrev TmpFsM := EStateM FsFault TmpFs

namespace TmpFs

/-- `TmpFs::new`. -/
def new : TmpFs where
  nextInode := 2
  nodes i := if i = 1 then some .newDirectory else none
  modes i := if i = 1 then some defaultDirMode else none
  rootInode := 1

def setNode (fs : TmpFs) (inode : Inode) (node : Option TmpFsNode) : TmpFs :=
  { fs with nodes := fun i => if i = inode then node else fs.nodes i }

def setMode (fs : TmpFs) (inode : Inode) (mode : Mode) : TmpFs :=
  { fs with modes := fun i => if i = inode then some mode else fs.modes i }

/-- `self.nodes.get(&inode).ok_or(ErrorCode::ENOENT)?`. -/
def getNode (inode : Inode) : TmpFsM TmpFsNode := do
  match (← get).nodes inode with
  | some node => pure node
  | none => throw (.err .enoent)

/-- The entries of a node that has to be a directory. -/
def getEntries (inode : Inode) : TmpFsM Entries := do
  match ← getNode inode with
  | .directory entries => pure entries
  | .file _ => throw (.err .enotdir)

/-- The data of a node that has to be a file. -/
def getData (inode : Inode) : TmpFsM (List Byte) := do
  match ← getNode inode with
  | .file data => pure data
  | .directory _ => throw (.err .eisdir)

def allocateInode (debug : Bool) : TmpFsM Inode := do
  let inode := (← get).nextInode
  failIf (debug && inode == BitVec.allOnes 32) .panic
  modify fun fs => { fs with nextInode := inode + 1 }
  pure inode

def create (debug : Bool) (parentInode : Inode) (name : FileName) (isDir : Bool) :
    TmpFsM Inode := do
  failIf (badName name) (.err .einval)
  let entries ← getEntries parentInode
  failIf (entries.lookup name).isSome (.err .eexist)
  let newInode ← allocateInode debug
  modify fun fs => fs.setNode newInode (some (if isDir then .newDirectory else .newFile))
  modify fun fs => fs.setMode newInode (if isDir then defaultDirMode else defaultFileMode)
  let entries ← getEntries parentInode
  modify fun fs => fs.setNode parentInode (some (.directory (entries.insert name newInode)))
  pure newInode

/-- The inode an entry names, as `unlink` and `rename` look it up. -/
def getEntry (parentInode : Inode) (name : FileName) : TmpFsM Inode := do
  match (← getEntries parentInode).lookup name with
  | some inode => pure inode
  | none => throw (.err .enoent)

def unlink (parentInode : Inode) (name : FileName) : TmpFsM Unit := do
  failIf (badName name) (.err .einval)
  let inode ← getEntry parentInode name
  let node ← getNode inode
  failIf node.nonEmptyDirectory (.err .enotempty)
  let entries ← getEntries parentInode
  modify fun fs => fs.setNode parentInode (some (.directory (entries.erase name)))
  modify fun fs => fs.setNode inode none

/-- `Vec::resize` with zeros, to a length not below the present one. -/
def resize (data : List Byte) (len : Nat) : List Byte :=
  data ++ List.replicate (len - data.length) 0

/-- The contents of a file after `data` is written at `offset`. -/
def overwrite (fileData : List Byte) (offset : Nat) (data : List Byte) : List Byte :=
  let fileData := if offset > fileData.length then resize fileData offset else fileData
  if offset = fileData.length then fileData ++ data
  else
    let endPos := offset + data.length
    let fileData := if endPos > fileData.length then resize fileData endPos else fileData
    fileData.take offset ++ data ++ fileData.drop endPos

def write (heap : HeapRoom) (inode : Inode) (offset : Nat) (data : List Byte) : TmpFsM Nat := do
  let fileData ← getData inode
  failIf (!heap.holds fileData.length offset data.length) .panic
  modify fun fs => fs.setNode inode (some (.file (overwrite fileData offset data)))
  pure data.length

def truncate (inode : Inode) : TmpFsM Unit := do
  let _ ← getData inode
  modify fun fs => fs.setNode inode (some (.file []))

def chmod (inode : Inode) (newMode : Mode) : TmpFsM Unit := do
  let node ← getNode inode
  let fileTypeBits := match node.fileType with
    | .directory => sIfdir
    | .file => sIfreg
  modify fun fs => fs.setMode inode (fileTypeBits ||| (newMode &&& 0o777))

def rename (oldParentInode : Inode) (oldName : FileName) (newParentInode : Inode)
    (newName : FileName) : TmpFsM Unit := do
  failIf (badName oldName || badName newName) (.err .einval)
  let inode ← getEntry oldParentInode oldName
  let entries ← getEntries newParentInode
  failIf (entries.lookup newName).isSome (.err .eexist)
  let entries ← getEntries oldParentInode
  modify fun fs => fs.setNode oldParentInode (some (.directory (entries.erase oldName)))
  let entries ← getEntries newParentInode
  modify fun fs =>
    fs.setNode newParentInode (some (.directory (entries.insert newName inode)))

/-- The components of a path. -/
def components (path : List Char) : List FileName := (path.splitOn '/').filter (· ≠ [])

/-- The loop of `lookup`. -/
def walk (fs : TmpFs) : Inode → List FileName → Except ErrorCode Inode
  | inode, [] => .ok inode
  | inode, component :: rest =>
    match fs.nodes inode with
    | none => .error .enoent
    | some (.file _) => .error .enotdir
    | some (.directory entries) =>
      match entries.lookup component with
      | none => .error .enoent
      | some child => fs.walk child rest

/-- `lookup` of a path without a leading slash. -/
def lookup (fs : TmpFs) (base : Inode) (path : List Char) : Except ErrorCode Inode :=
  if path = [] ∨ path = ['/'] then .ok base else fs.walk base (components path)

/-- At most `count` bytes from `offset` on, as a read returns them. -/
def slice (data : List Byte) (offset count : Nat) : List Byte := (data.drop offset).take count

def read (fs : TmpFs) (inode : Inode) (offset count : Nat) : Except ErrorCode (List Byte) :=
  match fs.nodes inode with
  | none => .error .enoent
  | some (.directory _) => .error .eisdir
  | some (.file data) => .ok (slice data offset count)

/-- Names in the order a `BTreeMap` has them. -/
def sortNames (names : List FileName) : List FileName := names.mergeSort fun a b => decide (a ≤ b)

def readDir (fs : TmpFs) (inode : Inode) : Except ErrorCode (List (FileName × FileType)) :=
  match fs.nodes inode with
  | none => .error .enoent
  | some (.file _) => .error .enotdir
  | some (.directory entries) =>
    (sortNames entries.keys).mapM fun name =>
      match (entries.lookup name).bind fs.nodes with
      | some node => .ok (name, node.fileType)
      | none => .error .enoent

/-- The mode of a node, or the default for its type. -/
def modeOf (fs : TmpFs) (inode : Inode) (node : TmpFsNode) : Mode :=
  (fs.modes inode).getD <| match node.fileType with
    | .directory => defaultDirMode
    | .file => defaultFileMode

/-! ## Runs -/

inductive Op
  | create (parent : Inode) (name : FileName) (isDir : Bool)
  | unlink (parent : Inode) (name : FileName)
  | rename (oldParent : Inode) (oldName : FileName) (newParent : Inode) (newName : FileName)
  | write (heap : HeapRoom) (inode : Inode) (offset : Nat) (data : List Byte)
  | truncate (inode : Inode)
  | chmod (inode : Inode) (mode : Mode)

/-- The operation as a program, its result dropped. -/
def Op.call (debug : Bool) : Op → TmpFsM Unit
  | .create parent name isDir => do let _ ← TmpFs.create debug parent name isDir
  | .unlink parent name => TmpFs.unlink parent name
  | .rename oldParent oldName newParent newName =>
    TmpFs.rename oldParent oldName newParent newName
  | .write heap inode offset data => do let _ ← TmpFs.write heap inode offset data
  | .truncate inode => TmpFs.truncate inode
  | .chmod inode mode => TmpFs.chmod inode mode

/-- What an operation leaves, whether it returns or fails; `none` after a panic. -/
def step (debug : Bool) (fs : TmpFs) (op : Op) : Option TmpFs :=
  match (op.call debug).run fs with
  | .ok _ fs' => some fs'
  | .error (.err _) fs' => some fs'
  | .error .panic _ => none

/-- The inode that the entry `name` of directory `d` names. -/
def entry (fs : TmpFs) (d : Inode) (name : FileName) : Option Inode :=
  match fs.nodes d with
  | some (.directory entries) => entries.lookup name
  | _ => none

/-- The file system is a tree. -/
structure Tree (fs : TmpFs) : Prop where
  /-- Every entry names an existing node. -/
  entries_exist : ∀ d name c, fs.entry d name = some c → fs.nodes c ≠ none
  /-- Every node but the root has exactly one entry naming it. -/
  one_entry : ∀ c, fs.nodes c ≠ none → c ≠ fs.rootInode →
    ∃! e : Inode × FileName, fs.entry e.1 e.2 = some c
  /-- Every node is reachable from the root. -/
  reachable : ∀ c, fs.nodes c ≠ none → ReflTransGen (Child fs.entry) fs.rootInode c
  /-- No directory is its own descendant. -/
  no_cycle : ∀ d, ¬TransGen (Child fs.entry) d d

/-- The operations that keep the tree: `create` while the next inode number is
not in use, and `rename` of a node that is neither the new parent nor above it. -/
def KeepsTree (fs : TmpFs) : Op → Prop
  | .create _ _ _ => fs.nodes fs.nextInode = none
  | .rename oldParent oldName newParent _ =>
    ∀ inode, fs.entry oldParent oldName = some inode →
      ¬ReflTransGen (Child fs.entry) inode newParent
  | _ => True

/-- Runs from a new file system whose operations all satisfy `P`. -/
def runs (debug : Bool) (P : TmpFs → Op → Prop) : TSys TmpFs where
  init fs := fs = new
  step fs fs' := ∃ op, P fs op ∧ fs.step debug op = some fs'

end TmpFs

end PandaOS.Kernel
