import PandaOS.Kernel.Syscall

/-!
# Paths and permissions

The path functions of `fs.rs` and its check for execute permission. A path is
UTF-8; the characters the code looks for are ASCII, so paths are lists of bytes.
-/

namespace PandaOS.Kernel

/-- `/`, `:`, `.` and `=`. -/
def slash : Byte := 0x2f
def colon : Byte := 0x3a
def dot : Byte := 0x2e
def equals : Byte := 0x3d

/-- One turn of `normalize_path`'s loop, on the components kept so far. -/
def pushComponent (components : List (List Byte)) (component : List Byte) : List (List Byte) :=
  if component = [] ∨ component = [dot] then components
  else if component = [dot, dot] then components.dropLast
  else components ++ [component]

/-- `normalize_path`. -/
def normalizePath (path : List Byte) : Except ErrorCode (List Byte) :=
  if path.head? ≠ some slash then .error .einval
  else
    let components := (path.splitOn slash).foldl pushComponent []
    .ok (slash :: (List.intersperse [slash] components).flatten)

/-- `resolve_path`. -/
def resolvePath (cwd path : List Byte) : Except ErrorCode (List Byte) :=
  if path.head? = some slash then normalizePath path
  else if cwd.getLast? = some slash then normalizePath (cwd ++ path)
  else normalizePath (cwd ++ slash :: path)

/-- `FileMetadata`, as far as `execve` reads it. -/
structure FileMetadata where
  isDir : Bool
  mode : BitVec 16
  uid : BitVec 32
  gid : BitVec 32
  deriving DecidableEq, Repr

/-- The execute bits of a mode: owner, group and others. -/
def S_IXUSR : BitVec 16 := 0o100
def S_IXGRP : BitVec 16 := 0o010
def S_IXOTH : BitVec 16 := 0o001

/-- `can_exec`. -/
def canExec (procUid procGid fileUid fileGid : BitVec 32) (mode : BitVec 16) : Bool :=
  if procUid = 0 then mode &&& (S_IXUSR ||| S_IXGRP ||| S_IXOTH) != 0
  else if procUid = fileUid then mode &&& S_IXUSR != 0
  else if procGid = fileGid then mode &&& S_IXGRP != 0
  else mode &&& S_IXOTH != 0

end PandaOS.Kernel
