import PandaOS.Kernel.ExecStack
import PandaOS.Kernel.HomeFs
import PandaOS.Kernel.Paging

/-!
# Copies from and to user memory

`copy_user_cstr`, `copy_user_bytes` and `copy_to_user_bytes` of `usermode.rs`
and `parse_argv` and `parse_envp` of `exec_stack.rs`. They use raw pointers in
the active address space, user half and kernel half alike: an access to a byte
that is there succeeds wherever it is, and one to a byte that is not there
stops the kernel. Bytes that demand paging would bring in count as there. The
addresses are logged.
-/

namespace PandaOS.Kernel

open Lib

/-- The active address space as the kernel accesses it. -/
structure AddressView where
  /-- The byte at an address, if an access to it succeeds. -/
  load : Nat → Option Byte
  writable : Nat → Bool
  /-- The addresses accessed, the first one first. -/
  touched : List Nat

abbrev CopyM := EStateM ExecFault AddressView

/-- An address as a `u64`. -/
def wrapAddr (a : Nat) : Nat := a % 2 ^ 64

/-- `ptr + i`: a debug build panics on overflow, a release build wraps around. -/
def addAddr (debug : Bool) (ptr i : Nat) : CopyM Nat :=
  if debug ∧ 2 ^ 64 ≤ ptr + i then throw .panic else pure (wrapAddr (ptr + i))

def readByte (addr : Nat) : CopyM Byte := do
  match (← get).load addr with
  | none => throw .panic
  | some b =>
    modify fun s => { s with touched := s.touched ++ [addr] }
    return b

def writeByte (addr : Nat) (b : Byte) : CopyM Unit := do
  let s ← get
  if s.load addr = none ∨ s.writable addr = false then throw .panic
  set { s with load := Function.update s.load addr (some b), touched := s.touched ++ [addr] }

/-- `n` bytes from `addr` on, in one access of the processor. -/
def readBytes : Nat → Nat → CopyM (List Byte)
  | _, 0 => pure []
  | addr, n + 1 => do
    let b ← readByte (wrapAddr addr)
    let bytes ← readBytes (addr + 1) n
    return b :: bytes

/-- `*(addr as *const u64)`: a debug build checks the alignment. -/
def readU64 (debug : Bool) (addr : Nat) : CopyM Nat := do
  if debug ∧ addr % 8 ≠ 0 then throw .panic
  let bytes ← readBytes addr 8
  return Nat.ofDigits 256 (bytes.map BitVec.toNat)

/-- Read up to a NUL; `tooLong` if there is none within `n` further bytes. -/
def scanUser (debug : Bool) (ptr : Nat) (tooLong : ErrorCode) : Nat → List Byte → CopyM (List Byte)
  | 0, _ => throw (.err tooLong)
  | n + 1, bytes => do
    let b ← readByte (← addAddr debug ptr bytes.length)
    if b = 0 then return bytes else scanUser debug ptr tooLong n (bytes ++ [b])

/-- `copy_user_cstr` into a buffer of `bufLen` bytes. -/
def copyUserCstr (debug : Bool) (ptr bufLen : Nat) : CopyM (List Byte) := do
  if ptr = 0 then throw (.err .efault)
  let bytes ← scanUser debug ptr .einval bufLen []
  if validUtf8 bytes then return bytes else throw (.err .einval)

/-- `copy_user_bytes` into a buffer of `dstLen` bytes. -/
def copyUserBuf (debug : Bool) (ptr len dstLen : Nat) : CopyM Nat := do
  if ptr = 0 then throw (.err .efault)
  if dstLen < len then throw (.err .einval)
  forRange 0 len fun i => do
    let _ ← readByte (← addAddr debug ptr i)
  return len

/-- `copy_to_user_bytes`. The sum of `ptr` and the length is checked before. -/
def copyToUserBytes (ptr : Nat) (src : List Byte) : CopyM Nat := do
  if ptr = 0 then throw (.err .efault)
  if src.isEmpty then return 0
  if 2 ^ 64 ≤ ptr + src.length then throw (.err .efault)
  forRange 0 src.length fun i => writeByte (ptr + i) (src.getD i 0)
  return src.length

/-- `MAX_ARGC` and `MAX_ENVC`. -/
def maxArgc : Nat := 64
def maxEnvc : Nat := 64

/-- `MAX_STRLEN`. -/
def maxStrlen : Nat := 256

/-- `MAX_TOTAL_BYTES`. -/
def maxTotalBytes : Nat := 32 * 1024

/-- `read_user_string`. -/
def readUserString (debug : Bool) (ptr : Nat) : CopyM (List Byte) := do
  if ptr = 0 then throw (.err .efault)
  scanUser debug ptr .e2big maxStrlen []

/-- The loop of `parse_argv` and `parse_envp`, for `n` further strings. -/
def parseStrings (debug : Bool) (ptr : Nat) :
    Nat → List (List Byte) → Nat → CopyM (List (List Byte))
  | 0, _, _ => throw (.err .e2big)
  | n + 1, args, totalBytes => do
    let argPtr ← readU64 debug (← addAddr debug ptr (args.length * 8))
    if argPtr = 0 then return args
    let arg ← readUserString debug argPtr
    let totalBytes := totalBytes + (arg.length + 1)
    if maxTotalBytes < totalBytes then throw (.err .e2big)
    parseStrings debug ptr n (args ++ [arg]) totalBytes

def parseArgv (debug : Bool) (argvPtr : Nat) : CopyM (List (List Byte)) :=
  if argvPtr = 0 then pure [] else parseStrings debug argvPtr maxArgc [] 0

def parseEnvp (debug : Bool) (envpPtr : Nat) : CopyM (List (List Byte)) :=
  if envpPtr = 0 then pure [] else parseStrings debug envpPtr maxEnvc [] 0

/-- The two calls of `sys_execve`, made when `argv` is not null. -/
def parseExecArgs (debug : Bool) (argvPtr envpPtr : Nat) :
    CopyM (List (List Byte) × List (List Byte)) := do
  let argv ← parseArgv debug argvPtr
  let envp ← parseEnvp debug envpPtr
  return (argv, envp)

/-- The five functions with their arguments. -/
inductive UserAccess
  | cstr (ptr : Word) (bufLen : Nat)
  | bytes (ptr : Word) (len dstLen : Nat)
  | toUser (ptr : Word) (src : List Byte)
  | argv (ptr : Word)
  | envp (ptr : Word)

/-- The call, without its result. -/
def UserAccess.run (debug : Bool) : UserAccess → CopyM Unit
  | .cstr ptr bufLen => do let _ ← copyUserCstr debug ptr.toNat bufLen
  | .bytes ptr len dstLen => do let _ ← copyUserBuf debug ptr.toNat len dstLen
  | .toUser ptr src => do let _ ← copyToUserBytes ptr.toNat src
  | .argv ptr => do let _ ← parseArgv debug ptr.toNat
  | .envp ptr => do let _ ← parseEnvp debug ptr.toNat

end PandaOS.Kernel
