import PandaOS.Kernel.Syscall
import PandaOS.Lib.Bytes

/-!
# The initial user stack

`setup_user_stack` of `exec_stack.rs`: strings first, from the top of the stack
down, then the auxiliary vector, the pointers and the argument count. The
memory written is that of the active address space. `sp` is a `u64`, so
lowering it below 0 panics in a debug build and wraps around otherwise.
-/

namespace PandaOS.Kernel

open Lib

/-- Why `setup_user_stack` stops. -/
inductive ExecFault
  | err (e : ErrorCode)
  | panic
  deriving DecidableEq, Repr

/-- User memory and the stack pointer. -/
structure UserStack where
  mem : Memory
  sp : Nat

abbrev StackM := EStateM ExecFault UserStack

/-- The types of the auxiliary vector's entries (`AuxvType`). -/
inductive AuxvType
  | null | phdr | phent | phnum | pagesz | entry | uid | euid | gid | egid | random | execfn
  deriving DecidableEq, Repr

def AuxvType.num : AuxvType → Nat
  | null => 0
  | phdr => 3
  | phent => 4
  | phnum => 5
  | pagesz => 6
  | entry => 9
  | uid => 11
  | euid => 12
  | gid => 13
  | egid => 14
  | random => 25
  | execfn => 31

/-- The random bytes, the same for every process. -/
def randomBytes : List Byte :=
  [0xde, 0xad, 0xbe, 0xef, 0xca, 0xfe, 0xba, 0xbe, 0x12, 0x34, 0x56, 0x78, 0x9a, 0xbc, 0xde, 0xf0]

/-- `sp -= n`. -/
def lowerSp (debug : Bool) (n : Nat) : StackM Unit := do
  let sp := (← get).sp
  if n ≤ sp then modify fun s => { s with sp := sp - n }
  else if debug then throw .panic
  else modify fun s => { s with sp := (sp + 2 ^ 64 - n) % 2 ^ 64 }

/-- `sp &= !(n - 1)` for a power of two `n`. -/
def alignSp (n : Nat) : StackM Unit := modify fun s => { s with sp := s.sp - s.sp % n }

/-- `write_user_memory`. -/
def writeUserMemory (addr : Nat) (data : List Byte) : StackM Unit :=
  if addr = 0 then throw (.err .efault)
  else modify fun s => { s with mem := storeAt s.mem addr data }

/-- `write_user_u64`. -/
def writeUserU64 (addr value : Nat) : StackM Unit := writeUserMemory addr (leBytes value)

/-- Write a string and its NUL below the stack pointer; the result is its address. -/
def pushString (debug : Bool) (str : List Byte) : StackM Nat := do
  lowerSp debug (str.length + 1)
  let sp := (← get).sp
  writeUserMemory sp str
  writeUserMemory (sp + str.length) [0]
  return sp

/-- The loops over `argv` and `envp`: the last string is written first. -/
def pushStrings (debug : Bool) : List (List Byte) → StackM (List Nat)
  | [] => pure []
  | str :: strs => do
    let ptrs ← pushStrings debug strs
    let ptr ← pushString debug str
    return ptr :: ptrs

def pushU64 (debug : Bool) (value : Nat) : StackM Unit := do
  lowerSp debug 8
  writeUserU64 (← get).sp value

/-- The loops over the pointers, the last one first. -/
def pushPointers (debug : Bool) : List Nat → StackM Unit
  | [] => pure ()
  | ptr :: ptrs => do
    pushPointers debug ptrs
    pushU64 debug ptr

/-- One entry of the auxiliary vector. -/
def pushAux (debug : Bool) (entry : AuxvType × Nat) : StackM Unit := do
  lowerSp debug 16
  let sp := (← get).sp
  writeUserU64 sp entry.1.num
  writeUserU64 (sp + 8) entry.2

/-- The values an image brings into the auxiliary vector. -/
structure AuxInfo where
  entryPoint : BitVec 64
  phdr : BitVec 64
  phnum : BitVec 16
  uid : BitVec 32
  gid : BitVec 32
  deriving DecidableEq, Repr

/-- The auxiliary vector from its end, in the order it is written. -/
def auxv (info : AuxInfo) (execfnPtr randomPtr : Nat) : List (AuxvType × Nat) :=
  [(.null, 0), (.execfn, execfnPtr), (.random, randomPtr), (.egid, info.gid.toNat),
    (.gid, info.gid.toNat), (.euid, info.uid.toNat), (.uid, info.uid.toNat),
    (.entry, info.entryPoint.toNat), (.phnum, info.phnum.toNat), (.phent, 56)] ++
  (if info.phdr ≠ 0 then [(.phdr, info.phdr.toNat)] else []) ++ [(.pagesz, 4096)]

/-- The bytes of strings with their NULs. -/
def stringBytes (strs : List (List Byte)) : Nat := (strs.map fun str => str.length + 1).sum

/-- The bytes `setup_user_stack` puts above the auxiliary vector. -/
def blockBytes (path : List Byte) (argv envp : List (List Byte)) : Nat :=
  stringBytes argv + stringBytes envp + (path.length + 1) + 16

/-- `total_size`, rounded up to 16. -/
def totalSize (path : List Byte) (argv envp : List (List Byte)) : Nat :=
  let size := 8 + (argv.length + 1) * 8 + (envp.length + 1) * 8 + 192 + blockBytes path argv envp
  (size + 15) / 16 * 16

/-- The four pages of the stack. -/
def maxStackBytes : Nat := 16384

/-- The strings and the random bytes; the results are the addresses of the
arguments, of the environment, of the file name and of the random bytes. -/
def writeStrings (debug : Bool) (path : List Byte) (argv envp : List (List Byte)) :
    StackM (List Nat × List Nat × Nat × Nat) := do
  let argvPtrs ← pushStrings debug argv
  let envpPtrs ← pushStrings debug envp
  let execfnPtr ← pushString debug path
  lowerSp debug 16
  let randomPtr := (← get).sp
  writeUserMemory randomPtr randomBytes
  return (argvPtrs, envpPtrs, execfnPtr, randomPtr)

/-- The auxiliary vector, the pointers and the argument count. -/
def writeVectors (debug : Bool) (entries : List (AuxvType × Nat)) (envpPtrs argvPtrs : List Nat)
    (argc : Nat) : StackM Unit := do
  entries.forM (pushAux debug)
  pushU64 debug 0
  pushPointers debug envpPtrs
  pushU64 debug 0
  pushPointers debug argvPtrs
  pushU64 debug argc

/-- `setup_user_stack`: the new stack pointer. -/
def setupUserStack (debug : Bool) (stackTop : Nat) (path : List Byte) (argv envp : List (List Byte))
    (info : AuxInfo) : StackM Nat := do
  if maxStackBytes < totalSize path argv envp then throw (.err .e2big)
  else
    modify fun s => { s with sp := stackTop }
    let (argvPtrs, envpPtrs, execfnPtr, randomPtr) ← writeStrings debug path argv envp
    alignSp 8
    writeVectors debug (auxv info execfnPtr randomPtr) envpPtrs argvPtrs argv.length
    alignSp 16
    return (← get).sp

/-! ## Reading the stack as a program does -/

/-- The string at an address, with its NUL. -/
def CString (mem : Memory) (addr : Nat) (str : List Byte) : Prop := Holds mem addr (str ++ [0])

/-- The type of the `j`-th entry of an auxiliary vector. -/
def auxType (mem : Memory) (addr j : Nat) : Nat := wordAt mem (addr + 16 * j)

def auxValue (mem : Memory) (addr j : Nat) : Nat := wordAt mem (addr + 16 * j + 8)

/-- The System V layout at `sp`: the count, the pointers to the arguments and a
null, the pointers to the environment and a null, and an auxiliary vector whose
entry for the file name points to it. -/
structure StackLayout (mem : Memory) (sp : Nat) (path : List Byte) (argv envp : List (List Byte)) :
    Prop where
  aligned : sp % 16 = 0
  argc : wordAt mem sp = argv.length
  args : ∀ i (h : i < argv.length), CString mem (wordAt mem (sp + 8 + 8 * i)) argv[i]
  args_null : wordAt mem (sp + 8 + 8 * argv.length) = 0
  envs : ∀ i (h : i < envp.length),
    CString mem (wordAt mem (sp + 16 + 8 * argv.length + 8 * i)) envp[i]
  envs_null : wordAt mem (sp + 16 + 8 * argv.length + 8 * envp.length) = 0
  aux : ∃ n, let addr := sp + 24 + 8 * argv.length + 8 * envp.length
    (∀ j < n, auxType mem addr j ≠ AuxvType.null.num) ∧ auxType mem addr n = AuxvType.null.num ∧
      ∃ j < n, auxType mem addr j = AuxvType.execfn.num ∧ CString mem (auxValue mem addr j) path

end PandaOS.Kernel
