import PandaOS.Kernel.ExecStack
import PandaOS.Kernel.Fault
import PandaOS.Kernel.HomeFs
import PandaOS.Kernel.Image
import PandaOS.Kernel.Path

/-!
# execve

`execve_handler` of `main.rs` on the calling process: find the file, check it,
parse it, replace the image, take over the environment and set up the stack. What
a stage has changed stays changed when a later one fails. The file system is a
parameter; `execve` only reads it.

On success the handler switches to the new program and does not return; the model
then returns the stack as the program finds it.
-/

namespace PandaOS.Kernel

open Lib

/-- What `execve` asks of the file system: `stat_path` and `read_file_to_vec`. -/
structure ExecFiles where
  statPath : List Byte → Except ErrorCode FileMetadata
  readFileToVec : List Byte → Except ErrorCode (List Byte)

/-- The strings of the environment by their names. -/
abbrev Environ := List Byte → Option (List Byte)

/-- A process with the fields `execve` reads and writes besides those of `Process`. -/
structure ExecProcess extends Process where
  uid : BitVec 32
  gid : BitVec 32
  cwd : List Byte
  pathEnv : List Byte
  environ : Environ

/-- Memory and the calling process. -/
structure ExecState where
  mem : KMem
  proc : ExecProcess

abbrev ExecM := EStateM ExecFault ExecState

/-- A stage that changes nothing. -/
def stage (x : Except ExecFault α) : ExecM α :=
  match x with
  | .ok a => pure a
  | .error e => throw e

/-- A call into paging; `map_err` turns its errors into `code`. -/
def onMemory (code : ErrorCode) (x : KM α) : ExecM α := fun st =>
  match x.run st.mem with
  | .ok a mem => .ok a { st with mem := mem }
  | .error (.err _) mem => .error (.err code) { st with mem := mem }
  | .error (.panic _) mem => .error .panic { st with mem := mem }

/-! ## Finding and checking the file -/

/-- `dir/path`. -/
def joinPath (dir path : List Byte) : List Byte :=
  if dir.getLast? = some slash then dir ++ path else dir ++ slash :: path

/-- The search through the directories of PATH. -/
def searchPath (files : ExecFiles) (pathEnv path : List Byte) : Option (List Byte) :=
  (((pathEnv.splitOn colon).filter (· ≠ [])).map (joinPath · path)).find? fun full =>
    (files.statPath full).isOk

/-- The path of the file to run. -/
def findProgram (files : ExecFiles) (p : ExecProcess) (path : List Byte) :
    Except ErrorCode (List Byte) :=
  if slash ∈ path then resolvePath p.cwd path
  else
    match searchPath files p.pathEnv path with
    | some full => .ok full
    | none => .error .enoent

/-- The checks on the file and its contents. -/
def readProgram (files : ExecFiles) (p : ExecProcess) (resolved : List Byte) :
    Except ErrorCode (List Byte) := do
  let metadata ← files.statPath resolved
  if metadata.isDir then .error .eisdir
  else if !canExec p.uid p.gid metadata.uid metadata.gid metadata.mode then .error .eacces
  else files.readFileToVec resolved

/-- `map_err` on the result of `parse_elf`. -/
def elfErrorCode : ElfError → ErrorCode
  | .invalidMagic | .invalidClass | .invalidEndian | .invalidVersion | .notExecutable
  | .wrongMachine => .enoexec
  | _ => .einval

def parseProgram (debug : Bool) (data : List Byte) : Except ExecFault ElfInfo :=
  match parseElf debug data with
  | .ok info => .ok info
  | .error (.error e) => .error (.err (elfErrorCode e))
  | .error (.panic _) => .error .panic
  -- a header outside the file: the kernel's own access faults
  | .error .wild => .error .panic

/-- The stages before anything is changed: the path of the file, its contents and
its headers. -/
def loadProgram (files : ExecFiles) (debug : Bool) (p : ExecProcess) (path : List Byte) :
    Except ExecFault (List Byte × List Byte × ElfInfo) := do
  let resolved ← (findProgram files p path).mapError .err
  let data ← (readProgram files p resolved).mapError .err
  let info ← parseProgram debug data
  return (resolved, data, info)

/-! ## Replacing the image -/

/-- `replace_image`. The old table is freed when the process already has the new
image. -/
def replaceImage (sel : Selectors) (info : ElfInfo) (data : List Byte) : ExecM Unit := do
  let p := (← get).proc
  let image ← onMemory .enomem (p.toProcess.newImage sel info data)
  modify fun st => { st with proc := { st.proc with toProcess := image } }
  onMemory .enomem (freeProcessAddressSpace p.pageTablePhys false)

/-- A `KEY=VALUE` string enters the environment; any other is skipped. -/
def Environ.insert (environ : Environ) (env : List Byte) : Environ :=
  match env.span (· ≠ equals) with
  | (key, _ :: value) =>
    if validUtf8 env then fun name => if name = key then some value else environ name
    else environ
  | (_, []) => environ

/-- The byte of user memory at an address of the active table; a page that is not
mapped reads as the cleared page it would get. -/
def userByte (s : KMem) (va : Nat) : Byte :=
  match translate s.mem s.cr3 va with
  | some t => BitVec.ofNat 8 (byteOf (s.mem t.frame (va % 4096 / 8)) (va % 8))
  | none => 0

/-- `setup_user_stack` in the active address space. -/
def setupStack (resolved : List Byte) (argv envp : List (List Byte)) (info : ElfInfo) :
    ExecM (Nat × UserStack) := do
  let st ← get
  let aux : AuxInfo :=
    { entryPoint := BitVec.ofNat 64 info.entryPoint
      phdr := BitVec.ofNat 64 info.phdrAddr
      phnum := BitVec.ofNat 16 info.phnum
      uid := st.proc.uid
      gid := st.proc.gid }
  match (setupUserStack st.mem.debug st.proc.userStackPtr.toNat resolved argv envp aux).run
      ⟨userByte st.mem, 0⟩ with
  | .ok sp stack => return (sp, stack)
  | .error e _ => throw e

/-- The second half of `execve_handler`, from `replace_image` on. -/
def startProgram (sel : Selectors) (argv envp : List (List Byte)) (resolved data : List Byte)
    (info : ElfInfo) : ExecM UserStack := do
  replaceImage sel info data
  modify fun st => { st with mem := { st.mem with cr3 := st.proc.pageTablePhys } }
  modify fun st =>
    { st with proc := { st.proc with environ := envp.foldl Environ.insert fun _ => none } }
  let (sp, stack) ← setupStack resolved argv envp info
  modify fun st =>
    { st with proc := { st.proc with
        userStackPtr := BitVec.ofNat 64 sp
        context := { st.proc.context with rsp := BitVec.ofNat 64 sp } } }
  return stack

/-- `execve_handler`. -/
def execveHandler (files : ExecFiles) (sel : Selectors) (path : List Byte)
    (argv envp : List (List Byte)) : ExecM UserStack := do
  let st ← get
  let (resolved, data, info) ← stage (loadProgram files st.mem.debug st.proc path)
  startProgram sel argv envp resolved data info

/-! ## What a failed call has to leave -/

/-- The process and its user memory are as before: every field, the mapping of
every user address and the contents of the pages. -/
structure Unchanged (st st' : ExecState) : Prop where
  proc : st'.proc = st.proc
  mapped : ∀ va < userSpaceMax, translate st'.mem.mem st.proc.pageTablePhys va =
    translate st.mem.mem st.proc.pageTablePhys va
  contents : ∀ va < userSpaceMax, ∀ t, translate st.mem.mem st.proc.pageTablePhys va = some t →
    st'.mem.mem t.frame = st.mem.mem t.frame

/-- If `execve` fails, nothing has changed for the process. -/
def ExecAtomic (files : ExecFiles) (sel : Selectors) (path : List Byte)
    (argv envp : List (List Byte)) (st : ExecState) : Prop :=
  ∀ e st', Throws (execveHandler files sel path argv envp) st (.err e) st' → Unchanged st st'

/-- Replacing the image fails only while nothing has changed for the process. -/
def ImageSpared (files : ExecFiles) (sel : Selectors) (path : List Byte) (st : ExecState) : Prop :=
  ∀ resolved data info, loadProgram files st.mem.debug st.proc path = .ok (resolved, data, info) →
    ∀ e st', Throws (replaceImage sel info data) st (.err e) st' → Unchanged st st'

/-- The arguments fit on the stack if `execve` gets as far as to put them there. Frames
alone do not decide that: with enough of them `replace_image` still stops at a page that two
segments share, or in a debug build at an old table that is not marked as taken. -/
def ArgumentsFit (files : ExecFiles) (sel : Selectors) (path : List Byte)
    (argv envp : List (List Byte)) (st : ExecState) : Prop :=
  ∀ resolved data info, loadProgram files st.mem.debug st.proc path = .ok (resolved, data, info) →
    succeeds (replaceImage sel info data) st = true →
    totalSize resolved argv envp ≤ maxStackBytes

end PandaOS.Kernel
