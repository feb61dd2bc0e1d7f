import PandaOS.Kernel.FdTable
import PandaOS.Kernel.Run
import PandaOS.Lib.Bytes

/-!
# Calls that wait

`sys_read`, `sys_write`, `sys_pipe`, `sys_dup2` and `sys_close` as far as pipes
go, with their handlers of `main.rs`, put over any other handlers: a call on
anything but a pipe end goes to those. `FdTable::get` refuses the descriptors 0,
1 and 2, so a pipe is read and written through the descriptors from 3 on only. A
handler that finds the pipe empty or full calls `yield_handler` and does not
return.

A run is then watched for callers that wait: `Completes` says what such a caller
has to see when it runs user code again.
-/

namespace PandaOS.Kernel

open Lib

/-- User memory as the kernel reads and writes it; `ρ` is what it is part of. -/
structure UserMemory (ρ : Type) where
  load : Word → Nat → ρ → List Byte
  store : Word → List Byte → ρ → ρ
  length_load : ∀ ptr len k, (load ptr len k).length = len

/-- Descriptor tables, pipes and the rest of the kernel. -/
structure PipeKernel (ρ : Type) where
  tables : Pid → FdTable
  pool : PipePool
  rest : ρ

/-- The size of the handlers' buffer on the stack. -/
def tempBufSize : Nat := 4096

section

variable {ρ : Type} (mem : UserMemory ρ)

/-- `copy_user_bytes` into a buffer of `tempBufSize`. -/
def copyUserBytes (ptr : Word) (len : Nat) (k : ρ) : Except ErrorCode (List Byte) :=
  if ptr = 0 then .error .efault
  else if tempBufSize < len then .error .einval
  else .ok (mem.load ptr len k)

/-- The error `copy_to_user_bytes` reports for so many bytes. -/
def copyError (ptr : Word) (len : Nat) : Option ErrorCode :=
  if ptr = 0 then some .efault
  else if len ≠ 0 ∧ 2 ^ 64 ≤ ptr.toNat + len then some .efault
  else none

/-- `FdTable::get`. -/
def FdTable.get? (t : FdTable) (fd : Int) : Option FdKind :=
  if fd < 0 ∨ maxFds ≤ fd then none
  else if fd < firstNonstdFd then none
  else t.entries fd.toNat

/-- An `i32` argument. -/
def i32 (arg : Word) : Int := (arg.setWidth 32).toInt

/-- A handler that returns. -/
def returns (r : SyscallResult) : CallOutcome := ⟨some r, [], id⟩

/-- A handler that calls `yield_handler`. -/
def waits : CallOutcome := ⟨none, [], id⟩

/-- `read_handler` on the read end of a pipe. -/
def readPipe (id : PipeId) (buf : Word) (count : Nat) (k : PipeKernel ρ) :
    CallOutcome × PipeKernel ρ :=
  match (PipePool.read id (List.replicate (min count tempBufSize) 0)).run k.pool with
  | .ok (n, bytes) pool =>
    if n = 0 then (returns (.ok 0), { k with pool := pool })
    else
      match copyError buf n with
      | some e => (returns (.error e), { k with pool := pool })
      | none =>
        (returns (.ok (BitVec.ofNat 64 n)),
          { k with pool := pool, rest := mem.store buf (bytes.take n) k.rest })
  | .error .eagain pool => (waits, { k with pool := pool })
  | .error e pool => (returns (.error e), { k with pool := pool })

/-- `write_handler` on the write end of a pipe. -/
def writePipe (id : PipeId) (buf : Word) (count : Nat) (k : PipeKernel ρ) :
    CallOutcome × PipeKernel ρ :=
  match copyUserBytes mem buf (min count tempBufSize) k.rest with
  | .error e => (returns (.error e), k)
  | .ok data =>
    match (PipePool.write id data).run k.pool with
    | .ok n pool => (returns (.ok (BitVec.ofNat 64 n)), { k with pool := pool })
    | .error .eagain pool => (waits, { k with pool := pool })
    | .error e pool => (returns (.error e), { k with pool := pool })

/-- Run a method of a process's table; what it wrote stays, whatever the outcome. -/
def onTable (pid : Pid) (x : FdM α) (k : PipeKernel ρ) : Except ErrorCode α × PipeKernel ρ :=
  match x.run ⟨k.tables pid, k.pool⟩ with
  | .ok a st => (.ok a, { k with tables := Function.update k.tables pid st.table, pool := st.pool })
  | .error e st =>
    (.error e, { k with tables := Function.update k.tables pid st.table, pool := st.pool })

/-- A handler that runs a method and reports `value` if that succeeds. -/
def tableCall (pid : Pid) (x : FdM Unit) (value : Word) (k : PipeKernel ρ) :
    CallOutcome × PipeKernel ρ :=
  match onTable pid x k with
  | (.ok _, k') => (returns (.ok value), k')
  | (.error e, k') => (returns (.error e), k')

/-- `pipe_handler` and the two descriptors it leaves in user memory. -/
def pipeCall (pid : Pid) (ptr : Word) (k : PipeKernel ρ) : CallOutcome × PipeKernel ρ :=
  let fds := (k.tables pid).freeFds.take 2
  match onTable pid (pipeHandler (copyError ptr 8)) k with
  | (.ok _, k') =>
    (returns (.ok 0),
      { k' with rest := mem.store ptr (fds.flatMap fun fd => fieldBytes 4 fd) k'.rest })
  | (.error e, k') => (returns (.error e), k')

/-- The pipe `sys_read` reads from, if it comes to that. -/
def readTarget (k : PipeKernel ρ) (pid : Pid) (fd : Int) (buf count : Word) : Option PipeId :=
  if count = 0 ∨ buf = 0 then none
  else
    match (k.tables pid).get? fd with
    | some (.pipeRead id) => some id
    | _ => none

/-- The pipe `sys_write` writes to. -/
def writeTarget (k : PipeKernel ρ) (pid : Pid) (fd : Int) : Option PipeId :=
  match (k.tables pid).get? fd with
  | some (.pipeWrite id) => some id
  | _ => none

/-- The handlers `base` with those for pipes in front. -/
def withPipes (base : Subsystems (PipeKernel ρ)) : Subsystems (PipeKernel ρ) :=
  { base with
    call := fun n a current k =>
      match n, current with
      | .read, some p =>
        match readTarget k p.pid (i32 a.arg1) a.arg2 a.arg3 with
        | some id => readPipe mem id a.arg2 a.arg3.toNat k
        | none => base.call n a current k
      | .write, some p =>
        match writeTarget k p.pid (i32 a.arg1) with
        | some id => writePipe mem id a.arg2 a.arg3.toNat k
        | none => base.call n a current k
      | .pipe, some p => pipeCall mem p.pid a.arg1 k
      | .dup2, some p =>
        tableCall p.pid (FdTable.dup2 (i32 a.arg1) (i32 a.arg2)) (BitVec.ofInt 64 (i32 a.arg2)) k
      | .close, some p => tableCall p.pid (FdTable.close (i32 a.arg1)) 0 k
      | _, _ => base.call n a current k }

/-! ## What a waiting caller has to see -/

/-- What a caller waits for. -/
inductive Waiting
  | read (id : PipeId)
  | write (id : PipeId)
  | child
  deriving DecidableEq, Repr

/-- What the running process waits for if its call does not return: a pipe read
or a pipe write with a count that is not zero, or a child. -/
def waitsFor (m : Machine (PipeKernel ρ)) (r : UserRegs) : Option Waiting :=
  match SyscallNumber.fromU64 r.rax with
  | some .read => (readTarget m.rest m.onCpu (i32 r.rdi) r.rsi r.rdx).map .read
  | some .write => if r.rdx = 0 then none else (writeTarget m.rest m.onCpu (i32 r.rdi)).map .write
  | some .wait4 => some .child
  | _ => none

/-- The pipe is empty and has no write end. -/
def PipeKernel.AtEnd (k : PipeKernel ρ) (id : PipeId) : Prop :=
  (k.pool.pipes id).isEmpty = true ∧ (k.pool.pipes id).writeRefcount = 0

/-- A value that reports a finished operation: a positive one (a count or a child's
pid), a negated error code, or 0 for a read at the end of its pipe. -/
def Finished (k : PipeKernel ρ) (rax : Word) (w : Waiting) : Prop :=
  0 < rax.toInt ∨ (∃ e : ErrorCode, rax = e.toSyscallResult) ∨
    (rax = 0 ∧ ∃ id, w = .read id ∧ k.AtEnd id)

/-- The callers that wait once a call has been made. -/
def nowWaiting (sub : Subsystems (PipeKernel ρ)) (m : Machine (PipeKernel ρ)) (r : UserRegs)
    (waiting : Pid → Option Waiting) : Pid → Option Waiting :=
  Function.update waiting m.onCpu (if (computed sub m r).isSome then none else waitsFor m r)

/-- `P` holds whenever a caller that waited runs user code again, of the kernel,
the caller's `rax` and what it waited for. -/
def OnResume (sub : Subsystems (PipeKernel ρ)) (P : PipeKernel ρ → Word → Waiting → Prop) :
    (Pid → Option Waiting) → Machine (PipeKernel ρ) → List (Input (PipeKernel ρ)) → Prop
  | _, _, [] => True
  | waiting, m, .syscall r :: is =>
    match step sub m (.syscall r) with
    | none => True
    | some (m', _) =>
      (∀ w, nowWaiting sub m r waiting m'.onCpu = some w → P m'.rest m'.regs.rax w) ∧
        OnResume sub P (Function.update (nowWaiting sub m r waiting) m'.onCpu none) m' is
  | waiting, m, i :: is =>
    match step sub m i with
    | none => True
    | some (m', _) => OnResume sub P waiting m' is

/-- Calls that could not finish at once complete: their callers see the result of a
finished operation. -/
def Completes (sub : Subsystems (PipeKernel ρ)) (m : Machine (PipeKernel ρ))
    (inputs : List (Input (PipeKernel ρ))) : Prop :=
  OnResume sub Finished (fun _ => none) m inputs

/-- The callers that run again after they waited were all reading from a pipe that
is by then empty and without a write end. -/
def OnlyAtEnd (sub : Subsystems (PipeKernel ρ)) (m : Machine (PipeKernel ρ))
    (inputs : List (Input (PipeKernel ρ))) : Prop :=
  OnResume sub (fun k _ w => ∃ id, w = .read id ∧ k.AtEnd id) (fun _ => none) m inputs

end

end PandaOS.Kernel
