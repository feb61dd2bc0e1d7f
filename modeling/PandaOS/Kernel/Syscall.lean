import PandaOS.Kernel.Scheduler

/-!
# System calls, preemption and the way back to user mode

The path a system call takes through `usermode.rs`, `syscall.rs` and the
handlers of `main.rs` that touch the scheduler. `syscall_entry` saves the
user's registers in the context of the `current` slot, the dispatcher computes
a result, `check_and_handle_preemption` may switch to another process, and
only if it does not is the result stored in the context and loaded into `rax`.

Kernel code runs with interrupts off, so the only thing a timer tick does is
set `NEED_RESCHED` while user code runs. Code that never returns to its caller
(`switch_to_user`, `exit_handler`) ends the computation with `Stop`.

The file system, memory and network handlers neither switch processes nor
touch the scheduler's fields: they are a parameter (`Subsystems`) that reads
the calling process and the rest of the kernel `κ`.
-/

namespace PandaOS.Kernel

/-- Error codes (`ErrorCode`). -/
inductive ErrorCode
  | eperm | enoent | esrch | eintr | eio | ebadf | eagain | enomem | eacces | efault
  | eexist | enotdir | eisdir | einval | emfile | erofs | enoexec | e2big | epipe | erange
  | enosys | enotempty | espipe | exdev
  deriving DecidableEq, Repr

namespace ErrorCode

def num : ErrorCode → Nat
  | eperm => 1
  | enoent => 2
  | esrch => 3
  | eintr => 4
  | eio => 5
  | ebadf => 9
  | eagain => 11
  | enomem => 12
  | eacces => 13
  | efault => 14
  | eexist => 17
  | enotdir => 20
  | eisdir => 21
  | einval => 22
  | emfile => 24
  | erofs => 30
  | enoexec => 8
  | e2big => 7
  | epipe => 32
  | erange => 34
  | enosys => 38
  | enotempty => 39
  | espipe => 29
  | exdev => 18

/-- `to_syscall_result`: the negated code as a 64-bit word. -/
def toSyscallResult (e : ErrorCode) : Word := -(BitVec.ofNat 64 e.num)

end ErrorCode

/-- `SyscallResult`. -/
abbrev SyscallResult := Except ErrorCode Word

/-- System call numbers (`SyscallNumber`). -/
inductive SyscallNumber
  | read | write | open | close | stat | fstat | lseek | mmap | mprotect | munmap | brk
  | pipe | yield | dup | dup2 | kill | getpid | fork | execve | exit | wait4 | getenv
  | getcwd | chdir | rename | mkdir | rmdir | unlink | chmod | chown | getuid | getgid
  | setuid | setgid | setpgid | getdents64 | socket | sendto | recvfrom
  deriving DecidableEq, Repr

namespace SyscallNumber

def fromU64 (n : Word) : Option SyscallNumber :=
  match n.toNat with
  | 0 => some read
  | 1 => some write
  | 2 => some .open
  | 3 => some close
  | 4 => some stat
  | 5 => some fstat
  | 8 => some lseek
  | 9 => some mmap
  | 10 => some mprotect
  | 11 => some munmap
  | 12 => some brk
  | 22 => some pipe
  | 24 => some yield
  | 32 => some dup
  | 33 => some dup2
  | 37 => some kill
  | 39 => some getpid
  | 57 => some fork
  | 59 => some execve
  | 60 => some exit
  | 61 => some wait4
  | 79 => some getcwd
  | 80 => some chdir
  | 82 => some rename
  | 83 => some mkdir
  | 84 => some rmdir
  | 87 => some unlink
  | 90 => some chmod
  | 92 => some chown
  | 102 => some getuid
  | 104 => some getgid
  | 105 => some setuid
  | 106 => some setgid
  | 109 => some setpgid
  | 217 => some getdents64
  | 63 => some getenv
  | 41 => some socket
  | 44 => some sendto
  | 45 => some recvfrom
  | _ => none

end SyscallNumber

/-- The registers user code sees. -/
structure UserRegs where
  r15 : Word
  r14 : Word
  r13 : Word
  r12 : Word
  r11 : Word
  r10 : Word
  r9 : Word
  r8 : Word
  rbp : Word
  rdi : Word
  rsi : Word
  rdx : Word
  rcx : Word
  rbx : Word
  rax : Word
  rip : Word
  rsp : Word
  rflags : Word
  deriving DecidableEq, Repr

/-- The stores of `syscall_entry`. The `syscall` instruction has put the user's
`rip` and `rflags` into `rcx` and `r11`. -/
def saveRegs (ctx : CpuContext) (r : UserRegs) : CpuContext :=
  { ctx with
    r15 := r.r15, r14 := r.r14, r13 := r.r13, r12 := r.r12, r11 := r.rflags, r10 := r.r10
    r9 := r.r9, r8 := r.r8, rbp := r.rbp, rdi := r.rdi, rsi := r.rsi, rdx := r.rdx
    rcx := r.rip, rbx := r.rbx, rax := r.rax, rip := r.rip, rsp := r.rsp, rflags := r.rflags }

/-- The loads before `sysretq`, the same in `syscall_entry` and `switch_to_user`. -/
def loadRegs (ctx : CpuContext) : UserRegs where
  r15 := ctx.r15
  r14 := ctx.r14
  r13 := ctx.r13
  r12 := ctx.r12
  r11 := ctx.rflags
  r10 := ctx.r10
  r9 := ctx.r9
  r8 := ctx.r8
  rbp := ctx.rbp
  rdi := ctx.rdi
  rsi := ctx.rsi
  rdx := ctx.rdx
  rcx := ctx.rip
  rbx := ctx.rbx
  rax := ctx.rax
  rip := ctx.rip
  rsp := ctx.rsp
  rflags := ctx.rflags

/-- The six argument registers. -/
structure Args where
  arg1 : Word
  arg2 : Word
  arg3 : Word
  arg4 : Word
  arg5 : Word
  arg6 : Word
  deriving DecidableEq, Repr

/-- What a file system, memory or network handler does. -/
structure CallOutcome where
  /-- The result, or `none` when the handler waits by calling `yield_handler`
  (a pipe that is empty or full). -/
  result : Option SyscallResult
  /-- Signals the terminal sent to the foreground group while the call waited
  for input. -/
  tty : List Signal
  /-- What the call leaves of the caller's address-space fields. -/
  mem : ProcMem → ProcMem

/-- What `execve_handler` leaves of the calling process; with an error code it
returns, without one it switches to the new image. -/
structure ExecOutcome where
  error : Option ErrorCode
  mem : ProcMem
  context : CpuContext

/-- The handlers that live outside the scheduler. `κ` is the rest of the kernel. -/
structure Subsystems (κ : Type) where
  /-- A debug build, where integer overflow panics. -/
  debug : Bool
  call : SyscallNumber → Args → Option Process → κ → CallOutcome × κ
  /-- Copying the path and the argument vectors of `execve` out of user memory. -/
  execArgs : Args → κ → Option ErrorCode
  exec : Args → Process → κ → ExecOutcome × κ
  /-- The address-space half of `fork_from`: the child's page table. -/
  forkSpace : Process → κ → Option Nat × κ
  copyToUser : Word → BitVec 32 → κ → Option ErrorCode × κ
  /-- `free_process_address_space(pt, true)`; `false` is an error. -/
  freeSpace : Nat → κ → Bool × κ

/-- The kernel and the processor it runs on. -/
structure Machine (κ : Type) where
  sched : Scheduler
  /-- The bytes of the `current` slot's context while the slot is empty;
  `CURRENT_CONTEXT_PTR` keeps pointing at them. -/
  slot : CpuContext
  needResched : Bool
  nextPid : Pid
  contextSwitches : Nat
  /-- `PENDING_REAP_PT`; 0 when nothing is to be reaped. -/
  pendingReap : Nat
  /-- The process whose user code is on the processor, and its registers. -/
  onCpu : Pid
  regs : UserRegs
  rest : κ

/-- Why kernel code does not return to its caller. -/
inductive Stop
  /-- The processor is back in user mode. -/
  | toUser
  /-- A panic, or the machine is switched off. -/
  | halt
  deriving DecidableEq, Repr

abbrev KernelM (κ : Type) := EStateM Stop (Machine κ)

namespace Machine

variable {κ : Type}

/-- The context `CURRENT_CONTEXT_PTR` points at. -/
def ctx (m : Machine κ) : CpuContext :=
  match m.sched.current with
  | some c => c.context
  | none => m.slot

/-- Replace the scheduler; a slot that becomes empty keeps its bytes. -/
def withSched (m : Machine κ) (s : Scheduler) : Machine κ :=
  { m with sched := s, slot := m.ctx }

/-- Store through `CURRENT_CONTEXT_PTR`. -/
def setCtx (m : Machine κ) (c : CpuContext) : Machine κ :=
  { m with
    slot := c
    sched := { m.sched with current := m.sched.current.map fun p => { p with context := c } } }

/-- The processor runs `next` with the registers saved for it. -/
def resume (m : Machine κ) (next : Process) : Machine κ :=
  { m with onCpu := next.pid, regs := loadRegs next.context }

/-- Apply `f` to the current process. -/
def mapCurrent (m : Machine κ) (f : Process → Process) : Machine κ :=
  { m with sched := { m.sched with current := m.sched.current.map f } }

end Machine

open Machine

section

variable {κ : Type} (sub : Subsystems κ)

def lift (f : κ → α × κ) : KernelM κ α := fun m =>
  let (a, k) := f m.rest
  .ok a { m with rest := k }

/-- `switch_to_user`: load the registers of the (new) current process. -/
def switchToUser (next : Process) : KernelM κ α := do
  modify (·.resume next)
  throw .toUser

/-- `yield_handler`. It returns only if no process can run. -/
def yieldHandler : KernelM κ Unit := do
  -- the current process is to see 0 as the result of yield()
  modify fun m => m.mapCurrent (·.setRax 0)
  modify fun m => m.withSched m.sched.scheduleNext
  match (← get).sched.current with
  | some next =>
    modify fun m => { m with contextSwitches := m.contextSwitches + 1 }
    switchToUser next
  | none => pure ()

/-- `reap_pending`; an error is a failed `expect`. -/
def reapPending : KernelM κ Unit := do
  let pt := (← get).pendingReap
  modify fun m => { m with pendingReap := 0 }
  if pt = 0 then pure ()
  else if ← lift (sub.freeSpace pt) then pure ()
  else throw .halt

/-- The state changes of `exit_handler`: a process with a parent becomes a
zombie, any other is marked exited and queued for reaping; waiters are woken. -/
def exitChanges (status : Int) (m : Machine κ) : Machine κ :=
  match m.sched.current with
  | none => m
  | some c =>
    let m := m.mapCurrent fun p =>
      if p.parentPid.isSome then p.setZombie status else p.setExited status
    let m := m.withSched (m.sched.wakeWaitersForChild c.pid)
    if c.parentPid.isSome then m else { m with pendingReap := c.pageTablePhys }

/-- `exit_handler`. -/
def exitHandler (status : Int) : KernelM κ α := do
  let hasParent := (← get).sched.current.any (·.parentPid.isSome)
  modify (exitChanges status)
  modify fun m => m.withSched m.sched.scheduleNext
  match (← get).sched.current with
  | some next =>
    if hasParent then switchToUser next
    else do
      reapPending sub
      switchToUser next
  | none => throw .halt

/-- `fork_handler`. The identifier is used up even if the fork fails. -/
def forkHandler : KernelM κ SyscallResult := do
  match (← get).sched.current with
  | none => pure (.error .esrch)
  | some current =>
    let childPid := (← get).nextPid
    modify fun m => { m with nextPid := m.nextPid + 1 }
    match ← lift (sub.forkSpace current) with
    | none => pure (.error .enomem)
    | some pt =>
      let child := (current.child childPid pt).setRax 0
      let ret : Word := BitVec.ofNat 64 childPid
      modify fun m => m.mapCurrent (·.setRax ret)
      match (← get).sched.addProcess child with
      | none => throw .halt
      | some s =>
        modify fun m => { m with sched := s }
        pure (.ok ret)

/-- `copy_to_user_bytes` of a status word, skipped for a null pointer. -/
def writeStatus (statusPtr : Word) (status : BitVec 32) : KernelM κ (Option ErrorCode) :=
  if statusPtr = 0 then pure none else lift (sub.copyToUser statusPtr status)

/-- Report and reap a zombie `waitpid` has taken out of the scheduler. -/
def reapChild (child : Process) (statusPtr : Word) : KernelM κ SyscallResult := do
  match ← writeStatus sub statusPtr (BitVec.ofInt 32 (child.exitCode.getD 0) <<< 8) with
  | some e => pure (.error e)
  | none =>
    if ← lift (sub.freeSpace child.pageTablePhys) then pure (.ok (BitVec.ofNat 64 child.pid))
    else pure (.error .eio)

/-- Report a stopped child: `SIGTSTP` above the stop marker `0x7f`. -/
def reportStopped (stopped : Pid) (statusPtr : Word) : KernelM κ SyscallResult := do
  match ← writeStatus sub statusPtr 0x147f with
  | some e => pure (.error e)
  | none => pure (.ok (BitVec.ofNat 64 stopped))

/-- The search `waitpid_handler` makes before it blocks and again after; `none`
when there is no child to report. -/
def waitpidScan (pid statusPtr : Word) (wuntraced : Bool) (parentPid : Pid) :
    KernelM κ (Option SyscallResult) := do
  let sched := (← get).sched
  match if wuntraced then sched.findStoppedChild parentPid else none with
  | some stopped => return some (← reportStopped sub stopped statusPtr)
  | none =>
    if pid = -1 then
      let (zombie, s) := sched.findAnyZombieChild parentPid
      modify fun m => m.withSched s
      match zombie with
      | some child => return some (← reapChild sub child statusPtr)
      | none => return none
    else if 0 < pid.toInt then
      -- the first zombie child is taken out before its pid is compared
      let (zombie, s) := sched.findZombieChild parentPid
      modify fun m => m.withSched s
      match zombie.filter (·.pid = pid.toNat) with
      | some child => return some (← reapChild sub child statusPtr)
      | none => return none
    else return some (.error .einval)

/-- The part of `waitpid_handler` after a search that has found nothing. -/
def waitForChild (pid statusPtr : Word) (wuntraced : Bool) (parentPid : Pid) :
    KernelM κ SyscallResult := do
  if (← get).sched.hasChildren parentPid then
    match (← get).sched.current with
    | none => return .error .esrch
    | some _ =>
      modify fun m => m.mapCurrent fun p =>
        if pid = -1 then p.blockOnAnyChild else p.blockOnChild pid.toNat
      yieldHandler
      match (← get).sched.current with
      | none => return .error .esrch
      | some parent =>
        match ← waitpidScan sub pid statusPtr wuntraced parent.pid with
        | some r => return r
        | none => return .error .eintr
  else return .error .esrch

/-- `waitpid_handler`. -/
def waitpidHandler (pid statusPtr : Word) (options : BitVec 32) : KernelM κ SyscallResult := do
  let wuntraced := options &&& 2 != 0
  if options ≠ 0 ∧ options ≠ 2 then return .error .einval
  match (← get).sched.current with
  | none => return .error .esrch
  | some parent =>
    match ← waitpidScan sub pid statusPtr wuntraced parent.pid with
    | some r => return r
    | none => waitForChild sub pid statusPtr wuntraced parent.pid

/-- `kill_handler`. A single process can be signalled only if it is the caller. -/
def killHandler (pid sig : BitVec 32) : KernelM κ SyscallResult := do
  match Signal.fromU32 sig.toNat with
  | none => return .error .einval
  | some signal =>
    if 0 < pid.toInt then
      if (← get).sched.current.any (·.pid = pid.toNat) then
        modify fun m => m.mapCurrent (·.sendSignal signal)
        return .ok 0
      else return .error .esrch
    else if pid.toInt < 0 then
      -- negating the least i32 overflows
      if sub.debug ∧ pid = BitVec.intMin 32 then throw .halt
      else
        let (count, s) :=
          (← get).sched.signalProcessGroup ((-pid).signExtend 64).toNat signal
        modify fun m => { m with sched := s }
        if 0 < count then return .ok 0 else return .error .esrch
    else return .error .einval

/-- `signal_handler` and `stop_signal_handler`: the terminal signals the
foreground group. -/
def ttySignal (signal : Signal) (m : Machine κ) : Machine κ :=
  match m.sched.foregroundPgid with
  | some pgid => { m with sched := (m.sched.signalProcessGroup pgid signal).2 }
  | none => m

/-- `setpgid_handler`, for the caller only. -/
def setpgidHandler (pid pgid : BitVec 32) : KernelM κ SyscallResult := do
  match (← get).sched.current with
  | none => return .error .esrch
  | some current =>
    let target := if pid = 0 then current.pid else (pid.signExtend 64).toNat
    let newPgid := if pgid = 0 then target else (pgid.signExtend 64).toNat
    if current.pid ≠ target then return .error .esrch
    modify fun m => m.mapCurrent fun p => { p with pgid := newPgid }
    return .ok 0

/-- `getpid_handler`. -/
def getpidHandler : KernelM κ SyscallResult := do
  match (← get).sched.current with
  | none => return .error .esrch
  | some current => return .ok (BitVec.ofNat 64 current.pid)

/-- `sys_yield` always reports success. -/
def sysYield : KernelM κ SyscallResult := do
  yieldHandler
  return .ok 0

/-- `sys_execve` and `execve_handler`; the new image starts in place. -/
def sysExecve (args : Args) : KernelM κ SyscallResult := do
  match sub.execArgs args (← get).rest with
  | some e => return .error e
  | none =>
    match (← get).sched.current with
    | none => return .error .esrch
    | some current =>
      let out ← lift (sub.exec args current)
      modify fun m => m.mapCurrent (·.withImage out.mem out.context)
      match out.error with
      | some e => return .error e
      | none => switchToUser (current.withImage out.mem out.context)

/-- The handlers outside the scheduler. Waiting on a pipe is a yield that is
assumed not to return (`unreachable!`). -/
def sysCall (n : SyscallNumber) (args : Args) : KernelM κ SyscallResult := do
  let current := (← get).sched.current
  let out ← lift (sub.call n args current)
  modify fun m => m.mapCurrent fun p => p.withMem (out.mem p.toProcMem)
  modify fun m => out.tty.foldl (fun m s => ttySignal s m) m
  match out.result with
  | some r => return r
  | none =>
    yieldHandler
    throw .halt

/-- The `match` of `handle_syscall` on the decoded number. -/
def dispatch (n : SyscallNumber) (a : Args) : KernelM κ SyscallResult :=
  match n with
  | .exit => exitHandler sub (a.arg1.setWidth 32).toInt
  | .getpid => getpidHandler
  | .yield => sysYield
  | .execve => sysExecve sub a
  | .fork => forkHandler sub
  | .wait4 => waitpidHandler sub a.arg1 a.arg2 (a.arg3.setWidth 32)
  | .kill => killHandler sub (a.arg1.setWidth 32) (a.arg2.setWidth 32)
  | .setpgid => setpgidHandler (a.arg1.setWidth 32) (a.arg2.setWidth 32)
  | .mprotect => pure (.error .enosys)
  | .munmap => pure (.error .enosys)
  | .dup => pure (.error .enosys)
  | n => sysCall sub n a

/-- The word `handle_syscall` makes of a result. -/
def resultWord : SyscallResult → Word
  | .ok val => val
  | .error err => err.toSyscallResult

/-- `handle_syscall`. -/
def handleSyscall (number : Word) (a : Args) : KernelM κ Word :=
  match SyscallNumber.fromU64 number with
  | none => pure ErrorCode.enosys.toSyscallResult
  | some n => do return resultWord (← dispatch sub n a)

/-- `check_and_handle_preemption`. It reuses the handler of the yield call. -/
def checkAndHandlePreemption : KernelM κ Unit := do
  if (← get).needResched then
    modify fun m => { m with needResched := false }
    yieldHandler

/-- The arguments `syscall_handler_rust` reads from the saved context. -/
def ctxArgs (c : CpuContext) : Args := ⟨c.rdi, c.rsi, c.rdx, c.r10, c.r8, c.r9⟩

/-- Entry up to the value `handle_syscall` computes. -/
def enterAndHandle (r : UserRegs) : KernelM κ Word := do
  modify fun m => m.setCtx (saveRegs m.ctx r)
  let c := (← get).ctx
  handleSyscall sub c.rax (ctxArgs c)

/-- The tail of `syscall_entry`: store the result and return through `sysretq`.
The page table has not changed, so the same process goes on. -/
def returnToUser (result : Word) : KernelM κ Unit :=
  modify fun m =>
    let m := m.setCtx { m.ctx with rax := result }
    { m with regs := loadRegs m.ctx }

/-- `syscall_entry` with `syscall_handler_rust`. -/
def syscallEntry (r : UserRegs) : KernelM κ Unit := do
  let result ← enterAndHandle sub r
  checkAndHandlePreemption
  returnToUser result

end

end PandaOS.Kernel
