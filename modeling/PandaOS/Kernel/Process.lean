import Mathlib.Data.BitVec

/-!
# Processes

The process record of `process.rs`, the saved register file of `context.rs`
and the per-process half of signal delivery. Addresses and registers are
64-bit words; process identifiers are natural numbers. The fields of a process
that only its own address space uses (`ProcMem`) are kept apart from the ones
the scheduler reads, so that a handler that may change the former cannot touch
the latter.
-/

namespace PandaOS.Kernel

/-- A machine word (`u64`). -/
abbrev Word := BitVec 64

/-- A byte (`u8`). -/
abbrev Byte := BitVec 8

/-- A process identifier. -/
abbrev Pid := Nat

/-- The saved register file of a process (`CpuContext`). -/
structure CpuContext where
  r15 : Word
  r14 : Word
  r13 : Word
  r12 : Word
  r11 : Word
  r10 : Word
  r9 : Word
  r8 : Word
  rbp : Word
  rdi : Word
  rsi : Word
  rdx : Word
  rcx : Word
  rbx : Word
  rax : Word
  rip : Word
  rsp : Word
  rflags : Word
  cs : Word
  ss : Word
  deriving DecidableEq, Repr

namespace CpuContext

/-- The context a process starts user mode with: general registers cleared,
interrupts enabled. -/
def newUser (entryPoint stackPtr userCs userSs : Word) : CpuContext where
  r15 := 0
  r14 := 0
  r13 := 0
  r12 := 0
  r11 := 0
  r10 := 0
  r9 := 0
  r8 := 0
  rbp := 0
  rdi := 0
  rsi := 0
  rdx := 0
  rcx := 0
  rbx := 0
  rax := 0
  rip := entryPoint
  rsp := stackPtr
  rflags := 0x202
  cs := userCs
  ss := userSs

end CpuContext

/-- The signals the kernel knows (`Signal`). -/
inductive Signal
  | sigint
  | sigcont
  | sigtstp
  deriving DecidableEq, Repr

namespace Signal

/-- The signal's number, its bit in `pending_signals`. -/
def num : Signal → Nat
  | sigint => 2
  | sigcont => 18
  | sigtstp => 20

/-- `Signal::from_u32`. -/
def fromU32 (n : Nat) : Option Signal :=
  match n with
  | 2 => some sigint
  | 18 => some sigcont
  | 20 => some sigtstp
  | _ => none

end Signal

/-- What the scheduler has to do after `deliver_signals`. -/
inductive SignalAction
  | none
  | terminate
  | stop
  | continue
  deriving DecidableEq, Repr

/-- What a blocked process waits for. -/
inductive WaitState
  | notWaiting
  | waitingForAnyChild
  | waitingForChild (pid : Pid)
  deriving DecidableEq, Repr

/-- The life cycle of a process; exit codes are `i32`. -/
inductive ProcessState
  | ready
  | running
  | stopped
  | exited (code : Int)
  | zombie (code : Int)
  deriving DecidableEq, Repr

/-- Heap bookkeeping of a process (`HeapInfo`). -/
structure HeapInfo where
  heapStart : Nat
  heapEnd : Nat
  heapLimit : Nat
  deriving DecidableEq, Repr

/-- One `mmap` mapping (`MemoryMapping`). -/
structure MemoryMapping where
  addr : Nat
  length : Nat
  prot : BitVec 32
  flags : BitVec 32
  deriving DecidableEq, Repr

/-- A tracked region of the address space (`VMRegion`), as far as the page
fault handler reads it. -/
structure VMRegion where
  startAddr : Nat
  endAddr : Nat
  flags : BitVec 32
  deriving DecidableEq, Repr

/-- Kernel stack top, the same virtual address in every address space. -/
def kernelStackTop : Nat := 0xFFFF_FFFF_8000_0000

/-- The fields of `Process` that describe its image and address space. The
physical address of the page table is kept as its frame number. -/
structure ProcMem where
  entryPoint : Word
  userStackPtr : Word
  kernelStackPtr : Word
  pageTablePhys : Nat
  heap : HeapInfo
  mappings : List MemoryMapping
  mmapBase : Nat
  vmRegions : List VMRegion
  deriving DecidableEq, Repr

/-- A process (`Process`). The descriptor table, the credentials and the
environment are not part of this model. -/
structure Process extends ProcMem where
  pid : Pid
  pgid : Pid
  parentPid : Option Pid
  state : ProcessState
  waitState : WaitState
  context : CpuContext
  pendingSignals : BitVec 32
  deriving DecidableEq, Repr

namespace Process

def isExited (p : Process) : Bool :=
  match p.state with
  | .exited _ => true
  | .zombie _ => true
  | _ => false

def isZombie (p : Process) : Bool :=
  match p.state with
  | .zombie _ => true
  | _ => false

def isStopped (p : Process) : Bool :=
  p.state == .stopped

def isBlocked (p : Process) : Bool :=
  p.waitState != .notWaiting

/-- The exit code of a process that has exited. -/
def exitCode (p : Process) : Option Int :=
  match p.state with
  | .exited code => some code
  | .zombie code => some code
  | _ => none

def setExited (p : Process) (code : Int) : Process :=
  { p with state := .exited code }

def setZombie (p : Process) (code : Int) : Process :=
  { p with state := .zombie code }

def setStopped (p : Process) : Process :=
  { p with state := .stopped }

def resume (p : Process) : Process :=
  if p.isStopped then { p with state := .ready } else p

def wake (p : Process) : Process :=
  { p with waitState := .notWaiting }

/-- Store to the saved `rax`, the value the process resumes with. -/
def setRax (p : Process) (v : Word) : Process :=
  { p with context := { p.context with rax := v } }

def blockOnAnyChild (p : Process) : Process :=
  { p with waitState := .waitingForAnyChild }

def blockOnChild (p : Process) (child : Pid) : Process :=
  { p with waitState := .waitingForChild child }

/-- A handler changes the address-space fields. -/
def withMem (p : Process) (mem : ProcMem) : Process :=
  { p with toProcMem := mem }

/-- `execve` changes the image and the registers it starts with. -/
def withImage (p : Process) (mem : ProcMem) (context : CpuContext) : Process :=
  { p with toProcMem := mem, context := context }

/-- The record `fork_from` builds, given the page table of the cloned address
space. -/
def child (p : Process) (childPid : Pid) (pt : Nat) : Process :=
  { p with
    pid := childPid
    pgid := childPid
    parentPid := some p.pid
    state := .ready
    waitState := .notWaiting
    kernelStackPtr := BitVec.ofNat 64 kernelStackTop
    pageTablePhys := pt
    pendingSignals := 0 }

/-- The `pending_signals` mask of one signal. -/
def signalBit (s : Signal) : BitVec 32 := 1#32 <<< s.num

def sendSignal (p : Process) (s : Signal) : Process :=
  { p with pendingSignals := p.pendingSignals ||| signalBit s }

def hasSignal (p : Process) (s : Signal) : Bool :=
  p.pendingSignals &&& signalBit s != 0

def clearSignal (p : Process) (s : Signal) : Process :=
  { p with pendingSignals := p.pendingSignals &&& ~~~(signalBit s) }

/-- `deliver_signals`: one pending signal is consumed, SIGCONT first, then
SIGTSTP, then SIGINT. -/
def deliverSignals (p : Process) : SignalAction × Process :=
  if p.hasSignal .sigcont then
    let p := p.clearSignal .sigcont
    (.continue, if p.isStopped then p.resume else p)
  else if p.hasSignal .sigtstp then
    (.stop, p.clearSignal .sigtstp)
  else if p.hasSignal .sigint then
    (.terminate, p.clearSignal .sigint)
  else
    (.none, p)

def shouldWakeOnChildExit (p : Process) (child : Pid) : Bool :=
  match p.waitState with
  | .waitingForAnyChild => true
  | .waitingForChild pid => pid == child
  | .notWaiting => false

/-- What `wake_waiters_for_child` does to one process. -/
def wakeFor (child : Pid) (p : Process) : Process :=
  if p.shouldWakeOnChildExit child then p.wake else p

/-! ## Fields each operation leaves alone -/

section

variable (child : Pid) (p : Process)

@[simp] theorem wakeFor_pid : (p.wakeFor child).pid = p.pid := by
  unfold wakeFor; split <;> rfl

@[simp] theorem wakeFor_parentPid : (p.wakeFor child).parentPid = p.parentPid := by
  unfold wakeFor; split <;> rfl

@[simp] theorem wakeFor_state : (p.wakeFor child).state = p.state := by
  unfold wakeFor; split <;> rfl

@[simp] theorem wakeFor_pendingSignals : (p.wakeFor child).pendingSignals = p.pendingSignals := by
  unfold wakeFor; split <;> rfl

@[simp] theorem wakeFor_isExited : (p.wakeFor child).isExited = p.isExited := by
  simp [isExited]

end

/-- Delivering signals consumes a mask bit and may resume a stopped process;
everything else stays. -/
theorem deliverSignals_frame (p : Process) : ∃ state pending, p.deliverSignals.2 =
      { p with state := state, pendingSignals := pending } := by
  unfold deliverSignals
  split
  · cases h : (p.clearSignal .sigcont).isStopped with
    | true =>
      refine ⟨.ready, (p.clearSignal .sigcont).pendingSignals, ?_⟩
      simp only [h, if_true, resume]
      rfl
    | false =>
      refine ⟨p.state, (p.clearSignal .sigcont).pendingSignals, ?_⟩
      simp only [h, Bool.false_eq_true, if_false]
      rfl
  · split
    · exact ⟨p.state, _, rfl⟩
    · split
      · exact ⟨p.state, _, rfl⟩
      · exact ⟨p.state, p.pendingSignals, rfl⟩

end Process

end PandaOS.Kernel
