import PandaOS.Kernel.Syscall

/-!
# Runs of the machine

A run alternates user code and the kernel. User code may change the rest of
the machine in any way, is interrupted by timer ticks and enters the kernel
with a system call. A run is observed through two kinds of events: the value
`handle_syscall` computed for a call, and the value of `rax` a process sees
when it is back in user mode.
-/

namespace PandaOS.Kernel

/-- What happens next in user mode. -/
inductive Input (κ : Type)
  /-- `timer_tick_handler`. -/
  | tick
  /-- User code (and the page faults it takes) changes the rest of the machine. -/
  | user (f : κ → κ)
  /-- A `syscall` instruction with these registers. -/
  | syscall (regs : UserRegs)

/-- What a run shows. -/
inductive Event
  /-- `handle_syscall` was called; `value` is what it returned, if it did, and
  `preempted` says that the processor was then handed on by the scheduler. -/
  | called (pid : Pid) (number : Word) (value : Option Word) (preempted : Bool)
  /-- User code of `pid` goes on with this `rax`. -/
  | resumed (pid : Pid) (rax : Word)
  deriving DecidableEq, Repr

section

variable {κ : Type} (sub : Subsystems κ)

/-- The value `handle_syscall` computes for a call, if it returns. -/
def computed (m : Machine κ) (r : UserRegs) : Option Word :=
  match enterAndHandle sub r m with
  | .ok v _ => some v
  | .error _ _ => none

/-- One step of the machine; `none` if it halts. -/
def step (m : Machine κ) : Input κ → Option (Machine κ × List Event)
  | .tick => some ({ m with needResched := true }, [])
  | .user f => some ({ m with rest := f m.rest }, [])
  | .syscall r =>
    let value := computed sub m r
    match syscallEntry sub r m with
    | .ok _ m' =>
      some (m', [.called m.onCpu r.rax value false, .resumed m'.onCpu m'.regs.rax])
    | .error .toUser m' =>
      some (m', [.called m.onCpu r.rax value value.isSome, .resumed m'.onCpu m'.regs.rax])
    | .error .halt _ => none

/-- The events of a run. -/
def events : Machine κ → List (Input κ) → List Event
  | _, [] => []
  | m, i :: is =>
    match step sub m i with
    | none => []
    | some (m', es) => es ++ events m' is

/-- `P` holds at every step of a run, of the machine before the step and the input. -/
def Along (P : Machine κ → Input κ → Prop) : Machine κ → List (Input κ) → Prop
  | _, [] => True
  | m, i :: is =>
    P m i ∧
      match step sub m i with
      | none => True
      | some (m', _) => Along P m' is

end

/-- The registers `enter_usermode` leaves. -/
def entryRegs (entryPoint stackPtr rflags : Word) : UserRegs :=
  { loadRegs (CpuContext.newUser entryPoint stackPtr 0 0) with
    r11 := 0, rcx := 0, rflags := rflags ||| 0x200 }

/-- The machine after `start_first_process`, with `init` as the only process
added to the scheduler. -/
def boot {κ : Type} (init : Process) (userCs userSs rflags : Word) (rest : κ) :
    Option (Machine κ) := do
  let s ← Scheduler.new.addProcess init
  let s := s.scheduleNext
  let first ← s.current
  let ctx := CpuContext.newUser first.entryPoint first.userStackPtr userCs userSs
  some
    { sched := { s with current := some { first with context := ctx } }
      slot := ctx
      needResched := false
      nextPid := 2
      contextSwitches := 0
      pendingReap := 0
      onCpu := first.pid
      regs := entryRegs first.entryPoint first.userStackPtr rflags
      rest := rest }

/-! ## What a process is to see -/

/-- The calls whose result is not returned to the caller's next instruction. -/
def exempt (number : Word) : Bool :=
  match SyscallNumber.fromU64 number with
  | some .yield | some .exit | some .execve => true
  | _ => false

/-- `f` with the value at `pid` replaced. -/
def setDue (due : Pid → Option Word) (pid : Pid) (v : Option Word) : Pid → Option Word :=
  Function.update due pid v

/-- Every process that resumes after a call sees the value computed for it.
`due` holds the values processes have still to see. -/
def Faithful : (Pid → Option Word) → List Event → Prop
  | _, [] => True
  | due, .called pid number value _ :: es =>
    Faithful (setDue due pid (if exempt number then none else value)) es
  | due, .resumed pid rax :: es =>
    (∀ v, due pid = some v → rax = v) ∧ Faithful (setDue due pid none) es

/-- What processes really see: the computed value, unless the call was
preempted, and then 0. -/
def Explained : (Pid → Option Word) → List Event → Prop
  | _, [] => True
  | due, .called pid number value preempted :: es =>
    Explained (setDue due pid
      (if exempt number then none else if preempted then some 0 else value)) es
  | due, .resumed pid rax :: es =>
    (∀ v, due pid = some v → rax = v) ∧ Explained (setDue due pid none) es

end PandaOS.Kernel
