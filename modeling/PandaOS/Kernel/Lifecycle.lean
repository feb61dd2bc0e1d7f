import PandaOS.Kernel.Scheduler
import PandaOS.Lib.TSys

/-!
# The life of child processes

The scheduler's operations as the actions of a transition system, in any
order: processes are added, scheduled, signalled, woken and blocked, they exit,
and parents reap them. Two histories are kept beside the scheduler: the
children that terminated while their parent existed, and the children `waitpid`
reaped. Nothing the code does reads them.
-/

namespace PandaOS.Kernel

/-- The scheduler with the history of terminated and reaped children, both as
pairs of a child and its parent. -/
structure Life where
  sched : Scheduler
  nextPid : Pid
  terminated : List (Pid × Pid)
  reaped : List (Pid × Pid)
  deriving DecidableEq, Repr

namespace Life

def boot : Life := ⟨Scheduler.new, 1, [], []⟩

/-- The operations on the scheduler. -/
inductive Action
  /-- `add_process` as boot and `fork` call it: the identifier is new, and a
  parent has an older one. -/
  | add (p : Process)
  | schedule
  /-- The state changes of `exit_handler`. -/
  | exit (status : Int)
  | signalCurrent (signal : Signal)
  | signalGroup (pgid : Pid) (signal : Signal)
  | wake (child : Pid)
  | blockOnAnyChild
  | blockOnChild (child : Pid)
  /-- The reaping part of `waitpid`: `want` is the child asked for, if one is,
  and `completes` whether the status is written and the address space freed. -/
  | reap (parent : Pid) (want : Option Pid) (completes : Bool)
  deriving DecidableEq, Repr

/-- The parent of `p`, if it is in the scheduler and has not exited. -/
def livingParent (s : Scheduler) (p : Process) : Option Pid :=
  p.parentPid.filter fun parent => s.allProcesses.any fun q => q.pid == parent && !q.isExited

/-- `schedule_next` terminates the current process by SIGINT. -/
def sigintKills (p : Process) : Bool :=
  !p.isExited && p.deliverSignals.1 == .terminate

/-- Note the termination of `p`, if its parent exists. -/
def noteDeath (l : Life) (p : Process) : Life :=
  match livingParent l.sched p with
  | some parent => { l with terminated := l.terminated ++ [(p.pid, parent)] }
  | none => l

def mapCurrent (l : Life) (f : Process → Process) : Life :=
  { l with sched := { l.sched with current := l.sched.current.map f } }

/-- `exit_handler`'s marking of the current process. -/
def markExit (status : Int) (p : Process) : Process :=
  if p.parentPid.isSome then p.setZombie status else p.setExited status

/-- One action; `none` if it cannot happen. -/
def step (l : Life) : Action → Option Life
  | .add p =>
    if l.nextPid ≤ p.pid ∧ p.parentPid.all (· < l.nextPid) then
      (l.sched.addProcess p).map fun s => { l with sched := s, nextPid := p.pid + 1 }
    else none
  | .schedule =>
    let noted := match l.sched.current with
      | some c => if sigintKills c then l.noteDeath c else l
      | none => l
    some { noted with sched := l.sched.scheduleNext }
  | .exit status =>
    match l.sched.current with
    | none => none
    | some c =>
      -- a process that has exited makes no more calls
      if c.isExited then none
      else
        let l := (l.noteDeath c).mapCurrent (markExit status)
        some { l with sched := l.sched.wakeWaitersForChild c.pid }
  | .signalCurrent signal => some (l.mapCurrent (·.sendSignal signal))
  | .signalGroup pgid signal =>
    some { l with sched := (l.sched.signalProcessGroup pgid signal).2 }
  | .wake child => some { l with sched := l.sched.wakeWaitersForChild child }
  | .blockOnAnyChild => some (l.mapCurrent (·.blockOnAnyChild))
  | .blockOnChild child => some (l.mapCurrent (·.blockOnChild child))
  | .reap parent want completes =>
    let (zombie, s) := l.sched.findZombieChild parent
    -- the zombie has left the scheduler, whether or not it is the one asked for
    match zombie.filter fun p => want.all (· = p.pid) with
    | some child =>
      if completes then
        some { l with sched := s, reaped := l.reaped ++ [(child.pid, parent)] }
      else some { l with sched := s }
    | none => some { l with sched := s }

/-- A terminated child is still there as a zombie its parent's `find_zombie_child`
accepts and has not been reaped, or its parent has reaped it, once. -/
def ZombiesKept (l : Life) : Prop :=
  ∀ x ∈ l.terminated,
    (x ∉ l.reaped ∧ ∃ q ∈ l.sched.allProcesses, q.pid = x.1 ∧ Scheduler.isZombieOf x.2 q) ∨
      l.reaped.count x = 1

/-- The actions that lose no child: a schedule while the current process is
not a child of a living parent that has terminated or is about to, and a reap
that finds the child asked for and completes. -/
def LosesNone (l : Life) : Action → Prop
  | .schedule => ∀ c, l.sched.current = some c →
      livingParent l.sched c = none ∨ (c.isExited = false ∧ sigintKills c = false)
  | .reap parent want completes => ∀ q, (l.sched.findZombieChild parent).1 = some q →
      completes = true ∧ want.all (· = q.pid) = true
  | _ => True

/-- Runs from boot whose actions all satisfy `P`. -/
def runs (P : Life → Action → Prop) : Lib.TSys Life where
  init l := l = boot
  step l l' := ∃ a, P l a ∧ l.step a = some l'

end Life

end PandaOS.Kernel
