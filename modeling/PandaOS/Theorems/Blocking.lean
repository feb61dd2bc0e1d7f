import PandaOS.Kernel.Blocking
import PandaOS.Theorems.SyscallReturn

/-!
# Calls that wait do not complete

A pipe read, a pipe write or a `waitpid` that cannot finish at once goes through
the handler of the yield call. That handler stores 0 for the caller and gives the
processor away for good: nobody comes back to the waiting handler, so the caller
goes on with 0, whatever has happened meanwhile. This is the result of a finished
operation only for a read, and only if its pipe is by then empty and has no write
end.
-/

namespace PandaOS.Kernel

open Lib

section

variable {ρ : Type} {sub : Subsystems (PipeKernel ρ)} {due : Pid → Option Word}
  {waiting : Pid → Option Waiting} {m : Machine (PipeKernel ρ)} {r : UserRegs}

/-! ## What is due to a waiting caller -/

/-- 0 is due to every caller that waits. -/
def ZeroDue (due : Pid → Option Word) (waiting : Pid → Option Waiting) : Prop :=
  ∀ pid w, waiting pid = some w → due pid = some 0

theorem ZeroDue.update (h : ZeroDue due waiting) (pid : Pid) {v : Option Word} {w : Option Waiting}
    (hv : w ≠ none → v = some 0) : ZeroDue (setDue due pid v) (Function.update waiting pid w) := by
  intro p x hx
  by_cases hp : p = pid
  · subst hp
    rw [Function.update_self] at hx
    rw [setDue_self]
    exact hv (by simp [hx])
  · rw [Function.update_of_ne hp] at hx
    rw [setDue, Function.update_of_ne hp]
    exact h p x hx

/-- Only a `read`, a `write` or a `waitpid` makes its caller wait. -/
theorem mayWait_of_waitsFor (h : waitsFor m r ≠ none) : mayWait r.rax = true := by
  unfold waitsFor at h
  unfold mayWait
  split at h <;> simp_all

/-- One call: the process that goes on sees what it is due, and 0 is due to every
caller that waits, the new one included. -/
theorem step_waiting {m' : Machine (PipeKernel ρ)} {es : List Event} (h : Inv due m)
    (hdue : due m.onCpu = none) (hzero : ZeroDue due waiting)
    (hstep : step sub m (.syscall r) = some (m', es)) :
    ∃ due', Seen due' m' ∧ ZeroDue due' (nowWaiting sub m r waiting) := by
  by_cases hwaits : computed sub m r = none ∧ waitsFor m r ≠ none
  · -- the call did not return: its handler has gone through `yield_handler`
    obtain ⟨hnone, hfor⟩ := hwaits
    have hserve : Serving due m.onCpu m.needResched m := ⟨h, rfl, rfl, hdue⟩
    cases hent : enterAndHandle sub r m with
    | ok v m1 => simp [computed, hent] at hnone
    | error e m1 =>
      simp only [step, syscallEntry_error hent] at hstep
      cases e with
      | halt => cases hstep
      | toUser =>
        cases hstep
        have hres := enterAndHandle_waits sub hserve (mayWait_of_waitsFor hfor) hent
        exact ⟨_, hres.seen, hzero.update m.onCpu fun _ => rfl⟩
  · obtain ⟨value, preempted, -, -, hseen⟩ := step_syscall sub h hdue hstep
    refine ⟨_, hseen, hzero.update m.onCpu fun hw => absurd ?_ hwaits⟩
    cases hc : computed sub m r with
    | none => exact ⟨rfl, by simpa [hc] using hw⟩
    | some v => simp [hc] at hw

/-- Conditions on resumption that agree where `rax` is 0 hold of the same runs. -/
theorem onResume_congr {P Q : PipeKernel ρ → Word → Waiting → Prop}
    (hPQ : ∀ k w, P k 0 w ↔ Q k 0 w) (inputs : List (Input (PipeKernel ρ))) :
    ∀ (due : Pid → Option Word) (waiting : Pid → Option Waiting) (m : Machine (PipeKernel ρ)),
      Inv due m → due m.onCpu = none → ZeroDue due waiting →
      (OnResume sub P waiting m inputs ↔ OnResume sub Q waiting m inputs) := by
  induction inputs with
  | nil => intro due waiting m _ _ _; exact .rfl
  | cons i rest ih =>
    intro due waiting m hinv hdue hzero
    cases i with
    | tick => exact ih due waiting _ (hinv.congr rfl rfl rfl) hdue hzero
    | user f => exact ih due waiting _ (hinv.congr rfl rfl rfl) hdue hzero
    | syscall r =>
      unfold OnResume
      cases hstep : step sub m (.syscall r) with
      | none => exact .rfl
      | some out =>
        obtain ⟨m', es⟩ := out
        obtain ⟨due', hseen, hzero'⟩ := step_waiting hinv hdue hzero hstep
        have hrest := ih _ (Function.update (nowWaiting sub m r waiting) m'.onCpu none) m' hseen.2
          (setDue_self _ _ _) (hzero'.update m'.onCpu fun h => absurd rfl h)
        refine and_congr (forall₂_congr fun w hw => ?_) hrest
        rw [hseen.1 0 (hzero' _ w hw)]
        exact hPQ _ w

theorem toSyscallResult_ne_zero (e : ErrorCode) : e.toSyscallResult ≠ 0 := by
  cases e <;> decide

/-- 0 reports a finished operation only for a read at the end of its pipe. -/
theorem finished_zero (k : PipeKernel ρ) (w : Waiting) :
    Finished k 0 w ↔ ∃ id, w = .read id ∧ k.AtEnd id := by
  constructor
  · rintro (hpos | ⟨e, he⟩ | ⟨-, hread⟩)
    · exact absurd hpos (by decide)
    · exact absurd he.symm (toSyscallResult_ne_zero e)
    · exact hread
  · intro hread
    exact .inr (.inr ⟨rfl, hread⟩)

end

/-! ## Whole runs -/

/-- **Calls that wait.** In a run from boot, the calls that could not finish at once
complete if and only if those whose callers run again are reads from pipes that are
by then empty and without a write end. -/
theorem blocking_completes_iff {ρ : Type} (mem : UserMemory ρ) (base : Subsystems (PipeKernel ρ))
    {init : Process} {userCs userSs rflags : Word} {rest : PipeKernel ρ}
    {m : Machine (PipeKernel ρ)} (hpid : init.pid = 1)
    (hboot : boot init userCs userSs rflags rest = some m)
    (inputs : List (Input (PipeKernel ρ))) :
    Completes (withPipes mem base) m inputs ↔ OnlyAtEnd (withPipes mem base) m inputs :=
  onResume_congr finished_zero inputs _ _ m (boot_inv hpid hboot) rfl (by intro pid w hw; cases hw)

/-! ## Reads that wait -/

/-- User memory that keeps nothing. -/
def noMemory : UserMemory Unit where
  load _ len _ := List.replicate len 0
  store _ _ k := k
  length_load _ len _ := by simp

/-- The handlers for pipes and `fork`, which copies the descriptors to the first child.
Every other call is refused. -/
def pipesOnly : Subsystems (PipeKernel Unit) :=
  withPipes noMemory
    { debug := false
      call := fun _ _ _ k => (returns (.error .enosys), k)
      execArgs := fun _ _ => some .efault
      exec := fun _ p k => (⟨some .enoent, p.toProcMem, p.context⟩, k)
      forkSpace := fun p k =>
        match (k.tables p.pid).forkCopy.run k.pool with
        | .ok t pool => (some 0, { k with tables := Function.update k.tables 2 t, pool := pool })
        | .error _ pool => (none, { k with pool := pool })
      copyToUser := fun _ _ k => (some .efault, k)
      freeSpace := fun _ k => (true, k) }

def noPipes : PipeKernel Unit := ⟨fun _ => FdTable.new, PipePool.new, ()⟩

/-- A system call of three arguments. -/
def callWith (number arg1 arg2 arg3 : Word) : Input (PipeKernel Unit) :=
  .syscall { entryRegs 0x400000 0x7FFF_0000 2 with
    rax := number, rdi := arg1, rsi := arg2, rdx := arg3 }

/-- `pipe`, and a read of one byte from it. -/
def readOwnPipe : List (Input (PipeKernel Unit)) :=
  [callWith 22 0x600000 0 0, callWith 0 3 0x600000 1]

/-- `pipe`, `fork`, and the parent closes the write end and reads; the child closes its own
and exits. -/
def readToTheEnd : List (Input (PipeKernel Unit)) :=
  [callWith 22 0x600000 0 0, callWith 57 0 0 0, callWith 3 4 0 0, callWith 0 3 0x600000 1,
    callWith 3 4 0 0, callWith 60 0 0 0]

theorem none_waits {P : Waiting → Prop} {w : Option Waiting} (h : w = none) :
    ∀ x, w = some x → P x := by
  intro x hx
  rw [h] at hx
  cases hx

/-- The read waits, and returns 0 when the pipe has no write end any more. -/
theorem blocking_completes_at_end : ∃ m, boot plainInit 0x33 0x2B 2 noPipes = some m ∧
      .called 1 0 none false ∈ events pipesOnly m readToTheEnd ∧
        Completes pipesOnly m readToTheEnd := by
  refine ⟨_, rfl, by decide +kernel, ?_⟩
  refine (@blocking_completes_iff Unit noMemory _ plainInit 0x33 0x2B 2 noPipes _ rfl rfl
    readToTheEnd).mpr ?_
  -- the parent runs again after the child's exit, which is the last call
  refine ⟨none_waits (by decide +kernel), none_waits (by decide +kernel),
    none_waits (by decide +kernel), none_waits (by decide +kernel), none_waits (by decide +kernel),
    fun w hw => ?_, trivial⟩
  have hread : some w = some (.read 0) := hw.symm.trans (by decide +kernel)
  exact ⟨0, Option.some.inj hread, by decide +kernel, by decide +kernel⟩

/-- The only process reads from a pipe whose write end it holds itself. Nobody can
have written, and the read has not ended either: it waits, and returns 0. -/
theorem read_own_pipe_returns_zero : ∃ m, boot plainInit 0x33 0x2B 2 noPipes = some m ∧
      events pipesOnly m readOwnPipe =
        [.called 1 22 (some 0) false, .resumed 1 0, .called 1 0 none false, .resumed 1 0] ∧
      ¬ Completes pipesOnly m readOwnPipe := by
  refine ⟨_, rfl, by decide +kernel, ?_⟩
  intro hcompletes
  have hfinished := hcompletes.2.1 (.read 0) (by decide +kernel)
  obtain ⟨id, hid, -, hends⟩ := (finished_zero _ _).mp hfinished
  cases hid
  exact absurd hends (by decide +kernel)

end PandaOS.Kernel
