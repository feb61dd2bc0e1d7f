import PandaOS.Lib.Run
import PandaOS.Logic.Resume

/-!
# The value a system call returns

A process that resumes after a system call should see in `rax` the value
`handle_syscall` computed. The kernel keeps this as long as no timer tick is
pending when the call is made. Otherwise `check_and_handle_preemption` goes
through the handler of the yield call, which clears the saved `rax` of the
caller, and the computed value is lost: the process sees 0.

`events_explained` says what every process sees in every run, and the results
about computed values follow from it.
-/

namespace PandaOS.Kernel

variable {κ : Type} (sub : Subsystems κ) {due : Pid → Option Word} {m : Machine κ} {v : Word}
  {es : List Event}

theorem setDue_self (due : Pid → Option Word) (pid : Pid) (v : Option Word) :
    setDue due pid v pid = v := by
  simp [setDue]

theorem setDue_none {pid : Pid} (h : due pid = none) : setDue due pid none = due := by
  rw [setDue, ← h]
  exact Function.update_eq_self pid due

theorem setDue_setDue (due : Pid → Option Word) (pid : Pid) (v w : Option Word) :
    setDue (setDue due pid v) pid w = setDue due pid w := by
  simp [setDue]

/-! ## One step -/

/-- The process on the processor sees what it is due, and the invariant goes on
without it. -/
def Seen (due : Pid → Option Word) (m : Machine κ) : Prop :=
  (∀ v, due m.onCpu = some v → m.regs.rax = v) ∧ Inv (setDue due m.onCpu none) m

theorem Resumed.seen (h : Resumed due m) : Seen due m := by
  refine ⟨h.2, h.1.weaken fun pid v hv => ?_⟩
  by_cases hp : pid = m.onCpu
  · rw [hp, setDue_self] at hv
    cases hv
  · rwa [setDue, Function.update_of_ne hp] at hv

/-- `syscall_entry`'s own way back: the caller goes on with the result. -/
theorem returnToUser_seen {cpu : Pid} {nr : Bool} (h : Serving due cpu nr m)
    (v : Word) {w : Option Word} (hw : ∀ x, w = some x → x = v) :
    ∃ m', (returnToUser v : KernelM κ Unit) m = .ok () m' ∧ Seen (setDue due cpu w) m' := by
  refine ⟨_, rfl, ?_⟩
  have hcpu : m.onCpu = cpu := h.onCpu
  have hset := h.setCtx { m.ctx with rax := v }
  refine ⟨fun x hx => ?_, ?_⟩
  · have hx' : setDue due cpu w m.onCpu = some x := hx
    rw [hcpu, setDue_self] at hx'
    rw [hw x hx']
    show (m.setCtx { m.ctx with rax := v }).ctx.rax = v
    unfold Machine.ctx Machine.setCtx
    cases m.sched.current <;> rfl
  · show Inv (setDue (setDue due cpu w) m.onCpu none) _
    rw [hcpu, setDue_setDue, setDue_none h.notDue]
    exact hset.inv.congr rfl rfl rfl

/-- What becomes due to the caller of a call. -/
def nowDue (number : Word) (value : Option Word) (preempted : Bool) : Option Word :=
  if exempt number then none else if preempted then some 0 else value

/-! ### The three ways through `syscall_entry` -/

section

variable {sub} {m m1 : Machine κ} {r : UserRegs}

theorem syscallEntry_error {e : Stop} (h : enterAndHandle sub r m = .error e m1) :
    syscallEntry sub r m = .error e m1 := by
  simp only [syscallEntry, bind, EStateM.bind, h]

theorem syscallEntry_quiet (h : enterAndHandle sub r m = .ok v m1) (hr : m1.needResched = false) :
    syscallEntry sub r m = (returnToUser v : KernelM κ Unit) m1 := by
  simp [syscallEntry, bind, EStateM.bind, h, checkAndHandlePreemption,
    Lib.get_apply, hr, pure, EStateM.pure]

/-- With a tick pending the call goes through `yield_handler`. -/
theorem syscallEntry_resched (h : enterAndHandle sub r m = .ok v m1)
    (hr : m1.needResched = true) : syscallEntry sub r m =
      match (yieldHandler : KernelM κ Unit) { m1 with needResched := false } with
      | .ok _ m2 => (returnToUser v : KernelM κ Unit) m2
      | .error e m2 => .error e m2 := by
  simp [syscallEntry, bind, EStateM.bind, h, checkAndHandlePreemption,
    Lib.get_apply, hr, Lib.modify_apply]
  cases (yieldHandler : KernelM κ Unit) { m1 with needResched := false } <;> rfl

end

/-- One call, from entry to the next instruction of user code: the events it
shows, and that the process which goes on sees what it is due. -/
theorem step_syscall {m' : Machine κ} {r : UserRegs}
    (h : Inv due m) (hdue : due m.onCpu = none) (hstep : step sub m (.syscall r) = some (m', es)) :
    ∃ value preempted, es = [.called m.onCpu r.rax value preempted, .resumed m'.onCpu m'.regs.rax] ∧
      (preempted = true → m.needResched = true) ∧
      Seen (setDue due m.onCpu (nowDue r.rax value preempted)) m' := by
  have hserve : Serving due m.onCpu m.needResched m := ⟨h, rfl, rfl, hdue⟩
  have hrun := enterAndHandle_run sub hserve r
  cases hent : enterAndHandle sub r m with
  | error e m1 =>
    -- `handle_syscall` did not return: nothing is due to the caller
    simp only [step, computed, hent, syscallEntry_error hent] at hstep
    cases e with
    | halt => cases hstep
    | toUser =>
      cases hstep
      refine ⟨none, false, rfl, by simp, ?_⟩
      have hnone : nowDue r.rax none false = none := by
        unfold nowDue
        split <;> rfl
      rw [hnone, setDue_none hdue]
      exact (hrun.2 m' hent).seen
  | ok v m1 =>
    have h1 := hrun.1 v m1 hent
    have hkept : ∀ x, nowDue r.rax (some v) false = some x → x = v := by
      intro x hx
      unfold nowDue at hx
      split at hx
      · cases hx
      · exact (Option.some.inj hx).symm
    cases hr : m1.needResched with
    | false =>
      obtain ⟨m2, hret, hseen⟩ := returnToUser_seen h1 v hkept
      simp only [step, computed, hent, syscallEntry_quiet hent hr, hret] at hstep
      cases hstep
      exact ⟨some v, false, rfl, by simp, hseen⟩
    | true =>
      have h1' : Serving due m.onCpu false { m1 with needResched := false } :=
        ⟨h1.inv.congr rfl rfl rfl, h1.onCpu, rfl, hdue⟩
      cases hy : (yieldHandler : KernelM κ Unit) { m1 with needResched := false } with
      | ok _ m2 =>
        -- nothing else can run, so the caller goes on after all
        obtain ⟨m3, hret, hseen⟩ :=
          returnToUser_seen ((yieldHandler_run h1').1 m2 hy) v hkept
        simp only [step, computed, hent, syscallEntry_resched hent hr, hy, hret] at hstep
        cases hstep
        exact ⟨some v, false, rfl, by simp, hseen⟩
      | error e m2 =>
        have hres := (yieldHandler_run h1').2 e m2 hy
        simp only [step, computed, hent, syscallEntry_resched hent hr, hy] at hstep
        cases e with
        | halt => cases hstep
        | toUser =>
          cases hstep
          refine ⟨some v, true, rfl, fun _ => h1.resched.symm.trans hr, ?_⟩
          cases hex : exempt r.rax with
          | true =>
            have hnone : nowDue r.rax (some v) true = none := by simp [nowDue, hex]
            rw [hnone, setDue_none hdue]
            exact (hres.of_setDue hdue).seen
          | false =>
            have hzero : nowDue r.rax (some v) true = some 0 := by simp [nowDue, hex]
            rw [hzero]
            exact hres.seen

/-! ## Whole runs -/

/-- The machine `start_first_process` sets off meets the invariant. -/
theorem boot_inv {init : Process} {userCs userSs rflags : Word} {rest : κ} (hpid : init.pid = 1)
    (hboot : boot init userCs userSs rflags rest = some m) :
    Inv (fun _ => none) m := by
  simp only [boot, Option.bind_eq_bind, Option.bind_eq_some_iff, Option.some.injEq] at hboot
  obtain ⟨s, hadd, first, hfirst, rfl⟩ := hboot
  have hs : s = { Scheduler.new with readyQueue := [init] } := by
    unfold Scheduler.addProcess at hadd
    split at hadd
    · exact (Option.some.inj hadd).symm
    · cases hadd
  have hsub := Scheduler.scheduleNext_subperm (f := Process.pid) (fun _ _ _ _ => rfl) s
  have hall : s.scheduleNext.allProcesses = first :: s.scheduleNext.readyQueue := by
    simp [Scheduler.allProcesses, hfirst]
  have hlist : s.allProcesses.map Process.pid = [1] := by
    simp [hs, Scheduler.allProcesses, Scheduler.new, hpid]
  rw [hall, hlist, List.map_cons] at hsub
  -- the queue held one process, so it is empty once that process runs
  have hqueue : s.scheduleNext.readyQueue = [] := by
    have hlen := hsub.length_le
    simpa using hlen
  have hone : first.pid = 1 := by
    have hmem := hsub.subset (List.mem_cons_self)
    simpa using hmem
  have hstate : first.state = .running := Scheduler.scheduleNext_current_some hfirst
  refine ⟨⟨?_, ?_, by simp⟩, ?_, by simp, by simp, ?_⟩
  · simp [Scheduler.allProcesses, hqueue, savedRax]
  · simp [Scheduler.allProcesses, hqueue, savedRax, hone]
  · intro c hc
    cases hc
    exact ⟨rfl, hstate⟩
  · show first.pid < 2
    rw [hone]
    decide

/-- **What processes see.** In every run, a process that resumes after a call
sees the computed value, unless the call was preempted, and then it sees 0. -/
theorem events_explained (inputs : List (Input κ)) :
    ∀ (due : Pid → Option Word) (m : Machine κ), Inv due m → due m.onCpu = none →
      Explained due (events sub m inputs) := by
  induction inputs with
  | nil => intro due m _ _; exact trivial
  | cons i rest ih =>
    intro due m hinv hdue
    unfold events
    cases hstep : step sub m i with
    | none => exact trivial
    | some out =>
      obtain ⟨m', es⟩ := out
      cases i with
      | tick =>
        cases hstep
        exact ih due _ (hinv.congr rfl rfl rfl) hdue
      | user f =>
        cases hstep
        exact ih due _ (hinv.congr rfl rfl rfl) hdue
      | syscall r =>
        obtain ⟨value, preempted, rfl, -, hseen⟩ := step_syscall sub hinv hdue hstep
        exact ⟨hseen.1, ih _ m' hseen.2 (setDue_self _ _ _)⟩

/-- No preempted call among the events, the exempt ones aside. -/
def NotPreempted : Event → Prop
  | .called _ number _ preempted => exempt number = true ∨ preempted = false
  | .resumed _ _ => True

theorem Explained.faithful : ∀ {due : Pid → Option Word},
    (∀ e ∈ es, NotPreempted e) → Explained due es → Faithful due es := by
  induction es with
  | nil => intro due _ _; exact trivial
  | cons e rest ih =>
    intro due hnp hex
    have hrest : ∀ e ∈ rest, NotPreempted e := fun e he => hnp e (List.mem_cons_of_mem _ he)
    cases e with
    | called pid number value preempted =>
      have hsame : (if exempt number then none else if preempted then some 0 else value) =
          if exempt number then none else value := by
        rcases hnp _ List.mem_cons_self with h | h <;> simp [h]
      simp only [Explained, hsame] at hex
      exact ih hrest hex
    | resumed pid rax => exact ⟨hex.1, ih hrest hex.2⟩

/-- No tick is pending when a call is made, the exempt calls aside. -/
def Unticked (m : Machine κ) : Input κ → Prop
  | .syscall r => exempt r.rax = true ∨ m.needResched = false
  | _ => True

theorem events_notPreempted (inputs : List (Input κ)) :
    ∀ (due : Pid → Option Word) (m : Machine κ), Inv due m → due m.onCpu = none →
      Along sub Unticked m inputs → ∀ e ∈ events sub m inputs, NotPreempted e := by
  induction inputs with
  | nil => intro due m _ _ _ e he; cases he
  | cons i rest ih =>
    intro due m hinv hdue halong
    obtain ⟨hi, hnext⟩ := halong
    unfold events
    cases hstep : step sub m i with
    | none => intro e he; cases he
    | some out =>
      obtain ⟨m', es⟩ := out
      simp only [hstep] at hnext
      cases i with
      | tick =>
        cases hstep
        exact ih due _ (hinv.congr rfl rfl rfl) hdue hnext
      | user f =>
        cases hstep
        exact ih due _ (hinv.congr rfl rfl rfl) hdue hnext
      | syscall r =>
        obtain ⟨value, preempted, rfl, hpre, hseen⟩ := step_syscall sub hinv hdue hstep
        intro e he
        simp only [List.cons_append, List.nil_append, List.mem_cons] at he
        rcases he with rfl | rfl | he
        · refine hi.imp id fun hr => ?_
          cases preempted with
          | false => rfl
          | true => rw [hpre rfl] at hr; cases hr
        · exact trivial
        · exact ih _ m' hseen.2 (setDue_self _ _ _) hnext e he

/-- **Return values.** In every run from boot in which no tick is pending when
a call is made, a process that resumes after a call sees the value
`handle_syscall` computed for it. -/
theorem syscall_result_seen {init : Process} {userCs userSs rflags : Word} {rest : κ}
    {m : Machine κ} (hpid : init.pid = 1)
    (hboot : boot init userCs userSs rflags rest = some m) (inputs : List (Input κ))
    (hquiet : Along sub Unticked m inputs) :
    Faithful (fun _ => none) (events sub m inputs) := by
  have hinv := boot_inv hpid hboot
  exact Explained.faithful (events_notPreempted sub inputs _ m hinv rfl hquiet)
    (events_explained sub inputs _ m hinv rfl)

/-! ## A run in which a value is lost -/

/-- Subsystems that refuse every call outside the scheduler. -/
def refusing : Subsystems Unit where
  debug := false
  call _ _ _ k := (⟨some (.error .enosys), [], id⟩, k)
  execArgs _ _ := some .efault
  exec _ p k := (⟨some .enoent, p.toProcMem, p.context⟩, k)
  forkSpace _ k := (none, k)
  copyToUser _ _ k := (some .efault, k)
  freeSpace _ k := (true, k)

/-- An `init` process as `Process::new` makes it, with nothing mapped. -/
def plainInit : Process where
  entryPoint := 0x400000
  userStackPtr := 0x7FFF_0000
  kernelStackPtr := BitVec.ofNat 64 kernelStackTop
  pageTablePhys := 0x1000
  heap := ⟨0, 0, 0⟩
  mappings := []
  mmapBase := 0
  vmRegions := []
  pid := 1
  pgid := 1
  parentPid := none
  state := .ready
  waitState := .notWaiting
  context := CpuContext.newUser 0 0 0 0
  pendingSignals := 0

/-- A `getpid` call. -/
def getpidCall : Input Unit :=
  .syscall { entryRegs 0x400000 0x7FFF_0000 2 with rax := 39 }

theorem syscall_result_seen_getpid : ∃ m, boot plainInit 0x33 0x2B 2 () = some m ∧
      Along refusing Unticked m [getpidCall] ∧
      Faithful (fun _ => none) (events refusing m [getpidCall]) := by
  obtain ⟨m, hboot⟩ : ∃ m, boot plainInit 0x33 0x2B 2 () = some m := ⟨_, rfl⟩
  have hquiet : Along refusing Unticked m [getpidCall] := by
    cases hboot
    exact ⟨.inr rfl, trivial⟩
  exact ⟨m, hboot, hquiet, syscall_result_seen refusing rfl hboot [getpidCall] hquiet⟩

/-- One tick before `getpid`: the only process is preempted in favour of
itself and sees 0 where 1 was computed. -/
theorem getpid_after_tick_sees_zero : ∃ m, boot plainInit 0x33 0x2B 2 () = some m ∧
      events refusing m [.tick, getpidCall] =
        [.called 1 39 (some 1) true, .resumed 1 0] ∧
      ¬ Faithful (fun _ => none) (events refusing m [.tick, getpidCall]) := by
  refine ⟨_, rfl, rfl, ?_⟩
  intro hfaithful
  have hzero : (0 : Word) = 1 := hfaithful.1 1 rfl
  exact absurd hzero (by decide)

end PandaOS.Kernel
