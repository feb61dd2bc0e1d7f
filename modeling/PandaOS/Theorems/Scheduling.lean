import PandaOS.Theorems.Zombies

/-!
# Round robin, signals and wake-ups

`schedule_next` gives the processor to the first process in turn that can run,
and the others keep their order. Signals and wake-ups do not fare so well: a
signal is looked at only when its process leaves the processor, so one sent to
a process in the queue is not acted on by the next `schedule_next`; and
`wake_waiters_for_child` does not look at the parent, so it wakes every process
that waits for any child.
-/

namespace PandaOS.Kernel.Scheduler

open Life (newProcess)

variable {s s' : Scheduler} {p : Process}

/-! ## Every operation on the scheduler -/

/-- One operation on the scheduler: its methods, and what the handlers do to the
process they get from `current_process_mut`. Those leave the process state alone
or, in `exit_handler`, mark the exit. -/
inductive Step : Scheduler → Scheduler → Prop
  | add {s s' : Scheduler} (p : Process) (h : s.addProcess p = some s') : Step s s'
  | schedule (s : Scheduler) : Step s s.scheduleNext
  | yieldCurrent (s : Scheduler) : Step s s.yieldCurrent.2
  | exitCurrent (s : Scheduler) (exitCode : Int) : Step s (s.exitCurrent exitCode).2
  | removeExited (s : Scheduler) : Step s s.removeExited.2
  | findZombie (s : Scheduler) (parent : Pid) : Step s (s.findZombieChild parent).2
  | wake (s : Scheduler) (child : Pid) : Step s (s.wakeWaitersForChild child)
  | signalGroup (s : Scheduler) (pgid : Pid) (signal : Signal) :
      Step s (s.signalProcessGroup pgid signal).2
  | foreground (s : Scheduler) (pgid : Option Pid) : Step s (s.setForegroundPgid pgid)
  | handler (s : Scheduler) (f : Process → Process)
      (h : ∀ p, (f p).state = p.state ∨ (f p).isExited = true) :
      Step s { s with current := s.current.map f }

/-- The scheduler from its creation on. -/
def runs : Lib.TSys Scheduler where
  init s := s = new
  step := Step

/-- A queued process is ready or stopped; the current one runs or has exited. -/
structure Settled (s : Scheduler) : Prop where
  queue : ∀ q ∈ s.readyQueue, q.state = .ready ∨ q.state = .stopped
  current : ∀ c, s.current = some c → c.state = .running ∨ c.isExited = true

section

variable (h : Settled s)
include h

theorem Settled.live : ∀ q ∈ s.readyQueue, q.isExited = false := by
  intro q hq
  rcases h.queue q hq with hstate | hstate <;> simp [Process.isExited, hstate]

/-- A change of the records that keeps their states. -/
theorem Settled.map {f : Process → Process} (hf : ∀ p, (f p).state = p.state)
    (hqueue : s'.readyQueue = s.readyQueue.map f) (hcur : s'.current = s.current.map f) :
    Settled s' := by
  refine ⟨?_, ?_⟩
  · intro q hq
    rw [hqueue] at hq
    obtain ⟨p, hp, rfl⟩ := List.mem_map.mp hq
    rw [hf]
    exact h.queue p hp
  · intro c hc
    rw [hcur] at hc
    obtain ⟨p, hp, rfl⟩ := Option.map_eq_some_iff.mp hc
    have hexit : (f p).isExited = p.isExited := by simp [Process.isExited, hf]
    rw [hf, hexit]
    exact h.current p hp

/-- Fewer records. -/
theorem Settled.sub (hqueue : ∀ q ∈ s'.readyQueue, q ∈ s.readyQueue)
    (hcur : ∀ c, s'.current = some c → s.current = some c) : Settled s' :=
  ⟨fun q hq => h.queue q (hqueue q hq), fun c hc => h.current c (hcur c hc)⟩

/-- What goes back to the queue is ready or, after a SIGTSTP, stopped. -/
theorem Settled.requeueCurrent : Settled s.requeueCurrent := by
  have hpush : ∀ p : Process, p.state = .ready ∨ p.state = .stopped →
      ∀ q ∈ s.readyQueue ++ [p], q.state = .ready ∨ q.state = .stopped := by
    intro p hp q hq
    rcases List.mem_append.mp hq with hq | hq
    · exact h.queue q hq
    · rw [List.mem_singleton.mp hq]
      exact hp
  refine ⟨?_, ?_⟩
  · unfold Scheduler.requeueCurrent
    cases s.current with
    | none => exact h.queue
    | some proc =>
      simp only
      split
      · exact h.queue
      · split
        · exact h.queue
        · rename_i p _
          intro q hq
          obtain ⟨q0, hq0, rfl⟩ := List.mem_map.mp hq
          rw [Process.wakeFor_state]
          exact hpush p.setStopped (.inr rfl) q0 hq0
        · exact hpush _ (.inl rfl)
  · intro c hc
    rw [requeueCurrent_current] at hc
    cases hc

theorem Settled.scheduleNext : Settled s.scheduleNext := by
  have hre := h.requeueCurrent
  refine ⟨?_, fun c hc => .inl (scheduleNext_current_some hc)⟩
  intro q hq
  unfold Scheduler.scheduleNext at hq
  obtain ⟨before, p, after, hqueue, -, -, hpick⟩ | ⟨-, hpick⟩ := pickNext_cases s.requeueCurrent
  · rw [hpick] at hq
    apply hre.queue
    rw [hqueue]
    rcases List.mem_append.mp hq with hafter | hbefore
    · exact List.mem_append_right _ (List.mem_cons_of_mem p hafter)
    · exact List.mem_append_left _ hbefore
  · rw [hpick] at hq
    exact hre.queue q hq

theorem Settled.findZombieChild (parent : Pid) : Settled (s.findZombieChild parent).2 := by
  have hqueued : Settled (s.takeQueuedZombie parent).2 := by
    unfold takeQueuedZombie
    split
    · exact h.sub (fun q hq => List.mem_of_mem_eraseP hq) fun c hc => hc
    · exact h
  unfold Scheduler.findZombieChild
  split
  · split
    · exact h.sub (fun q hq => hq) fun c hc => by cases hc
    · exact hqueued
  · exact hqueued

/-- One operation keeps the states apart. -/
theorem Settled.step (hstep : Step s s') : Settled s' := by
  cases hstep with
  | add p hadd =>
    unfold addProcess at hadd
    split at hadd
    · rename_i hready
      cases hadd
      refine ⟨?_, h.current⟩
      intro q hq
      rcases List.mem_append.mp hq with hq | hq
      · exact h.queue q hq
      · rw [List.mem_singleton.mp hq]
        exact .inl hready
    · cases hadd
  | schedule => exact h.scheduleNext
  | yieldCurrent =>
    unfold Scheduler.yieldCurrent
    split
    · exact h.scheduleNext
    · exact h
  | exitCurrent exitCode =>
    unfold Scheduler.exitCurrent
    split
    · exact ⟨h.queue, fun c hc => by cases hc; exact .inr rfl⟩
    · exact h
  | removeExited =>
    have hqueue : ∀ q ∈ s.readyQueue.filter (!·.isExited), q ∈ s.readyQueue :=
      fun q hq => (List.mem_filter.mp hq).1
    unfold Scheduler.removeExited
    dsimp only
    split
    · split
      · exact h.sub hqueue fun c hc => by cases hc
      · exact h.sub hqueue fun c hc => hc
    · exact h.sub hqueue fun c hc => hc
  | findZombie parent => exact h.findZombieChild parent
  | wake child => exact h.map (Process.wakeFor_state child) rfl rfl
  | signalGroup pgid signal =>
    refine h.map (f := fun p => if p.pgid = pgid then p.sendSignal signal else p) ?_ rfl rfl
    intro p
    split <;> rfl
  | foreground pgid => exact h.sub (fun q hq => hq) fun c hc => hc
  -- a handler leaves the state of the process alone or makes it exit
  | handler f hf =>
    refine ⟨h.queue, fun c hc => ?_⟩
    obtain ⟨p, hp, rfl⟩ := Option.map_eq_some_iff.mp hc
    rcases hf p with hsame | hexit
    · have hsameExit : (f p).isExited = p.isExited := by simp [Process.isExited, hsame]
      rw [hsame, hsameExit]
      exact h.current p hp
    · exact .inr hexit

end

theorem runs_settled : runs.Invariant Settled :=
  Lib.TSys.Inductive.invariant
    { init := fun s h0 => by
        cases h0
        exact ⟨(by intro q hq; cases hq), (by intro c hc; cases hc)⟩
      step := fun _ _ h hstep => h.step hstep }

/-- In every run `find_zombie_child` finds nothing but the current process, so while a live process
runs there is no zombie to reap. -/
theorem zombie_found_is_current : runs.Invariant fun s =>
    (∀ parent c, (s.findZombieChild parent).1 = some c → s.current = some c) ∧
    ∀ p, s.current = some p → p.isExited = false →
      ∀ parent, (s.findZombieChild parent).1 = none := by
  intro s hreach
  have hcases := Life.findZombieChild_cases (runs_settled s hreach).live
  refine ⟨fun parent c hfound => ?_, fun p hp hlive parent => ?_⟩
  · rcases hcases parent with hnone | ⟨c', hcur, -, hsome⟩
    · rw [hnone] at hfound
      cases hfound
    · rw [hsome] at hfound
      exact hcur.trans hfound
  · rcases hcases parent with hnone | ⟨c', hcur, hzombie, -⟩
    · rw [hnone]
    · cases hp.symm.trans hcur
      cases hlive.symm.trans (Life.isExited_of_isZombieOf hzombie)

/-- A child has had the processor and is a zombie. -/
def exitedChild : Scheduler :=
  { new with current := some ((newProcess 2 (some 1)).setZombie 0) }

/-- Its parent finds it. -/
theorem zombie_found_is_current_exited : ∃ c, runs.Reachable exitedChild ∧
    (exitedChild.findZombieChild 1).1 = some c ∧ exitedChild.current = some c := by
  have hadded : runs.Reachable { new with readyQueue := [newProcess 2 (some 1)] } :=
    .step (.init rfl) (.add (newProcess 2 (some 1)) rfl)
  have hreach : runs.Reachable exitedChild :=
    (hadded.step (.schedule _)).step (.handler _ (·.setZombie 0) fun _ => .inr rfl)
  exact ⟨_, hreach, rfl, (zombie_found_is_current _ hreach).1 1 _ rfl⟩

/-! ## Round robin -/

/-- The processes in the order `schedule_next` looks at them. -/
def turnOrder (s : Scheduler) : List Process :=
  s.readyQueue ++ s.current.toList.filter (!·.isExited)

/-- A process that leaves the processor becomes ready. -/
def offCpu (p : Process) : Process :=
  if p.state = .running then { p with state := .ready } else p

/-- A record up to the process state. -/
def stateless (p : Process) : Process := { p with state := .ready }

/-- What round robin asks of one `schedule_next`. -/
structure RoundRobin (s s' : Scheduler) : Prop where
  /-- The first process in turn that can run gets the processor; the others keep
  their cyclic order. -/
  picks : ∀ c, s'.current = some c → ∃ before p after, s.turnOrder = before ++ p :: after ∧
    (∀ q ∈ before, runnable q = false) ∧ runnable p = true ∧
    c = { p with state := .running } ∧ s'.readyQueue = (after ++ before).map offCpu
  /-- Nothing is picked only if no process can run. -/
  idle : s'.current = none → (∀ q ∈ s.turnOrder, runnable q = false) ∧
    s'.readyQueue = s.turnOrder.map offCpu
  /-- No process that has not exited is lost or duplicated. -/
  kept : (s'.allProcesses.map stateless).Perm
    ((s.allProcesses.filter (!·.isExited)).map stateless)
  /-- Exactly the process that is picked runs. -/
  running : (∀ c, s'.current = some c → c.state = .running) ∧
    ∀ q ∈ s'.readyQueue, q.state ≠ .running

@[simp] theorem stateless_offCpu (p : Process) : stateless (offCpu p) = stateless p := by
  unfold offCpu
  split <;> rfl

@[simp] theorem offCpu_running (p : Process) : (offCpu p).state ≠ .running := by
  unfold offCpu
  split
  · simp
  · assumption

theorem runnable_offCpu (p : Process) : runnable (offCpu p) = runnable p := by
  unfold offCpu
  split
  · rename_i hrun
    simp only [runnable, Process.isBlocked, Process.isStopped, hrun]
    rfl
  · rfl

theorem deliverSignals_none (h : p.pendingSignals = 0) : p.deliverSignals = (.none, p) := by
  simp [Process.deliverSignals, Process.hasSignal, h]

/-- Without pending signals the current process goes to the back of the queue
unless it has exited. -/
theorem requeueCurrent_quiet (h : Settled s)
    (hquiet : ∀ c, s.current = some c → c.pendingSignals = 0) :
    s.requeueCurrent = { s with current := none, readyQueue := s.turnOrder.map offCpu } := by
  have hqueue : s.readyQueue.map offCpu = s.readyQueue := by
    refine (List.map_congr_left fun q hq => ?_).trans (List.map_id _)
    have hoff : q.state ≠ .running := by
      rcases h.queue q hq with hstate | hstate <;> simp [hstate]
    exact if_neg hoff
  unfold requeueCurrent turnOrder
  cases hcur : s.current with
  | none =>
    simp only [Option.toList_none, List.filter_nil, List.append_nil, hqueue]
    rw [← hcur]
  | some c =>
    cases hexit : c.isExited with
    | true => simp [hexit, hqueue]
    | false =>
      have hrun : c.state = .running := by simpa [hexit] using h.current c hcur
      have hnosig := hquiet c hcur
      simp [hexit, hqueue, deliverSignals_none hnosig, hnosig, offCpu, hrun]

/-- The processes in turn are those that have not exited. -/
theorem turnOrder_perm (h : Settled s) :
    s.turnOrder.Perm (s.allProcesses.filter (!·.isExited)) := by
  have hqueue : s.readyQueue.filter (!·.isExited) = s.readyQueue := by
    rw [List.filter_eq_self]
    intro q hq
    simp [h.live q hq]
  unfold turnOrder allProcesses
  rw [List.filter_append, hqueue]
  exact List.perm_append_comm

theorem map_stateless_offCpu (ps : List Process) :
    (ps.map offCpu).map stateless = ps.map stateless := by
  simp [Function.comp_def]

/-- **Round robin.** From every state the scheduler can get into, if the current
process has no pending signals, `schedule_next` picks the first process in turn
that can run. -/
theorem scheduleNext_roundRobin {s : Scheduler} (hreach : runs.Reachable s)
    (hquiet : ∀ c, s.current = some c → c.pendingSignals = 0) : RoundRobin s s.scheduleNext := by
  have hset := runs_settled s hreach
  have hre := requeueCurrent_quiet hset hquiet
  have hnext : s.scheduleNext =
      pickNext (s.turnOrder.map offCpu).length
        { s with current := none, readyQueue := s.turnOrder.map offCpu } := by
    unfold scheduleNext
    rw [hre]
  have hperm := (turnOrder_perm hset).map stateless
  have hpick := pickNext_cases { s with current := none, readyQueue := s.turnOrder.map offCpu }
  rw [← hnext] at hpick
  obtain ⟨before', p', after', hqueue, hbefore, hp, hpick⟩ | ⟨hidle, hpick⟩ := hpick
  · -- the picked record and its neighbours come from the processes in turn
    obtain ⟨before, rest, horder, rfl, hrest⟩ := List.map_eq_append_iff.mp hqueue
    obtain ⟨p, after, rfl, rfl, rfl⟩ := List.map_eq_cons_iff.mp hrest
    have hqueue' : s.scheduleNext.readyQueue = (after ++ before).map offCpu := by
      rw [hpick, List.map_append]
    refine ⟨?_, ?_, ?_, ?_, ?_⟩
    · intro c hc
      rw [hpick] at hc
      refine ⟨before, p, after, horder, ?_, (runnable_offCpu p).symm.trans hp, ?_, hqueue'⟩
      · intro q hq
        rw [← runnable_offCpu]
        exact hbefore _ (List.mem_map_of_mem hq)
      · cases hc
        unfold offCpu
        split <;> rfl
    · intro hnone
      rw [hpick] at hnone
      cases hnone
    · refine List.Perm.trans ?_ hperm
      have hp' : stateless { offCpu p with state := .running } = stateless p :=
        stateless_offCpu p
      rw [hpick, horder]
      simp only [allProcesses, Option.toList_some, List.singleton_append, List.map_cons,
        List.map_append, hp', map_stateless_offCpu]
      exact (List.perm_append_comm.cons _).trans List.perm_middle.symm
    · exact fun c hc => scheduleNext_current_some hc
    · intro q hq
      rw [hqueue'] at hq
      obtain ⟨q0, -, rfl⟩ := List.mem_map.mp hq
      exact offCpu_running q0
  · have hqueue : s.scheduleNext.readyQueue = s.turnOrder.map offCpu := by rw [hpick]
    refine ⟨?_, ?_, ?_, ?_, ?_⟩
    · intro c hc
      rw [hpick] at hc
      cases hc
    · intro _
      refine ⟨fun q hq => ?_, hqueue⟩
      rw [← runnable_offCpu]
      exact hidle _ (List.mem_map_of_mem hq)
    · refine List.Perm.trans ?_ hperm
      rw [hpick]
      simp only [allProcesses, Option.toList_none, List.nil_append, map_stateless_offCpu]
      exact List.Perm.refl _
    · exact fun c hc => scheduleNext_current_some hc
    · intro q hq
      rw [hqueue] at hq
      obtain ⟨q0, -, rfl⟩ := List.mem_map.mp hq
      exact offCpu_running q0

/-- Two processes take turns. -/
theorem scheduleNext_roundRobin_two :
    ∃ s, runs.Reachable s ∧ s.current.map (·.pid) = some 1 ∧ RoundRobin s s.scheduleNext ∧
      s.scheduleNext.current.map (·.pid) = some 2 := by
  have h1 : runs.Reachable { new with readyQueue := [newProcess 1 none] } :=
    .step (.init rfl) (.add (newProcess 1 none) rfl)
  have h2 : runs.Reachable { new with readyQueue := [newProcess 1 none, newProcess 2 none] } :=
    .step h1 (.add (newProcess 2 none) rfl)
  have h3 := Lib.TSys.Reachable.step h2 (.schedule _)
  refine ⟨_, h3, by decide, scheduleNext_roundRobin h3 ?_, by decide⟩
  intro c hc
  cases hc
  rfl

/-! ## Signals to queued processes -/

/-- A signal is to change this process: SIGCONT one that is stopped, SIGINT one
that is blocked or stopped. -/
def concerns (signal : Signal) (p : Process) : Bool :=
  match signal with
  | .sigcont => p.isStopped
  | .sigint => p.isBlocked || p.isStopped
  | .sigtstp => false

/-- The queued processes of a group that a signal is to change. -/
def signalTargets (s : Scheduler) (pgid : Pid) (signal : Signal) : List Process :=
  s.readyQueue.filter fun p => p.pgid = pgid && concerns signal p

/-- What is to have happened to a target: after SIGCONT it can run, after SIGINT
it has terminated, and the signal is no longer pending. -/
def Obeyed (signal : Signal) (s : Scheduler) (p : Process) : Prop :=
  match signal with
  | .sigcont => (∃ q ∈ s.allProcesses, q.pid = p.pid) ∧ ∀ q ∈ s.allProcesses, q.pid = p.pid →
      runnable q = true ∧ q.hasSignal .sigcont = false
  | .sigint => ∀ q ∈ s.allProcesses, q.pid = p.pid → q.isExited = true ∧ q.hasSignal .sigint = false
  | .sigtstp => True

/-- Requeueing leaves the records of the queue in it, with their signals. -/
theorem mem_requeueCurrent (hp : p ∈ s.readyQueue) : ∃ q ∈ s.requeueCurrent.readyQueue,
      q.pid = p.pid ∧ q.pendingSignals = p.pendingSignals := by
  have hkept : ∀ last : List Process, ∃ q ∈ s.readyQueue ++ last, q.pid = p.pid ∧
      q.pendingSignals = p.pendingSignals :=
    fun last => ⟨p, List.mem_append_left _ hp, rfl, rfl⟩
  unfold requeueCurrent
  cases s.current with
  | none => exact ⟨p, hp, rfl, rfl⟩
  | some proc =>
    simp only
    split
    · exact ⟨p, hp, rfl, rfl⟩
    · split
      · exact ⟨p, hp, rfl, rfl⟩
      · rename_i stopped _
        -- the processes that waited for the stopped child are woken as well
        obtain ⟨q, hq, hpid, hpending⟩ := hkept [stopped.setStopped]
        exact ⟨q.wakeFor stopped.pid, List.mem_map_of_mem hq, by simp [hpid], by simp [hpending]⟩
      · exact hkept _

/-- `schedule_next` delivers no signal to a queued process. -/
theorem mem_scheduleNext (hp : p ∈ s.readyQueue) : ∃ q ∈ s.scheduleNext.allProcesses,
      q.pid = p.pid ∧ q.pendingSignals = p.pendingSignals := by
  obtain ⟨q, hq, hpid, hpending⟩ := mem_requeueCurrent hp
  unfold scheduleNext
  obtain ⟨before, c, after, hqueue, -, -, hpick⟩ | ⟨-, hpick⟩ := pickNext_cases s.requeueCurrent
  · rw [hpick]
    rw [hqueue, List.mem_append, List.mem_cons] at hq
    rcases hq with hq | rfl | hq
    · exact ⟨q, by simp [allProcesses, hq], hpid, hpending⟩
    · exact ⟨{ q with state := .running }, by simp [allProcesses], hpid, hpending⟩
    · exact ⟨q, by simp [allProcesses, hq], hpid, hpending⟩
  · rw [hpick]
    exact ⟨q, List.mem_append_right _ hq, hpid, hpending⟩

theorem hasSignal_sendSignal (p : Process) (signal : Signal) :
    (p.sendSignal signal).hasSignal signal = true := by
  have hbit : Process.signalBit signal ≠ 0 := by cases signal <;> decide
  have habsorb : (p.pendingSignals ||| Process.signalBit signal) &&& Process.signalBit signal =
      Process.signalBit signal := by
    ext i hi
    simp only [BitVec.getElem_and, BitVec.getElem_or]
    cases p.pendingSignals[i] <;> simp
  simp only [Process.hasSignal, Process.sendSignal, habsorb, bne_iff_ne, ne_eq]
  exact hbit

/-- **Signals to queued processes.** The next `schedule_next` acts on a signal
sent to a group as it should if and only if the group has no queued process that
the signal is to change. -/
theorem signal_obeyed_iff (s : Scheduler) (pgid : Pid) (signal : Signal) :
    (∀ p ∈ s.signalTargets pgid signal,
      Obeyed signal (s.signalProcessGroup pgid signal).2.scheduleNext p) ↔
        s.signalTargets pgid signal = [] := by
  constructor
  · intro hobeyed
    by_contra hne
    obtain ⟨p, hp⟩ := List.exists_mem_of_ne_nil _ hne
    have hobey := hobeyed p hp
    obtain ⟨hqueued, hwants⟩ := List.mem_filter.mp hp
    simp only [Bool.and_eq_true, decide_eq_true_eq] at hwants
    obtain ⟨hgroup, hconcerns⟩ := hwants
    -- the target is still there after the schedule, with the signal pending
    have hsent : p.sendSignal signal ∈ (s.signalProcessGroup pgid signal).2.readyQueue := by
      refine List.mem_map.mpr ⟨p, hqueued, ?_⟩
      exact if_pos hgroup
    obtain ⟨q, hq, hpid, hpending⟩ := mem_scheduleNext hsent
    have hstill : q.hasSignal signal = true := by
      have h := hasSignal_sendSignal p signal
      unfold Process.hasSignal at h ⊢
      rwa [hpending]
    cases signal with
    | sigcont =>
      have hnot := (hobey.2 q hq hpid).2
      rw [hstill] at hnot
      cases hnot
    | sigint =>
      have hnot := (hobey q hq hpid).2
      rw [hstill] at hnot
      cases hnot
    | sigtstp => cases hconcerns
  · intro hnone p hp
    rw [hnone] at hp
    cases hp

/-- A stopped process in the queue behind the current one. -/
def oneStopped : Scheduler where
  readyQueue := [(newProcess 2 (some 1)).setStopped]
  current := some { newProcess 1 none with state := .running }
  foregroundPgid := none

/-- After SIGCONT and a schedule the process is still stopped. -/
theorem sigcont_not_obeyed : ¬ (∀ p ∈ oneStopped.signalTargets 2 .sigcont,
        Obeyed .sigcont (oneStopped.signalProcessGroup 2 .sigcont).2.scheduleNext p) ∧
      (oneStopped.signalProcessGroup 2 .sigcont).2.scheduleNext.readyQueue.map
        (fun q => (q.pid, q.state)) = [(2, .stopped)] := by
  refine ⟨?_, by decide⟩
  intro hobeyed
  have hrun := (hobeyed (newProcess 2 (some 1)).setStopped (by decide)).2
    ((newProcess 2 (some 1)).setStopped.sendSignal .sigcont) (by decide) rfl
  exact absurd hrun.1 (by decide)

/-! ## Waking the parent -/

/-- What a child reports to its parent. -/
inductive ChildEvent
  | exit
  | stop
  deriving DecidableEq, Repr

/-- The wake-up for an event of a child. -/
def wakeOn (event : ChildEvent) (s : Scheduler) (child : Pid) : Scheduler :=
  match event with
  | .exit => s.wakeWaitersForChild child
  | .stop => s.wakeWaitersForStoppedChild child

/-- The process is to be woken: it is the child's parent, waits for any child or
for this one and, for a stop, passed WUNTRACED. The process record does not hold
that flag, so it is given by `untraced`. -/
def IsDue (event : ChildEvent) (untraced : Pid → Prop) (child p : Process) : Prop :=
  child.parentPid = some p.pid ∧ p.shouldWakeOnChildExit child.pid = true ∧
    (event = .stop → untraced p.pid)

/-- The process that was `p` is waiting for nothing now if it was to be woken, and
waits as before otherwise. -/
def WokenRight (event : ChildEvent) (untraced : Pid → Prop) (child p p' : Process) : Prop :=
  (IsDue event untraced child p → p'.waitState = .notWaiting) ∧
    (¬ IsDue event untraced child p → p'.waitState = p.waitState)

theorem wakeOn_allProcesses (event : ChildEvent) (s : Scheduler) (child : Pid) :
    (wakeOn event s child).allProcesses = s.allProcesses.map (Process.wakeFor child) := by
  have hexit : (s.wakeWaitersForChild child).allProcesses =
      s.allProcesses.map (Process.wakeFor child) := by
    unfold wakeWaitersForChild allProcesses
    rw [List.map_append, Option.toList_map]
  cases event <;> exact hexit

/-- One process is woken right if and only if it is to be woken when it is woken. -/
theorem wokenRight_wakeFor (event : ChildEvent) (untraced : Pid → Prop) (child p : Process) :
    WokenRight event untraced child p (p.wakeFor child.pid) ↔
      (p.shouldWakeOnChildExit child.pid = true → IsDue event untraced child p) := by
  unfold Process.wakeFor
  cases hwake : p.shouldWakeOnChildExit child.pid with
  | true =>
    have hwaits : p.waitState ≠ .notWaiting := by
      intro h
      simp [Process.shouldWakeOnChildExit, h] at hwake
    constructor
    · intro hright _
      by_contra hnot
      exact hwaits (hright.2 hnot).symm
    · intro hdue
      exact ⟨fun _ => rfl, fun hnot => absurd (hdue rfl) hnot⟩
  | false =>
    constructor
    · intro _ h
      cases h
    · intro _
      refine ⟨fun hdue => ?_, fun _ => rfl⟩
      rw [hdue.2.1] at hwake
      cases hwake

/-- **Waking the parent.** For an exit or a stop of a child, the wake-up changes
the wait state of the child's parent only, and wakes it exactly when it is to be
woken, if and only if every process that waits for any child or for this one is to
be woken. -/
theorem wakeOn_parent_iff (event : ChildEvent) (untraced : Pid → Prop) (s : Scheduler)
    (child : Process) :
    List.Forall₂ (WokenRight event untraced child) s.allProcesses
        (wakeOn event s child.pid).allProcesses ↔
      ∀ p ∈ s.allProcesses, p.shouldWakeOnChildExit child.pid = true →
        child.parentPid = some p.pid ∧ (event = .stop → untraced p.pid) := by
  rw [wakeOn_allProcesses, List.forall₂_map_right_iff, List.forall₂_same]
  refine forall₂_congr fun p _ => ?_
  rw [wokenRight_wakeFor]
  constructor
  · intro h hwake
    exact ⟨(h hwake).1, (h hwake).2.2⟩
  · intro h hwake
    exact ⟨(h hwake).1, hwake, (h hwake).2⟩

/-- A process, its child and its grandchild on the processor; the first one waits
for any child. -/
def threeGenerations : Scheduler where
  readyQueue := [(newProcess 1 none).blockOnAnyChild, newProcess 2 (some 1)]
  current := some { newProcess 3 (some 2) with state := .running }
  foregroundPgid := none

/-- The exit of the grandchild wakes its grandparent. -/
theorem grandparent_woken :
    ¬ List.Forall₂ (WokenRight .exit (fun _ => False) (newProcess 3 (some 2)))
      threeGenerations.allProcesses (wakeOn .exit threeGenerations 3).allProcesses := by
  intro h
  have hparent := (wokenRight_wakeFor .exit (fun _ => False) (newProcess 3 (some 2))
    (newProcess 1 none).blockOnAnyChild).mp ?_ (by decide)
  · exact absurd hparent.1 (by decide)
  · rw [wakeOn_allProcesses, List.forall₂_map_right_iff, List.forall₂_same] at h
    exact h _ (by decide)

end PandaOS.Kernel.Scheduler
