import PandaOS.Kernel.Process

/-!
# The round-robin scheduler

`scheduler.rs`: a queue of processes and the slot of the running one. A
process record moves between the two by value, so the whole state of the
scheduler is the list of records it holds.
-/

namespace PandaOS.Kernel

variable {β : Type} {s : Scheduler} {c : Process} {f : Process → β}

/-- The scheduler (`Scheduler`). -/
structure Scheduler where
  readyQueue : List Process
  current : Option Process
  foregroundPgid : Option Pid
  deriving DecidableEq, Repr

namespace Scheduler

def new : Scheduler := ⟨[], none, none⟩

/-- Every process record in the scheduler, the running one first. -/
def allProcesses (s : Scheduler) : List Process :=
  s.current.toList ++ s.readyQueue

/-- `add_process`; `none` is the failed assertion on the process state. -/
def addProcess (s : Scheduler) (p : Process) : Option Scheduler :=
  if p.state = .ready then some { s with readyQueue := s.readyQueue ++ [p] } else none

/-- `wake_waiters_for_child`. The parent is not looked up: every process that
waits for any child, or for this one, is woken. -/
def wakeWaitersForChild (s : Scheduler) (child : Pid) : Scheduler :=
  { s with
    current := s.current.map (Process.wakeFor child)
    readyQueue := s.readyQueue.map (Process.wakeFor child) }

/-- `wake_waiters_for_stopped_child`: the same logic as for an exit. -/
def wakeWaitersForStoppedChild (s : Scheduler) (child : Pid) : Scheduler :=
  s.wakeWaitersForChild child

/-- The first half of `schedule_next`: take the current process out of its
slot and, unless it has exited or a signal terminates it, put it back at the
end of the queue. -/
def requeueCurrent (s : Scheduler) : Scheduler :=
  match s.current with
  | none => s
  | some proc =>
    let s := { s with current := none }
    -- zombies count as exited here, so their record is dropped with `proc`
    if proc.isExited then s
    else
      match proc.deliverSignals with
      | (.terminate, _) => s
      | (.stop, proc) =>
        { s with readyQueue := s.readyQueue ++ [proc.setStopped] }.wakeWaitersForStoppedChild
          proc.pid
      | (_, proc) =>
        let proc := if proc.pendingSignals != 0 then proc.wake else proc
        { s with readyQueue := s.readyQueue ++ [{ proc with state := .ready }] }

/-- Neither blocked nor stopped. -/
def runnable (p : Process) : Bool := !p.isBlocked && !p.isStopped

/-- The second half of `schedule_next`: look at `n` processes, rotating those
that cannot run to the back. -/
def pickNext : Nat → Scheduler → Scheduler
  | 0, s => s
  | n + 1, s =>
    match s.readyQueue with
    | [] => pickNext n s
    | p :: rest =>
      if p.isBlocked || p.isStopped then
        pickNext n { s with readyQueue := rest ++ [p] }
      else
        { s with readyQueue := rest, current := some { p with state := .running } }

/-- `schedule_next`; the reference it returns is to the new `current`. -/
def scheduleNext (s : Scheduler) : Scheduler :=
  let s := s.requeueCurrent
  pickNext s.readyQueue.length s

/-- `signal_process_group`: the number of processes signalled and the new state. -/
def signalProcessGroup (s : Scheduler) (pgid : Pid) (signal : Signal) : Nat × Scheduler :=
  let hit (p : Process) : Process := if p.pgid = pgid then p.sendSignal signal else p
  ((s.allProcesses.filter (·.pgid = pgid)).length,
    { s with current := s.current.map hit, readyQueue := s.readyQueue.map hit })

/-- The test `find_zombie_child` makes on a record. -/
def isZombieOf (parent : Pid) (p : Process) : Bool :=
  p.isZombie && p.parentPid == some parent

/-- The search of `find_zombie_child` in the ready queue. -/
def takeQueuedZombie (s : Scheduler) (parent : Pid) : Option Process × Scheduler :=
  match s.readyQueue.find? (isZombieOf parent) with
  | some p => (some p, { s with readyQueue := s.readyQueue.eraseP (isZombieOf parent) })
  | none => (none, s)

/-- `find_zombie_child`: take the first zombie child of `parent` out of the
scheduler. -/
def findZombieChild (s : Scheduler) (parent : Pid) : Option Process × Scheduler :=
  match s.current with
  | some p =>
    if isZombieOf parent p then (some p, { s with current := none })
    else s.takeQueuedZombie parent
  | none => s.takeQueuedZombie parent

/-- `find_any_zombie_child`. -/
def findAnyZombieChild (s : Scheduler) (parent : Pid) : Option Process × Scheduler :=
  s.findZombieChild parent

/-- `has_children`. -/
def hasChildren (s : Scheduler) (parent : Pid) : Bool :=
  s.allProcesses.any (·.parentPid == some parent)

/-- `find_stopped_child`. -/
def findStoppedChild (s : Scheduler) (parent : Pid) : Option Pid :=
  (s.allProcesses.find? fun p => p.isStopped && p.parentPid == some parent).map (·.pid)

/-- `exit_current`; `false` if no process was running. -/
def exitCurrent (s : Scheduler) (exitCode : Int) : Bool × Scheduler :=
  match s.current with
  | some proc => (true, { s with current := some (proc.setExited exitCode) })
  | none => (false, s)

/-- `remove_exited`, with the number of processes removed. -/
def removeExited (s : Scheduler) : Nat × Scheduler :=
  let queue := s.readyQueue.filter (!·.isExited)
  let removed := s.readyQueue.length - queue.length
  match s.current with
  | some proc =>
    if proc.isExited then (removed + 1, { s with readyQueue := queue, current := none })
    else (removed, { s with readyQueue := queue })
  | none => (removed, { s with readyQueue := queue })

/-- `yield_current`; `false` if no process was running. -/
def yieldCurrent (s : Scheduler) : Bool × Scheduler :=
  if s.current.isSome then (true, s.scheduleNext) else (false, s)

/-- `set_foreground_pgid`. -/
def setForegroundPgid (s : Scheduler) (pgid : Option Pid) : Scheduler :=
  { s with foregroundPgid := pgid }

/-! ## What scheduling keeps -/

/-- An attribute of a process that scheduling, signals and wake-ups leave
alone: it does not read the state, the wait state or the pending signals. -/
def Stable {β : Type} (f : Process → β) : Prop :=
  ∀ (p : Process) (st : ProcessState) (ws : WaitState) (ps : BitVec 32),
    f { p with state := st, waitState := ws, pendingSignals := ps } = f p

theorem Stable.wakeFor (hf : Stable f) (child : Pid) (p : Process) : f (p.wakeFor child) = f p := by
  unfold Process.wakeFor
  split
  · exact hf p p.state .notWaiting p.pendingSignals
  · rfl

theorem Stable.deliverSignals (hf : Stable f) (p : Process) : f p.deliverSignals.2 = f p := by
  obtain ⟨st, ps, h⟩ := p.deliverSignals_frame
  rw [h]
  exact hf p st p.waitState ps

theorem wakeWaitersForChild_map (hf : Stable f) (s : Scheduler) (child : Pid) :
    (s.wakeWaitersForChild child).allProcesses.map f = s.allProcesses.map f := by
  have hfun : f ∘ Process.wakeFor child = f := funext fun p => hf.wakeFor child p
  cases h : s.current <;> simp [allProcesses, wakeWaitersForChild, h, hf.wakeFor, hfun]

/-- `schedule_next` drops this process when it is the current one: it has exited,
or a SIGINT terminates it. -/
def leaves (p : Process) : Bool := p.isExited || p.deliverSignals.1 == .terminate

theorem requeueCurrent_of_leaves (hcur : s.current = some c) (hleaves : leaves c = true) :
    s.requeueCurrent = { s with current := none } := by
  simp only [requeueCurrent, hcur]
  split
  · rfl
  · rename_i hlive
    have hterm : c.deliverSignals.1 = .terminate := by simpa [leaves, hlive] using hleaves
    split
    · rfl
    · rename_i heq
      simp [heq] at hterm
    · rename_i hnot _ heq
      rw [heq] at hterm
      exact absurd hterm hnot

/-- Requeueing keeps every record unless the current process leaves. -/
theorem requeueCurrent_perm (hf : Stable f) (hstays : ∀ c, s.current = some c → leaves c = false) :
    (s.requeueCurrent.allProcesses.map f).Perm (s.allProcesses.map f) := by
  unfold requeueCurrent
  cases hcur : s.current with
  | none => exact List.Perm.refl _
  | some c =>
    have hstay := hstays c hcur
    simp only [leaves, Bool.or_eq_false_iff, beq_eq_false_iff_ne] at hstay
    have hkeep := hf.deliverSignals c
    have hpush : ∀ q, f q = f c →
        ((s.readyQueue ++ [q]).map f).Perm (s.allProcesses.map f) := by
      intro q hq
      simp only [allProcesses, hcur, Option.toList_some, List.singleton_append, List.map_append,
        List.map_cons, List.map_nil, hq]
      exact List.perm_append_singleton _ _
    simp only [hstay.1, Bool.false_eq_true, if_false]
    split
    · rename_i heq
      exact absurd (congrArg Prod.fst heq) hstay.2
    · rename_i q heq
      rw [heq] at hkeep
      rw [wakeWaitersForStoppedChild, wakeWaitersForChild_map hf]
      exact hpush _ ((hf q .stopped q.waitState q.pendingSignals).trans hkeep)
    · rename_i q _ _ heq
      rw [heq] at hkeep
      refine hpush _ (Eq.trans ?_ hkeep)
      split
      · exact hf q .ready .notWaiting q.pendingSignals
      · exact hf q .ready q.waitState q.pendingSignals

/-- Requeueing keeps every record or drops the current one. -/
theorem requeueCurrent_subperm (hf : Stable f) (s : Scheduler) :
    (s.requeueCurrent.allProcesses.map f).Subperm (s.allProcesses.map f) := by
  by_cases hstays : ∀ c, s.current = some c → leaves c = false
  · exact (requeueCurrent_perm hf hstays).subperm
  · simp only [not_forall, Bool.not_eq_false] at hstays
    obtain ⟨c, hcur, hleaves⟩ := hstays
    rw [requeueCurrent_of_leaves hcur hleaves]
    refine List.Sublist.subperm (List.Sublist.map f ?_)
    exact List.sublist_append_right _ _

theorem pickNext_cons (n : Nat) (s : Scheduler) (p : Process) (rest : List Process) :
    pickNext (n + 1) { s with readyQueue := p :: rest } =
      if p.isBlocked || p.isStopped then pickNext n { s with readyQueue := rest ++ [p] }
      else { s with readyQueue := rest, current := some { p with state := .running } } := rfl

/-- The loop rotates the processes that cannot run to the back. -/
theorem pickNext_skip {before : List Process} (hbefore : ∀ q ∈ before, runnable q = false)
    (n : Nat) (s : Scheduler) (tail : List Process) :
    pickNext (before.length + n) { s with readyQueue := before ++ tail } =
      pickNext n { s with readyQueue := tail ++ before } := by
  induction before generalizing tail with
  | nil => simp
  | cons p before ih =>
    have hp : (p.isBlocked || p.isStopped) = true := by
      cases hb : p.isBlocked <;> simp_all [runnable]
    have hlen : (p :: before).length + n = (before.length + n) + 1 := by
      simp only [List.length_cons]
      omega
    rw [hlen, List.cons_append, pickNext_cons, if_pos hp, List.append_assoc,
      ih (fun q hq => hbefore q (List.mem_cons_of_mem p hq)), List.append_assoc,
      List.singleton_append]

/-- What the loop does: it takes the first process that can run out of the
queue and leaves those before it behind the others, or finds that none can run
and has turned the queue once around. -/
theorem pickNext_cases (s : Scheduler) : (∃ before p after, s.readyQueue = before ++ p :: after ∧
      (∀ q ∈ before, runnable q = false) ∧ runnable p = true ∧
      pickNext s.readyQueue.length s =
        { s with readyQueue := after ++ before, current := some { p with state := .running } }) ∨
    ((∀ q ∈ s.readyQueue, runnable q = false) ∧ pickNext s.readyQueue.length s = s) := by
  cases hfind : s.readyQueue.find? runnable with
  | some p =>
    obtain ⟨hp, before, after, hqueue, hbefore⟩ := List.find?_eq_some_iff_append.mp hfind
    have hskip : ∀ q ∈ before, runnable q = false := fun q hq => by simpa using hbefore q hq
    refine .inl ⟨before, p, after, hqueue, hskip, hp, ?_⟩
    have hs : s = { s with readyQueue := before ++ p :: after } := by rw [← hqueue]
    have hlen : s.readyQueue.length = before.length + (after.length + 1) := by simp [hqueue]
    have hrun : (p.isBlocked || p.isStopped) = false := by
      simpa [runnable, Bool.and_eq_true] using hp
    rw [hlen, hs, pickNext_skip hskip, List.cons_append, pickNext_cons, if_neg (by simp [hrun])]
  | none =>
    have hidle : ∀ q ∈ s.readyQueue, runnable q = false := fun q hq => by
      simpa using List.find?_eq_none.mp hfind q hq
    have hround := pickNext_skip hidle 0 s []
    rw [List.append_nil, Nat.add_zero] at hround
    exact .inr ⟨hidle, hround⟩

/-- Rotating the queue keeps every record. -/
theorem pickNext_perm (hf : Stable f) (hcur : s.current = none) :
    ((pickNext s.readyQueue.length s).allProcesses.map f).Perm (s.allProcesses.map f) := by
  obtain ⟨before, p, after, hqueue, -, -, hpick⟩ | ⟨-, hpick⟩ := pickNext_cases s
  · have hp : f { p with state := .running } = f p := hf p .running p.waitState p.pendingSignals
    rw [hpick]
    simp only [allProcesses, hcur, hqueue, Option.toList_some, Option.toList_none,
      List.nil_append, List.singleton_append, List.map_cons, List.map_append, hp]
    exact (List.perm_append_comm.cons _).trans List.perm_middle.symm
  · rw [hpick]

theorem requeueCurrent_current (s : Scheduler) : s.requeueCurrent.current = none := by
  unfold requeueCurrent
  cases hc : s.current with
  | none => exact hc
  | some proc =>
    simp only
    split
    · rfl
    · split <;> rfl

/-- Scheduling invents no process record: what it leaves is a rearrangement of
part of what it found. -/
theorem scheduleNext_subperm (hf : Stable f) (s : Scheduler) :
    (s.scheduleNext.allProcesses.map f).Subperm (s.allProcesses.map f) :=
  (pickNext_perm hf s.requeueCurrent_current).subperm.trans
    (requeueCurrent_subperm hf s)

/-- No record is lost unless the current process leaves. -/
theorem scheduleNext_perm (hf : Stable f) (hstays : ∀ c, s.current = some c → leaves c = false) :
    (s.scheduleNext.allProcesses.map f).Perm (s.allProcesses.map f) :=
  (pickNext_perm hf s.requeueCurrent_current).trans (requeueCurrent_perm hf hstays)

/-- A current process that leaves is lost, and no other. -/
theorem scheduleNext_perm_of_leaves (hf : Stable f) (hcur : s.current = some c)
    (hleaves : leaves c = true) :
    (s.scheduleNext.allProcesses.map f).Perm (s.readyQueue.map f) := by
  have hperm := pickNext_perm hf s.requeueCurrent_current
  rw [requeueCurrent_of_leaves hcur hleaves] at hperm
  unfold scheduleNext
  rw [requeueCurrent_of_leaves hcur hleaves]
  exact hperm

theorem scheduleNext_current_some (h : s.scheduleNext.current = some c) : c.state = .running := by
  unfold scheduleNext at h
  obtain ⟨before, p, after, -, -, -, hpick⟩ | ⟨-, hpick⟩ := pickNext_cases s.requeueCurrent
  · rw [hpick] at h
    cases h
    rfl
  · rw [hpick, requeueCurrent_current] at h
    cases h

/-- If `schedule_next` finds nothing, no process it leaves can run. -/
theorem scheduleNext_idle (h : s.scheduleNext.current = none) :
    ∀ q ∈ s.scheduleNext.readyQueue, runnable q = false := by
  unfold scheduleNext at h ⊢
  obtain ⟨before, p, after, -, -, -, hpick⟩ | ⟨hidle, hpick⟩ := pickNext_cases s.requeueCurrent
  · rw [hpick] at h
    cases h
  · rw [hpick]
    exact hidle

/-- A scheduler with nothing running and nothing to run stays that way. -/
theorem scheduleNext_of_idle (hcur : s.current = none)
    (hidle : ∀ q ∈ s.readyQueue, runnable q = false) : s.scheduleNext.current = none := by
  have hre : s.requeueCurrent = s := by simp only [requeueCurrent, hcur]
  unfold scheduleNext
  rw [hre]
  obtain ⟨before, p, after, hqueue, -, hp, -⟩ | ⟨-, hpick⟩ := pickNext_cases s
  · rw [hidle p (by simp [hqueue])] at hp
    cases hp
  · rw [hpick, hcur]

end Scheduler

end PandaOS.Kernel
