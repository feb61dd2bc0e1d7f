import PandaOS.Kernel.Syscall
import PandaOS.Lib.Run
import PandaOS.Theorems.Scheduling

/-!
# What waitpid reaps

`waitpid_handler` takes the first zombie child out of the scheduler before it
compares the child's identifier with the one asked for, and before it has
written the status and freed the address space. A call that then fails, or goes
on to wait for the child it was asked for, has lost the zombie. A call that waits
also schedules, which drops a caller with a pending SIGINT.

`waitpid_reaps_asked_iff` says for which calls none of this happens.
-/

namespace PandaOS.Kernel

open Scheduler

section

variable {κ : Type} (sub : Subsystems κ) {pid : Word} {m : Machine κ}

/-- The identifiers of all processes. -/
def Machine.pids (m : Machine κ) : List Pid := m.sched.allProcesses.map Process.pid

/-- The status word of a process that has exited: its code above the low byte. -/
def exitStatus (child : Process) : BitVec 32 := BitVec.ofInt 32 (child.exitCode.getD 0) <<< 8

/-- The copy of a status word to user memory, left out for a null pointer. -/
def copyStatus (statusPtr : Word) (status : BitVec 32) (k : κ) : Option ErrorCode × κ :=
  if statusPtr = 0 then (none, k) else sub.copyToUser statusPtr status k

/-- The kernel after the status of a child is written to user memory and its
address space is freed; `none` if one of the two fails. -/
def reported (statusPtr : Word) (child : Process) (k : κ) : Option κ :=
  let (failed, k) := copyStatus sub statusPtr (exitStatus child) k
  if failed.isSome then none
  else
    let (freed, k) := sub.freeSpace child.pageTablePhys k
    if freed then some k else none

/-- The child is one `waitpid` was asked for. -/
def Asked (pid : Word) (child : Process) : Prop := pid = -1 ∨ child.pid = pid.toNat

/-- What a call of `waitpid` may do to the set of processes: nothing, or remove one
zombie child of the caller that it was asked for, return its identifier and
report its exit code. -/
def ReapsAsked (pid statusPtr : Word) (m : Machine κ)
    (out : EStateM.Result Stop (Machine κ) SyscallResult) : Prop :=
  match out with
  | .ok r m' => m'.pids.Perm m.pids ∨
      ∃ c z, m.sched.current = some c ∧ z ∈ m.sched.allProcesses ∧ isZombieOf c.pid z = true ∧
        Asked pid z ∧ (z.pid :: m'.pids).Perm m.pids ∧ r = .ok (BitVec.ofNat 64 z.pid) ∧
        reported sub statusPtr z m.rest = some m'.rest
  | .error _ m' => m'.pids.Perm m.pids

/-- The call comes to the search for zombies: its arguments are valid and it has no
stopped child to report. -/
def Searches (pid : Word) (options : BitVec 32) (s : Scheduler) (caller : Pid) : Prop :=
  (options = 0 ∨ options = 2) ∧ (pid = -1 ∨ 0 < pid.toInt) ∧
    (options = 2 → s.findStoppedChild caller = none)

/-- The first zombie child of the caller is one it asked for and can be reported;
and if there is no zombie child but another one, the caller has neither exited nor
a SIGINT to die from. -/
def FirstIsAsked (pid statusPtr : Word) (m : Machine κ) (caller : Process) : Prop :=
  match m.sched.allProcesses.find? (isZombieOf caller.pid) with
  | some z => Asked pid z ∧ (reported sub statusPtr z m.rest).isSome = true
  | none => m.sched.hasChildren caller.pid = true → leaves caller = false

end

/-! ## Searching -/

namespace Scheduler

theorem takeQueuedZombie_cases (s : Scheduler) (parent : Pid) :
    (s.readyQueue.find? (isZombieOf parent) = none ∧ s.takeQueuedZombie parent = (none, s)) ∨
      ∃ z s', s.readyQueue.find? (isZombieOf parent) = some z ∧
        s.takeQueuedZombie parent = (some z, s') ∧ s'.current = s.current ∧
        (z :: s'.readyQueue).Perm s.readyQueue := by
  unfold takeQueuedZombie
  cases hfind : s.readyQueue.find? (isZombieOf parent) with
  | none => exact .inl ⟨rfl, rfl⟩
  | some z =>
    refine .inr ⟨z, _, rfl, rfl, rfl, ?_⟩
    obtain ⟨hz, before, after, hqueue, hbefore⟩ := List.find?_eq_some_iff_append.mp hfind
    have hskip : ∀ q ∈ before, ¬ isZombieOf parent q = true :=
      fun q hq => by simpa using hbefore q hq
    show (z :: s.readyQueue.eraseP (isZombieOf parent)).Perm s.readyQueue
    rw [hqueue, List.eraseP_append_right _ hskip, List.eraseP_cons_of_pos hz]
    exact List.perm_middle.symm

/-- `find_zombie_child` takes out the first zombie child, if there is one. -/
theorem findZombieChild_spec (s : Scheduler) (parent : Pid) :
    (s.allProcesses.find? (isZombieOf parent) = none ∧ s.findZombieChild parent = (none, s)) ∨
      ∃ z s', s.allProcesses.find? (isZombieOf parent) = some z ∧
        s.findZombieChild parent = (some z, s') ∧ (z :: s'.allProcesses).Perm s.allProcesses := by
  have hqueued := s.takeQueuedZombie_cases parent
  unfold findZombieChild allProcesses
  cases hcur : s.current with
  | none =>
    simp only [Option.toList_none, List.nil_append]
    obtain ⟨hnone, htake⟩ | ⟨z, s', hfind, htake, hcur', hperm⟩ := hqueued
    · exact .inl ⟨hnone, htake⟩
    · refine .inr ⟨z, s', hfind, htake, ?_⟩
      rw [hcur', hcur]
      exact hperm
  | some c =>
    simp only [Option.toList_some, List.singleton_append, List.find?_cons]
    cases hz : isZombieOf parent c with
    | true =>
      refine .inr ⟨c, _, rfl, if_pos rfl, ?_⟩
      exact List.Perm.refl _
    | false =>
      obtain ⟨hnone, htake⟩ | ⟨z, s', hfind, htake, hcur', hperm⟩ := hqueued
      · exact .inl ⟨hnone, by simpa using htake⟩
      · refine .inr ⟨z, s', hfind, by simpa using htake, ?_⟩
        rw [hcur', hcur]
        exact (List.Perm.swap c z _).trans (hperm.cons c)

theorem deliverSignals_fst (p : Process) : p.deliverSignals.1 =
      if p.hasSignal .sigcont then .continue else if p.hasSignal .sigtstp then .stop
      else if p.hasSignal .sigint then .terminate else .none := by
  unfold Process.deliverSignals
  split_ifs <;> rfl

/-- Whether a process leaves depends on its state and its pending signals. -/
theorem leaves_congr {p q : Process} (hstate : q.state = p.state)
    (hpending : q.pendingSignals = p.pendingSignals) : leaves q = leaves p := by
  have hexited : q.isExited = p.isExited := by
    unfold Process.isExited
    rw [hstate]
  have hsignal : ∀ signal, q.hasSignal signal = p.hasSignal signal := by
    intro signal
    unfold Process.hasSignal
    rw [hpending]
  unfold leaves
  rw [deliverSignals_fst, deliverSignals_fst, hexited, hsignal, hsignal, hsignal]

end Scheduler

/-! ## The handler, part by part -/

section

variable {κ : Type} (sub : Subsystems κ)

theorem writeStatus_run (statusPtr : Word) (status : BitVec 32) (m : Machine κ) :
    writeStatus sub statusPtr status m = .ok (copyStatus sub statusPtr status m.rest).1
        { m with rest := (copyStatus sub statusPtr status m.rest).2 } := by
  unfold writeStatus copyStatus
  split <;> rfl

/-- Reporting a child succeeds or leaves an error; the scheduler is not touched. -/
theorem reapChild_run (child : Process) (statusPtr : Word) (m : Machine κ) :
    (∃ k, reported sub statusPtr child m.rest = some k ∧ reapChild sub child statusPtr m =
      .ok (.ok (BitVec.ofNat 64 child.pid)) { m with rest := k }) ∨
    (∃ e k, reported sub statusPtr child m.rest = none ∧
      reapChild sub child statusPtr m = .ok (.error e) { m with rest := k }) := by
  have hwrite := writeStatus_run sub statusPtr (exitStatus child) m
  unfold reported
  generalize copyStatus sub statusPtr (exitStatus child) m.rest = copied at hwrite ⊢
  obtain ⟨failed, k⟩ := copied
  cases failed with
  | some e =>
    refine .inr ⟨e, k, rfl, ?_⟩
    show (writeStatus sub statusPtr (exitStatus child) >>= _) m = _
    simp only [bind, EStateM.bind, hwrite]
    rfl
  | none =>
    obtain ⟨freed, k', hfree⟩ : ∃ freed k', sub.freeSpace child.pageTablePhys k = (freed, k') :=
      ⟨_, _, rfl⟩
    have hrun : reapChild sub child statusPtr m =
        (if freed then pure (.ok (BitVec.ofNat 64 child.pid)) else pure (.error .eio) :
          KernelM κ SyscallResult) { m with rest := k' } := by
      show (writeStatus sub statusPtr (exitStatus child) >>= _) m = _
      simp only [bind, EStateM.bind, hwrite, lift, hfree]
    simp only [hfree, hrun]
    cases freed with
    | true => exact .inl ⟨k', rfl, rfl⟩
    | false => exact .inr ⟨.eio, k', rfl, rfl⟩

/-- A search that is not made ends with the scheduler as it was. -/
theorem waitpidScan_other (statusPtr : Word) (h : ¬ ((pid = -1 ∨ 0 < pid.toInt) ∧
      (wuntraced = true → m.sched.findStoppedChild parent = none))) :
    ∃ r m', waitpidScan sub pid statusPtr wuntraced parent m = .ok (some r) m' ∧
      m'.sched = m.sched := by
  unfold waitpidScan
  simp only [bind, EStateM.bind, Lib.get_apply]
  cases hst : (if wuntraced then m.sched.findStoppedChild parent else none) with
  | some stopped =>
    have hwrite := writeStatus_run sub statusPtr 0x147f m
    generalize copyStatus sub statusPtr 0x147f m.rest = copied at hwrite
    obtain ⟨failed, k⟩ := copied
    unfold reportStopped
    simp only [bind, EStateM.bind, hwrite]
    cases failed with
    | some e => exact ⟨_, _, rfl, rfl⟩
    | none => exact ⟨_, _, rfl, rfl⟩
  | none =>
    have hstopped : wuntraced = true → m.sched.findStoppedChild parent = none := by
      intro hw
      rwa [hw] at hst
    have hpid : ¬ (pid = -1 ∨ 0 < pid.toInt) := fun hpid => h ⟨hpid, hstopped⟩
    obtain ⟨hany, hpos⟩ := not_or.mp hpid
    simp only [if_neg hany, if_neg hpos]
    exact ⟨_, _, rfl, rfl⟩

/-- A search that is made, in terms of `find_zombie_child`. -/
theorem waitpidScan_search (statusPtr : Word) (hpid : pid = -1 ∨ 0 < pid.toInt)
    (hstopped : wuntraced = true → m.sched.findStoppedChild parent = none)
    {zombie : Option Process} {s : Scheduler}
    (hfind : m.sched.findZombieChild parent = (zombie, s)) :
    (∀ z, zombie = some z → Asked pid z → waitpidScan sub pid statusPtr wuntraced parent m =
      (some <$> reapChild sub z statusPtr) (m.withSched s)) ∧
    ((∀ z, zombie = some z → ¬ Asked pid z) →
      waitpidScan sub pid statusPtr wuntraced parent m = .ok none (m.withSched s)) := by
  have hnone : (if wuntraced then m.sched.findStoppedChild parent else none) = none := by
    cases wuntraced with
    | true => exact hstopped rfl
    | false => rfl
  -- the search is the same with a pid; a zombie of another pid is then dropped
  have hrun : waitpidScan sub pid statusPtr wuntraced parent m =
      (match zombie.filter fun z => decide (pid = -1) || decide (z.pid = pid.toNat) with
        | some z => some <$> reapChild sub z statusPtr
        | none => pure none : KernelM κ (Option SyscallResult)) (m.withSched s) := by
    unfold waitpidScan
    simp only [bind, EStateM.bind, Lib.get_apply, hnone]
    by_cases hany : pid = -1
    · simp only [hany, if_true, findAnyZombieChild, hfind, decide_true, Bool.true_or]
      cases zombie <;> rfl
    · simp only [hany, if_false, if_pos (hpid.resolve_left hany),
        hfind, decide_false, Bool.false_or]
      cases zombie.filter fun z => decide (z.pid = pid.toNat) <;> rfl
  constructor
  · intro z hz hasked
    subst hz
    have hkeep : (decide (pid = -1) || decide (z.pid = pid.toNat)) = true := by
      simpa [Asked] using hasked
    rw [hrun, Option.filter_some, if_pos hkeep]
  · intro hnot
    have hdrop : (zombie.filter fun z => decide (pid = -1) || decide (z.pid = pid.toNat)) =
        none := by
      cases zombie with
      | none => rfl
      | some z =>
        have hz := not_or.mp (hnot z rfl)
        simp only [Option.filter_some, hz.1, hz.2, decide_false,
          Bool.or_self, Bool.false_eq_true, if_false]
    rw [hrun, hdrop]
    rfl

/-- The search finds the child that was asked for: it is reported, or the report
fails; the child has left the scheduler. -/
theorem waitpidScan_asked (statusPtr : Word) (hpid : pid = -1 ∨ 0 < pid.toInt)
    (hstopped : wuntraced = true → m.sched.findStoppedChild parent = none)
    {z : Process} {s : Scheduler}
    (hfind : m.sched.findZombieChild parent = (some z, s)) (hasked : Asked pid z) :
    (∃ k, reported sub statusPtr z m.rest = some k ∧
      waitpidScan sub pid statusPtr wuntraced parent m =
        .ok (some (.ok (BitVec.ofNat 64 z.pid))) { m.withSched s with rest := k }) ∨
    (∃ e k, reported sub statusPtr z m.rest = none ∧
      waitpidScan sub pid statusPtr wuntraced parent m =
        .ok (some (.error e)) { m.withSched s with rest := k }) := by
  have hscan := (waitpidScan_search sub statusPtr hpid hstopped hfind).1 z rfl hasked
  rw [hscan]
  simp only [Functor.map, EStateM.map]
  obtain ⟨k, hreport, hreap⟩ | ⟨e, k, hreport, hreap⟩ :=
    reapChild_run sub z statusPtr (m.withSched s)
  · exact .inl ⟨k, hreport, by rw [hreap]⟩
  · exact .inr ⟨e, k, hreport, by rw [hreap]⟩

theorem waitpidHandler_run {statusPtr : Word} {options : BitVec 32} {m' : Machine κ} {c : Process}
    {found : Option SyscallResult} (hcur : m.sched.current = some c)
    (hoptions : options = 0 ∨ options = 2)
    (hscan : waitpidScan sub pid statusPtr (options &&& 2 != 0) c.pid m = .ok found m') :
    waitpidHandler sub pid statusPtr options m =
      match found with
      | some r => .ok r m'
      | none => waitForChild sub pid statusPtr (options &&& 2 != 0) c.pid m' := by
  have hvalid : ¬ (options ≠ 0 ∧ options ≠ 2) := by
    rcases hoptions with rfl | rfl <;> simp
  unfold waitpidHandler
  simp only [if_neg hvalid, bind, EStateM.bind, Lib.get_apply, hcur, hscan]
  cases found <;> rfl

/-- `yield_handler` gives the processor away, or returns with no current process. -/
theorem yieldHandler_ends (m : Machine κ) :
    ∃ m' : Machine κ, m'.sched = (m.mapCurrent (·.setRax 0)).sched.scheduleNext ∧
      ((yieldHandler : KernelM κ Unit) m = .error .toUser m' ∨
        ((yieldHandler : KernelM κ Unit) m = .ok () m' ∧ m'.sched.current = none)) := by
  unfold yieldHandler
  simp only [bind, EStateM.bind, Lib.modify_apply, Lib.get_apply]
  cases hnext : (m.mapCurrent (·.setRax 0)).sched.scheduleNext.current with
  | some next =>
    have hcur : ((m.mapCurrent (·.setRax 0)).withSched
        (m.mapCurrent (·.setRax 0)).sched.scheduleNext).sched.current = some next := hnext
    simp only [hcur]
    exact ⟨_, rfl, .inl rfl⟩
  | none =>
    have hcur : ((m.mapCurrent (·.setRax 0)).withSched
        (m.mapCurrent (·.setRax 0)).sched.scheduleNext).sched.current = none := hnext
    simp only [hcur]
    exact ⟨_, rfl, .inr ⟨rfl, hnext⟩⟩

/-- The caller with what `waitpid` and `yield_handler` change of it. -/
def asWaiting (pid : Word) (p : Process) : Process :=
  Process.setRax (if pid = -1 then p.blockOnAnyChild else p.blockOnChild pid.toNat) 0

theorem asWaiting_pid (pid : Word) (p : Process) : (asWaiting pid p).pid = p.pid := by
  unfold asWaiting
  split <;> rfl

theorem leaves_asWaiting (pid : Word) (p : Process) : leaves (asWaiting pid p) = leaves p := by
  unfold asWaiting
  split <;> exact leaves_congr rfl rfl

/-- A call that does not return an identifier. -/
def Fails (out : EStateM.Result Stop (Machine κ) SyscallResult) (m' : Machine κ) : Prop :=
  (∃ e, out = .ok (.error e) m') ∨ out = .error .toUser m'

/-- A caller that waits never gets a child's identifier from this call. -/
theorem waitForChild_run (pid statusPtr : Word) (wuntraced : Bool) (parent : Pid) (m : Machine κ) :
    ∃ m' : Machine κ, Fails (waitForChild sub pid statusPtr wuntraced parent m) m' ∧
      m'.sched = if m.sched.hasChildren parent && m.sched.current.isSome then
        { m.sched with current := m.sched.current.map (asWaiting pid) }.scheduleNext
      else m.sched := by
  unfold waitForChild
  simp only [bind, EStateM.bind, Lib.get_apply]
  cases hchildren : m.sched.hasChildren parent with
  | false => exact ⟨m, .inl ⟨_, rfl⟩, rfl⟩
  | true =>
    cases hcur : m.sched.current with
    | none =>
      simp only [if_true, EStateM.bind, Lib.get_apply, hcur]
      exact ⟨m, .inl ⟨_, rfl⟩, rfl⟩
    | some c =>
      simp only [if_true, EStateM.bind, Lib.get_apply, Lib.modify_apply, hcur]
      obtain ⟨m', hsched, hrun⟩ := yieldHandler_ends
        (m.mapCurrent fun p => if pid = -1 then p.blockOnAnyChild else p.blockOnChild pid.toNat)
      refine ⟨m', ?_, ?_⟩
      · rcases hrun with hrun | ⟨hrun, hnone⟩
        · right
          simp only [hrun]
        · left
          simp only [hrun, hnone]
          exact ⟨_, rfl⟩
      · rw [hsched]
        simp only [Machine.mapCurrent, hcur]
        rfl

/-! ## The whole call -/

variable {sub} {pid statusPtr : Word} {m m' : Machine κ}
  {out : EStateM.Result Stop (Machine κ) SyscallResult}

theorem ReapsAsked.of_perm (hout : Fails out m' ∨ ∃ r, out = .ok r m')
    (hperm : m'.pids.Perm m.pids) : ReapsAsked sub pid statusPtr m out := by
  rcases hout with (⟨e, rfl⟩ | rfl) | ⟨r, rfl⟩
  · exact .inl hperm
  · exact hperm
  · exact .inl hperm

/-- A call that removes a process and fails does not do what it may. -/
theorem ReapsAsked.perm_of_fails (hfails : Fails out m')
    (h : ReapsAsked sub pid statusPtr m out) : m'.pids.Perm m.pids := by
  rcases hfails with ⟨e, rfl⟩ | rfl
  · rcases h with hperm | ⟨c, z, -, -, -, -, -, hr, -⟩
    · exact hperm
    · cases hr
  · exact h

theorem pids_asWaiting (pid : Word) (s : Scheduler) :
    ({ s with current := s.current.map (asWaiting pid) } : Scheduler).allProcesses.map Process.pid =
      s.allProcesses.map Process.pid := by
  cases hcur : s.current <;> simp [allProcesses, hcur, asWaiting_pid]

/-- A process that was missing before the wait is missing after it. -/
theorem waitForChild_not_reapsAsked {m0 : Machine κ} (hlost : m.pids.length < m0.pids.length)
    (wuntraced : Bool) (parent : Pid) :
    ¬ ReapsAsked sub pid statusPtr m0 (waitForChild sub pid statusPtr wuntraced parent m) := by
  intro hreaps
  obtain ⟨m', hfails, hsched⟩ := waitForChild_run sub pid statusPtr wuntraced parent m
  have hle : m'.pids.length ≤ m.pids.length := by
    unfold Machine.pids
    rw [hsched]
    split
    · rw [← pids_asWaiting pid m.sched]
      exact (scheduleNext_subperm (fun _ _ _ _ => rfl) _).length_le
    · exact Nat.le_refl _
  have hlength := (hreaps.perm_of_fails hfails).length_eq
  omega

/-- A caller that waits stays, and with it every process, if and only if it does
not leave when it is scheduled away. -/
theorem waitForChild_reapsAsked_iff {c : Process} (hcur : m.sched.current = some c)
    (wuntraced : Bool) :
    ReapsAsked sub pid statusPtr m (waitForChild sub pid statusPtr wuntraced c.pid m) ↔
      (m.sched.hasChildren c.pid = true → leaves c = false) := by
  obtain ⟨m', hfails, hsched⟩ := waitForChild_run sub pid statusPtr wuntraced c.pid m
  cases hchildren : m.sched.hasChildren c.pid with
  | false =>
    rw [hchildren, Bool.false_and, if_neg Bool.false_ne_true] at hsched
    have hperm : m'.pids.Perm m.pids := by
      unfold Machine.pids
      rw [hsched]
    exact iff_of_true (.of_perm (.inl hfails) hperm) (fun h => by cases h)
  | true =>
    rw [hchildren, hcur, Option.isSome_some, Bool.true_and, if_pos rfl] at hsched
    have hwaiting : ({ m.sched with current := (some c).map (asWaiting pid) } :
        Scheduler).allProcesses.map Process.pid = m.pids := by
      have h := pids_asWaiting pid m.sched
      rwa [hcur] at h
    have hpids : m'.pids = ({ m.sched with current := (some c).map (asWaiting pid) } :
        Scheduler).scheduleNext.allProcesses.map Process.pid := by
      unfold Machine.pids
      rw [hsched]
    cases hleaves : leaves c with
    | false =>
      refine iff_of_true (.of_perm (.inl hfails) ?_) (fun _ => rfl)
      rw [hpids, ← hwaiting]
      refine scheduleNext_perm (fun _ _ _ _ => rfl) ?_
      intro c' hc'
      cases hc'
      rw [leaves_asWaiting, hleaves]
    | true =>
      refine iff_of_false ?_ (fun h => by cases h rfl)
      intro hreaps
      have hlost := scheduleNext_perm_of_leaves (f := Process.pid) (fun _ _ _ _ => rfl)
        (s := { m.sched with current := (some c).map (asWaiting pid) })
        rfl ((leaves_asWaiting pid c).trans hleaves)
      have hlength := (hreaps.perm_of_fails hfails).length_eq
      rw [hpids, hlost.length_eq, ← hwaiting] at hlength
      simp [allProcesses] at hlength

/-- **What waitpid reaps.** A call removes at most one process, which is a zombie
child of the caller that was asked for, returns its identifier and reports its exit
code, if and only if a search that the call makes finds what was asked for first. -/
theorem waitpid_reaps_asked_iff {κ : Type} (sub : Subsystems κ) (pid statusPtr : Word)
    (options : BitVec 32) (m : Machine κ) :
    ReapsAsked sub pid statusPtr m (waitpidHandler sub pid statusPtr options m) ↔
      ∀ c, m.sched.current = some c → Searches pid options m.sched c.pid →
        FirstIsAsked sub pid statusPtr m c := by
  by_cases hoptions : options = 0 ∨ options = 2
  swap
  · have hrun : waitpidHandler sub pid statusPtr options m = .ok (.error .einval) m := by
      unfold waitpidHandler
      rw [if_pos (not_or.mp hoptions)]
      rfl
    exact iff_of_true (.of_perm (.inr ⟨_, hrun⟩) (List.Perm.refl _))
      fun c _ hsearch => absurd hsearch.1 hoptions
  cases hcur : m.sched.current with
  | none =>
    have hrun : waitpidHandler sub pid statusPtr options m = .ok (.error .esrch) m := by
      have hvalid : ¬ (options ≠ 0 ∧ options ≠ 2) := by
        rcases hoptions with rfl | rfl <;> simp
      unfold waitpidHandler
      simp only [if_neg hvalid, bind, EStateM.bind, Lib.get_apply, hcur]
      rfl
    exact iff_of_true (.of_perm (.inr ⟨_, hrun⟩) (List.Perm.refl _)) fun c hc => by cases hc
  | some c =>
    have hflag : (options &&& 2 != 0) = true ↔ options = 2 := by
      rcases hoptions with rfl | rfl <;> decide
    by_cases hsearch : Searches pid options m.sched c.pid
    · have hiff : (∀ c', some c = some c' → Searches pid options m.sched c'.pid →
          FirstIsAsked sub pid statusPtr m c') ↔ FirstIsAsked sub pid statusPtr m c := by
        constructor
        · intro h
          exact h c rfl hsearch
        · rintro h c' ⟨rfl⟩ -
          exact h
      rw [hiff]
      obtain ⟨-, hpid, hstopped⟩ := hsearch
      have hstop : (options &&& 2 != 0) = true → m.sched.findStoppedChild c.pid = none :=
        fun h => hstopped (hflag.mp h)
      unfold FirstIsAsked
      obtain ⟨hnone, hfind⟩ | ⟨z, s, hsome, hfind, hperm⟩ := m.sched.findZombieChild_spec c.pid
      · -- no zombie: the caller waits
        have hscan := (waitpidScan_search sub statusPtr hpid hstop hfind).2
          (fun z hz => by cases hz)
        rw [waitpidHandler_run sub hcur hoptions hscan, hnone]
        exact waitForChild_reapsAsked_iff (m := m.withSched m.sched) hcur _
      · have hlength : (m.withSched s).pids.length < m.pids.length := by
          have h := hperm.length_eq
          simp only [List.length_cons] at h
          simp only [Machine.pids, Machine.withSched, List.length_map]
          omega
        rw [hsome]
        by_cases hasked : Asked pid z
        · obtain ⟨k, hreport, hscan⟩ | ⟨e, k, hreport, hscan⟩ :=
            waitpidScan_asked sub statusPtr hpid hstop hfind hasked
          · have hmem : z ∈ m.sched.allProcesses := hperm.subset List.mem_cons_self
            have hzombie : isZombieOf c.pid z = true := List.find?_some hsome
            rw [waitpidHandler_run sub hcur hoptions hscan]
            refine iff_of_true ?_ ⟨hasked, by rw [hreport]; rfl⟩
            exact .inr ⟨c, z, hcur, hmem, hzombie, hasked, hperm.map Process.pid, rfl, hreport⟩
          · rw [waitpidHandler_run sub hcur hoptions hscan]
            refine iff_of_false ?_ ?_
            · intro hreaps
              exact hlength.ne (hreaps.perm_of_fails (.inl ⟨e, rfl⟩)).length_eq
            · rintro ⟨-, hsomek⟩
              rw [hreport] at hsomek
              cases hsomek
        · -- the zombie is gone, and the caller goes on to wait
          have hscan := (waitpidScan_search sub statusPtr hpid hstop hfind).2
            (fun z' hz' => by cases hz'; exact hasked)
          rw [waitpidHandler_run sub hcur hoptions hscan]
          exact iff_of_false (waitForChild_not_reapsAsked hlength _ _) fun h => hasked h.1
    · have hother : ¬ ((pid = -1 ∨ 0 < pid.toInt) ∧ ((options &&& 2 != 0) = true →
          m.sched.findStoppedChild c.pid = none)) := by
        intro h
        exact hsearch ⟨hoptions, h.1, fun h2 => h.2 (hflag.mpr h2)⟩
      obtain ⟨r, m', hscan, hsched⟩ := waitpidScan_other sub statusPtr hother
      rw [waitpidHandler_run sub hcur hoptions hscan]
      refine iff_of_true (.of_perm (.inr ⟨r, rfl⟩) ?_) ?_
      · unfold Machine.pids
        rw [hsched]
      · rintro c' ⟨rfl⟩ hsearch'
        exact absurd hsearch' hsearch

end

/-! ## A zombie that nobody asked for -/

/-- A kernel that can write every status and free every address space. -/
def obliging : Subsystems Unit where
  debug := true
  call := fun _ _ _ k => (⟨some (.error .enosys), [], id⟩, k)
  execArgs := fun _ _ => some .efault
  exec := fun _ p k => (⟨some .enoent, p.toProcMem, p.context⟩, k)
  forkSpace := fun _ k => (none, k)
  copyToUser := fun _ _ k => (none, k)
  freeSpace := fun _ k => (true, k)

/-- A process on the processor, with two zombie children in the queue. -/
def twoZombies : Machine Unit where
  sched :=
    { readyQueue :=
        [(Life.newProcess 2 (some 1)).setZombie 7, (Life.newProcess 3 (some 1)).setZombie 0]
      current := some { Life.newProcess 1 none with state := .running }
      foregroundPgid := none }
  slot := CpuContext.newUser 0 0 0 0
  needResched := false
  nextPid := 4
  contextSwitches := 0
  pendingReap := 0
  onCpu := 1
  regs := loadRegs (CpuContext.newUser 0 0 0 0)
  rest := ()

/-- `waitpid(3)` removes the zombie 2, and returns nothing. -/
theorem waitpid_reaps_another :
    ∃ m', waitpidHandler obliging 3 0 0 twoZombies = .error .toUser m' ∧ m'.pids = [3, 1] ∧
      ¬ ReapsAsked obliging 3 0 twoZombies (waitpidHandler obliging 3 0 0 twoZombies) := by
  obtain ⟨m', hrun⟩ : ∃ m', waitpidHandler obliging 3 0 0 twoZombies = .error .toUser m' :=
    ⟨_, rfl⟩
  have hpids : m'.pids = [3, 1] := by
    cases hrun
    decide
  refine ⟨m', hrun, hpids, ?_⟩
  rw [hrun]
  show ¬ m'.pids.Perm twoZombies.pids
  rw [hpids]
  decide

end PandaOS.Kernel
