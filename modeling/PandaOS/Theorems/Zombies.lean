import PandaOS.Kernel.Lifecycle

/-!
# Zombies

A child that terminates while its parent exists should stay in the scheduler
as a zombie until the parent reaps it, once. The scheduler does not keep to
this: `schedule_next` counts a zombie as exited and drops its record, a SIGINT
drops the record without making a zombie of it, and `waitpid` for one child
takes whichever zombie comes first out of the scheduler.

`zombies_kept` is the property for the runs that do none of these;
`schedule_loses_zombie` says that the first always loses the child.
-/

namespace PandaOS.Kernel.Life

open Scheduler

variable {p q : Process} {parent : Pid} {s : Scheduler} {l l' : Life} {x : Pid × Pid} {status : Int}

/-- What the life cycle reads of a process record. -/
def ident (p : Process) : Pid × Option Pid × ProcessState := (p.pid, p.parentPid, p.state)

theorem isExited_of_ident (h : ident p = ident q) : p.isExited = q.isExited := by
  simp only [ident, Prod.mk.injEq] at h
  simp [Process.isExited, h.2.2]

theorem isZombieOf_of_ident (h : ident p = ident q) (parent : Pid) :
    isZombieOf parent p = isZombieOf parent q := by
  simp only [ident, Prod.mk.injEq] at h
  simp [isZombieOf, Process.isZombie, h.2.1, h.2.2]

theorem isExited_of_isZombieOf (h : isZombieOf parent p = true) : p.isExited = true := by
  simp only [isZombieOf, Process.isZombie, Bool.and_eq_true] at h
  unfold Process.isExited
  split at h <;> simp_all

theorem livingParent_eq_some : livingParent s p = some parent ↔ p.parentPid = some parent ∧
      ∃ q ∈ s.allProcesses, q.pid = parent ∧ q.isExited = false := by
  simp [livingParent, Option.filter_eq_some_iff]

/-- The invariant: records have distinct identifiers, older than their
children's; the queue holds no exited process; and a terminated child that is
not reaped yet is the current process, a zombie whose parent lives. -/
structure Kept (l : Life) : Prop where
  nodup : (l.sched.allProcesses.map Process.pid).Nodup
  fresh : ∀ q ∈ l.sched.allProcesses, q.pid < l.nextPid
  older : ∀ q ∈ l.sched.allProcesses, ∀ parent, q.parentPid = some parent → parent < q.pid
  queueLive : ∀ q ∈ l.sched.readyQueue, q.isExited = false
  reapedFresh : ∀ x ∈ l.reaped, x.1 < l.nextPid
  reapedGone : ∀ x ∈ l.reaped, ∀ q ∈ l.sched.allProcesses, q.pid ≠ x.1
  reapedOnce : l.reaped.Nodup
  waiting : ∀ x ∈ l.terminated, x ∈ l.reaped ∨ ∃ c, l.sched.current = some c ∧
    c.pid = x.1 ∧ isZombieOf x.2 c = true ∧ livingParent l.sched c = some x.2

theorem Kept.zombiesKept (h : Kept l) : ZombiesKept l := by
  intro x hx
  rcases h.waiting x hx with hreaped | ⟨c, hcur, hpid, hz, -⟩
  · exact .inr (List.count_eq_one_of_mem h.reapedOnce hreaped)
  · have hmem : c ∈ l.sched.allProcesses := by simp [allProcesses, hcur]
    refine .inl ⟨fun hreaped => ?_, c, hmem, hpid, hz⟩
    exact h.reapedGone x hreaped c hmem hpid

/-- Nothing is waiting to be reaped unless the current process has exited. -/
theorem Kept.all_reaped (h : Kept l)
    (hcur : ∀ c, l.sched.current = some c → livingParent l.sched c = none ∨ c.isExited = false) :
    ∀ x ∈ l.terminated, x ∈ l.reaped := by
  intro x hx
  rcases h.waiting x hx with hreaped | ⟨c, hc, -, hz, hparent⟩
  · exact hreaped
  · rcases hcur c hc with hnone | hlive
    · rw [hnone] at hparent
      cases hparent
    · rw [isExited_of_isZombieOf hz] at hlive
      cases hlive

theorem boot_kept : Kept boot := by
  refine ⟨?_, ?_, ?_, ?_, ?_, ?_, ?_, ?_⟩ <;> simp [boot, Scheduler.new, allProcesses]

/-! ## One lemma for each kind of action -/

/-- No record is new, and no child is reaped. -/
theorem Kept.records (h : Kept l) (hback : ∀ q' ∈ l'.sched.allProcesses,
      ∃ q ∈ l.sched.allProcesses, q.pid = q'.pid ∧ q.parentPid = q'.parentPid)
    (hnodup : (l'.sched.allProcesses.map Process.pid).Nodup)
    (hlive : ∀ q ∈ l'.sched.readyQueue, q.isExited = false) (hnext : l'.nextPid = l.nextPid)
    (hreap : l'.reaped = l.reaped)
    (hwaiting : ∀ x ∈ l'.terminated, x ∈ l.reaped ∨ ∃ c, l'.sched.current = some c ∧
      c.pid = x.1 ∧ isZombieOf x.2 c = true ∧ livingParent l'.sched c = some x.2) : Kept l' := by
  refine ⟨hnodup, ?_, ?_, hlive, ?_, ?_, hreap ▸ h.reapedOnce, hreap ▸ hwaiting⟩
  · intro q' hq'
    obtain ⟨q, hq, hpid, -⟩ := hback q' hq'
    rw [hnext, ← hpid]
    exact h.fresh q hq
  · intro q' hq' parent hp
    obtain ⟨q, hq, hpid, hpar⟩ := hback q' hq'
    exact hpid ▸ h.older q hq parent (hpar.trans hp)
  · rw [hreap, hnext]
    exact h.reapedFresh
  · intro x hx q' hq'
    obtain ⟨q, hq, hpid, -⟩ := hback q' hq'
    exact hpid ▸ h.reapedGone x (hreap ▸ hx) q hq

/-- Changes that keep identifiers, parents and states: signals, wake-ups and
blocking. -/
theorem Kept.relabel (h : Kept l) (hcur : l'.sched.current.map ident = l.sched.current.map ident)
    (hqueue : l'.sched.readyQueue.map ident = l.sched.readyQueue.map ident)
    (hnext : l'.nextPid = l.nextPid)
    (hterm : l'.terminated = l.terminated) (hreap : l'.reaped = l.reaped) : Kept l' := by
  have hall : l'.sched.allProcesses.map ident = l.sched.allProcesses.map ident := by
    have hlist := congrArg Option.toList hcur
    simp only [Option.toList_map] at hlist
    rw [allProcesses, allProcesses, List.map_append, List.map_append, hlist, hqueue]
  -- every record has a counterpart with the same identity, in both directions
  have hback : ∀ q' ∈ l'.sched.allProcesses, ∃ q ∈ l.sched.allProcesses, ident q = ident q' := by
    intro q' hq'
    have hmem := List.mem_map_of_mem (f := ident) hq'
    rw [hall] at hmem
    exact List.mem_map.mp hmem
  have hforth : ∀ q ∈ l.sched.allProcesses, ∃ q' ∈ l'.sched.allProcesses, ident q' = ident q := by
    intro q hq
    have hmem := List.mem_map_of_mem (f := ident) hq
    rw [← hall] at hmem
    exact List.mem_map.mp hmem
  refine h.records (fun q' hq' => ?_) ?_ (fun q' hq' => ?_) hnext hreap fun x hx => ?_
  · obtain ⟨q, hq, heq⟩ := hback q' hq'
    simp only [ident, Prod.mk.injEq] at heq
    exact ⟨q, hq, heq.1, heq.2.1⟩
  · have hpids := congrArg (List.map Prod.fst) hall
    simp only [List.map_map] at hpids
    exact hpids ▸ h.nodup
  · have hmem := List.mem_map_of_mem (f := ident) hq'
    rw [hqueue] at hmem
    obtain ⟨q, hq, heq⟩ := List.mem_map.mp hmem
    rw [← isExited_of_ident heq]
    exact h.queueLive q hq
  · rw [hterm] at hx
    rcases h.waiting x hx with hreaped | ⟨c, hc, hpid, hz, hparent⟩
    · exact .inl hreaped
    · rw [hc, Option.map_some, Option.map_eq_some_iff] at hcur
      obtain ⟨c', hc', heq⟩ := hcur
      refine .inr ⟨c', hc', ?_, (isZombieOf_of_ident heq _).trans hz, ?_⟩
      · have := congrArg Prod.fst heq
        exact this.trans hpid
      · obtain ⟨hpp, q, hq, hqpid, hlive⟩ := livingParent_eq_some.mp hparent
        obtain ⟨q', hq', heq'⟩ := hforth q hq
        have hid := heq'
        have hid' := heq
        simp only [ident, Prod.mk.injEq] at hid hid'
        exact livingParent_eq_some.mpr ⟨hid'.2.1.trans hpp, q', hq', hid.1.trans hqpid,
          (isExited_of_ident heq').trans hlive⟩

/-- A change of the current process alone that keeps its identity. -/
theorem Kept.mapCurrent (h : Kept l) {f : Process → Process} (hf : ∀ p, ident (f p) = ident p) :
    Kept (l.mapCurrent f) := by
  refine h.relabel ?_ rfl rfl rfl rfl
  cases hc : l.sched.current <;> simp [Life.mapCurrent, hc, hf]

theorem Kept.wake (h : Kept l) (child : Pid) :
    Kept { l with sched := l.sched.wakeWaitersForChild child } := by
  have hid : ident ∘ Process.wakeFor child = ident := by
    funext p
    simp [ident]
  refine h.relabel ?_ ?_ rfl rfl rfl
  · simp [wakeWaitersForChild, hid]
  · simp [wakeWaitersForChild, hid]

theorem Kept.signalGroup (h : Kept l) (pgid : Pid) (signal : Signal) :
    Kept { l with sched := (l.sched.signalProcessGroup pgid signal).2 } := by
  have hid : (ident ∘ fun p : Process => if p.pgid = pgid then p.sendSignal signal else p) =
      ident := by
    funext p
    simp only [Function.comp_apply]
    split <;> rfl
  refine h.relabel ?_ ?_ rfl rfl rfl
  · simp [signalProcessGroup, hid]
  · simp [signalProcessGroup, hid]

theorem Kept.add (h : Kept l) (hstep : l.step (.add p) = some l') : Kept l' := by
  simp only [step] at hstep
  split at hstep
  · rename_i hguard
    obtain ⟨hnew, holder⟩ := hguard
    unfold addProcess at hstep
    split at hstep
    · rename_i hready
      cases hstep
      have hmem : ∀ q, q ∈ ({ l.sched with readyQueue := l.sched.readyQueue ++ [p] } :
          Scheduler).allProcesses ↔ q ∈ l.sched.allProcesses ∨ q = p := by
        intro q
        simp [allProcesses, or_assoc]
      -- pids only grow: the process is younger than all others
      have hlt : ∀ q ∈ l.sched.allProcesses, q.pid < p.pid :=
        fun q hq => lt_of_lt_of_le (h.fresh q hq) hnew
      refine ⟨?_, ?_, ?_, ?_, ?_, ?_, h.reapedOnce, ?_⟩
      · have hlist : ({ l.sched with readyQueue := l.sched.readyQueue ++ [p] } :
            Scheduler).allProcesses = l.sched.allProcesses ++ [p] := by
          simp [allProcesses]
        rw [hlist, List.map_append, List.nodup_append]
        refine ⟨h.nodup, by simp, ?_⟩
        intro a ha b hb
        obtain ⟨q, hq, rfl⟩ := List.mem_map.mp ha
        have hb' : b = p.pid := by simpa using hb
        exact hb' ▸ (hlt q hq).ne
      · intro q hq
        rcases (hmem q).mp hq with hq | rfl
        · exact Nat.lt_succ_of_lt (hlt q hq)
        · exact Nat.lt_succ_self _
      · intro q hq parent hp
        rcases (hmem q).mp hq with hq | rfl
        · exact h.older q hq parent hp
        · have hpar : parent < l.nextPid := by simpa [hp] using holder
          exact lt_of_lt_of_le hpar hnew
      · intro q hq
        rcases List.mem_append.mp hq with hq | hq
        · exact h.queueLive q hq
        · rw [List.mem_singleton.mp hq]
          simp [Process.isExited, hready]
      · intro x hx
        exact Nat.lt_succ_of_lt (lt_of_lt_of_le (h.reapedFresh x hx) hnew)
      · intro x hx q hq
        rcases (hmem q).mp hq with hq | rfl
        · exact h.reapedGone x hx q hq
        · exact (lt_of_lt_of_le (h.reapedFresh x hx) hnew).ne'
      · intro x hx
        refine (h.waiting x hx).imp id ?_
        rintro ⟨c, hc, hpid, hz, hparent⟩
        obtain ⟨hpp, q, hq, hrest⟩ := livingParent_eq_some.mp hparent
        exact ⟨c, hc, hpid, hz, livingParent_eq_some.mpr ⟨hpp, q, (hmem q).mpr (.inl hq), hrest⟩⟩
    · cases hstep
  · cases hstep

/-! ### Scheduling -/

theorem pickNext_queue_subset (s : Scheduler) :
    ∀ q ∈ (pickNext s.readyQueue.length s).readyQueue, q ∈ s.readyQueue := by
  intro q hq
  obtain ⟨before, p, after, hqueue, -, -, hpick⟩ | ⟨-, hpick⟩ := pickNext_cases s
  · rw [hpick] at hq
    rw [hqueue]
    rcases List.mem_append.mp hq with hafter | hbefore
    · exact List.mem_append_right _ (List.mem_cons_of_mem p hafter)
    · exact List.mem_append_left _ hbefore
  · rwa [hpick] at hq

/-- What is requeued has not exited. -/
theorem requeueCurrent_live (h : ∀ q ∈ s.readyQueue, q.isExited = false) :
    ∀ q ∈ s.requeueCurrent.readyQueue, q.isExited = false := by
  have hpush : ∀ p : Process, p.isExited = false →
      ∀ q ∈ s.readyQueue ++ [p], q.isExited = false := by
    intro p hp q hq
    rcases List.mem_append.mp hq with hq | hq
    · exact h q hq
    · rw [List.mem_singleton.mp hq]
      exact hp
  unfold requeueCurrent
  cases s.current with
  | none => exact h
  | some proc =>
    simp only
    split
    · exact h
    · split
      · exact h
      · rename_i p _
        intro q hq
        obtain ⟨q0, hq0, rfl⟩ := List.mem_map.mp hq
        rw [Process.wakeFor_isExited]
        exact hpush p.setStopped rfl q0 hq0
      · exact hpush _ rfl

theorem scheduleNext_live (h : ∀ q ∈ s.readyQueue, q.isExited = false) :
    ∀ q ∈ s.scheduleNext.readyQueue, q.isExited = false :=
  fun q hq => requeueCurrent_live h q (pickNext_queue_subset _ q hq)

/-- After a `schedule_next` that loses no child, none is waiting. -/
theorem Kept.schedule (h : Kept l) (hok : LosesNone l .schedule)
    (hstep : l.step .schedule = some l') : Kept l' := by
  have hreaped : ∀ x ∈ l.terminated, x ∈ l.reaped :=
    h.all_reaped fun c hc => (hok c hc).imp id And.left
  -- a SIGINT that is noted would be of a child with a living parent
  have hnoted : l' = { l with sched := l.sched.scheduleNext } := by
    simp only [step, Option.some.injEq] at hstep
    rw [← hstep]
    cases hc : l.sched.current with
    | none => rfl
    | some c =>
      simp only
      split
      · rename_i hkill
        rcases hok c hc with hnone | ⟨-, hno⟩
        · rw [noteDeath, hnone]
        · rw [hkill] at hno
          cases hno
      · rfl
  subst hnoted
  have hstable : Stable fun p : Process => (p.pid, p.parentPid) := fun _ _ _ _ => rfl
  have hsub := scheduleNext_subperm hstable l.sched
  refine h.records (fun q' hq' => ?_) ?_ (scheduleNext_live h.queueLive) rfl rfl fun x hx =>
    .inl (hreaped x hx)
  · obtain ⟨q, hq, heq⟩ := List.mem_map.mp (hsub.subset (List.mem_map_of_mem hq'))
    simp only [Prod.mk.injEq] at heq
    exact ⟨q, hq, heq⟩
  · obtain ⟨k, hperm, hk⟩ := scheduleNext_subperm (f := Process.pid) (fun _ _ _ _ => rfl) l.sched
    exact hperm.nodup_iff.mp (h.nodup.sublist hk)

/-! ### Exit -/

@[simp] theorem noteDeath_sched (l : Life) (p : Process) : (l.noteDeath p).sched = l.sched := by
  unfold noteDeath
  split <;> rfl

@[simp] theorem noteDeath_nextPid (l : Life) (p : Process) :
    (l.noteDeath p).nextPid = l.nextPid := by
  unfold noteDeath
  split <;> rfl

@[simp] theorem noteDeath_reaped (l : Life) (p : Process) : (l.noteDeath p).reaped = l.reaped := by
  unfold noteDeath
  split <;> rfl

theorem mem_noteDeath (hx : x ∈ (l.noteDeath p).terminated) :
    x ∈ l.terminated ∨ x.1 = p.pid ∧ livingParent l.sched p = some x.2 := by
  unfold noteDeath at hx
  split at hx
  · rename_i parent hparent
    rcases List.mem_append.mp hx with hx | hx
    · exact .inl hx
    · rw [List.mem_singleton.mp hx]
      exact .inr ⟨rfl, hparent⟩
  · exact .inl hx

theorem markExit_pid (status : Int) (p : Process) : (markExit status p).pid = p.pid := by
  unfold markExit
  split <;> rfl

theorem markExit_parentPid (status : Int) (p : Process) :
    (markExit status p).parentPid = p.parentPid := by
  unfold markExit
  split <;> rfl

theorem markExit_isZombieOf (h : p.parentPid = some parent) :
    isZombieOf parent (markExit status p) = true := by
  simp [markExit, h, isZombieOf, Process.isZombie, Process.setZombie]

/-- The marked process stays current; its parent is another process and lives on. -/
theorem Kept.exit (h : Kept l) (hstep : l.step (.exit status) = some l') : Kept l' := by
  simp only [step] at hstep
  cases hcur : l.sched.current with
  | none => simp [hcur] at hstep
  | some c =>
    rw [hcur] at hstep
    simp only at hstep
    split at hstep
    · cases hstep
    · rename_i hlive
      cases hstep
      have hreaped := h.all_reaped fun c' hc' => by
        rw [hcur] at hc'
        cases hc'
        exact .inr (by simpa using hlive)
      refine .wake ?_ c.pid
      have hall : l.sched.allProcesses = c :: l.sched.readyQueue := by
        simp [allProcesses, hcur]
      have hall' : ((l.noteDeath c).mapCurrent (markExit status)).sched.allProcesses =
          markExit status c :: l.sched.readyQueue := by
        simp [Life.mapCurrent, allProcesses, hcur]
      refine h.records (fun q' hq' => ?_) ?_ ?_ (noteDeath_nextPid l c)
        (noteDeath_reaped l c) fun x hx => ?_
      · rw [hall', List.mem_cons] at hq'
        rcases hq' with rfl | hq'
        · exact ⟨c, by simp [hall], (markExit_pid status c).symm,
            (markExit_parentPid status c).symm⟩
        · exact ⟨q', by simp [hall, hq'], rfl, rfl⟩
      · have hnd := h.nodup
        rw [hall] at hnd
        rw [hall']
        simpa [markExit_pid] using hnd
      · show ∀ q ∈ (l.noteDeath c).sched.readyQueue, q.isExited = false
        rw [noteDeath_sched]
        exact h.queueLive
      · rcases mem_noteDeath hx with hold | ⟨hpid, hparent⟩
        · exact .inl (hreaped x hold)
        · obtain ⟨hpp, q, hq, hqpid, hqlive⟩ := livingParent_eq_some.mp hparent
          refine .inr ⟨markExit status c, by simp [Life.mapCurrent, hcur],
            (markExit_pid status c).trans hpid.symm, markExit_isZombieOf hpp,
            livingParent_eq_some.mpr ⟨(markExit_parentPid status c).trans hpp,
              q, ?_, hqpid, hqlive⟩⟩
          -- the parent is older than the child, so it is not the one that was marked
          rw [hall, List.mem_cons] at hq
          rw [hall']
          rcases hq with rfl | hq
          · have hlt := h.older q (by simp [hall]) x.2 hpp
            exact absurd hqpid hlt.ne'
          · exact List.mem_cons_of_mem _ hq

/-! ### Reaping -/

theorem findZombieChild_cases (hlive : ∀ q ∈ s.readyQueue, q.isExited = false) (parent : Pid) :
    (s.findZombieChild parent = (none, s)) ∨ ∃ c, s.current = some c ∧ isZombieOf parent c = true ∧
        s.findZombieChild parent = (some c, { s with current := none }) := by
  have hqueue : s.takeQueuedZombie parent = (none, s) := by
    have hnone : s.readyQueue.find? (isZombieOf parent) = none := by
      rw [List.find?_eq_none]
      intro q hq hz
      have := isExited_of_isZombieOf hz
      rw [hlive q hq] at this
      cases this
    rw [takeQueuedZombie, hnone]
  unfold findZombieChild
  cases hcur : s.current with
  | none => exact .inl hqueue
  | some c =>
    cases hz : isZombieOf parent c with
    | true => exact .inr ⟨c, rfl, hz, by simp [hz]⟩
    | false => exact .inl (by simpa [hz] using hqueue)

theorem Kept.reap (h : Kept l) {want : Option Pid} {completes : Bool}
    (hok : LosesNone l (.reap parent want completes))
    (hstep : l.step (.reap parent want completes) = some l') :
    Kept l' := by
  rcases findZombieChild_cases h.queueLive parent with hfind | ⟨c, hcur, hz, hfind⟩
  · simp only [step, hfind, Option.filter_none, Option.some.injEq] at hstep
    exact hstep ▸ h
  · obtain ⟨hdone, hwant⟩ := hok c (by rw [hfind])
    simp only [step, hfind, Option.filter_some, hwant, if_true, hdone, Option.some.injEq] at hstep
    subst hstep
    have hall : l.sched.allProcesses = c :: l.sched.readyQueue := by
      simp [allProcesses, hcur]
    have hmem : ∀ q ∈ l.sched.readyQueue, q ∈ l.sched.allProcesses := by
      intro q hq
      simp [hall, hq]
    have hnd := h.nodup
    rw [hall, List.map_cons, List.nodup_cons] at hnd
    have hnew : (c.pid, parent) ∉ l.reaped := fun hin =>
      h.reapedGone _ hin c (by simp [hall]) rfl
    refine ⟨hnd.2, fun q hq => h.fresh q (hmem q hq), fun q hq => h.older q (hmem q hq),
      h.queueLive, ?_, ?_, ?_, ?_⟩
    · intro x hx
      rcases List.mem_append.mp hx with hx | hx
      · exact h.reapedFresh x hx
      · rw [List.mem_singleton.mp hx]
        exact h.fresh c (by simp [hall])
    · intro x hx q hq
      have hq' : q ∈ l.sched.readyQueue := hq
      rcases List.mem_append.mp hx with hx | hx
      · exact h.reapedGone x hx q (hmem q hq')
      · rw [List.mem_singleton.mp hx]
        intro heq
        have hin := List.mem_map_of_mem (f := Process.pid) hq'
        rw [heq] at hin
        exact hnd.1 hin
    · rw [List.nodup_append]
      refine ⟨h.reapedOnce, by simp, ?_⟩
      intro a ha b hb
      rw [List.mem_singleton.mp hb]
      exact fun heq => hnew (heq ▸ ha)
    · intro x hx
      refine .inl (List.mem_append.mpr ?_)
      rcases h.waiting x hx with hreaped | ⟨c', hc', hpid, hz', -⟩
      · exact .inl hreaped
      · -- the zombie that waits is the one just reaped, and this is its parent
        rw [hcur] at hc'
        cases hc'
        have hpar : some x.2 = some parent := by
          simp only [isZombieOf, Bool.and_eq_true, beq_iff_eq] at hz hz'
          exact hz'.2.symm.trans hz.2
        refine .inr (List.mem_singleton.mpr ?_)
        exact Prod.ext hpid.symm (Option.some.inj hpar)

/-! ## Whole runs -/

/-- One action that loses no child keeps the invariant. -/
theorem Kept.step (h : Kept l) {a : Action} (hok : LosesNone l a) (hstep : l.step a = some l') :
    Kept l' := by
  cases a with
  | add p => exact h.add hstep
  | schedule => exact h.schedule hok hstep
  | exit status => exact h.exit hstep
  | signalCurrent signal =>
    cases hstep
    exact h.mapCurrent fun _ => rfl
  | signalGroup pgid signal =>
    cases hstep
    exact h.signalGroup pgid signal
  | wake child =>
    cases hstep
    exact h.wake child
  | blockOnAnyChild =>
    cases hstep
    exact h.mapCurrent fun _ => rfl
  | blockOnChild child =>
    cases hstep
    exact h.mapCurrent fun _ => rfl
  | reap parent want completes => exact h.reap hok hstep

theorem runs_kept : (runs LosesNone).Invariant Kept :=
  Lib.TSys.Inductive.invariant
    { init := fun _ h0 => h0 ▸ boot_kept
      step := fun _ _ h ⟨_, hok, hstep⟩ => h.step hok hstep }

/-- **Zombies stay until reaped.** In every run whose actions lose no child, a
child that terminated while its parent existed is a zombie the parent can find,
or the parent has reaped it exactly once. -/
theorem zombies_kept {l : Life} (hreach : (runs LosesNone).Reachable l) : ZombiesKept l :=
  (runs_kept l hreach).zombiesKept

/-- `schedule_next` drops the record of a current process that has exited. -/
theorem scheduleNext_drops_exited {c : Process} (hcur : s.current = some c)
    (hexit : c.isExited = true) (hnd : (s.allProcesses.map Process.pid).Nodup) :
    ∀ q ∈ s.scheduleNext.allProcesses, q.pid ≠ c.pid := by
  have hleaves : leaves c = true := by simp [leaves, hexit]
  have hperm := scheduleNext_perm_of_leaves (f := Process.pid) (fun _ _ _ _ => rfl) hcur hleaves
  have hall : s.allProcesses = c :: s.readyQueue := by simp [allProcesses, hcur]
  rw [hall, List.map_cons, List.nodup_cons] at hnd
  intro q hq heq
  have hin := hperm.mem_iff.mp (List.mem_map_of_mem hq)
  rw [heq] at hin
  exact hnd.1 hin

/-- Scheduling always loses a zombie that waits to be reaped. -/
theorem schedule_loses_zombie (h : Kept l) (hx : x ∈ l.terminated)
    (hwait : x ∉ l.reaped) (hstep : l.step .schedule = some l') :
    ¬ ZombiesKept l' := by
  rcases h.waiting x hx with hreaped | ⟨c, hcur, hpid, hz, -⟩
  · exact absurd hreaped hwait
  · have hexit := isExited_of_isZombieOf hz
    have hkill : sigintKills c = false := by simp [sigintKills, hexit]
    simp only [Life.step, hcur, hkill, Bool.false_eq_true, if_false, Option.some.injEq] at hstep
    subst hstep
    intro hkept
    rcases hkept x hx with ⟨-, q, hq, hqpid, -⟩ | hcount
    · exact scheduleNext_drops_exited hcur hexit h.nodup q hq (hqpid.trans hpid.symm)
    · have hzero : l.reaped.count x = 0 := List.count_eq_zero_of_not_mem hwait
      exact absurd (hzero.symm.trans hcount) (by decide)

/-! ## A child that is lost -/

/-- A new process with nothing mapped. -/
def newProcess (pid : Pid) (parent : Option Pid) : Process where
  entryPoint := 0
  userStackPtr := 0
  kernelStackPtr := 0
  pageTablePhys := 0x1000 * pid
  heap := ⟨0, 0, 0⟩
  mappings := []
  mmapBase := 0
  vmRegions := []
  pid := pid
  pgid := pid
  parentPid := parent
  state := .ready
  waitState := .notWaiting
  context := CpuContext.newUser 0 0 0 0
  pendingSignals := 0

/-- A parent and its child on the processor: the child exits, and then the parent reaps
it. Nothing in this loses a child. -/
theorem child_exits : ∃ l l', ((runs LosesNone).Reachable l ∧ l.terminated = [(2, 1)] ∧ l.reaped =
    []) ∧ (runs LosesNone).Reachable l' ∧ l'.terminated = [(2, 1)] ∧ l'.reaped = [(2, 1)] := by
  have h0 : (runs LosesNone).Reachable boot := .init rfl
  have h1 := Lib.TSys.Reachable.step h0 ⟨.add (newProcess 1 none), trivial, rfl⟩
  have h2 := Lib.TSys.Reachable.step h1 ⟨.schedule, (by intro c hc; cases hc), rfl⟩
  have h3 := Lib.TSys.Reachable.step h2 ⟨.add (newProcess 2 (some 1)), trivial, rfl⟩
  have h4 := Lib.TSys.Reachable.step h3
    ⟨.schedule, (by intro c hc; cases hc; exact .inl rfl), rfl⟩
  have h5 := Lib.TSys.Reachable.step h4 ⟨.exit 0, trivial, rfl⟩
  have h6 := Lib.TSys.Reachable.step h5
    ⟨.reap 1 none true, (by intro c hc; cases hc; exact ⟨rfl, rfl⟩), rfl⟩
  exact ⟨_, _, ⟨h5, rfl, rfl⟩, h6, rfl, rfl⟩

theorem zombies_kept_reaped : ∃ l, (runs LosesNone).Reachable l ∧
    l.reaped = [(2, 1)] ∧ ZombiesKept l := by
  obtain ⟨-, l, -, hreach, -, hreaped⟩ := child_exits
  exact ⟨l, hreach, hreaped, zombies_kept hreach⟩

/-- The schedule that follows every exit drops the zombie. -/
theorem zombie_dropped_by_schedule : ∃ l, (runs fun _ _ => True).Reachable l ∧ ¬ ZombiesKept l := by
  obtain ⟨l, -, ⟨hreach, hterm, hreap⟩, -⟩ := child_exits
  obtain ⟨l', hstep⟩ : ∃ l', l.step .schedule = some l' := ⟨_, rfl⟩
  refine ⟨l', ?_, ?_⟩
  · have hany : ∀ {k}, (runs LosesNone).Reachable k → (runs fun _ _ => True).Reachable k := by
      intro k hk
      induction hk with
      | init h0 => exact .init h0
      | step _ hs ih =>
        obtain ⟨a, -, hs⟩ := hs
        exact .step ih ⟨a, trivial, hs⟩
    exact .step (hany hreach) ⟨.schedule, trivial, hstep⟩
  · refine schedule_loses_zombie (x := (2, 1)) (runs_kept l hreach) ?_ ?_ hstep
    · simp [hterm]
    · simp [hreap]

end PandaOS.Kernel.Life
