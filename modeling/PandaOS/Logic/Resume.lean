import Mathlib
import PandaOS.Kernel.Run

/-!
# What a saved context holds

The invariant behind the values processes resume with. `due` gives, for each
process that has made a call and not come back yet, the value it is to see;
the invariant says that the context saved for it holds that value. Handlers
run while nothing is due to the caller, so they may change its context; every
way out through the scheduler then hands over a context that is right for the
process it belongs to.
-/

namespace PandaOS.Kernel

open Std.Do

set_option mvcgen.warning false

/-- What `saved` reads of a process record. -/
def savedRax (p : Process) : Pid × Word := (p.pid, p.context.rax)

theorem savedRax_stable : Scheduler.Stable savedRax := fun _ _ _ _ => rfl

/-- The records of a scheduler have distinct identifiers below `next`, and
each holds the value due to its process. -/
structure Saved (due : Pid → Option Word) (next : Pid) (l : List (Pid × Word)) : Prop where
  nodup : (l.map Prod.fst).Nodup
  fresh : ∀ x ∈ l, x.1 < next
  holds : ∀ x ∈ l, ∀ v, due x.1 = some v → x.2 = v

theorem Saved.subperm {due : Pid → Option Word} {next : Pid} {l l' : List (Pid × Word)}
    (h : Saved due next l) (hsub : l'.Subperm l) : Saved due next l' where
  nodup := by
    obtain ⟨k, hperm, hk⟩ := hsub
    exact (hperm.map Prod.fst).nodup_iff.mp (h.nodup.sublist (hk.map Prod.fst))
  fresh x hx := h.fresh x (hsub.subset hx)
  holds x hx := h.holds x (hsub.subset hx)

variable {due due' : Pid → Option Word} {κ α : Type} {f : Process → Process} {s : Scheduler}

theorem Saved.weaken {next : Pid} {l : List (Pid × Word)}
    (h : Saved due next l) (hdue : ∀ pid v, due' pid = some v → due pid = some v) :
    Saved due' next l :=
  ⟨h.nodup, h.fresh, fun x hx v hv => h.holds x hx v (hdue x.1 v hv)⟩

/-- The invariant of a machine in user mode, and of the kernel between the
changes a handler makes. -/
structure Inv {κ : Type} (due : Pid → Option Word) (m : Machine κ) : Prop where
  saved : Saved due m.nextPid (m.sched.allProcesses.map savedRax)
  running : ∀ c, m.sched.current = some c → c.pid = m.onCpu ∧ c.state = .running
  idle : m.sched.current = none → ∀ q ∈ m.sched.readyQueue, Scheduler.runnable q = false
  dueFresh : ∀ pid v, due pid = some v → pid < m.nextPid
  cpuFresh : m.onCpu < m.nextPid

theorem Inv.weaken {m : Machine κ} (h : Inv due m)
    (hdue : ∀ pid v, due' pid = some v → due pid = some v) : Inv due' m :=
  ⟨h.saved.weaken hdue, h.running, h.idle, fun pid v hv => h.dueFresh pid v (hdue pid v hv),
    h.cpuFresh⟩

/-- The processor has just been handed to a process: it sees what it is due. -/
def Resumed {κ : Type} (due : Pid → Option Word) (m : Machine κ) : Prop :=
  Inv due m ∧ ∀ v, due m.onCpu = some v → m.regs.rax = v

/-! ## The changes handlers make -/

theorem mapCurrent_of_none {m : Machine κ} (h : m.sched.current = none)
    (f : Process → Process) : m.mapCurrent f = m := by
  obtain ⟨⟨queue, current, fg⟩, _⟩ := m
  simp only at h
  subst h
  rfl

section

variable {κ : Type} {due : Pid → Option Word} {m m' : Machine κ}

/-- Fields the invariant does not read may change. -/
theorem Inv.congr (h : Inv due m) (hs : m'.sched = m.sched) (hn : m'.nextPid = m.nextPid)
    (hc : m'.onCpu = m.onCpu) : Inv due m' := by
  refine ⟨?_, ?_, ?_, ?_, ?_⟩
  · rw [hs, hn]; exact h.saved
  · rw [hs, hc]; exact h.running
  · rw [hs]; exact h.idle
  · rw [hn]; exact h.dueFresh
  · rw [hc, hn]; exact h.cpuFresh

/-- While nothing is due to the running process, its record may change as long
as it stays the same running process. -/
theorem Inv.mapCurrent (h : Inv due m) (hdue : due m.onCpu = none)
    (hpid : ∀ p, (f p).pid = p.pid) (hstate : ∀ p, (f p).state = p.state) :
    Inv due (m.mapCurrent f) := by
  cases hcur : m.sched.current with
  | none =>
    rw [mapCurrent_of_none hcur]
    exact h
  | some c =>
    have hcpu := (h.running c hcur).1
    have hall : m.sched.allProcesses = c :: m.sched.readyQueue := by
      simp [Scheduler.allProcesses, hcur]
    have hall' : (m.mapCurrent f).sched.allProcesses = f c :: m.sched.readyQueue := by
      simp [Machine.mapCurrent, Scheduler.allProcesses, hcur]
    have hsaved := h.saved
    rw [hall] at hsaved
    refine ⟨⟨?_, ?_, ?_⟩, ?_, ?_, h.dueFresh, h.cpuFresh⟩
    · have := hsaved.nodup
      rw [hall']
      simpa [savedRax, hpid] using this
    · intro x hx
      rw [hall', List.map_cons, List.mem_cons] at hx
      rcases hx with rfl | hx
      · show (f c).pid < m.nextPid
        rw [hpid c]
        exact hsaved.fresh (savedRax c) (by simp)
      · exact hsaved.fresh x (by simp [List.mem_map.mp hx])
    · intro x hx v hv
      rw [hall', List.map_cons, List.mem_cons] at hx
      rcases hx with rfl | hx
      · -- nothing is due to the process whose record changed
        have : due c.pid = some v := by rw [← hpid c]; exact hv
        rw [hcpu, hdue] at this
        cases this
      · exact hsaved.holds x (by simp [List.mem_map.mp hx]) v hv
    · intro c' hc'
      have : f c = c' := by simpa [Machine.mapCurrent, hcur] using hc'
      subst this
      exact ⟨(hpid c).trans hcpu, (hstate c).trans (h.running c hcur).2⟩
    · intro hnone
      simp [Machine.mapCurrent, hcur] at hnone

/-- The scheduler may drop queued records and change what neither the saved
value nor the choice of the next process depends on. -/
theorem Inv.sched (h : Inv due m) (hn : m'.nextPid = m.nextPid) (hc : m'.onCpu = m.onCpu)
    (hsub : (m'.sched.allProcesses.map savedRax).Subperm (m.sched.allProcesses.map savedRax))
    (hcur : m'.sched.current.map (fun c => (c.pid, c.state)) =
      m.sched.current.map fun c => (c.pid, c.state))
    (hq : ∀ q' ∈ m'.sched.readyQueue, ∃ q ∈ m.sched.readyQueue, Scheduler.runnable q' =
      Scheduler.runnable q) :
    Inv due m' := by
  refine ⟨hn ▸ h.saved.subperm hsub, ?_, ?_, hn ▸ h.dueFresh, hn ▸ hc ▸ h.cpuFresh⟩
  · intro c' hc'
    rw [hc', Option.map_some, eq_comm, Option.map_eq_some_iff] at hcur
    obtain ⟨c, hmc, heq⟩ := hcur
    simp only [Prod.mk.injEq] at heq
    obtain ⟨hp, hst⟩ := h.running c hmc
    exact ⟨by rw [← heq.1, hp, hc], by rw [← heq.2, hst]⟩
  · intro hnone q' hq'
    rw [hnone, Option.map_none, eq_comm, Option.map_eq_none_iff] at hcur
    obtain ⟨q, hqm, heq⟩ := hq q' hq'
    rw [heq, h.idle hcur q hqm]

/-- Scheduling hands the processor to a process that sees what it is due. -/
theorem resumed_of_schedule {next : Process}
    (hsaved : Saved due m.nextPid (s.allProcesses.map savedRax))
    (hdue : ∀ pid v, due pid = some v → pid < m.nextPid)
    (hm : m.sched = s.scheduleNext) (hnext : m.sched.current = some next) :
    Resumed due (m.resume next) := by
  have hsaved' := hsaved.subperm (Scheduler.scheduleNext_subperm savedRax_stable s)
  rw [← hm] at hsaved'
  have hmem : savedRax next ∈ m.sched.allProcesses.map savedRax := by
    simp [Scheduler.allProcesses, hnext]
  refine ⟨⟨hsaved', ?_, ?_, hdue, hsaved'.fresh _ hmem⟩, hsaved'.holds _ hmem⟩
  · intro c hc
    have : next = c := by simpa [Machine.resume, hnext] using hc
    subst this
    exact ⟨rfl, Scheduler.scheduleNext_current_some (hm ▸ hnext)⟩
  · intro hnone
    simp [Machine.resume, hnext] at hnone

end

/-! ## The handlers -/

section

variable {κ : Type} (sub : Subsystems κ) (due : Pid → Option Word)
  (cpu : Pid) (nr : Bool) {m : Machine κ}

/-- The invariant while the kernel works for `cpu`, to which nothing is due. -/
structure Serving (m : Machine κ) : Prop where
  inv : Inv due m
  onCpu : m.onCpu = cpu
  resched : m.needResched = nr
  notDue : due cpu = none

/-- A zombie is taken out of the queue: the running process is none. -/
theorem findZombieChild_queue (hrun : ∀ c, s.current = some c → c.state = .running)
    (parent : Pid) : (s.findZombieChild parent).2.current = s.current ∧
      (s.findZombieChild parent).2.readyQueue.Sublist s.readyQueue := by
  have hfind : s.findZombieChild parent = s.takeQueuedZombie parent := by
    unfold Scheduler.findZombieChild
    cases hcur : s.current with
    | none => rfl
    | some c =>
      have hz : Scheduler.isZombieOf parent c = false := by
        simp [Scheduler.isZombieOf, Process.isZombie, hrun c hcur]
      simp only [hz, Bool.false_eq_true, if_false]
  rw [hfind, Scheduler.takeQueuedZombie]
  split
  · exact ⟨rfl, List.eraseP_sublist⟩
  · exact ⟨rfl, List.Sublist.refl _⟩

namespace Serving

variable {due cpu nr} (h : Serving due cpu nr m)
include h

theorem due_onCpu : due m.onCpu = none := by
  rw [h.onCpu]
  exact h.notDue

theorem mapCurrent (hpid : ∀ p, (f p).pid = p.pid) (hstate : ∀ p, (f p).state = p.state) :
    Serving due cpu nr (m.mapCurrent f) :=
  ⟨h.inv.mapCurrent h.due_onCpu hpid hstate, h.onCpu, h.resched, h.notDue⟩

/-- A change of fields the invariant does not read. -/
theorem congr {m' : Machine κ} (hs : m'.sched = m.sched)
    (hn : m'.nextPid = m.nextPid) (hc : m'.onCpu = m.onCpu)
    (hr : m'.needResched = m.needResched) : Serving due cpu nr m' :=
  ⟨h.inv.congr hs hn hc, hc.trans h.onCpu, hr.trans h.resched, h.notDue⟩

/-- The rest of the kernel may change. -/
theorem withRest (k : κ) : Serving due cpu nr { m with rest := k } :=
  h.congr rfl rfl rfl rfl

/-- Once `yield_handler` has cleared the caller's `rax`, a value 0 may be due to it. -/
theorem saved_setRax {c : Process} (hcur : m.sched.current = some c) :
    Saved (setDue due cpu (some 0)) m.nextPid
      ((m.mapCurrent (·.setRax 0)).sched.allProcesses.map savedRax) := by
  have hinv := (h.mapCurrent (f := (·.setRax 0)) (fun _ => rfl) (fun _ => rfl)).inv.saved
  have hall : (m.mapCurrent (·.setRax 0)).sched.allProcesses.map savedRax =
      (c.pid, 0) :: m.sched.readyQueue.map savedRax := by
    simp [Machine.mapCurrent, Scheduler.allProcesses, hcur, savedRax, Process.setRax]
  have hcpu : c.pid = cpu := (h.inv.running c hcur).1.trans h.onCpu
  rw [hall] at hinv ⊢
  refine ⟨hinv.nodup, hinv.fresh, ?_⟩
  intro x hx v hv
  rcases List.mem_cons.mp hx with rfl | hmem
  · simpa [setDue, hcpu] using hv
  · -- the other records belong to other processes
    have hne : x.1 ≠ cpu := by
      intro heq
      have hnd := hinv.nodup
      rw [List.map_cons, List.nodup_cons] at hnd
      have hin := List.mem_map_of_mem (f := Prod.fst) hmem
      rw [heq, ← hcpu] at hin
      exact hnd.1 hin
    refine hinv.holds x hx v ?_
    rwa [setDue, Function.update_of_ne hne] at hv

/-- Signalling a group only sets pending bits. -/
theorem signalGroup {m' : Machine κ} {pgid : Pid}
    {signal : Signal} (hm : m' = { m with sched := (m.sched.signalProcessGroup pgid signal).2 }) :
    Serving due cpu nr m' := by
  subst hm
  refine ⟨h.inv.sched rfl rfl ?_ ?_ ?_, h.onCpu, h.resched, h.notDue⟩
  · have hhit : ∀ p : Process, savedRax (if p.pgid = pgid then p.sendSignal signal else p) =
        savedRax p := by
      intro p
      split <;> rfl
    cases hcur : m.sched.current <;>
      simp [Scheduler.signalProcessGroup, Scheduler.allProcesses,
        hcur, Function.comp_def, hhit, List.Subperm.refl]
  · cases hcur : m.sched.current with
    | none => simp [Scheduler.signalProcessGroup, hcur]
    | some c =>
      simp only [Scheduler.signalProcessGroup, hcur, Option.map_some]
      split <;> rfl
  · intro q' hq'
    obtain ⟨q, hq, rfl⟩ := List.mem_map.mp hq'
    refine ⟨q, hq, ?_⟩
    split <;> rfl

theorem findZombie (parent : Pid) :
    Serving due cpu nr (m.withSched (m.sched.findZombieChild parent).2) := by
  obtain ⟨hcur, hsub⟩ := findZombieChild_queue (fun c hc => (h.inv.running c hc).2) parent
  refine ⟨h.inv.sched rfl rfl ?_ ?_ ?_, h.onCpu, h.resched, h.notDue⟩
  · show ((m.sched.findZombieChild parent).2.allProcesses.map savedRax).Subperm _
    refine (List.Sublist.map savedRax ?_).subperm
    rw [Scheduler.allProcesses, hcur]
    exact (List.Sublist.refl _).append hsub
  · show (m.sched.findZombieChild parent).2.current.map _ = _
    rw [hcur]
  · exact fun q hq => ⟨q, hsub.subset hq, rfl⟩

theorem ttySignal (signal : Signal) : Serving due cpu nr (PandaOS.Kernel.ttySignal signal m) := by
  unfold PandaOS.Kernel.ttySignal
  split
  · exact h.signalGroup rfl
  · exact h

/-- Adding a process with a new identifier, while some process runs. -/
theorem addProcess {child : Process} (hcur : m.sched.current ≠ none) (hlt : child.pid < m.nextPid)
    (hnew : ∀ p ∈ m.sched.allProcesses, p.pid < child.pid) (hdue : due child.pid = none)
    (hs : m.sched.addProcess child = some s) : Serving due cpu nr { m with sched := s } := by
  have hs' : s = { m.sched with readyQueue := m.sched.readyQueue ++ [child] } := by
    unfold Scheduler.addProcess at hs
    split at hs
    · exact (Option.some.inj hs).symm
    · cases hs
  have hall : s.allProcesses.map savedRax = m.sched.allProcesses.map savedRax ++
      [savedRax child] := by
    simp [hs', Scheduler.allProcesses]
  refine ⟨⟨⟨?_, ?_, ?_⟩, ?_, ?_, h.inv.dueFresh, h.inv.cpuFresh⟩, h.onCpu, h.resched, h.notDue⟩
  · rw [hall, List.map_append, List.nodup_append]
    refine ⟨h.inv.saved.nodup, by simp, ?_⟩
    intro a ha b hb
    simp only [List.map_map, List.mem_map, Function.comp_apply] at ha
    obtain ⟨p, hp, rfl⟩ := ha
    have hb' : b = child.pid := by simpa [savedRax] using hb
    exact hb' ▸ (hnew p hp).ne
  · intro x hx
    rw [hall, List.mem_append, List.mem_singleton] at hx
    rcases hx with hx | rfl
    · exact h.inv.saved.fresh x hx
    · exact hlt
  · intro x hx v hv
    rw [hall, List.mem_append, List.mem_singleton] at hx
    rcases hx with hx | rfl
    · exact h.inv.saved.holds x hx v hv
    · exact absurd (hdue.symm.trans hv) (by simp)
  · rw [hs']
    exact h.inv.running
  · rw [hs']
    exact fun hnone => absurd hnone hcur

/-- The identifier counter may advance. -/
theorem bump : Serving due cpu nr { m with nextPid := m.nextPid + 1 } :=
  ⟨⟨⟨h.inv.saved.nodup, fun x hx => Nat.lt_succ_of_lt (h.inv.saved.fresh x hx),
      h.inv.saved.holds⟩, h.inv.running, h.inv.idle,
      fun pid v hv => Nat.lt_succ_of_lt (h.inv.dueFresh pid v hv),
      Nat.lt_succ_of_lt h.inv.cpuFresh⟩, h.onCpu, h.resched, h.notDue⟩

theorem setCtx (c : CpuContext) : Serving due cpu nr (m.setCtx c) :=
  (h.mapCurrent (f := fun p => { p with context := c }) (fun _ => rfl) (fun _ => rfl)).congr
    rfl rfl rfl rfl

end Serving

/-- What a handler leaves: it returns still serving the caller, or it has
handed the processor on. -/
abbrev handlerPost {α : Type} : PostCond α (.except Stop (.arg (Machine κ) .pure)) :=
  post⟨fun _ m => ⌜Serving due cpu nr m⌝, fun e m => ⌜e = .toUser → Resumed due m⌝⟩

/-- What a handler that may wait leaves: if it has handed the processor on, 0 is
due to its caller. -/
abbrev waitPost {α : Type} : PostCond α (.except Stop (.arg (Machine κ) .pure)) :=
  post⟨fun _ m => ⌜Serving due cpu nr m⌝, fun e m => ⌜e = .toUser →
    Resumed (setDue due cpu (some 0)) m⌝⟩

/-- What code that always returns leaves. -/
abbrev quietPost {α : Type} : PostCond α (.except Stop (.arg (Machine κ) .pure)) :=
  post⟨fun _ m => ⌜Serving due cpu nr m⌝, fun _ _ => ⌜False⌝⟩

@[spec] theorem lift_spec (f : κ → α × κ) (Q : PostCond α (.except Stop (.arg (Machine κ) .pure))) :
    ⦃fun m => Q.1 (f m.rest).1 { m with rest := (f m.rest).2 }⦄ (lift f : KernelM κ α) ⦃Q⦄ := by
  intro m h
  exact h

theorem getpidHandler_spec : ⦃fun m => ⌜Serving due cpu nr m⌝⦄
    (getpidHandler : KernelM κ SyscallResult) ⦃handlerPost due cpu nr⦄ := by
  mvcgen [getpidHandler]

theorem setpgidHandler_spec (pid pgid : BitVec 32) :
    ⦃fun m => ⌜Serving due cpu nr m⌝⦄ (setpgidHandler pid pgid : KernelM κ SyscallResult)
    ⦃handlerPost due cpu nr⦄ := by
  mvcgen [setpgidHandler]
  rename_i h _ _ _ _ _ _
  exact h.mapCurrent (fun _ => rfl) (fun _ => rfl)

variable {due cpu} in
theorem Resumed.of_setDue {w : Option Word} (hdue : due cpu = none)
    (h : Resumed (setDue due cpu w) m) : Resumed due m := by
  have hle : ∀ pid v, due pid = some v → setDue due cpu w pid = some v := by
    intro pid v hv
    have hne : pid ≠ cpu := by
      rintro rfl
      rw [hdue] at hv
      cases hv
    rwa [setDue, Function.update_of_ne hne]
  exact ⟨h.1.weaken hle, fun v hv => h.2 v (hle _ v hv)⟩

/-- A handler that may wait keeps the invariant. -/
theorem handler_of_waits {x : KernelM κ α}
    (hx : ⦃fun m => ⌜Serving due cpu nr m⌝⦄ x ⦃waitPost due cpu nr⦄) :
    ⦃fun m => ⌜Serving due cpu nr m⌝⦄ x ⦃handlerPost due cpu nr⦄ := by
  intro m h
  have hspec := hx m h
  cases hrun : x m with
  | ok a m' => simpa [wp, PredTrans.apply, EStateM.run, hrun] using hspec
  | error e m' =>
    have hres : e = .toUser → Resumed (setDue due cpu (some 0)) m' := by
      simpa [wp, PredTrans.apply, EStateM.run, hrun] using hspec
    have hgoal : e = .toUser → Resumed due m' := fun he =>
      (hres he).of_setDue (Serving.notDue h)
    simpa [wp, PredTrans.apply, EStateM.run, hrun] using hgoal

/-- `yield_handler` finds nothing to run, or hands the processor on. The
caller's saved context then holds 0. -/
theorem yieldHandler_spec : ⦃fun m => ⌜Serving due cpu nr m⌝⦄ (yieldHandler : KernelM κ Unit)
    ⦃post⟨fun _ m => ⌜Serving due cpu nr m ∧ m.sched.current = none⌝,
      fun _ m => ⌜Resumed (setDue due cpu (some 0)) m⌝⟩⦄ := by
  mvcgen [yieldHandler, switchToUser]
  case vc1 m h _ _ next hnext _ _ =>
    cases hcur : m.sched.current with
    | none =>
      -- an idle scheduler has nothing to hand the processor to
      have hidle := Scheduler.scheduleNext_of_idle hcur (h.inv.idle hcur)
      have hnext' : (m.mapCurrent (·.setRax 0)).sched.scheduleNext.current = some next := hnext
      rw [mapCurrent_of_none hcur, hidle] at hnext'
      cases hnext'
    | some c =>
      refine resumed_of_schedule (h.saved_setRax hcur) ?_ rfl hnext
      intro pid v hv
      by_cases hp : pid = cpu
      · rw [hp, ← h.onCpu]
        exact h.inv.cpuFresh
      · rw [setDue, Function.update_of_ne hp] at hv
        exact h.inv.dueFresh pid v hv
  case vc2 m h _ _ hnone =>
    have h0 := h.mapCurrent (f := (·.setRax 0)) (fun _ => rfl) (fun _ => rfl)
    refine ⟨⟨⟨?_, ?_, ?_, h.inv.dueFresh, h.inv.cpuFresh⟩, h.onCpu, h.resched, h.notDue⟩, hnone⟩
    · exact h0.inv.saved.subperm (Scheduler.scheduleNext_subperm savedRax_stable _)
    · intro c hc
      exact absurd (hc.symm.trans hnone) (by simp)
    · exact fun _ => Scheduler.scheduleNext_idle hnone

theorem killHandler_spec (pid sig : BitVec 32) :
    ⦃fun m => ⌜Serving due cpu nr m⌝⦄ (killHandler sub pid sig : KernelM κ SyscallResult)
    ⦃handlerPost due cpu nr⦄ := by
  mvcgen [killHandler]
  case vc2 m h _ _ => exact h.mapCurrent (fun _ => rfl) (fun _ => rfl)
  case vc5 m h _ _ => exact h.signalGroup rfl
  case vc6 m h _ _ => exact h.signalGroup rfl
  all_goals simp

variable {due cpu nr} in
theorem Serving.ttySignals (h : Serving due cpu nr m) (signals : List Signal) :
    Serving due cpu nr (signals.foldl (fun m s => PandaOS.Kernel.ttySignal s m) m) := by
  induction signals generalizing m with
  | nil => exact h
  | cons s rest ih => exact ih (h.ttySignal s)

theorem sysYield_spec : ⦃fun m => ⌜Serving due cpu nr m⌝⦄ (sysYield : KernelM κ SyscallResult)
    ⦃handlerPost due cpu nr⦄ := by
  have hyield := yieldHandler_spec (κ := κ) due cpu nr
  mvcgen [sysYield, hyield]
  case vc2 h => exact h.1
  case vc3 m h _ _ => exact fun hres _ => hres.of_setDue h.notDue

theorem forkHandler_spec : ⦃fun m => ⌜Serving due cpu nr m⌝⦄
    (forkHandler sub : KernelM κ SyscallResult) ⦃handlerPost due cpu nr⦄ := by
  mvcgen [forkHandler]
  case vc2 m h _ _ _ _ _ => exact h.bump.withRest _
  case vc4 m h c hcur childPid _ pt _ child ret m1 s hs _ =>
    have h1 : Serving due cpu nr m1.2 :=
      (h.bump.withRest (sub.forkSpace c m.rest).2).mapCurrent
        (f := (·.setRax ret)) (fun _ => rfl) (fun _ => rfl)
    refine h1.addProcess ?_ (Nat.lt_succ_self m.nextPid) ?_ ?_ hs
    · show m.sched.current.map _ ≠ none
      simp [hcur]
    · intro p hp
      exact (h.mapCurrent (f := (·.setRax ret)) (fun _ => rfl) (fun _ => rfl)).inv.saved.fresh
        (savedRax p) (List.mem_map_of_mem hp)
    · show due m.nextPid = none
      cases hd : due m.nextPid with
      | none => rfl
      | some v => exact absurd (h.inv.dueFresh _ v hd) (Nat.lt_irrefl _)

theorem sysExecve_spec (args : Args) :
    ⦃fun m => ⌜Serving due cpu nr m⌝⦄ (sysExecve sub args : KernelM κ SyscallResult)
    ⦃handlerPost due cpu nr⦄ := by
  mvcgen [sysExecve, switchToUser]
  case vc3 m h _ c _ _ _ _ =>
    exact (h.withRest (sub.exec args c m.rest).2).mapCurrent (fun _ => rfl) (fun _ => rfl)
  case vc4 m h _ c hcur m1 _ _ =>
    have h1 : Serving due cpu nr m1.2 :=
      (h.withRest (sub.exec args c m.rest).2).mapCurrent (fun _ => rfl) (fun _ => rfl)
    have hcpu : c.pid = m.onCpu := (h.inv.running c hcur).1
    refine ⟨h1.inv.congr rfl rfl hcpu, fun v hv => ?_⟩
    -- the new image belongs to the caller, to which nothing is due
    have hv' : due c.pid = some v := hv
    rw [hcpu, h.due_onCpu] at hv'
    cases hv'

/-- A call outside the scheduler that does not return has waited on a pipe. -/
theorem sysCall_waits (n : SyscallNumber) (args : Args) :
    ⦃fun m => ⌜Serving due cpu nr m⌝⦄ (sysCall sub n args : KernelM κ SyscallResult)
    ⦃waitPost due cpu nr⦄ := by
  have hyield := yieldHandler_spec (κ := κ) due cpu nr
  have hcall : ∀ {m : Machine κ}, Serving due cpu nr m →
      ∀ (k : κ) (f : ProcMem → ProcMem) (signals : List Signal),
      Serving due cpu nr (List.foldl (fun m s => PandaOS.Kernel.ttySignal s m)
        ({ m with rest := k }.mapCurrent fun p => p.withMem (f p.toProcMem)) signals) := by
    intro m h k f signals
    refine Serving.ttySignals ?_ signals
    exact (h.withRest k).mapCurrent (fun _ => rfl) (fun _ => rfl)
  mvcgen [sysCall, hyield]
  case vc1 h _ _ _ _ _ => exact hcall h _ _ _
  case vc2 h _ _ _ _ => exact hcall h _ _ _
  case vc3 => simp
  case vc4 => exact fun hres _ => hres

theorem sysCall_spec (n : SyscallNumber) (args : Args) :
    ⦃fun m => ⌜Serving due cpu nr m⌝⦄ (sysCall sub n args : KernelM κ SyscallResult)
    ⦃handlerPost due cpu nr⦄ := by
  exact handler_of_waits due cpu nr (sysCall_waits sub due cpu nr n args)

/-- The state changes of an exit keep every record and its saved value. -/
theorem exitChanges_saved (status : Int) (m : Machine κ) :
    (exitChanges status m).sched.allProcesses.map savedRax =
      m.sched.allProcesses.map savedRax ∧ (exitChanges status m).nextPid = m.nextPid := by
  unfold exitChanges
  cases hcur : m.sched.current with
  | none => exact ⟨rfl, rfl⟩
  | some c =>
    have hmark : ((m.mapCurrent fun p =>
        if p.parentPid.isSome then p.setZombie status else p.setExited
          status).sched.allProcesses).map savedRax = m.sched.allProcesses.map savedRax := by
      simp only [Machine.mapCurrent, Scheduler.allProcesses, hcur, Option.map_some,
        Option.toList_some, List.map_append, List.map_cons, List.map_nil]
      congr 2
      split <;> rfl
    have hwake := fun s => Scheduler.wakeWaitersForChild_map savedRax_stable s c.pid
    simp only
    split <;> exact ⟨(hwake _).trans hmark, rfl⟩

theorem exitHandler_spec (status : Int) :
    ⦃fun m => ⌜Serving due cpu nr m⌝⦄ (exitHandler sub status : KernelM κ α)
    ⦃handlerPost due cpu nr⦄ := by
  have hsched : ∀ {m m' : Machine κ} {next : Process}, Serving due cpu nr m →
      m'.nextPid = (exitChanges status m).nextPid →
      m'.sched = (exitChanges status m).sched.scheduleNext → m'.sched.current = some next →
      Resumed due (m'.resume next) := by
    intro m m' next h hn hs hnext
    obtain ⟨hlist, hpid⟩ := exitChanges_saved status m
    refine resumed_of_schedule (s := (exitChanges status m).sched) ?_ ?_ hs hnext
    · rw [hlist, hn, hpid]
      exact h.inv.saved
    · rw [hn, hpid]
      exact h.inv.dueFresh
  mvcgen [exitHandler, reapPending, switchToUser]
  case vc1 h _ _ _ _ hnext _ _ => refine hsched h ?_ ?_ hnext <;> rfl
  case vc2 h _ _ _ _ hnext _ _ _ _ _ => refine hsched h ?_ ?_ hnext <;> rfl
  case vc3 h _ _ _ _ hnext _ _ _ _ _ _ => refine hsched h ?_ ?_ hnext <;> rfl
  all_goals simp

theorem writeStatus_spec (statusPtr : Word) (status : BitVec 32) : ⦃fun m => ⌜Serving due cpu nr m⌝⦄
    (writeStatus sub statusPtr status : KernelM κ (Option ErrorCode))
    ⦃quietPost due cpu nr⦄ := by
  mvcgen [writeStatus]
  case vc2 h => exact h.withRest _

theorem reapChild_spec (child : Process) (statusPtr : Word) :
    ⦃fun m => ⌜Serving due cpu nr m⌝⦄ (reapChild sub child statusPtr : KernelM κ SyscallResult)
    ⦃quietPost due cpu nr⦄ := by
  have hwrite := writeStatus_spec sub due cpu nr
  mvcgen [reapChild, hwrite]
  case vc3 h _ => exact h.withRest _
  case vc4 h _ => exact h.withRest _

theorem reportStopped_spec (stopped : Pid) (statusPtr : Word) : ⦃fun m => ⌜Serving due cpu nr m⌝⦄
    (reportStopped sub stopped statusPtr : KernelM κ SyscallResult)
    ⦃quietPost due cpu nr⦄ := by
  have hwrite := writeStatus_spec sub due cpu nr
  mvcgen [reportStopped, hwrite]

theorem waitpidScan_spec (pid statusPtr : Word) (wuntraced : Bool) (parent : Pid) :
    ⦃fun m => ⌜Serving due cpu nr m⌝⦄
    (waitpidScan sub pid statusPtr wuntraced parent : KernelM κ (Option SyscallResult))
    ⦃quietPost due cpu nr⦄ := by
  have hreap := reapChild_spec sub due cpu nr
  have hstop := reportStopped_spec sub due cpu nr
  mvcgen [waitpidScan, hreap, hstop]
  -- every search leaves the scheduler `find_zombie_child` leaves
  case vc2 h _ _ _ _ _ _ => exact h.findZombie parent
  case vc3 h _ _ _ _ _ => exact h.findZombie parent
  case vc4 h _ _ _ _ _ _ _ => exact h.findZombie parent
  case vc5 h _ _ _ _ _ _ => exact h.findZombie parent

/-- A `waitpid` that does not return has blocked. -/
theorem waitpidHandler_waits (pid statusPtr : Word) (options : BitVec 32) :
    ⦃fun m => ⌜Serving due cpu nr m⌝⦄
    (waitpidHandler sub pid statusPtr options : KernelM κ SyscallResult)
    ⦃waitPost due cpu nr⦄ := by
  have hscan := waitpidScan_spec sub due cpu nr
  have hyield := yieldHandler_spec (κ := κ) due cpu nr
  mvcgen [waitpidHandler, waitForChild, hscan, hyield]
  case vc6 h _ _ _ _ =>
    -- blocking changes the wait state only
    refine h.mapCurrent (fun p => ?_) (fun p => ?_) <;> split <;> rfl
  case vc7 h _ => exact h.1
  case vc8 h _ _ => exact h.1
  case vc11 => exact fun hres _ => hres

theorem waitpidHandler_spec (pid statusPtr : Word) (options : BitVec 32) :
    ⦃fun m => ⌜Serving due cpu nr m⌝⦄
    (waitpidHandler sub pid statusPtr options : KernelM κ SyscallResult)
    ⦃handlerPost due cpu nr⦄ :=
  handler_of_waits due cpu nr (waitpidHandler_waits sub due cpu nr pid statusPtr options)

/-- Every handler keeps the invariant: by cases on the call. -/
theorem dispatch_spec (n : SyscallNumber) (args : Args) :
    ⦃fun m => ⌜Serving due cpu nr m⌝⦄ (dispatch sub n args : KernelM κ SyscallResult)
    ⦃handlerPost due cpu nr⦄ := by
  have henosys : ⦃fun m => ⌜Serving due cpu nr m⌝⦄
      (pure (.error .enosys) : KernelM κ SyscallResult) ⦃handlerPost due cpu nr⦄ := by
    mvcgen
  cases n
  case exit => exact exitHandler_spec sub due cpu nr _
  case getpid => exact getpidHandler_spec due cpu nr
  case yield => exact sysYield_spec due cpu nr
  case execve => exact sysExecve_spec sub due cpu nr args
  case fork => exact forkHandler_spec sub due cpu nr
  case wait4 => exact waitpidHandler_spec sub due cpu nr _ _ _
  case kill => exact killHandler_spec sub due cpu nr _ _
  case setpgid => exact setpgidHandler_spec due cpu nr _ _
  case mprotect => exact henosys
  case munmap => exact henosys
  case dup => exact henosys
  all_goals exact sysCall_spec sub due cpu nr _ args

theorem handleSyscall_spec (number : Word) (args : Args) :
    ⦃fun m => ⌜Serving due cpu nr m⌝⦄ (handleSyscall sub number args : KernelM κ Word)
    ⦃handlerPost due cpu nr⦄ := by
  have hdispatch := dispatch_spec sub due cpu nr
  mvcgen [handleSyscall, hdispatch]

theorem enterAndHandle_spec (r : UserRegs) :
    ⦃fun m => ⌜Serving due cpu nr m⌝⦄ (enterAndHandle sub r : KernelM κ Word)
    ⦃handlerPost due cpu nr⦄ := by
  have hhandle := handleSyscall_spec sub due cpu nr
  mvcgen [enterAndHandle, hhandle]
  case vc1 h _ _ => exact h.setCtx _

variable {due cpu nr} in
/-- The specification of `enterAndHandle`, read off a run. -/
theorem enterAndHandle_run (h : Serving due cpu nr m) (r : UserRegs) :
    (∀ v m', enterAndHandle sub r m = .ok v m' → Serving due cpu nr m') ∧
      ∀ m', enterAndHandle sub r m = .error .toUser m' → Resumed due m' := by
  have hspec := enterAndHandle_spec sub due cpu nr r m h
  refine ⟨fun v m' hrun => ?_, fun m' hrun => ?_⟩
  · simpa [wp, PredTrans.apply, EStateM.run, hrun] using hspec
  · simpa [wp, PredTrans.apply, EStateM.run, hrun] using hspec

/-- `handle_syscall` stops where the handler stops. -/
theorem handleSyscall_error {number : Word} {n : SyscallNumber} {a : Args} {m m' : Machine κ}
    {e : Stop} (hn : SyscallNumber.fromU64 number = some n)
    (h : handleSyscall sub number a m = .error e m') : dispatch sub n a m = .error e m' := by
  unfold handleSyscall at h
  rw [hn] at h
  simp only [bind, EStateM.bind] at h
  split at h
  · cases h
  · rename_i hrun
    cases h
    exact hrun

/-- The calls that wait for a pipe or a child. -/
def mayWait (number : Word) : Bool :=
  match SyscallNumber.fromU64 number with
  | some .read | some .write | some .wait4 => true
  | _ => false

variable {due cpu nr} in
/-- A `read`, `write` or `waitpid` that hands the processor on leaves 0 due to its
caller. -/
theorem enterAndHandle_waits (h : Serving due cpu nr m) {r : UserRegs}
    (hnumber : mayWait r.rax = true) {m' : Machine κ}
    (hrun : enterAndHandle sub r m = .error .toUser m') : Resumed (setDue due cpu (some 0)) m' := by
  have hdispatch : ∀ n args, (n = .read ∨ n = .write ∨ n = .wait4) →
      ⦃fun m => ⌜Serving due cpu nr m⌝⦄ (dispatch sub n args : KernelM κ SyscallResult)
      ⦃waitPost due cpu nr⦄ := by
    rintro n args (rfl | rfl | rfl)
    · exact sysCall_waits sub due cpu nr .read args
    · exact sysCall_waits sub due cpu nr .write args
    · exact waitpidHandler_waits sub due cpu nr _ _ _
  have hctx : (m.setCtx (saveRegs m.ctx r)).ctx.rax = r.rax := by
    unfold Machine.setCtx Machine.ctx
    cases m.sched.current <;> rfl
  have henter : enterAndHandle sub r m = handleSyscall sub (m.setCtx (saveRegs m.ctx r)).ctx.rax
        (ctxArgs (m.setCtx (saveRegs m.ctx r)).ctx) (m.setCtx (saveRegs m.ctx r)) := rfl
  rw [henter, hctx] at hrun
  obtain ⟨n, hn, hwaits⟩ : ∃ n, SyscallNumber.fromU64 r.rax = some n ∧
      (n = .read ∨ n = .write ∨ n = .wait4) := by
    unfold mayWait at hnumber
    split at hnumber
    · exact ⟨.read, ‹_›, by simp⟩
    · exact ⟨.write, ‹_›, by simp⟩
    · exact ⟨.wait4, ‹_›, by simp⟩
    · cases hnumber
  have hfail := handleSyscall_error sub hn hrun
  have hspec := hdispatch n (ctxArgs (m.setCtx (saveRegs m.ctx r)).ctx) hwaits _
    (h.setCtx (saveRegs m.ctx r))
  have hres : Stop.toUser = .toUser → Resumed (setDue due cpu (some 0)) m' := by
    simpa [wp, PredTrans.apply, EStateM.run, hfail] using hspec
  exact hres rfl

variable {due cpu nr} in
theorem yieldHandler_run (h : Serving due cpu nr m) :
    (∀ m', (yieldHandler : KernelM κ Unit) m = .ok () m' → Serving due cpu nr m') ∧
      ∀ e m', (yieldHandler : KernelM κ Unit) m = .error e m' →
        Resumed (setDue due cpu (some 0)) m' := by
  have hspec := yieldHandler_spec due cpu nr m h
  refine ⟨fun m' hrun => ?_, fun e m' hrun => ?_⟩
  · exact (by simpa [wp, PredTrans.apply, EStateM.run, hrun] using hspec :
      Serving due cpu nr m' ∧ _).1
  · simpa [wp, PredTrans.apply, EStateM.run, hrun] using hspec

end

end PandaOS.Kernel
