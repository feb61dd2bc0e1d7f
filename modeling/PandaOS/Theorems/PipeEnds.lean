import PandaOS.Kernel.Blocking
import PandaOS.Theorems.Pipes

/-!
# Counting pipe ends

The counts of a pipe's ends should be the numbers of descriptors that refer to
them, over all live processes. Three operations lose count: `exit` closes
nothing, `dup2` onto descriptor 0, 1 or 2 overwrites a pipe end without closing
it, and `pipe` keeps both ends open when it fails for want of descriptors.

In a call, an end can be counted before its descriptor is stored, or after its
descriptor is gone; such ends are in `hand`. `Balanced` is the count for one
process, with `rest` descriptors in the others.
-/

namespace PandaOS.Kernel

open Lib PipePool

variable {kind : FdKind} {e e' : PipeEnd} {pool : PipePool} {id : PipeId}
  {p : Pipe} {t : FdTable} {free : List Nat} {s s' : FdSystem} {pid : Pid}

/-! ## The pool -/

/-- No slot but the sixteen is in use. -/
def PipePool.Bounded (pool : PipePool) : Prop :=
  ∀ id, maxPipes ≤ id → (pool.pipes id).isAllocated = false

namespace PipeEnd

def pipe : PipeEnd → PipeId
  | .read id => id
  | .write id => id

/-- Open one more of an end. -/
def opened : PipeEnd → Pipe → Pipe
  | .read _ => Pipe.openRead
  | .write _ => Pipe.openWrite

/-- Close one of an end. -/
def closed : PipeEnd → Pipe → Pipe
  | .read _ => Pipe.closeRead
  | .write _ => Pipe.closeWrite

end PipeEnd

theorem FdKind.openEnd_eq (h : kind.pipeEnd = some e) :
    kind.openEnd = withPipe e.pipe (modify e.opened) := by
  cases kind <;> cases h <;> rfl

theorem FdKind.openEnd_none (h : kind.pipeEnd = none) : kind.openEnd = pure () := by
  cases kind <;> first | rfl | cases h

theorem FdKind.closeEnd_eq (h : kind.pipeEnd = some e) :
    kind.closeEnd = withPipe e.pipe (modify e.closed) := by
  cases kind <;> cases h <;> rfl

theorem FdKind.closeEnd_none (h : kind.pipeEnd = none) : kind.closeEnd = pure () := by
  cases kind <;> first | rfl | cases h

theorem PipePool.isAllocated_of_refcount (h : 0 < pool.refcount e) :
    (pool.pipes e.pipe).isAllocated = true := by
  cases e with
  | read id =>
    have h : 0 < (pool.pipes id).readRefcount := h
    simp [Pipe.isAllocated, PipeEnd.pipe, h]
  | write id =>
    have h : 0 < (pool.pipes id).writeRefcount := h
    simp [Pipe.isAllocated, PipeEnd.pipe, h]

theorem PipePool.Bounded.lt (hb : pool.Bounded) (h : (pool.pipes id).isAllocated = true) :
    id < maxPipes := by
  by_contra hge
  rw [hb id (Nat.le_of_not_lt hge)] at h
  cases h

/-- A call on an end of an open pipe goes through. -/
theorem PipePool.withPipe_returns (hb : pool.Bounded) (h : (pool.pipes id).isAllocated = true)
    (f : Pipe → Pipe) :
    Returns (withPipe id (modify f)) pool () (pool.setPipe id (f (pool.pipes id))) := by
  have hget : pool.get? id = some (pool.pipes id) := if_pos ⟨hb.lt h, h⟩
  exact (withPipe_some hget (modify f)).2

theorem PipePool.withPipe_throws (h : (pool.pipes id).isAllocated = false)
    (x : EStateM ErrorCode Pipe α) : Throws (withPipe id x) pool .ebadf pool := by
  have hget : pool.get? id = none := if_neg fun hc => by simp [h] at hc
  exact withPipe_none hget x

theorem PipePool.Bounded.setPipe (hb : pool.Bounded) (hid : id < maxPipes) (p : Pipe) :
    (pool.setPipe id p).Bounded := by
  intro i hi
  rw [setPipe_ne pool (Nat.ne_of_gt (Nat.lt_of_lt_of_le hid hi))]
  exact hb i hi

theorem saturatingSucc_lt {n : Nat} (h : n < usizeMax) : saturatingSucc n = n + 1 := by
  unfold saturatingSucc
  omega

/-- The count a pipe keeps of an end of this kind. -/
def Pipe.refs (p : Pipe) : PipeEnd → Nat
  | .read _ => p.readRefcount
  | .write _ => p.writeRefcount

theorem PipePool.refcount_eq (pool : PipePool) (e : PipeEnd) :
    pool.refcount e = (pool.pipes e.pipe).refs e := by
  cases e <;> rfl

theorem Pipe.refs_opened (hpipe : e'.pipe = e.pipe) (hroom : p.refs e < usizeMax) :
    (e.opened p).refs e' = p.refs e' + held (some e) e' := by
  have hsucc := saturatingSucc_lt hroom
  cases e <;> cases e' <;> cases hpipe
  · simpa [refs, PipeEnd.opened, openRead] using hsucc
  · simp [refs, PipeEnd.opened, openRead, held]
  · simp [refs, PipeEnd.opened, openWrite, held]
  · simpa [refs, PipeEnd.opened, openWrite] using hsucc

theorem Pipe.refs_closed (hpipe : e'.pipe = e.pipe) (hpos : 0 < p.refs e) :
    (e.closed p).refs e' + held (some e) e' = p.refs e' := by
  cases e <;> cases e' <;> cases hpipe
  · simpa [refs, PipeEnd.closed, closeRead] using Nat.sub_add_cancel hpos
  · simp [refs, PipeEnd.closed, closeRead, held]
  · simp [refs, PipeEnd.closed, closeWrite, held]
  · simpa [refs, PipeEnd.closed, closeWrite] using Nat.sub_add_cancel hpos

/-- Both ends of an unused pipe are opened. -/
theorem Pipe.refs_taken (h : p.isAllocated = false) (id : PipeId) (hpipe : e.pipe = id) :
    p.openRead.openWrite.refs e = p.refs e + held (some (.read id)) e + held
      (some (.write id)) e := by
  simp only [isAllocated, Bool.or_eq_false_iff, decide_eq_false_iff_not,
    Nat.not_lt, Nat.le_zero] at h
  have hread : p.openRead.refs e = p.refs e + held (some (.read id)) e :=
    refs_opened (e := .read id) hpipe (show p.readRefcount < usizeMax by rw [h.1]; decide)
  have hwrite : p.openRead.openWrite.refs e = p.openRead.refs e + held (some (.write id)) e :=
    refs_opened (p := p.openRead) (e := .write id) hpipe
      (show p.writeRefcount < usizeMax by rw [h.2]; decide)
  rw [hwrite, hread]

/-- Storing the pipe of `e` leaves the counts of other pipes. -/
theorem PipePool.refcount_setPipe (pool : PipePool) (e e' : PipeEnd) (p : Pipe) :
    (pool.setPipe e.pipe p).refcount e' =
      if e'.pipe = e.pipe then p.refs e' else pool.refcount e' := by
  rw [refcount_eq, refcount_eq]
  split
  · next h => rw [h, setPipe_self]
  · next h => rw [setPipe_ne _ h]

theorem held_of_pipe_ne (h : e'.pipe ≠ e.pipe) : held (some e) e' = 0 :=
  held_ne fun heq => h (by rw [heq])

/-- Opening one more end of an open pipe. -/
theorem FdKind.openEnd_returns (hk : kind.pipeEnd = some e) (hb : pool.Bounded)
    (halloc : (pool.pipes e.pipe).isAllocated = true) (hroom : pool.refcount e < usizeMax) :
    ∃ pool', Returns kind.openEnd pool () pool' ∧ pool'.Bounded ∧
      ∀ e', pool'.refcount e' = pool.refcount e' + held (some e) e' := by
  refine ⟨_, ?_, hb.setPipe (hb.lt halloc) (e.opened (pool.pipes e.pipe)), ?_⟩
  · rw [openEnd_eq hk]
    exact withPipe_returns hb halloc e.opened
  · intro e'
    rw [refcount_setPipe]
    split
    · next h =>
      rw [refcount_eq, h]
      exact Pipe.refs_opened h (by rwa [← refcount_eq])
    · next h => rw [held_of_pipe_ne h, Nat.add_zero]

/-- Closing an end that is open. -/
theorem FdKind.closeEnd_returns (hk : kind.pipeEnd = some e) (hb : pool.Bounded)
    (hpos : 0 < pool.refcount e) : ∃ pool', Returns kind.closeEnd pool () pool' ∧ pool'.Bounded ∧
      ∀ e', pool'.refcount e' + held (some e) e' = pool.refcount e' := by
  have halloc := isAllocated_of_refcount hpos
  refine ⟨_, ?_, hb.setPipe (hb.lt halloc) (e.closed (pool.pipes e.pipe)), ?_⟩
  · rw [closeEnd_eq hk]
    exact withPipe_returns hb halloc e.closed
  · intro e'
    rw [refcount_setPipe]
    split
    · next h =>
      rw [pool.refcount_eq e', h]
      exact Pipe.refs_closed h (by rwa [← refcount_eq])
    · next h => rw [held_of_pipe_ne h, Nat.add_zero]

/-- An end of a pipe that is not open cannot be opened. -/
theorem FdKind.openEnd_throws (hk : kind.pipeEnd = some e)
    (halloc : (pool.pipes e.pipe).isAllocated = false) : Throws kind.openEnd pool .ebadf pool := by
  rw [openEnd_eq hk]
  exact withPipe_throws halloc _

/-! ## One table -/

namespace FdTable

/-- The descriptors of a table that refer to an end. -/
def holds (t : FdTable) (e : PipeEnd) : Nat := Nat.count (fun fd => t.endAt fd = some e) maxFds

theorem endAt_setEntry (t : FdTable) (fd i : Nat) (entry : Option FdKind) :
    (t.setEntry fd entry).endAt i = if i = fd then entry.bind FdKind.pipeEnd else t.endAt i := by
  unfold endAt setEntry
  split <;> simp_all

/-- Storing an entry. -/
theorem holds_setEntry (t : FdTable) {fd : Nat} (hfd : fd < maxFds)
    (entry : Option FdKind) (e : PipeEnd) :
    (t.setEntry fd entry).holds e + held (t.endAt fd) e = t.holds e + held
    (entry.bind FdKind.pipeEnd) e := by
  have hpoint := count_point (p := fun i => t.endAt i = some e)
    (q := fun i => (t.setEntry fd entry).endAt i = some e) hfd fun i _ hne => by
      rw [endAt_setEntry, if_neg hne]
  rw [endAt_setEntry, if_pos rfl] at hpoint
  exact hpoint

theorem holds_pos {fd : Nat} (hfd : fd < maxFds) (h : t.endAt fd = some e) : 0 < t.holds e := by
  rw [Nat.pos_iff_ne_zero]
  intro hzero
  exact Nat.count_iff_forall_not.mp hzero fd hfd h

end FdTable

/-- The counts are the descriptors of this table and `rest` others. -/
structure Balanced (rest : PipeEnd → Nat) (st : FdState) : Prop where
  bounded : st.pool.Bounded
  counts : ∀ e, st.pool.refcount e = st.table.holds e + rest e

/-- `rest` and an end that no descriptor of the table refers to. -/
def withHeld (rest : PipeEnd → Nat) (o : Option PipeEnd) : PipeEnd → Nat :=
  fun e => rest e + held o e

@[simp] theorem withHeld_none (rest : PipeEnd → Nat) : withHeld rest none = rest := by
  funext e
  simp [withHeld]

variable {rest : PipeEnd → Nat} {st : FdState} {kind : FdKind}
  {fd : Nat} {x : EStateM ErrorCode PipePool α}

/-- Store the descriptor of an end over one that refers to none. -/
theorem Balanced.store (h : Balanced (withHeld rest kind.pipeEnd) st) (hfd : fd < maxFds)
    (hold : st.table.endAt fd = none) :
    Balanced rest { st with table := st.table.setEntry fd (some kind) } := by
  refine ⟨h.bounded, fun e => ?_⟩
  have hset := st.table.holds_setEntry hfd (some kind) e
  have hcounts := h.counts e
  simp only [hold, held_none, Option.bind_some, withHeld] at hset hcounts ⊢
  omega

/-- Take a descriptor out of the table. -/
theorem Balanced.take (h : Balanced rest st) (hfd : fd < maxFds)
    (hold : st.table.entries fd = some kind) :
    Balanced (withHeld rest kind.pipeEnd) { st with table := st.table.setEntry fd none } := by
  refine ⟨h.bounded, fun e => ?_⟩
  have hset := st.table.holds_setEntry hfd none e
  have hcounts := h.counts e
  simp only [FdTable.endAt, hold, held_none, Option.bind_some, Option.bind_none, withHeld]
    at hset hcounts ⊢
  omega

theorem onPool_run (x : EStateM ErrorCode PipePool α) (st : FdState) :
    (onPool x).run st = match x.run st.pool with
      | .ok a pool => .ok a { st with pool := pool }
      | .error e pool => .error e { st with pool := pool } := rfl

theorem returns_onPool {a : α} (h : Returns x st.pool a pool) :
    Returns (onPool x) st a { st with pool := pool } := by
  rw [Returns, onPool_run, h.run_eq]

theorem throws_onPool {e : ErrorCode} (h : Throws x st.pool e pool) :
    Throws (onPool x) st e { st with pool := pool } := by
  rw [Throws, onPool_run, h.run_eq]

theorem Balanced.closeEnd (h : Balanced (withHeld rest kind.pipeEnd) st) :
    ∃ st', Returns (onPool kind.closeEnd) st () st' ∧ st'.table = st.table ∧ Balanced rest st' := by
  cases hk : kind.pipeEnd with
  | none =>
    rw [hk, withHeld_none] at h
    refine ⟨st, ?_, rfl, h⟩
    rw [FdKind.closeEnd_none hk]
    exact returns_onPool (returns_pure.mpr ⟨rfl, rfl⟩)
  | some e =>
    rw [hk] at h
    have hpos : 0 < st.pool.refcount e := by
      have := h.counts e
      simp only [withHeld, held_self] at this
      omega
    obtain ⟨pool', hclose, hbounded, hcounts⟩ := FdKind.closeEnd_returns hk h.bounded hpos
    refine ⟨_, returns_onPool hclose, rfl, hbounded, fun e' => ?_⟩
    have h1 := h.counts e'
    have h2 := hcounts e'
    simp only [withHeld] at h1 ⊢
    omega

/-- Opening an end once more gives an end without a descriptor; if the pipe is
gone it changes nothing. -/
theorem Balanced.openEnd (h : Balanced rest st) (kind : FdKind)
    (hroom : ∀ e, kind.pipeEnd = some e → st.pool.refcount e < usizeMax) :
    Ends (onPool kind.openEnd) st (fun _ st' => st'.table = st.table ∧
      Balanced (withHeld rest kind.pipeEnd) st') (fun _ st' => st' = st) := by
  cases hk : kind.pipeEnd with
  | none =>
    rw [FdKind.openEnd_none hk, withHeld_none]
    exact (returns_onPool (returns_pure.mpr ⟨rfl, rfl⟩)).ends ⟨rfl, h⟩
  | some e =>
    cases halloc : (st.pool.pipes e.pipe).isAllocated with
    | false => exact (throws_onPool (FdKind.openEnd_throws hk halloc)).ends rfl
    | true =>
      obtain ⟨pool', hopen, hbounded, hcounts⟩ :=
        FdKind.openEnd_returns hk h.bounded halloc (hroom e hk)
      refine (returns_onPool hopen).ends ⟨rfl, hbounded, fun e' => ?_⟩
      have h1 := h.counts e'
      have h2 := hcounts e'
      simp only [withHeld]
      omega

/-! ## The calls -/

/-- `close` keeps the balance whatever its outcome. -/
theorem Balanced.close (h : Balanced rest st) (fd : Int) : Ends (FdTable.close fd) st
      (fun _ st' => st'.table = st.table.setEntry fd.toNat none ∧ Balanced rest st')
      fun _ st' => Balanced rest st' := by
  unfold FdTable.close
  split
  · exact h
  split
  · exact h
  next hrange hstd =>
  simp only [ends_bind, ends_get]
  cases hold : st.table.entries fd.toNat with
  | none => exact h
  | some kind =>
    have hfd : fd.toNat < maxFds := by omega
    obtain ⟨st', hclose, htable, hbal⟩ := (h.take hfd hold).closeEnd
    simp only [ends_bind, ends_modify]
    exact hclose.ends ⟨htable, hbal⟩

/-- The end of `dup2`: open the end once more and store its descriptor. -/
theorem Balanced.copy (h : Balanced rest st) (hroom : ∀ e, st.pool.refcount e < usizeMax)
    (hfd : fd < maxFds) (hold : st.table.endAt fd = none) :
    Ends (do
        onPool kind.openEnd
        modify fun st => { st with table := st.table.setEntry fd (some kind) }) st
      (fun _ st' => Balanced rest st') fun _ st' => Balanced rest st' := by
  simp only [ends_bind, ends_modify]
  refine (h.openEnd kind fun e _ => hroom e).mono ?_ ?_
  · rintro _ st' ⟨htable, hbal⟩
    exact hbal.store hfd (htable ▸ hold)
  · rintro _ _ rfl
    exact h

/-- `dup2` keeps the balance, unless it overwrites a pipe end. -/
theorem Balanced.dup2 (h : Balanced rest st) {oldfd newfd : Int} (hroom : FdSystem.Roomy st.pool)
    (hnew : newfd < 0 ∨ firstNonstdFd ≤ newfd ∨ st.table.endAt newfd.toNat = none) :
    Ends (FdTable.dup2 oldfd newfd) st (fun _ st' => Balanced rest st') fun _ st' =>
      Balanced rest st' := by
  have hlt : ∀ e, st.pool.refcount e < usizeMax := by
    intro e
    have := hroom e
    unfold maxFds at this
    omega
  unfold FdTable.dup2
  split
  · exact h
  split
  · exact h
  split
  · exact h
  next holdRange hnewRange hstd =>
  simp only [ends_bind, ends_get]
  cases hold : st.table.entries oldfd.toNat with
  | none => exact h
  | some kind =>
    have hfd : newfd.toNat < maxFds := by omega
    simp only [ends_bind, ends_get]
    split
    · refine (h.close newfd).seq ?_
      rintro _ st1 ⟨htable, hbal⟩
      refine Balanced.copy hbal ?_ hfd ?_
      · intro e
        -- closing a descriptor does not raise a count
        have hset := st.table.holds_setEntry hfd none e
        have h0 := h.counts e
        have h1 := hbal.counts e
        have h2 := hlt e
        rw [htable] at h1
        simp only [Option.bind_none, held_none] at hset
        omega
      · rw [htable, FdTable.endAt_setEntry, if_pos rfl]
        rfl
    · next hkeep =>
      refine Balanced.copy h hlt hfd ?_
      rcases hnew with hneg | hstd' | hnone
      · omega
      · cases hentry : st.table.entries newfd.toNat with
        | none => simp [FdTable.endAt, hentry]
        | some k => exact absurd ⟨hstd', by simp [hentry]⟩ hkeep
      · exact hnone

/-- The descriptors that are free after the first of them is taken. -/
theorem FdTable.freeFds_setEntry (kind : FdKind) (hfree : t.freeFds = fd :: free) :
    (t.setEntry fd (some kind)).freeFds = free := by
  have hnodup : (fd :: free).Nodup := hfree ▸ List.Nodup.filter _ List.nodup_range'
  have hfilter : (t.setEntry fd (some kind)).freeFds = t.freeFds.filter (· ≠ fd) := by
    unfold freeFds
    rw [List.filter_filter]
    apply List.filter_congr
    intro i _
    by_cases hi : i = fd <;> simp [setEntry, hi]
  rw [hfilter, hfree, List.filter_cons_of_neg (by simp), List.filter_eq_self]
  intro i hi
  have hne : i ≠ fd := fun heq => (List.nodup_cons.mp hnodup).1 (heq ▸ hi)
  simpa using hne

theorem FdTable.openKind_returns (kind : FdKind) (hfree : st.table.freeFds = fd :: free) :
    Returns (openKind kind) st fd { st with table := st.table.setEntry fd (some kind) } := by
  simp [openKind, allocateFd, hfree]

theorem FdTable.openKind_throws (kind : FdKind) (hfree : st.table.freeFds = []) :
    Throws (openKind kind) st .emfile st := by
  simp [openKind, allocateFd, hfree]

/-- Storing a descriptor at the lowest free number. -/
theorem Balanced.openKind (kind : FdKind) (h : Balanced (withHeld rest kind.pipeEnd) st)
    (hfree : st.table.freeFds = fd :: free) :
    Balanced rest { st with table := st.table.setEntry fd (some kind) } := by
  have hmem : fd ∈ st.table.freeFds := by simp [hfree]
  simp only [FdTable.freeFds, List.mem_filter, List.mem_range'_1, Option.isNone_iff_eq_none] at hmem
  obtain ⟨⟨hlo, hhi⟩, hnone⟩ := hmem
  exact h.store (by unfold maxFds firstNonstdFd at *; omega) (by simp [FdTable.endAt, hnone])

/-- Opening a file or a directory. -/
theorem Balanced.openFile (h : Balanced rest st) (hk : kind.pipeEnd = none) :
    Ends (FdTable.openKind kind) st (fun _ st' => Balanced rest st') fun _ st' =>
      Balanced rest st' := by
  cases hfree : st.table.freeFds with
  | nil => exact (FdTable.openKind_throws kind hfree).ends h
  | cons fd free =>
    have hheld : Balanced (withHeld rest kind.pipeEnd) st := by simpa [hk] using h
    exact (FdTable.openKind_returns kind hfree).ends (hheld.openKind kind hfree)

theorem firstFree_unused (h : pool.firstFree = some id) :
    id < maxPipes ∧ (pool.pipes id).isAllocated = false := by
  have hmem := List.mem_of_find?_eq_some h
  have hunused := List.find?_some h
  exact ⟨List.mem_range.mp hmem, by simpa using hunused⟩

/-- `pipe_create` on a pool with a free slot opens both ends of it. -/
theorem Balanced.create (h : Balanced rest st) (hfree : st.pool.firstFree = some id) :
    ∃ st', Returns (onPool pipeCreate) st (id, id) st' ∧ st'.table = st.table ∧
      Balanced (withHeld (withHeld rest (some (.write id))) (some (.read id))) st' := by
  obtain ⟨hid, hunused⟩ := firstFree_unused hfree
  refine ⟨_, returns_onPool (pipeCreate_returns hfree), rfl, h.bounded.setPipe hid _, fun e => ?_⟩
  have hcounts := h.counts e
  show (st.pool.setPipe (PipeEnd.read id).pipe _).refcount e = _
  rw [refcount_setPipe]
  simp only [withHeld]
  split
  · next hpipe =>
    have htaken := Pipe.refs_taken hunused id hpipe
    have hbefore : (st.pool.pipes id).refs e = st.pool.refcount e := by rw [refcount_eq, hpipe]; rfl
    omega
  · next hpipe =>
    rw [held_of_pipe_ne hpipe, held_of_pipe_ne (e := .write id) hpipe]
    omega

/-- `pipe` keeps the balance if two descriptors are free, or no pipe is. -/
theorem Balanced.pipe (h : Balanced rest st) (copied : Option ErrorCode)
    (hroom : st.pool.firstFree = none ∨ 2 ≤ st.table.freeFds.length) :
    Ends (pipeHandler copied) st (fun _ st' => Balanced rest st') fun _ st' =>
      Balanced rest st' := by
  unfold pipeHandler
  rw [ends_bind]
  cases hfree : st.pool.firstFree with
  | none => exact (throws_onPool (pipeCreate_throws hfree)).ends h
  | some id =>
    obtain ⟨st1, hcreate, htable, hbal1⟩ := h.create hfree
    refine hcreate.ends ?_
    rcases hfds : st.table.freeFds with _ | ⟨fd1, _ | ⟨fd2, free⟩⟩
    · simp [hfds, hfree] at hroom
    · simp [hfds, hfree] at hroom
    · rw [← htable] at hfds
      have hfds2 := FdTable.freeFds_setEntry (.pipeRead id) hfds
      refine (FdTable.openKind_returns _ hfds).seq ?_
      refine (FdTable.openKind_returns _ hfds2).seq ?_
      have hbal3 := (hbal1.openKind (.pipeRead id) hfds).openKind (.pipeWrite id) hfds2
      cases copied <;> exact hbal3

/-- The turn of `fork_copy` for one entry. -/
theorem openEntry_returns (hb : pool.Bounded)
    (hopen : ∀ e, t.endAt fd = some e → 0 < pool.refcount e ∧ pool.refcount e < usizeMax) :
    ∃ pool', Returns (match t.entries fd with
        | some kind => kind.openEnd
        | none => pure ()) pool () pool' ∧ pool'.Bounded ∧
      ∀ e, pool'.refcount e = pool.refcount e + held (t.endAt fd) e := by
  cases hentry : t.entries fd with
  | none => exact ⟨pool, by simp, hb, by simp [FdTable.endAt, hentry]⟩
  | some kind =>
    have hend : t.endAt fd = kind.pipeEnd := by simp [FdTable.endAt, hentry]
    rw [hend]
    cases hk : kind.pipeEnd with
    | none => exact ⟨pool, by simp [FdKind.openEnd_none hk], hb, by simp⟩
    | some e =>
      obtain ⟨hpos, hroom⟩ := hopen e (hend.trans hk)
      exact FdKind.openEnd_returns hk hb (isAllocated_of_refcount hpos) hroom

/-- A fork opens every end of the table once more, and cannot fail. -/
theorem forkCopy_returns (hb : pool.Bounded) (hroom : FdSystem.Roomy pool)
    (hopen : ∀ e, t.holds e ≤ pool.refcount e) :
    ∃ pool', Returns t.forkCopy pool t pool' ∧ pool'.Bounded ∧
      ∀ e, pool'.refcount e = pool.refcount e + t.holds e := by
  -- after `i` entries, the ends of the first `i` have been opened
  have hloop : ∀ n i pool1, i + n = maxFds → pool1.Bounded → (∀ e, pool1.refcount e =
        pool.refcount e + Nat.count (fun fd => t.endAt fd = some e) i) →
      ∃ pool', Returns (forRange i n fun fd =>
          match t.entries fd with
          | some kind => kind.openEnd
          | none => pure ()) pool1 () pool' ∧ pool'.Bounded ∧
        ∀ e, pool'.refcount e = pool.refcount e + t.holds e := by
    intro n
    induction n with
    | zero =>
      intro i pool1 hi hb1 hcounts
      obtain rfl : i = maxFds := hi
      exact ⟨pool1, by simp [forRange], hb1, hcounts⟩
    | succ n ih =>
      intro i pool1 hi hb1 hcounts
      have hturn : ∀ e, t.endAt i = some e → 0 < pool1.refcount e ∧
          pool1.refcount e < usizeMax := by
        intro e he
        have hpos := FdTable.holds_pos (show i < maxFds by omega) he
        have hle := Nat.count_le (fun fd => t.endAt fd = some e) (n := i)
        have hopen' := hopen e
        have hroom' := hroom e
        have hcounts' := hcounts e
        omega
      obtain ⟨pool2, hrun, hb2, hcounts2⟩ := openEntry_returns hb1 hturn
      have hnext : ∀ e, pool2.refcount e = pool.refcount e + Nat.count
          (fun fd => t.endAt fd = some e) (i + 1) := by
        intro e
        rw [hcounts2, hcounts, Nat.count_succ, held, Nat.add_assoc]
      obtain ⟨pool', hrest, hbounded, hfinal⟩ := ih (i + 1) pool2 (by omega) hb2 hnext
      exact ⟨pool', returns_bind.mpr ⟨_, pool2, hrun, hrest⟩, hbounded, hfinal⟩
  obtain ⟨pool', hrun, hbounded, hfinal⟩ := hloop maxFds 0 pool (by simp) hb (by simp)
  exact ⟨pool', returns_bind.mpr ⟨_, pool', hrun, by simp⟩, hbounded, hfinal⟩

/-! ## What a failed call leaves -/

/-- A `pipe` that fails leaves the pool and the table as they were exactly if it finds no
free pipe; with a pipe taken, it has to find two descriptors and an address to store them. -/
theorem pipe_kept_iff (st : FdState) (ptr : Word) :
    (∀ e st', Throws (pipeHandler (copyError ptr 8)) st e st' → st' = st) ↔
      st.pool.firstFree = none ∨ 2 ≤ st.table.freeFds.length ∧ copyError ptr 8 = none := by
  have hends : (∀ e st', Throws (pipeHandler (copyError ptr 8)) st e st' → st' = st) ↔
      Ends (pipeHandler (copyError ptr 8)) st (fun _ _ => True) fun _ st' => st' = st := by
    rw [ends_iff, and_iff_right fun _ _ _ => trivial]
  rw [hends]
  unfold pipeHandler
  rw [ends_bind]
  cases hfree : st.pool.firstFree with
  | none => exact iff_of_true ((throws_onPool (pipeCreate_throws hfree)).ends rfl) (Or.inl rfl)
  | some id =>
    -- the slot has been taken, whatever comes next
    obtain ⟨pool, hcreate, htaken⟩ : ∃ pool, Returns (onPool pipeCreate) st
        (id, id) ⟨st.table, pool⟩ ∧ ∀ t, (⟨t, pool⟩ : FdState) ≠ st := by
      refine ⟨_, returns_onPool (pipeCreate_returns hfree), fun t h => ?_⟩
      have hunused := (firstFree_unused hfree).2
      rw [← congrArg FdState.pool h] at hunused
      simp [setPipe, Pipe.isAllocated, Pipe.openRead, Pipe.openWrite,
        saturatingSucc, usizeMax] at hunused
    unfold FdTable.openPipeRead FdTable.openPipeWrite
    rw [hcreate.ends_iff, or_iff_right (Option.some_ne_none id), ends_bind]
    rcases hfds : st.table.freeFds with _ | ⟨fd₁, free⟩
    · have hfds : (⟨st.table, pool⟩ : FdState).table.freeFds = [] := hfds
      refine (FdTable.openKind_throws _ hfds).ends_iff.trans ?_
      exact iff_of_false (htaken _) fun h => absurd h.1 (by simp)
    · have hfds : (⟨st.table, pool⟩ : FdState).table.freeFds = fd₁ :: free := hfds
      have hfds₂ := FdTable.freeFds_setEntry (.pipeRead id) hfds
      refine (FdTable.openKind_returns _ hfds).ends_iff.trans ?_
      rw [ends_bind]
      rcases free with _ | ⟨fd₂, free⟩
      · refine (FdTable.openKind_throws _ hfds₂).ends_iff.trans ?_
        exact iff_of_false (htaken _) fun h => absurd h.1 (by simp)
      · refine (FdTable.openKind_returns _ hfds₂).ends_iff.trans ?_
        cases copyError ptr 8 with
        | none => exact iff_of_true trivial ⟨by simp, rfl⟩
        | some e => exact iff_of_false (htaken _) fun h => nomatch h.2

/-- A null pointer leaves an empty table with two descriptors and a pipe in use. -/
theorem pipe_null_leaks :
    ∃ st', Throws (pipeHandler (copyError 0 8)) ⟨FdTable.new, PipePool.new⟩ .efault st' ∧
    st'.pool.refcount (.read 0) = 1 ∧ st'.table.entries 3 = some (.pipeRead 0) ∧
    st'.table.entries 4 = some (.pipeWrite 0) :=
  ⟨_, rfl, by decide, by decide, by decide⟩

/-! ## All processes -/

namespace FdSystem

/-- The descriptors of the other processes. -/
def others (s : FdSystem) (pid : Pid) (e : PipeEnd) : Nat :=
  tally (s.live.erase pid) maxFds (fun p fd => (s.tables p).endAt fd) e

/-- The invariant. -/
structure Counted (s : FdSystem) : Prop where
  nodup : s.live.Nodup
  bounded : s.pool.Bounded
  counts : ∀ e, s.pool.refcount e = s.descriptors e

theorem Counted.endsCounted (h : Counted s) : EndsCounted s :=
  fun id _ => ⟨h.counts (.read id), h.counts (.write id)⟩

theorem descriptors_eq (hpid : pid ∈ s.live) (e : PipeEnd) :
    s.descriptors e = (s.tables pid).holds e + s.others pid e := tally_erase hpid

theorem Counted.balanced (h : Counted s) (hpid : pid ∈ s.live) :
    Balanced (s.others pid) ⟨s.tables pid, s.pool⟩ :=
  ⟨h.bounded, fun e => by rw [h.counts e, descriptors_eq hpid]⟩

/-- A table that is not among those counted does not matter. -/
theorem tally_setTable {ps : List Pid} (h : pid ∉ ps) (e : PipeEnd) :
    tally ps maxFds (fun p fd => (s.setTable pid t p).endAt fd) e =
      tally ps maxFds (fun p fd => (s.tables p).endAt fd) e := by
  apply tally_congr
  intro p hp fd _
  have hne : p ≠ pid := fun heq => h (heq ▸ hp)
  simp only [setTable, if_neg hne]

/-- A balanced process gives the counts of the whole system. -/
theorem Counted.commit (h : Counted s) (hpid : pid ∈ s.live)
    {st : FdState} (hbal : Balanced (s.others pid) st) :
    Counted { s with pool := st.pool, tables := s.setTable pid st.table } := by
  refine ⟨h.nodup, hbal.bounded, fun e => ?_⟩
  let s' : FdSystem := { s with pool := st.pool, tables := s.setTable pid st.table }
  have hother : pid ∉ s.live.erase pid := h.nodup.not_mem_erase
  have hrest : s'.others pid e = s.others pid e := tally_setTable hother e
  have hself : s'.tables pid = st.table := if_pos rfl
  calc st.pool.refcount e = st.table.holds e + s.others pid e := hbal.counts e
    _ = (s'.tables pid).holds e + s'.others pid e := by rw [hself, hrest]
    _ = s'.descriptors e := (descriptors_eq (s := s') hpid e).symm

theorem Counted.call (h : Counted s) {x : FdM α}
    (hx : pid ∈ s.live → Ends x ⟨s.tables pid, s.pool⟩ (fun _ st => Balanced (s.others pid) st)
      fun _ st => Balanced (s.others pid) st)
    (hstep : s.call pid x = some s') : Counted s' := by
  unfold FdSystem.call at hstep
  split at hstep
  · next hpid =>
    have hends := hx hpid
    unfold Ends at hends
    split at hends <;> next heq =>
      rw [heq] at hstep
      cases hstep
      exact h.commit hpid hends
  · cases hstep

/-- A new process whose table is added to the counts. -/
theorem Counted.add (h : Counted s) (hpid : pid ∉ s.live) (hb : pool.Bounded)
    (hcounts : ∀ e, pool.refcount e = s.pool.refcount e + t.holds e) :
    Counted { pool := pool, live := pid :: s.live, tables := s.setTable pid t } := by
  refine ⟨List.nodup_cons.mpr ⟨hpid, h.nodup⟩, hb, fun e => ?_⟩
  simp only [descriptors, tally_cons, tally_setTable hpid]
  have hself : Nat.count (fun fd => (s.setTable pid t pid).endAt fd = some e) maxFds =
      t.holds e := by
    simp [setTable, FdTable.holds]
  have hdesc : s.pool.refcount e = tally s.live maxFds (fun p fd => (s.tables p).endAt fd) e :=
    h.counts e
  rw [hself, hcounts, hdesc, Nat.add_comm]

theorem Counted.step (h : Counted s) {op : Op} (hop : KeepsCounts s op)
    (hstep : s.step op = some s') : Counted s' := by
  cases op with
  | spawn pid =>
    simp only [FdSystem.step] at hstep
    split at hstep
    · cases hstep
    · next hpid =>
      cases hstep
      refine h.add hpid h.bounded fun e => ?_
      have hnew : FdTable.new.holds e = 0 := by
        simp [FdTable.holds, FdTable.endAt, FdTable.new]
      rw [hnew, Nat.add_zero]
  | pipe pid copied => exact h.call (fun hpid => (h.balanced hpid).pipe copied hop) hstep
  | openFile pid kind =>
    simp only [FdSystem.step] at hstep
    split at hstep
    · next hk => exact h.call (fun hpid => (h.balanced hpid).openFile hk) hstep
    · cases hstep
  | dup2 pid oldfd newfd =>
    exact h.call (fun hpid => (h.balanced hpid).dup2 hop.1 hop.2) hstep
  | close pid fd =>
    exact h.call (fun hpid => ((h.balanced hpid).close fd).imp (fun _ _ hc => hc.2)) hstep
  | fork pid child =>
    simp only [FdSystem.step] at hstep
    split at hstep
    · next hpids =>
      have hopen : ∀ e, (s.tables pid).holds e ≤ s.pool.refcount e := by
        intro e
        rw [h.counts e, descriptors_eq hpids.1]
        exact Nat.le_add_right _ _
      obtain ⟨pool', hrun, hb, hcounts⟩ := forkCopy_returns h.bounded hop hopen
      rw [hrun.run_eq] at hstep
      cases hstep
      exact h.add hpids.2 hb hcounts
    · cases hstep
  | exit pid =>
    simp only [FdSystem.step] at hstep
    split at hstep
    · next hpid =>
      cases hstep
      refine ⟨h.nodup.erase pid, h.bounded, fun e => ?_⟩
      -- `exit` closes nothing: the counts stay right if no end is left to close
      have hnone : (s.tables pid).holds e = 0 := by
        rw [FdTable.holds, Nat.count_iff_forall_not]
        intro fd hfd hend
        rw [hop fd hfd] at hend
        cases hend
      have hdesc := descriptors_eq hpid e
      rw [hnone, Nat.zero_add] at hdesc
      exact (h.counts e).trans hdesc
    · cases hstep

/-- In every run whose operations all keep the counts, the counts of every pipe
are the numbers of descriptors live processes have of its ends. -/
theorem pipe_ends_counted {s : FdSystem} (h : (runs KeepsCounts).Reachable s) : EndsCounted s := by
  have hcounted : (runs KeepsCounts).Inductive Counted :=
    { init := by
        rintro s rfl
        refine ⟨List.nodup_nil, fun _ _ => rfl, fun e => ?_⟩
        cases e <;> rfl
      step := by
        rintro s s' h ⟨op, hop, hstep⟩
        exact h.step hop hstep }
  exact (hcounted.invariant s h).endsCounted

/-- One process with one pipe. -/
theorem pipe_ends_counted_one_pipe :
    ∃ s, (runs KeepsCounts).Reachable s ∧ s.pool.refcount (.read 0) = 1 ∧ EndsCounted s := by
  let s₁ : FdSystem := { boot with live := [1], tables := boot.setTable 1 FdTable.new }
  have hspawn : (runs KeepsCounts).Reachable s₁ := .step (.init rfl) ⟨.spawn 1, trivial, rfl⟩
  obtain ⟨s₂, hpipe⟩ : ∃ s₂, s₁.step (.pipe 1 none) = some s₂ := ⟨_, rfl⟩
  have hreach : (runs KeepsCounts).Reachable s₂ :=
    .step hspawn ⟨.pipe 1 none, Or.inr (by decide +kernel), hpipe⟩
  have hcount : ((s₁.step (.pipe 1 none)).map fun s => s.pool.refcount (.read 0)) = some 1 := by
    decide +kernel
  rw [hpipe, Option.map_some, Option.some.injEq] at hcount
  exact ⟨s₂, hreach, hcount, pipe_ends_counted hreach⟩

/-- A count and the number of descriptors after some operations. -/
def observe (e : PipeEnd) (ops : List Op) : Option (Nat × Nat) :=
  (ops.foldlM step boot).map fun s => (s.pool.refcount e, s.descriptors e)

theorem reachable_of_foldlM {ops : List Op} (hs : (runs fun _ _ => True).Reachable s)
    (h : ops.foldlM step s = some s') :
    (runs fun _ _ => True).Reachable s' := by
  induction ops generalizing s with
  | nil =>
    cases h
    exact hs
  | cons op ops ih =>
    rw [List.foldlM_cons] at h
    obtain ⟨s1, hstep, hrest⟩ := Option.bind_eq_some_iff.mp h
    exact ih (hs.step ⟨op, trivial, hstep⟩) hrest

theorem reachable_of_observe (ops : List Op) {count descriptors : Nat}
    (h : observe e ops = some (count, descriptors)) :
    ∃ s, (runs fun _ _ => True).Reachable s ∧ s.pool.refcount e = count ∧
      s.descriptors e = descriptors := by
  obtain ⟨s, hs, heq⟩ := Option.map_eq_some_iff.mp h
  cases heq
  exact ⟨s, reachable_of_foldlM (.init rfl) hs, rfl, rfl⟩

/-- Six pipes fill the descriptors 3 to 14 of a process. -/
def sixPipes : List Op := .spawn 1 :: List.replicate 6 (.pipe 1 none)

/-- The counts go wrong when a process exits with a pipe open, when `dup2` puts
the write end where the read end was at descriptor 0, and when a seventh `pipe`
finds one free descriptor. -/
theorem pipe_ends_miscounted :
    (∃ s, (runs fun _ _ => True).Reachable s ∧ s.pool.refcount (.read 0) = 1 ∧
      s.descriptors (.read 0) = 0) ∧
    (∃ s, (runs fun _ _ => True).Reachable s ∧ s.pool.refcount (.read 0) = 2 ∧
      s.descriptors (.read 0) = 1) ∧
    (∃ s, (runs fun _ _ => True).Reachable s ∧ s.pool.refcount (.write 6) = 1 ∧
      s.descriptors (.write 6) = 0) := by
  refine ⟨?_, ?_, ?_⟩
  · exact reachable_of_observe [.spawn 1, .pipe 1 none, .exit 1] (by decide +kernel)
  · exact reachable_of_observe [.spawn 1, .pipe 1 none, .dup2 1 3 0, .dup2 1 4 0]
      (by decide +kernel)
  · exact reachable_of_observe (sixPipes ++ [.pipe 1 none]) (by decide +kernel)

end FdSystem

end PandaOS.Kernel
