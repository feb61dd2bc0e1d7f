import PandaOS.Logic.Descriptors

/-!
# Redirection

`dup2` copies an entry of the table, and from then on every call on the new
descriptor is a call on the file or pipe end that the old one named, whatever
else the process and the others do meanwhile (`later_actsOn`). The lookup of the
calls refuses the descriptors 0, 1 and 2, though, so that a copy there is never
used: reads and writes go on to the terminal and the serial port.

A copy onto the descriptor itself closes it first. That loses it if it is the only
descriptor of its pipe.
-/

namespace PandaOS.Kernel

open Lib Relation

namespace Files

open FdTable

variable {st : Files} {fd : Int} {kind : FdKind}

/-! ## Calls on the new descriptor -/

theorem ends_onEntry {α : Type} {x : EntryM α} (h : st.table.get? fd = some kind)
    {Q : α → Files → Prop} {E : FsFault → Files → Prop} :
    Ends (onEntry fd x) st Q E ↔
      Ends x ⟨kind, st.pool, st.vfs⟩ (fun a s => Q a (storeEntry fd st s)) fun e s => E e
        (storeEntry fd st s) := by
  unfold onEntry
  apply ends_zoomOr_some
  unfold entryOf
  rw [h]
  rfl

theorem storeEntry_self (h : st.table.get? fd = some kind) :
    storeEntry fd st ⟨kind, st.pool, st.vfs⟩ = st := by
  obtain ⟨-, -, hentry⟩ := get?_eq_some_iff.mp h
  unfold storeEntry
  dsimp only
  rw [setEntry_same hentry]

/-- The call served by the open file `kind`, whatever the table says. -/
def serveAt (fd : Int) (kind : FdKind) (c : FileCall) : FileM Reply :=
  zoom (fun st => ⟨kind, st.pool, st.vfs⟩) (storeEntry fd) id (OpenEntry.serve c)

/-- A call on an open descriptor is served by what its entry names. -/
theorem sysCall_run (h : st.table.get? fd = some kind) (c : FileCall) :
    (sysCall fd c).run st = (serveAt fd kind c).run st := by
  obtain ⟨hlo, hhi, hentry⟩ := get?_eq_some_iff.mp h
  apply run_eq_of_ends
  intro Q E
  unfold serveAt
  -- both sides run the same call on the entry; what is left are the checks before it
  rw [ends_zoom]
  cases c with
  | read buf count =>
    dsimp only [sysCall, OpenEntry.serve]
    unfold sysRead
    by_cases hcount : count = 0
    · rw [if_pos hcount, if_pos hcount, ends_pure, ends_pure, storeEntry_self h]
    · rw [if_neg hcount, if_neg hcount]
      by_cases hbuf : buf = 0
      · rw [if_pos hbuf, if_pos hbuf, ends_throw, ends_throw, storeEntry_self h]
        exact .rfl
      · rw [if_neg hbuf, if_neg hbuf, if_neg (by omega), if_neg (by omega)]
        exact ends_onEntry h
  | write buf data =>
    dsimp only [sysCall, OpenEntry.serve]
    unfold sysWrite
    rw [if_neg (by omega)]
    exact ends_onEntry h
  | getdents buf count => exact ends_onEntry h
  | fstat buf => exact ends_onEntry h
  | lseek offset whence =>
    have hthrow : ∀ e : ErrorCode, Ends (throw (.err e) : FileM Reply) st Q E ↔
        Ends (throw (.err e) : EntryM Reply) ⟨kind, st.pool, st.vfs⟩
          (fun a s => Q a (storeEntry fd st s)) fun e s => E e (storeEntry fd st s) := by
      intro e
      rw [ends_throw, ends_throw, storeEntry_self h]
    dsimp only [sysCall, OpenEntry.serve]
    unfold lseekHandler OpenEntry.seek
    split
    · split
      · exact hthrow _
      · exact ends_onEntry h
    · split
      · exact ends_onEntry h
      · split
        · exact ends_onEntry h
        · exact hthrow _

/-- The call is served by an open file or pipe end `object`, and changes nothing else. -/
def ActsOn (object : FdKind) (fd : Int) (c : FileCall) (st : Files) : Prop :=
  ∃ kind, kind.object = object ∧ (sysCall fd c).run st = (serveAt fd kind c).run st ∧
    Ends (OpenEntry.serve c) ⟨kind, st.pool, st.vfs⟩
      (fun _ s => OpenEntry.Touched object.place ⟨kind, st.pool, st.vfs⟩ s)
      fun _ s => OpenEntry.Touched object.place ⟨kind, st.pool, st.vfs⟩ s

theorem actsOn_of_get? (h : st.table.get? fd = some kind) (c : FileCall) :
    ActsOn kind.object fd c st := by
  refine ⟨kind, rfl, sysCall_run h c, ?_⟩
  rw [kind.place_object]
  exact OpenEntry.touchesOwn_serve c ⟨kind, st.pool, st.vfs⟩

/-! ### The standard descriptors -/

theorem onEntry_closed {α : Type} {x : EntryM α} (h : st.table.get? fd = none) :
    Throws (onEntry fd x) st (.err .ebadf) st := by
  apply Ends.throws_eq
  unfold onEntry
  rw [ends_zoomOr_none]
  · exact ⟨rfl, rfl⟩
  · unfold entryOf
    rw [h]
    rfl

theorem orStandard_run {x y : FileM Reply} (hx : Throws x st (.err .ebadf) st) :
    (orStandard x y).run st = y.run st := by
  apply run_eq_of_ends
  intro Q E
  unfold orStandard
  rw [ends_tryCatch, hx.ends_iff, if_pos rfl]

/-- A call that ends at the terminal or at the serial port, whatever the table says, as
it never does on an entry. -/
theorem std_call (st : Files) (hlo : 0 ≤ fd) (hhi : fd < 3) :
    ∃ c r, OpenEntry.Answers (OpenEntry.serve c) ∧ Reply.standard r = true ∧
      Returns (sysCall fd c) st r st := by
  by_cases hzero : fd = 0
  · refine ⟨.read 1 1, .terminal 1, OpenEntry.answers_readHandler 1 1, rfl, ?_⟩
    dsimp only [sysCall]
    unfold sysRead
    rw [if_neg (by decide), if_neg (by decide), if_pos hzero]
    exact orStandard_run (onEntry_closed (get?_std hhi))
  · refine ⟨.write emptyHeap 1 [0], .serial [0], OpenEntry.answers_writeHandler emptyHeap 1 [0],
      rfl, ?_⟩
    dsimp only [sysCall]
    unfold sysWrite
    rw [if_pos (by omega)]
    exact orStandard_run (onEntry_closed (get?_std hhi))

/-- So it does not act on any file or pipe end. -/
theorem not_actsOn_std (hlo : 0 ≤ fd) (hhi : fd < 3) (object : FdKind) :
    ¬∀ c, ActsOn object fd c st := by
  intro hacts
  obtain ⟨c, r, hanswers, hstd, hrun⟩ := std_call st hlo hhi
  obtain ⟨kind, -, hserve, -⟩ := hacts c
  have hserved : Returns (serveAt fd kind c) st r st := by
    show (serveAt fd kind c).run st = _
    rw [← hserve, hrun.run_eq]
  have hends : Ends (serveAt fd kind c) st (fun r _ => Reply.standard r = false)
      fun _ _ => True := by
    unfold serveAt
    rw [ends_zoom]
    exact hanswers _
  have hnot := hserved.of_ends hends
  rw [hstd] at hnot
  cases hnot

end Files

/-! ## Copies onto the descriptor itself -/

/-- The other end of the same pipe. -/
def PipeEnd.other : PipeEnd → PipeEnd
  | .read id => .write id
  | .write id => .read id

/-- Closing the end leaves the pipe open, and opening it again restores the count. -/
def Survives (pool : PipePool) (e : PipeEnd) : Prop :=
  e.pipe < maxPipes ∧ 1 ≤ pool.refcount e ∧ pool.refcount e ≤ usizeMax ∧
    (2 ≤ pool.refcount e ∨ 1 ≤ pool.refcount e.other)

namespace Pipe

variable {p : Pipe} {e : PipeEnd}

theorem isAllocated_iff : p.isAllocated = true ↔ 1 ≤ p.readRefcount ∨ 1 ≤ p.writeRefcount := by
  simp [isAllocated, Nat.succ_le_iff]

theorem isAllocated_closed : (e.closed p).isAllocated = true ↔
    2 ≤ p.refs e ∨ 1 ≤ p.refs e.other := by
  rw [isAllocated_iff]
  cases e with
  | read id =>
    show 1 ≤ p.readRefcount - 1 ∨ 1 ≤ p.writeRefcount ↔ 2 ≤ p.readRefcount ∨ 1 ≤ p.writeRefcount
    omega
  | write id =>
    show 1 ≤ p.readRefcount ∨ 1 ≤ p.writeRefcount - 1 ↔ 2 ≤ p.writeRefcount ∨ 1 ≤ p.readRefcount
    omega

theorem refs_reopened : (∀ e', e'.pipe = e.pipe → (e.opened (e.closed p)).refs e' = p.refs e') ↔
    1 ≤ p.refs e ∧ p.refs e ≤ usizeMax := by
  have hsucc : ∀ c, saturatingSucc (c - 1) = c ↔ 1 ≤ c ∧ c ≤ usizeMax := by
    intro c
    unfold saturatingSucc usizeMax
    omega
  cases e with
  | read id =>
    refine ⟨fun h => (hsucc _).mp (h (.read id) rfl), fun h e' hpipe => ?_⟩
    cases e' with
    | read id' => exact (hsucc _).mpr h
    | write id' => rfl
  | write id =>
    refine ⟨fun h => (hsucc _).mp (h (.write id) rfl), fun h e' hpipe => ?_⟩
    cases e' with
    | read id' => rfl
    | write id' => exact (hsucc _).mpr h

end Pipe

namespace PipePool

variable {pool : PipePool}

theorem ends_withPipe {α : Type} {id : PipeId} {p : Pipe} (h : pool.get? id = some p)
    {x : EStateM ErrorCode Pipe α} {Q : α → PipePool → Prop} {E : ErrorCode → PipePool → Prop} :
    Ends (withPipe id x) pool Q E ↔
      Ends x p (fun a p' => Q a (pool.setPipe id p')) fun e p' => E e (pool.setPipe id p') := by
  obtain ⟨rfl, hrun⟩ := withPipe_some h x
  unfold Ends
  rw [hrun]
  cases x.run (pool.pipes id) <;> rfl

theorem ends_withPipe_none {α : Type} {id : PipeId} (h : pool.get? id = none)
    {x : EStateM ErrorCode Pipe α} {Q : α → PipePool → Prop} {E : ErrorCode → PipePool → Prop} :
    Ends (withPipe id x) pool Q E ↔ E .ebadf pool := by
  have hrun : Throws (withPipe id x) pool .ebadf pool := withPipe_none h x
  exact hrun.ends_iff

theorem get?_eq_some_iff {id : PipeId} {p : Pipe} : pool.get? id = some p ↔
    (id < maxPipes ∧ (pool.pipes id).isAllocated = true) ∧ pool.pipes id = p := by
  unfold get?
  split
  · rename_i h
    simp [h]
  · rename_i h
    simp [h]

theorem setPipe_setPipe (id : PipeId) (p p' : Pipe) :
    (pool.setPipe id p).setPipe id p' = pool.setPipe id p' := by
  unfold setPipe
  congr 1
  funext i
  by_cases hi : i = id
  · rw [if_pos hi, if_pos hi]
  · rw [if_neg hi, if_neg hi]
    exact if_neg hi

end PipePool

namespace Survives

variable {pool : PipePool} {e : PipeEnd}

theorem get? (h : Survives pool e) : pool.get? e.pipe = some (pool.pipes e.pipe) :=
  PipePool.get?_eq_some_iff.mpr ⟨⟨h.1, PipePool.isAllocated_of_refcount h.2.1⟩, rfl⟩

theorem closed (h : Survives pool e) : (e.closed (pool.pipes e.pipe)).isAllocated = true := by
  have hrest := h.2.2.2
  rw [pool.refcount_eq e, pool.refcount_eq e.other, show e.other.pipe =
    e.pipe by cases e <;> rfl] at hrest
  exact Pipe.isAllocated_closed.mpr hrest

end Survives

/-- The table and all counts are the same. -/
def SameEnds (st st' : FdState) : Prop :=
  st'.table = st.table ∧ ∀ e, st'.pool.refcount e = st.pool.refcount e

theorem sameEnds_reopened {st : FdState} {e : PipeEnd} :
    SameEnds st ⟨st.table, st.pool.setPipe e.pipe (e.opened (e.closed (st.pool.pipes e.pipe)))⟩ ↔
      1 ≤ st.pool.refcount e ∧ st.pool.refcount e ≤ usizeMax := by
  rw [st.pool.refcount_eq e, ← Pipe.refs_reopened]
  unfold SameEnds
  simp only [PipePool.refcount_setPipe, true_and]
  constructor
  · intro hsame e' hpipe
    have hcount := hsame e'
    rw [if_pos hpipe, st.pool.refcount_eq e', hpipe] at hcount
    exact hcount
  · intro hsame e'
    split
    · rename_i hpipe
      rw [hsame e' hpipe, st.pool.refcount_eq e', hpipe]
    · rfl

namespace FdTable

variable {st : FdState} {fd : Int} {kind : FdKind}

/-- The pipe end of a copied descriptor can be opened. -/
def EndOpen (pool : PipePool) (kind : FdKind) : Prop :=
  ∀ e, kind.pipeEnd = some e → pool.get? e.pipe ≠ none

theorem openEnd_returns_iff {pool : PipePool} : (∃ pool', Returns kind.openEnd pool () pool') ↔
    EndOpen pool kind := by
  unfold EndOpen
  cases hend : kind.pipeEnd with
  | none =>
    rw [FdKind.openEnd_none hend]
    exact ⟨fun _ _ he => (Option.some_ne_none _ he.symm).elim, fun _ => ⟨pool, rfl⟩⟩
  | some e =>
    rw [FdKind.openEnd_eq hend]
    cases hget : pool.get? e.pipe with
    | none =>
      constructor
      · intro h
        obtain ⟨pool', h⟩ := h
        exact absurd h (not_returns_of_throws (PipePool.withPipe_none hget _))
      · intro h
        exact absurd hget (h e rfl)
    | some p =>
      constructor
      · intro _ e' he'
        cases he'
        rw [hget]
        exact Option.some_ne_none p
      · exact fun _ => ⟨_, (PipePool.withPipe_some hget (modify e.opened)).2⟩

theorem copyTo_ends {newfd : Int} {Q : Unit → FdState → Prop} {E : ErrorCode → FdState → Prop} :
    Ends (copyTo newfd kind) st Q E ↔ Ends kind.openEnd st.pool
        (fun _ pool => Q () ⟨st.table.setEntry newfd.toNat (some kind), pool⟩)
        fun e pool => E e ⟨st.table, pool⟩ := by
  unfold copyTo
  rw [ends_bind, ends_onPool]
  exact .rfl

/-- A copy onto itself changes nothing exactly if it is no pipe end or the pipe survives. -/
theorem dup2_self_iff (h : st.table.get? fd = some kind) :
    (Ends (dup2 fd fd) st (fun _ st' => SameEnds st st') fun _ st' => SameEnds st st') ↔
      ∀ e, kind.pipeEnd = some e → Survives st.pool e := by
  obtain ⟨hlo, hhi, hentry⟩ := get?_eq_some_iff.mp h
  have hcleared : ∀ pool, ¬SameEnds st ⟨st.table.setEntry fd.toNat none, pool⟩ := by
    intro pool hsame
    have htable : st.table.setEntry fd.toNat none = st.table := hsame.1
    rw [← htable, setEntry_entries, if_pos rfl] at hentry
    cases hentry
  have hback : (st.table.setEntry fd.toNat none).setEntry fd.toNat (some kind) = st.table := by
    rw [setEntry_setEntry, setEntry_same hentry]
  rw [ends_dup2 h (by omega) hhi, if_pos (by rw [h]; rfl), ends_close h, ends_onPool]
  simp only [copyTo_ends, hback]
  cases hend : kind.pipeEnd with
  | none =>
    rw [FdKind.closeEnd_none hend, FdKind.openEnd_none hend]
    exact ⟨fun _ _ he => (Option.some_ne_none _ he.symm).elim, fun _ => ⟨rfl, fun _ => rfl⟩⟩
  | some e =>
    rw [FdKind.closeEnd_eq hend, FdKind.openEnd_eq hend]
    simp only [Option.some.injEq, forall_eq']
    cases hget : st.pool.get? e.pipe with
    | none =>
      rw [PipePool.ends_withPipe_none hget]
      refine ⟨fun hsame => absurd hsame (hcleared _), fun hsurvives => ?_⟩
      exact absurd hget (Option.ne_none_iff_exists'.mpr ⟨_, hsurvives.get?⟩)
    | some p =>
      obtain ⟨hid, rfl⟩ := PipePool.get?_eq_some_iff.mp hget
      rw [PipePool.ends_withPipe hget, ends_modify]
      cases halloc : (e.closed (st.pool.pipes e.pipe)).isAllocated with
      | false =>
        -- the pipe is gone, and the descriptor with it
        have hgone : (st.pool.setPipe e.pipe (e.closed (st.pool.pipes e.pipe))).get? e.pipe =
            none := by
          unfold PipePool.get?
          rw [PipePool.setPipe_self, halloc]
          simp
        rw [PipePool.ends_withPipe_none hgone]
        refine ⟨fun hsame => absurd hsame (hcleared _), fun hsurvives => ?_⟩
        rw [hsurvives.closed] at halloc
        cases halloc
      | true =>
        have hthere : (st.pool.setPipe e.pipe (e.closed (st.pool.pipes e.pipe))).get? e.pipe =
            some (e.closed (st.pool.pipes e.pipe)) := by
          unfold PipePool.get?
          rw [PipePool.setPipe_self, halloc, if_pos ⟨hid.1, rfl⟩]
        rw [PipePool.ends_withPipe hthere, ends_modify, PipePool.setPipe_setPipe]
        -- the table is back, and so are the counts unless the one was zero
        rw [sameEnds_reopened]
        have hrest := Pipe.isAllocated_closed.mp halloc
        rw [← st.pool.refcount_eq e, ← show e.other.pipe = e.pipe by cases e <;> rfl,
          ← st.pool.refcount_eq e.other] at hrest
        exact ⟨fun h => ⟨hid.1, h.1, h.2, hrest⟩, fun h => ⟨h.2.1, h.2.2.1⟩⟩

end FdTable

namespace Files

open FdTable

/-- After a `dup2` that succeeds, every later call on `newfd` acts on what `oldfd` named, as
long as `newfd` is not closed or replaced. -/
def Redirects (st : Files) (oldfd newfd : Int) : Prop :=
  ∀ kind st1, st.table.get? oldfd = some kind → Returns (onFds (dup2 oldfd newfd)) st () st1 →
    ∀ debug proc st2, ReflTransGen (Later debug proc newfd) st1 st2 →
      ∀ c, ActsOn kind.object newfd c st2

/-- `dup2(fd, fd)` leaves the table and all counts, whatever it returns. -/
def SelfKept (st : Files) (fd : Int) : Prop :=
  Ends (dup2 fd fd) ⟨st.table, st.pool⟩ (fun _ fds => SameEnds ⟨st.table, st.pool⟩ fds)
    fun _ fds => SameEnds ⟨st.table, st.pool⟩ fds

/-- A successful copy is not onto 0, 1 or 2, and a pipe end that is copied onto itself
survives. -/
def DupKept (st : Files) (oldfd newfd : Int) : Prop :=
  ∀ kind, st.table.get? oldfd = some kind → (0 ≤ newfd → newfd < 3 → ¬EndOpen st.pool kind) ∧
      (oldfd = newfd → ∀ e, kind.pipeEnd = some e → Survives st.pool e)

variable {st : Files} {oldfd newfd : Int} {kind : FdKind}

theorem returns_onFds {α : Type} {x : FdM α} {a : α} {st' : Files}
    (h : Returns (onFds x) st a st') : Returns x ⟨st.table, st.pool⟩ a ⟨st'.table, st'.pool⟩ := by
  rcases returns_or_throws x ⟨st.table, st.pool⟩ with ⟨b, fds, hrun⟩ | ⟨e, fds, hrun⟩
  · have hends : Ends (onFds x) st (fun c st1 => c = b ∧ st1 = ⟨fds.table, fds.pool, st.vfs⟩)
        fun _ _ => True := by
      rw [ends_onFds, hrun.ends_iff]
      exact ⟨rfl, rfl⟩
    obtain ⟨rfl, rfl⟩ := h.of_ends hends
    exact hrun
  · have hends : Ends (onFds x) st (fun _ _ => False) fun _ _ => True := by
      rw [ends_onFds, hrun.ends_iff]
      trivial
    exact (h.of_ends hends).elim

/-- A copy to 0, 1 or 2 succeeds if the pipe end can be opened. -/
theorem dup2_std_returns (hkind : st.table.get? oldfd = some kind)
    (hlo : 0 ≤ newfd) (hhi : newfd < 3) :
    (∃ st1, Returns (onFds (dup2 oldfd newfd)) st () st1) ↔ EndOpen st.pool kind := by
  have hstd : ¬(st.table.get? newfd).isSome = true := by
    rw [get?_std hhi]
    simp
  have hrule : ∀ Q E, Ends (onFds (dup2 oldfd newfd)) st Q E ↔ Ends kind.openEnd st.pool
      (fun _ pool => Q () ⟨st.table.setEntry newfd.toNat (some kind), pool, st.vfs⟩)
      fun e pool => E (.err e) ⟨st.table, pool, st.vfs⟩ := by
    intro Q E
    have hfds : (⟨st.table, st.pool⟩ : FdState).table.get? oldfd = some kind := hkind
    rw [ends_onFds, ends_dup2 hfds hlo (by omega), if_neg hstd, copyTo_ends]
  rw [← openEnd_returns_iff]
  constructor
  · intro h
    obtain ⟨st1, hrun⟩ := h
    rcases returns_or_throws kind.openEnd st.pool with ⟨u, pool, hopen⟩ | ⟨e, pool, hopen⟩
    · exact ⟨pool, hopen⟩
    · have hends : Ends (onFds (dup2 oldfd newfd)) st (fun _ _ => False) fun _ _ => True := by
        rw [hrule, hopen.ends_iff]
        trivial
      exact (hrun.of_ends hends).elim
  · intro h
    obtain ⟨pool, hopen⟩ := h
    refine ⟨⟨st.table.setEntry newfd.toNat (some kind), pool, st.vfs⟩, ?_⟩
    apply Ends.returns_eq
    rw [hrule, hopen.ends_iff]
    exact ⟨rfl, rfl⟩

theorem later_actsOn (hstd : 3 ≤ newfd) (hkind : st.table.get? oldfd = some kind) {st1 st2 : Files}
    (hdup : Returns (onFds (dup2 oldfd newfd)) st () st1) {debug : Bool} {proc : Credentials}
    (hlater : ReflTransGen (Later debug proc newfd) st1 st2) (c : FileCall) :
    ActsOn kind.object newfd c st2 := by
  obtain ⟨kind', hkind', -, hhi, hentry⟩ := dup2_returns (returns_onFds hdup)
  have hkind'' : st.table.get? oldfd = some kind' := hkind'
  rw [hkind] at hkind''
  cases hkind''
  obtain ⟨kind2, hentry2, hobject⟩ := later_sameObject hlater kind
    ((congrArg (FdTable.entries · newfd.toNat) hentry).trans (if_pos rfl))
  rw [← hobject]
  exact actsOn_of_get? (get?_eq_some_iff.mpr ⟨hstd, hhi, hentry2⟩) c

/-- `dup2` redirects, and a copy onto itself changes nothing, exactly under `DupKept`. -/
theorem dup2_redirects_iff (st : Files) (oldfd newfd : Int) :
    (Redirects st oldfd newfd ∧ (oldfd = newfd → SelfKept st oldfd)) ↔ DupKept st oldfd newfd := by
  constructor
  · intro h kind hkind
    refine ⟨fun hlo hhi hopen => ?_, fun hself => ?_⟩
    · -- the copy succeeds, but calls on it go to the terminal and the serial port
      obtain ⟨st₁, hdup⟩ := (dup2_std_returns hkind hlo hhi).mpr hopen
      exact not_actsOn_std hlo hhi kind.object (h.1 kind st₁ hkind hdup true ⟨0, 0⟩ st₁ .refl)
    · exact (dup2_self_iff hkind).mp (h.2 hself)
  · intro h
    refine ⟨fun kind st₁ hkind hdup debug proc st₂ hlater c => ?_, fun hself => ?_⟩
    · obtain ⟨-, -, hlo, -, -⟩ := dup2_returns (returns_onFds hdup)
      by_cases hstd : 3 ≤ newfd
      · exact later_actsOn hstd hkind hdup hlater c
      · have hopen := (dup2_std_returns hkind hlo (by omega)).mp ⟨st₁, hdup⟩
        exact absurd hopen ((h kind hkind).1 hlo (by omega))
    · unfold SelfKept
      cases hkind : st.table.get? oldfd with
      | none =>
        refine (dup2_refused (.inl hkind)).mono (fun _ _ hno => hno.elim) fun _ fds hfds => ?_
        rw [hfds]
        exact ⟨rfl, fun _ => rfl⟩
      | some kind => exact (dup2_self_iff hkind).mpr ((h kind hkind).2 hself)

/-- A process with a pipe, its read end at 3 and its write end at 4. -/
def onePipe : Files where
  table := (FdTable.new.setEntry 3 (some (.pipeRead 0))).setEntry 4 (some (.pipeWrite 0))
  pool := PipePool.new.setPipe 0 Pipe.new.openRead.openWrite
  vfs := Vfs.boot

/-- It redirects its output to the pipe, and what it writes goes to the serial port. -/
theorem dup2_stdout_ignored : ∃ st₁ st₂, Returns (onFds (dup2 4 1)) onePipe () st₁ ∧
    Returns (sysCall 1 (.write emptyHeap 1 [65])) st₁ (.serial [65]) st₂ ∧
      (st₂.pool.pipes 0).count = 0 :=
  ⟨_, _, rfl, rfl, rfl⟩

end Files

end PandaOS.Kernel
