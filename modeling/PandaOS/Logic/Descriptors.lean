import PandaOS.Logic.FileCalls
import PandaOS.Logic.Files
import PandaOS.Theorems.PipeEnds

/-!
# Descriptors in use

Rules for closing and copying a descriptor, and what the operations on a table
keep of the others: whatever the process and the other processes do, a
descriptor that is not closed or replaced names the same open file or pipe end
(`later_sameObject`).
-/

namespace PandaOS.Kernel

open Lib Relation

variable {α : Type} {newfd : Int} {st' : Files} {m : Nat} {debug : Bool} {proc : Credentials}

/-! ## Closing and copying a descriptor -/

namespace FdTable

variable {t : FdTable} {st : FdState} {fd oldfd newfd : Int} {kind : FdKind}

/-- Descriptors 0 to 2 are never served from the table. -/
theorem get?_eq_some_iff : t.get? fd = some kind ↔ 3 ≤ fd ∧ fd < 16 ∧
    t.entries fd.toNat = some kind := by
  unfold get? maxFds firstNonstdFd
  split
  · constructor
    · intro h
      cases h
    · omega
  · split
    · constructor
      · intro h
        cases h
      · omega
    · constructor
      · intro h
        exact ⟨by omega, by omega, h⟩
      · exact fun h => h.2.2

theorem get?_std (h : fd < 3) : t.get? fd = none := by
  unfold get? firstNonstdFd
  split
  · rfl
  · rw [if_pos (by omega)]

theorem setEntry_entries (fd i : Nat) (entry : Option FdKind) :
    (t.setEntry fd entry).entries i = if i = fd then entry else t.entries i := rfl

theorem setEntry_same {n : Nat} {entry : Option FdKind} (h : t.entries n = entry) :
    t.setEntry n entry = t := by
  unfold setEntry
  congr 1
  funext i
  by_cases hi : i = n
  · rw [if_pos hi, hi, h]
  · rw [if_neg hi]

theorem setEntry_setEntry (n : Nat) (entry entry' : Option FdKind) :
    (t.setEntry n entry).setEntry n entry' = t.setEntry n entry' := by
  unfold setEntry
  congr 1
  funext i
  by_cases hi : i = n
  · rw [if_pos hi, if_pos hi]
  · rw [if_neg hi, if_neg hi]
    exact if_neg hi

theorem ends_onPool {x : EStateM ErrorCode PipePool α} {Q : α → FdState → Prop}
    {E : ErrorCode → FdState → Prop} : Ends (onPool x) st Q E ↔
      Ends x st.pool (fun a pool => Q a { st with pool := pool }) fun e pool => E e
        { st with pool := pool } := by
  rcases returns_or_throws x st.pool with ⟨a, pool, h⟩ | ⟨e, pool, h⟩
  · rw [(returns_onPool h).ends_iff, h.ends_iff]
  · rw [(throws_onPool h).ends_iff, h.ends_iff]

variable {Q : Unit → FdState → Prop} {E : ErrorCode → FdState → Prop}

/-- An open descriptor is cleared, and then its pipe end is closed. -/
theorem ends_close (h : st.table.get? fd = some kind) : Ends (close fd) st Q E ↔
      Ends (onPool kind.closeEnd) { st with table := st.table.setEntry fd.toNat none } Q E := by
  obtain ⟨hlo, hhi, hentry⟩ := get?_eq_some_iff.mp h
  unfold close maxFds firstNonstdFd
  rw [if_neg (by omega), if_neg (by omega), ends_bind, ends_get, hentry]
  dsimp only
  rw [ends_bind, ends_modify]

/-- The end of `dup2`. -/
def copyTo (newfd : Int) (kind : FdKind) : FdM Unit := do
  onPool kind.openEnd
  modify fun st => { st with table := st.table.setEntry newfd.toNat (some kind) }

/-- `dup2` of an open descriptor: an open `newfd` is closed first. -/
theorem ends_dup2 (hold : st.table.get? oldfd = some kind) (hlo : 0 ≤ newfd) (hhi : newfd < 16) :
    Ends (dup2 oldfd newfd) st Q E ↔
      if (st.table.get? newfd).isSome then
        Ends (close newfd) st (fun _ st' => Ends (copyTo newfd kind) st' Q E) E
      else Ends (copyTo newfd kind) st Q E := by
  obtain ⟨hlo', hhi', hentry⟩ := get?_eq_some_iff.mp hold
  have hmax : (maxFds : Int) = 16 := rfl
  have hfirst : (firstNonstdFd : Int) = 3 := rfl
  have hopen : ((firstNonstdFd : Int) ≤ newfd ∧ (st.table.entries newfd.toNat).isSome = true) ↔
      (st.table.get? newfd).isSome = true := by
    simp only [Option.isSome_iff_exists, get?_eq_some_iff]
    constructor
    · intro h
      obtain ⟨hstd, kind', hnew⟩ := h
      exact ⟨kind', hstd, hhi, hnew⟩
    · intro h
      obtain ⟨kind', hstd, -, hnew⟩ := h
      exact ⟨hstd, kind', hnew⟩
  unfold dup2
  rw [if_neg (by omega), if_neg (by omega), if_neg (by omega), ends_bind, ends_get, hentry]
  dsimp only
  rw [ends_bind, ends_get]
  by_cases h : (st.table.get? newfd).isSome = true
  · rw [if_pos (hopen.mpr h), if_pos h, ends_bind]
    exact .rfl
  · rw [if_neg fun h' => h (hopen.mp h'), if_neg h]
    exact .rfl

/-- Otherwise it is refused, and nothing has changed. -/
theorem dup2_refused (h : st.table.get? oldfd = none ∨ newfd < 0 ∨ 16 ≤ newfd) :
    Ends (dup2 oldfd newfd) st (fun _ _ => False) fun _ st' => st' = st := by
  have hmax : (maxFds : Int) = 16 := rfl
  have hfirst : (firstNonstdFd : Int) = 3 := rfl
  unfold dup2
  split
  · exact rfl
  · split
    · exact rfl
    · split
      · exact rfl
      · have hnone : st.table.entries oldfd.toNat = none := by
          cases hentry : st.table.entries oldfd.toNat with
          | none => rfl
          | some kind =>
            rw [get?_eq_some_iff.mpr ⟨by omega, by omega, hentry⟩] at h
            rcases h with h | h
            · cases h
            · omega
        rw [ends_bind, ends_get, hnone]
        exact rfl

theorem copyTo_stores (newfd : Int) (kind : FdKind) (st : FdState) :
    Ends (copyTo newfd kind) st (fun _ st' => st'.table = st.table.setEntry newfd.toNat (some kind))
      fun _ _ => True := by
  unfold copyTo
  rw [ends_bind, ends_onPool]
  exact ends_iff.mpr ⟨fun _ _ _ => rfl, fun _ _ _ => trivial⟩

/-- A call that copies has found the old descriptor open and the new one in range. -/
theorem dup2_returns {st' : FdState} (h : Returns (dup2 oldfd newfd) st () st') :
    ∃ kind, st.table.get? oldfd = some kind ∧ 0 ≤ newfd ∧ newfd < 16 ∧
      st'.table = st.table.setEntry newfd.toNat (some kind) := by
  by_cases hrefused : st.table.get? oldfd = none ∨ newfd < 0 ∨ 16 ≤ newfd
  · exact (h.of_ends (dup2_refused hrefused)).elim
  · have hopen : st.table.get? oldfd ≠ none := fun hnone => hrefused (.inl hnone)
    obtain ⟨kind, hkind⟩ := Option.ne_none_iff_exists'.mp hopen
    have hends : Ends (dup2 oldfd newfd) st
        (fun _ st2 => st2.table = st.table.setEntry newfd.toNat (some kind)) fun _ _ => True := by
      rw [ends_dup2 hkind (by omega) (by omega)]
      cases hnew : st.table.get? newfd with
      | none => exact copyTo_stores newfd kind st
      | some kind' =>
        -- the entry is cleared before it is stored
        rw [if_pos (Option.isSome_some), ends_close hnew, ends_onPool]
        refine ends_iff.mpr ⟨fun _ pool _ => (copyTo_stores newfd kind _).imp ?_,
          fun _ _ _ => trivial⟩
        exact fun _ _ h => h.trans (setEntry_setEntry _ _ _)
    exact ⟨kind, hkind, by omega, by omega, h.of_ends hends⟩

/-! ## What a descriptor names while others are used -/

/-- An open descriptor `n` stays open and names the same object. -/
def SameObject (n : Nat) (t t' : FdTable) : Prop :=
  ∀ kind, t.entries n = some kind → ∃ kind', t'.entries n = some kind' ∧ kind'.object = kind.object

variable {n : Nat} {t' t'' : FdTable}

theorem SameObject.refl (t : FdTable) : SameObject n t t := fun kind h => ⟨kind, h, rfl⟩

theorem SameObject.trans (h : SameObject n t t') (h' : SameObject n t' t'') :
    SameObject n t t'' := by
  intro kind hkind
  obtain ⟨kind', hkind', hobject⟩ := h kind hkind
  obtain ⟨kind'', hkind'', hobject'⟩ := h' kind' hkind'
  exact ⟨kind'', hkind'', hobject'.trans hobject⟩

theorem sameObject_setEntry (h : m ≠ n ∨ t.entries m = none) (entry : Option FdKind) :
    SameObject n t (t.setEntry m entry) := by
  intro kind hkind
  refine ⟨kind, ?_, rfl⟩
  rw [setEntry_entries, if_neg ?_, hkind]
  intro hn
  rcases h with hne | hfree
  · exact hne hn.symm
  · rw [← hn, hkind] at hfree
    cases hfree

/-- The same of the table in a larger state. -/
def Keeps {σ : Type} (table : σ → FdTable) (n : Nat) (s s' : σ) : Prop :=
  SameObject n (table s) (table s')

instance {σ : Type} (table : σ → FdTable) : Std.Refl (Keeps table n) := ⟨fun _ => SameObject.refl _⟩

instance {σ : Type} (table : σ → FdTable) : IsTrans σ (Keeps table n) :=
  ⟨fun _ _ _ h h' => .trans h h'⟩

abbrev KeepsFd (n : Nat) : FdState → FdState → Prop := Keeps FdState.table n

theorem keeps_onPool (x : EStateM ErrorCode PipePool α) : MovesAlong (KeepsFd n) (onPool x) := by
  intro st
  rw [ends_onPool]
  exact ends_iff.mpr ⟨fun _ _ _ => .refl st.table, fun _ _ _ => .refl st.table⟩

theorem keeps_close (hne : fd.toNat ≠ n) : MovesAlong (KeepsFd n) (close fd) := by
  unfold close
  split
  · exact MovesAlong.throw _
  · split
    · exact MovesAlong.throw _
    · refine MovesAlong.get.bind fun st => ?_
      cases st.table.entries fd.toNat with
      | none => exact MovesAlong.throw _
      | some kind =>
        refine MovesAlong.bind (MovesAlong.modify fun st => ?_) fun _ => keeps_onPool _
        exact sameObject_setEntry (Or.inl hne) none

theorem keeps_dup2 (hne : newfd.toNat ≠ n) : MovesAlong (KeepsFd n) (dup2 oldfd newfd) := by
  intro st
  have hcopy : ∀ kind, MovesAlong (KeepsFd n) (copyTo newfd kind) := fun kind =>
    (keeps_onPool _).bind fun _ => .modify fun st => sameObject_setEntry (.inl hne) (some kind)
  by_cases hrefused : st.table.get? oldfd = none ∨ newfd < 0 ∨ 16 ≤ newfd
  · refine (dup2_refused hrefused).mono (fun _ _ h => h.elim) fun _ st' h => ?_
    rw [h]
    exact .refl _
  · have hopen : st.table.get? oldfd ≠ none := fun hnone => hrefused (.inl hnone)
    obtain ⟨kind, hkind⟩ := Option.ne_none_iff_exists'.mp hopen
    rw [ends_dup2 hkind (by omega) (by omega)]
    split
    · have hclose : MovesAlong (KeepsFd n) (close newfd) := keeps_close hne
      have hends := (hclose.bind fun _ => hcopy kind) st
      rw [ends_bind] at hends
      exact hends
    · exact hcopy kind st

theorem entries_of_mem_freeFds (h : m ∈ t.freeFds) : t.entries m = none := by
  have hfree := (List.mem_filter.mp h).2
  simpa using hfree

theorem keeps_openKind (kind : FdKind) : MovesAlong (KeepsFd n) (openKind kind) := by
  intro st
  unfold openKind allocateFd
  rw [ends_bind, ends_get]
  cases hfree : st.table.freeFds with
  | nil => exact .refl _
  | cons m rest =>
    have hm : m ∈ st.table.freeFds := by
      rw [hfree]
      exact List.mem_cons_self
    exact sameObject_setEntry (.inr (entries_of_mem_freeFds hm)) (some kind)

theorem keeps_pipe (copied : Option ErrorCode) : MovesAlong (KeepsFd n) (pipeHandler copied) := by
  refine (keeps_onPool _).bind fun ends => (keeps_openKind _).bind fun _ =>
    (keeps_openKind _).bind fun _ => ?_
  cases copied with
  | none => exact .pure _
  | some e => exact .throw _

end FdTable

namespace Files

open FdTable

variable {n : Nat} {st : Files} {fd : Int} {kind : FdKind}

abbrev KeepsOf (n : Nat) : Files → Files → Prop := Keeps Files.table n

theorem keeps_onFds {x : FdM α} (hx : MovesAlong (KeepsFd n) x) :
    MovesAlong (KeepsOf n) (onFds x) :=
  .zoom hx fun _ _ h => h

theorem keeps_query (x : Vfs → Except FsFault α) : MovesAlong (KeepsOf n) (query x) :=
  .ask _

theorem keeps_failIf (c : Bool) (e : FsFault) : MovesAlong (KeepsOf n) (failIf c e) := fun st =>
  ends_failIf (fun _ => .refl st.table) (.refl st.table)

theorem keeps_withTmpfs (x : TmpFsM α) : MovesAlong (KeepsOf n) (withTmpfs x) :=
  .zoomOr (S := fun _ _ => True) (fun _ => ends_iff.mpr
    ⟨fun _ _ _ => trivial, fun _ _ _ => trivial⟩) fun st _ _ _ _ => .refl st.table

theorem keeps_vfs (f : Files → Vfs) :
    MovesAlong (KeepsOf n) (modify fun st => { st with vfs := f st } : FileM PUnit) :=
  .modify fun st => .refl st.table

/-! ### Opening -/

theorem keeps_openKind (kind : FdKind) : MovesAlong (KeepsOf n) (openKind kind) :=
  keeps_onFds (FdTable.keeps_openKind kind)

section

variable (flags : Word) (proc : Credentials)

theorem keeps_checkReadOnly (file : FileStat) :
    MovesAlong (KeepsOf n) (checkReadOnly flags proc file) :=
  (keeps_failIf _ _).bind fun _ => keeps_failIf _ _

theorem keeps_openDisk (relPath : PathName) :
    MovesAlong (KeepsOf n) (openDisk relPath flags proc) :=
  (keeps_query _).bind fun _ => (keeps_query _).bind fun file =>
    (keeps_checkReadOnly flags proc file).bind fun _ => keeps_openKind _

theorem keeps_openFat32 (relPath : PathName) :
    MovesAlong (KeepsOf n) (openFat32 relPath flags proc) :=
  (keeps_query _).bind fun _ => (keeps_checkReadOnly flags proc _).bind fun _ => keeps_openKind _

theorem keeps_findTmpfs (debug : Bool) (relPath : PathName) :
    MovesAlong (KeepsOf n) (findTmpfs debug relPath flags) := by
  refine MovesAlong.get.bind fun st => ?_
  split
  · split
    · exact (keeps_withTmpfs _).bind fun _ => MovesAlong.pure _
    · exact MovesAlong.pure _
  · split
    · exact keeps_withTmpfs _
    · exact MovesAlong.throw _
  · exact MovesAlong.throw _

theorem keeps_openTmpfs (debug : Bool) (relPath : PathName) :
    MovesAlong (KeepsOf n) (openTmpfs debug relPath flags proc) :=
  (keeps_findTmpfs flags debug relPath).bind fun _ => (keeps_query _).bind fun _ =>
    (keeps_failIf _ _).bind fun _ => keeps_openKind _

theorem keeps_findMemory (path : PathName) : MovesAlong (KeepsOf n) (findMemory path flags) := by
  refine MovesAlong.get.bind fun st => ?_
  split
  · exact MovesAlong.pure _
  · split
    · exact (keeps_failIf _ _).bind fun _ => MovesAlong.get.bind fun _ =>
        (keeps_failIf _ _).bind fun _ => (keeps_vfs _).bind fun _ => MovesAlong.pure _
    · exact MovesAlong.throw _

/-- The descriptor is looked for first and filled in last; the table does not change in
between. -/
theorem keeps_openNodeWithFlags (index : Nat) :
    MovesAlong (KeepsOf n) (openNodeWithFlags index flags proc) := by
  intro st
  unfold openNodeWithFlags
  cases staticFiles[index]? with
  | none => exact .refl _
  | some node =>
    dsimp only
    rw [ends_bind, ends_get]
    cases hfree : st.table.freeFds with
    | nil =>
      unfold allocateFd
      rw [hfree]
      exact .refl _
    | cons m rest =>
      have hm : m ∈ st.table.freeFds := by
        rw [hfree]
        exact List.mem_cons_self
      have hset : ∀ entry, SameObject n st.table (st.table.setEntry m entry) :=
        sameObject_setEntry (.inr (entries_of_mem_freeFds hm))
      unfold allocateFd
      rw [hfree]
      dsimp only
      rw [ends_bind, ends_query]
      refine ⟨fun file _ => ?_, fun _ _ => .refl _⟩
      rw [ends_bind]
      refine ends_failIf (fun _ => ?_) (.refl _)
      cases node.fileType with
      | file =>
        dsimp only
        split
        · exact hset _
        · exact hset _
      | directory =>
        dsimp only
        rw [ends_bind]
        exact ends_failIf (fun _ => hset _) (.refl _)

theorem keeps_openPathWithFlags (debug : Bool) (path : PathName) :
    MovesAlong (KeepsOf n) (openPathWithFlags debug path flags proc) := by
  refine MovesAlong.get.bind fun st => ?_
  split
  · exact keeps_openDisk flags proc _
  · exact keeps_openFat32 flags proc _
  · exact keeps_openTmpfs flags proc debug _
  · exact (keeps_findMemory flags path).bind fun index => keeps_openNodeWithFlags flags proc index

end

/-! ### Calls -/

theorem keeps_onEntry (fd : Int) {x : EntryM α} (hx : OpenEntry.TouchesOwn x) :
    MovesAlong (KeepsOf n) (onEntry fd x) := by
  have hobject : MovesAlong (fun s s' : OpenEntry => s'.kind.object = s.kind.object) x := fun s =>
    (hx s).mono (fun _ _ h => h.object) fun _ _ h => h.object
  refine .zoomOr hobject fun st s s' hentry hsame => ?_
  obtain ⟨kind, hkind, rfl⟩ := Option.map_eq_some_iff.mp hentry
  by_cases hn : fd.toNat = n
  · -- the descriptor itself: the call has kept its object
    intro kind0 hkind0
    obtain ⟨-, -, hget⟩ := get?_eq_some_iff.mp hkind
    rw [hn, hkind0] at hget
    cases hget
    exact ⟨s'.kind, if_pos hn.symm, hsame⟩
  · exact sameObject_setEntry (.inl hn) (some s'.kind)

theorem keeps_orStandard {x y : FileM Reply} (hx : MovesAlong (KeepsOf n) x)
    (hy : MovesAlong (KeepsOf n) y) : MovesAlong (KeepsOf n) (orStandard x y) := by
  refine .tryCatch hx fun e => ?_
  split
  · exact hy
  · exact .throw _

theorem keeps_sysRead (fd : Int) (buf : Word) (count : Nat) :
    MovesAlong (KeepsOf n) (sysRead fd buf count) := by
  have hentry : MovesAlong (KeepsOf n) (onEntry fd (OpenEntry.readHandler buf count)) :=
    keeps_onEntry fd (OpenEntry.touchesOwn_readHandler buf count)
  unfold sysRead
  split
  · exact .pure _
  · split
    · exact .throw _
    · split
      · refine keeps_orStandard hentry ?_
        unfold readTerminal
        split
        · exact .throw _
        · exact .pure _
      · split
        · exact .throw _
        · exact hentry

theorem keeps_sysWrite (heap : HeapRoom) (fd : Int) (buf : Word) (data : List Byte) :
    MovesAlong (KeepsOf n) (sysWrite heap fd buf data) := by
  have hentry : MovesAlong (KeepsOf n) (onEntry fd (OpenEntry.writeHandler heap buf data)) :=
    keeps_onEntry fd (OpenEntry.touchesOwn_writeHandler buf data heap)
  unfold sysWrite
  split
  · refine keeps_orStandard hentry ?_
    unfold writeSerial
    split
    · exact .pure _
    · split
      · exact .throw _
      · exact .pure _
  · exact hentry

theorem keeps_lseek (fd offset whence : Int) :
    MovesAlong (KeepsOf n) (lseekHandler fd offset whence) := by
  have hentry : ∀ x : EntryM Reply, (∀ place, MovesAlong (OpenEntry.Touched place) x) →
      MovesAlong (KeepsOf n) (onEntry fd x) := fun x hx => keeps_onEntry fd fun s => hx _ s
  unfold lseekHandler
  split
  · split
    · exact .throw _
    · exact hentry _ fun _ => OpenEntry.touched_setOffset _
  · split
    · exact hentry _ fun _ => OpenEntry.touched_seekCur _
    · split
      · exact hentry _ fun _ => OpenEntry.touched_seekEnd _
      · exact .throw _

theorem keeps_sysCall (fd : Int) (c : FileCall) : MovesAlong (KeepsOf n) (sysCall fd c) := by
  cases c with
  | read buf count => exact keeps_sysRead fd buf count
  | write heap buf data => exact keeps_sysWrite heap fd buf data
  | getdents buf count => exact keeps_onEntry fd fun s => OpenEntry.touched_getdents buf count s
  | fstat buf => exact keeps_onEntry fd fun s => OpenEntry.touched_fstat buf s
  | lseek offset whence => exact keeps_lseek fd offset whence

/-! ### Steps and runs -/

/-- The operation does not close the descriptor or put another one in its place. -/
def Op.Spares (newfd : Int) : Op → Prop
  | .close fd => fd.toNat ≠ newfd.toNat
  | .dup2 _ fd => fd.toNat ≠ newfd.toNat
  | _ => True

theorem keeps_run (debug : Bool) (proc : Credentials) {op : Op} (h : op.Spares newfd) :
    MovesAlong (KeepsOf newfd.toNat) (op.run debug proc) := by
  cases op with
  | openPath path flags =>
    exact (keeps_openPathWithFlags flags proc debug path).bind fun _ => .pure _
  | close fd => exact keeps_onFds (keeps_close h)
  | dup2 oldfd fd => exact keeps_onFds (keeps_dup2 h)
  | pipe copied => exact keeps_onFds (keeps_pipe copied)
  | call fd c => exact (keeps_sysCall fd c).bind fun _ => .pure _
  | others pool vfs => exact .modify fun st => .refl st.table

/-- A step of the process or of the others that spares the descriptor. -/
def Later (debug : Bool) (proc : Credentials) (newfd : Int) (st st' : Files) : Prop :=
  ∃ op : Op, op.Spares newfd ∧ Leaves debug proc op st st'

theorem Later.sameObject {st : Files}
    (h : Later debug proc newfd st st') : SameObject newfd.toNat st.table st'.table := by
  obtain ⟨op, hspares, hleaves⟩ := h
  have hkeeps := ends_iff.mp (keeps_run debug proc hspares st)
  rcases hleaves with hreturns | ⟨e, hthrows⟩
  · exact hkeeps.1 _ _ hreturns
  · exact hkeeps.2 _ _ hthrows

/-- However long the run, the descriptor names the same object. -/
theorem later_sameObject {st : Files} (h : ReflTransGen (Later debug proc newfd) st st') :
    SameObject newfd.toNat st.table st'.table := by
  induction h with
  | refl => exact .refl _
  | tail _ hstep ih => exact ih.trans hstep.sameObject

end Files

end PandaOS.Kernel
