import PandaOS.Kernel.Vfs

/-!
# Runs of the file system calls

Rules for the steps that the calls of `Kernel/Vfs` are made of, and for programs
that leave everything as it is when they fail.
-/

namespace PandaOS.Kernel.Files

open Lib

variable {α β : Type} {st : Files} {E : FsFault → Files → Prop} {Q : α → Files → Prop} {x : FileM α}
  {f : α → FileM β}

/-! ## Steps -/

/-- A question has its answer, and changes nothing. -/
theorem ends_query {x : Vfs → Except FsFault α} : Ends (query x) st Q E ↔
      (∀ a, x st.vfs = .ok a → Q a st) ∧ ∀ e, x st.vfs = .error e → E e st :=
  ends_ask

/-- A call on the descriptors. -/
theorem ends_onFds {x : FdM α} : Ends (onFds x) st Q E ↔
      Ends x ⟨st.table, st.pool⟩ (fun a fds => Q a { st with table := fds.table, pool := fds.pool })
        fun e fds => E (.err e) { st with table := fds.table, pool := fds.pool } :=
  ends_zoom

/-- A descriptor is opened at the first free place, if there is one. -/
theorem ends_openKind {kind : FdKind} {Q : Nat → Files → Prop} : Ends (openKind kind) st Q E ↔
      (∀ fd rest, st.table.freeFds = fd :: rest →
        Q fd { st with table := st.table.setEntry fd (some kind) }) ∧
      (st.table.freeFds = [] → E (.err .emfile) st) := by
  unfold openKind FdTable.openKind FdTable.allocateFd
  rw [ends_onFds, ends_bind, ends_get]
  cases st.table.freeFds with
  | nil => simp
  | cons fd rest => simp

/-- A call on the tmpfs, where there is one. -/
theorem ends_withTmpfs {x : TmpFsM α} {fs : TmpFs} (hfs : st.vfs.tmpfs = some fs) :
    Ends (withTmpfs x) st Q E ↔
      Ends x fs (fun a fs' => Q a { st with vfs := { st.vfs with tmpfs := some fs' } })
        fun e fs' => E e { st with vfs := { st.vfs with tmpfs := some fs' } } := by
  unfold withTmpfs
  apply ends_zoomOr_some
  exact hfs

/-! ## Programs that fail without a trace -/

/-- The program changes nothing. -/
def Reads (x : FileM α) : Prop := ∀ st, Ends x st (fun _ st' => st' = st) fun _ st' => st' = st

/-- The program changes nothing when it fails. -/
def Quiet (x : FileM α) : Prop := ∀ st, Ends x st (fun _ _ => True) fun _ st' => st' = st

theorem Reads.query (x : Vfs → Except FsFault α) : Reads (query x) := fun _ =>
  ends_query.mpr ⟨fun _ _ => rfl, fun _ _ => rfl⟩

theorem Reads.failIf (c : Bool) (e : FsFault) : Reads (failIf c e) := fun _ =>
  ends_failIf (fun _ => rfl) rfl

theorem Reads.bind (hx : Reads x) (hf : ∀ a, Reads (f a)) : Reads (x >>= f) := by
  intro st
  refine (hx st).seq (fun a st' hst => ?_)
  subst hst
  exact hf a st'

theorem Reads.quiet (hx : Reads x) (hf : ∀ a, Quiet (f a)) : Quiet (x >>= f) := by
  intro st
  refine (hx st).seq (fun a st' hst => ?_)
  subst hst
  exact hf a st'

theorem quiet_openKind (kind : FdKind) : Quiet (openKind kind) := fun _ =>
  ends_openKind.mpr ⟨fun _ _ _ => trivial, fun _ => rfl⟩

section

variable (flags : Word) (proc : Credentials)

theorem reads_checkReadOnly (file : FileStat) : Reads (checkReadOnly flags proc file) :=
  (Reads.failIf _ _).bind fun _ => Reads.failIf _ _

theorem quiet_openDisk (relPath : PathName) : Quiet (openDisk relPath flags proc) :=
  (Reads.query _).quiet fun _ => (Reads.query _).quiet fun file =>
    (reads_checkReadOnly flags proc file).quiet fun _ => quiet_openKind _

theorem quiet_openFat32 (relPath : PathName) : Quiet (openFat32 relPath flags proc) :=
  (Reads.query _).quiet fun _ => (reads_checkReadOnly flags proc _).quiet fun _ => quiet_openKind _

theorem quiet_openInode (inode : Inode) : Quiet (openInode inode flags proc) :=
  (Reads.query _).quiet fun _ => (Reads.failIf _ _).quiet fun _ => quiet_openKind _

/-- Once all checks are passed the node is opened. -/
theorem quiet_openNodeWithFlags (index : Nat) : Quiet (openNodeWithFlags index flags proc) := by
  intro st
  unfold openNodeWithFlags
  cases staticFiles[index]? with
  | none => exact rfl
  | some node =>
    simp only [ends_bind, ends_get]
    cases st.table.allocateFd with
    | error e => exact rfl
    | ok fd =>
      simp only [ends_bind]
      refine ends_query.mpr ⟨fun file _ => ?_, fun _ _ => rfl⟩
      refine ends_failIf (fun _ => ?_) rfl
      cases node.fileType with
      | file =>
        dsimp only
        split
        · simp
        · simp
      | directory =>
        dsimp only
        rw [ends_bind]
        exact ends_failIf (fun _ => by simp) rfl

end

end PandaOS.Kernel.Files
