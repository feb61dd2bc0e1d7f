import PandaOS.Kernel.FileCalls
import PandaOS.Theorems.Pipes
import PandaOS.Theorems.TmpFs

/-!
# What calls on a descriptor touch

`serve` is a call on an open descriptor as its handler serves it. It keeps the
open file or pipe end that the entry names, and changes nothing but the offset
and the contents at the place named (`touchesOwn_serve`).
-/

namespace PandaOS.Kernel

open Lib

/-! ## What a descriptor names -/

namespace FdKind

/-- The open file without the place in it, or the pipe end. -/
def object (kind : FdKind) : FdKind := kind.withOffset 0

/-- Where the contents of the file or pipe are that a call may change. -/
inductive Place
  | node (index : Nat)
  | inode (inode : Inode)
  | pipe (id : PipeId)
  deriving DecidableEq

def place : FdKind → Option Place
  | .file f _ => some (.node f.nodeIndex)
  | .tmpfsFile f => some (.inode f.inode)
  | .pipeRead id | .pipeWrite id => some (.pipe id)
  | _ => none

@[simp] theorem object_withOffset (kind : FdKind) (offset : Nat) :
    (kind.withOffset offset).object = kind.object := by
  cases kind <;> rfl

theorem place_object (kind : FdKind) : kind.object.place = kind.place := by
  cases kind <;> rfl

end FdKind

/-- The reply came from the terminal or the serial port. -/
def Reply.standard : Reply → Bool
  | .serial _ | .terminal _ => true
  | _ => false

/-- What no call on a descriptor changes. -/
def Vfs.fixed (v : Vfs) :=
  (v.mounts, v.disk, v.fat32, v.dynamicFiles, v.fileModes, v.fileOwnership)

/-- A write changes one file of the tmpfs. -/
theorem TmpFs.write_others (heap : HeapRoom) (inode : Inode) (offset : Nat) (data : List Byte) :
    MovesAlong (fun fs fs' => (∀ i, i ≠ inode → fs'.nodes i = fs.nodes i) ∧
      (fs'.nextInode, fs'.modes, fs'.rootInode) = (fs.nextInode, fs.modes, fs.rootInode))
      (TmpFs.write heap inode offset data) := by
  intro fs
  unfold TmpFs.write
  rw [ends_bind]
  refine TmpFs.ends_getData (fun fileData _ => ?_) fun _ => ⟨fun _ _ => rfl, rfl⟩
  rw [ends_bind]
  refine ends_failIf (fun _ => ?_) ⟨fun _ _ => rfl, rfl⟩
  exact ⟨fun i hi => if_neg hi, rfl⟩

/-- A call on a pipe changes no other. -/
theorem PipePool.withPipe_others {α : Type} (id : PipeId) (x : EStateM ErrorCode Pipe α) :
    MovesAlong (fun pool pool' => ∀ i, i ≠ id → pool'.pipes i = pool.pipes i)
      (PipePool.withPipe id x) := by
  intro pool
  unfold Ends
  cases hget : pool.get? id with
  | none =>
    rw [PipePool.withPipe_none hget]
    exact fun _ _ => rfl
  | some p =>
    rw [(PipePool.withPipe_some hget x).2]
    cases x.run (pool.pipes id) with
    | ok a p' => exact fun i hi => pool.setPipe_ne hi p'
    | error e p' => exact fun i hi => pool.setPipe_ne hi p'

namespace OpenEntry

open FdKind (Place)

def seek (offset whence : Int) : EntryM Reply :=
  if whence = 0 then if offset < 0 then throw (.err .einval) else setOffset offset.toNat
  else if whence = 1 then seekCur offset
  else if whence = 2 then seekEnd offset
  else throw (.err .einval)

/-- A call on an open descriptor, as its handler serves it. -/
def serve : FileCall → EntryM Reply
  | .read buf count =>
    if count = 0 then pure (.bytes [])
    else if buf = 0 then throw (.err .efault)
    else readHandler buf count
  | .write heap buf data => writeHandler heap buf data
  | .getdents buf count => getdents64Handler buf count
  | .fstat buf => fstatHandler buf
  | .lseek offset whence => seek offset whence

/-- Nothing has changed but the offset and what is at the place. -/
structure Touched (place : Option Place) (s s' : OpenEntry) : Prop where
  object : s'.kind.object = s.kind.object
  nodes : ∀ i, place ≠ some (.node i) → s'.vfs.writableFiles i = s.vfs.writableFiles i
  pipes : ∀ id, place ≠ some (.pipe id) → s'.pool.pipes id = s.pool.pipes id
  inodes : ∀ i, place ≠ some (.inode i) → (s'.vfs.tmpfs.map fun fs => fs.nodes i) =
    s.vfs.tmpfs.map fun fs => fs.nodes i
  tmpfs : (s'.vfs.tmpfs.map fun fs => (fs.nextInode, fs.modes, fs.rootInode)) =
    s.vfs.tmpfs.map fun fs => (fs.nextInode, fs.modes, fs.rootInode)
  rest : s'.vfs.fixed = s.vfs.fixed

variable {place : Option Place} {s : OpenEntry} {α : Type}

instance : Std.Refl (Touched place) :=
  ⟨fun _ => ⟨rfl, fun _ _ => rfl, fun _ _ => rfl, fun _ _ => rfl, rfl, rfl⟩⟩

instance : IsTrans OpenEntry (Touched place) := ⟨fun _ _ _ h h' =>
  { object := h'.object.trans h.object
    nodes := fun i hi => (h'.nodes i hi).trans (h.nodes i hi)
    pipes := fun id hid => (h'.pipes id hid).trans (h.pipes id hid)
    inodes := fun i hi => (h'.inodes i hi).trans (h.inodes i hi)
    tmpfs := h'.tmpfs.trans h.tmpfs
    rest := h'.rest.trans h.rest }⟩

theorem touched_query (x : Vfs → Except FsFault α) : MovesAlong (Touched place) (query x) :=
  .ask _

theorem touched_moveTo (offset : Nat) : MovesAlong (Touched place) (moveTo offset) :=
  .modify fun s => ⟨s.kind.object_withOffset offset, fun _ _ => rfl,
    fun _ _ => rfl, fun _ _ => rfl, rfl, rfl⟩

section

variable (buf : Word) (data : List Byte)

theorem touched_copyOut : MovesAlong (Touched place) (copyOut buf data) := by
  unfold copyOut
  split
  · exact .throw _
  · exact .pure _

/-! ### Reading -/

theorem touched_read (count : Nat) : MovesAlong (Touched place) (read count) :=
  MovesAlong.get.bind fun _ => (touched_query _).bind fun _ => (touched_moveTo _).bind fun _ =>
    .pure _

theorem touched_deliver : MovesAlong (Touched place) (deliver buf data) := by
  unfold deliver
  split
  · exact (touched_copyOut buf data).bind fun _ => .pure _
  · exact .pure _

theorem touched_orWait {x : EntryM α} (hx : MovesAlong (Touched place) x) :
    MovesAlong (Touched place) (orWait x) := by
  refine .tryCatch ?_ fun e => ?_
  · intro s
    rw [ends_map]
    exact hx s
  · split
    · exact .pure _
    · exact .throw _

theorem touched_onPipes (id : PipeId) (x : EStateM ErrorCode Pipe α) :
    MovesAlong (Touched (some (.pipe id))) (onPipes (PipePool.withPipe id x)) := by
  refine .zoom (PipePool.withPipe_others id x) fun s pool hpool => ?_
  refine ⟨rfl, fun _ _ => rfl, fun i hi => hpool i ?_, fun _ _ => rfl, rfl, rfl⟩
  rintro rfl
  exact hi rfl

theorem touched_readPipe (id : PipeId) (count : Nat) :
    MovesAlong (Touched (some (.pipe id))) (readPipe id buf count) := by
  refine (touched_orWait (touched_onPipes id _)).bind fun r => ?_
  cases r with
  | none => exact .pure _
  | some r => exact touched_deliver buf _

/-! ### Writing -/

theorem touched_writeMemory (heap : HeapRoom) (f : OpenFile) :
    MovesAlong (Touched (some (.node f.nodeIndex))) (writeMemory heap f data) := by
  refine MovesAlong.get.bind fun s => MovesAlong.bind ?_ fun _ =>
    MovesAlong.bind (MovesAlong.modify fun s => ?_) fun _ =>
    (touched_moveTo _).bind fun _ => MovesAlong.pure _
  · intro s
    exact ends_failIf (fun _ => Std.Refl.refl s) (Std.Refl.refl s)
  · refine ⟨rfl, fun i hi => ?_, fun _ _ => rfl, fun _ _ => rfl, rfl, rfl⟩
    refine if_neg ?_
    rintro rfl
    exact hi rfl

theorem touched_writeTmpfs (heap : HeapRoom) (f : OpenInode) :
    MovesAlong (Touched (some (.inode f.inode))) (writeTmpfs heap f data) := by
  refine (touched_query _).bind fun offset => .bind ?_ fun _ =>
    (touched_moveTo _).bind fun _ => .pure _
  refine .zoomOr (TmpFs.write_others heap f.inode offset data) fun s fs fs' hfs hothers => ?_
  refine ⟨rfl, fun _ _ => rfl, fun _ _ => rfl, fun i hi => ?_, ?_, rfl⟩
  · rw [hfs]
    refine congrArg some (hothers.1 i ?_)
    rintro rfl
    exact hi rfl
  · rw [hfs]
    exact congrArg some hothers.2

theorem touched_copyIn : MovesAlong (Touched place) (copyIn buf data) := by
  unfold copyIn
  split
  · exact .throw _
  · exact .pure _

theorem touched_writePipe (id : PipeId) :
    MovesAlong (Touched (some (.pipe id))) (writePipe id buf data) := by
  refine (touched_copyIn buf data).bind fun copied =>
    (touched_orWait (touched_onPipes id _)).bind fun r => ?_
  cases r with
  | none => exact .pure _
  | some n => exact .pure _

/-! ### Every call -/

/-- The call touches what its descriptor names and nothing else. -/
def TouchesOwn {α : Type} (x : EntryM α) : Prop :=
  ∀ s, Ends x s (fun _ s' => Touched s.kind.place s s') fun _ s' => Touched s.kind.place s s'

theorem touchesOwn_write (heap : HeapRoom) : TouchesOwn (write heap data) := by
  intro s
  unfold write
  rw [ends_bind, ends_get]
  cases hkind : s.kind with
  | file f writable =>
    dsimp only
    split
    · exact touched_writeMemory data heap f s
    · exact Std.Refl.refl s
  | tmpfsFile f => exact touched_writeTmpfs data heap f s
  | _ => exact Std.Refl.refl s

theorem touchesOwn_writeFile (heap : HeapRoom) : TouchesOwn (writeFile heap buf data) := by
  intro s
  unfold writeFile copyIn
  rw [ends_bind]
  split
  · exact Std.Refl.refl s
  · rw [ends_pure, ends_bind]
    exact touchesOwn_write _ heap s

theorem touchesOwn_readHandler (count : Nat) : TouchesOwn (readHandler buf count) := by
  intro s
  unfold readHandler
  rw [ends_bind, ends_get]
  have hfile : ∀ place, MovesAlong (Touched place)
      (read (min count tempBufSize) >>= fun data => deliver buf data) := fun _ =>
    (touched_read _).bind fun data => touched_deliver buf data
  cases hkind : s.kind with
  | pipeRead id => exact touched_readPipe buf id count s
  | file f writable => exact hfile _ s
  | diskFile f => exact hfile _ s
  | tmpfsFile f => exact hfile _ s
  | fat32File f => exact hfile _ s
  | _ => exact Std.Refl.refl s

theorem touchesOwn_writeHandler (heap : HeapRoom) : TouchesOwn (writeHandler heap buf data) := by
  intro s
  unfold writeHandler
  rw [ends_bind, ends_get]
  have hfile := touchesOwn_writeFile buf data heap s
  cases hkind : s.kind with
  | file f writable =>
    rw [hkind] at hfile
    dsimp only
    split
    · exact hfile
    · exact Std.Refl.refl s
  | tmpfsFile f =>
    rw [hkind] at hfile
    exact hfile
  | pipeWrite id => exact touched_writePipe buf data id s
  | _ => exact Std.Refl.refl s

theorem touched_getdents (count : Nat) :
    MovesAlong (Touched place) (getdents64Handler buf count) := by
  refine MovesAlong.get.bind fun s => (touched_query _).bind fun entries => ?_
  split
  · exact MovesAlong.pure _
  · dsimp only
    split
    · exact MovesAlong.pure _
    · exact (touched_copyOut _ _).bind fun _ => (touched_moveTo _).bind fun _ => MovesAlong.pure _

theorem touched_fstat : MovesAlong (Touched place) (fstatHandler buf) :=
  MovesAlong.get.bind fun _ => (touched_query _).bind fun _ => (touched_copyOut _ _).bind fun _ =>
    .pure _

end

theorem touched_setOffset (offset : Nat) : MovesAlong (Touched place) (setOffset offset) :=
  MovesAlong.get.bind fun _ => (touched_query _).bind fun _ => (touched_moveTo _).bind fun _ =>
    .pure _

theorem touched_seekFrom (base : Nat) (offset : Int) :
    MovesAlong (Touched place) (seekFrom base offset) := by
  unfold seekFrom
  dsimp only
  split
  · exact touched_setOffset _
  · exact .throw _

theorem touched_seekCur (offset : Int) : MovesAlong (Touched place) (seekCur offset) :=
  MovesAlong.get.bind fun _ => (touched_query _).bind fun base => touched_seekFrom base offset

theorem touched_seekEnd (offset : Int) : MovesAlong (Touched place) (seekEnd offset) :=
  MovesAlong.get.bind fun _ => (touched_query _).bind fun base => touched_seekFrom base offset

theorem touched_seek (offset whence : Int) : MovesAlong (Touched place) (seek offset whence) := by
  unfold seek
  split
  · split
    · exact .throw _
    · exact touched_setOffset _
  · split
    · exact touched_seekCur offset
    · split
      · exact touched_seekEnd offset
      · exact .throw _

theorem touchesOwn_serve (c : FileCall) : TouchesOwn (serve c) := by
  cases c with
  | read buf count =>
    intro s
    dsimp only [serve]
    split
    · exact Std.Refl.refl s
    · split
      · exact Std.Refl.refl s
      · exact touchesOwn_readHandler buf count s
  | write heap buf data => exact touchesOwn_writeHandler buf data heap
  | getdents buf count => exact fun s => touched_getdents buf count s
  | fstat buf => exact fun s => touched_fstat buf s
  | lseek offset whence => exact fun s => touched_seek offset whence s

/-! ### Replies -/

/-- What the program returns came from an entry. -/
def Answers (x : EntryM Reply) : Prop :=
  ∀ s, Ends x s (fun r _ => r.standard = false) fun _ _ => True

theorem answers_bind (x : EntryM α) {f : α → EntryM Reply} (hf : ∀ a, Answers (f a)) :
    Answers (x >>= f) := by
  intro s
  rw [ends_bind]
  exact ends_iff.mpr ⟨fun a s' _ => hf a s', fun _ _ _ => trivial⟩

theorem answers_throw (e : FsFault) : Answers (throw e) := fun _ => trivial

theorem answers_bytes (data : List Byte) : Answers (pure (.bytes data)) := fun _ => rfl

theorem answers_value (n : Nat) : Answers (pure (.value n)) := fun _ => rfl

theorem answers_deliver (buf : Word) (data : List Byte) : Answers (deliver buf data) := by
  unfold deliver
  split
  · exact answers_bind _ fun _ => answers_bytes data
  · exact answers_bytes data

theorem answers_readHandler (buf : Word) (count : Nat) : Answers (readHandler buf count) := by
  refine answers_bind _ fun s => ?_
  split
  · refine answers_bind _ fun r => ?_
    cases r with
    | none => exact fun _ => rfl
    | some r => exact answers_deliver buf _
  all_goals first
    | exact answers_throw _
    | exact answers_bind _ fun data => answers_deliver buf data

theorem answers_writeHandler (heap : HeapRoom) (buf : Word) (data : List Byte) :
    Answers (writeHandler heap buf data) := by
  have hfile : Answers (writeFile heap buf data) :=
    answers_bind _ fun _ => answers_bind _ fun n => answers_value n
  refine answers_bind _ fun s => ?_
  split
  · split
    · exact hfile
    · exact answers_throw _
  · exact hfile
  · refine answers_bind _ fun copied => answers_bind _ fun r => ?_
    cases r with
    | none => exact fun _ => rfl
    | some n => exact answers_value n
  · exact answers_throw _

end OpenEntry

end PandaOS.Kernel
