import PandaOS.Logic.HomeAlloc

/-!
# What every call of the home file system keeps

The calls are made of a few steps: reading and writing an inode record, going from a
block number to its sector, writing there, and the four allocator functions. What
these steps keep, every call keeps (`Upholds.call`). The slots of the inodes that are
read are block numbers with `B`, and the sectors that are written are sectors with `S`.
-/

namespace PandaOS.Kernel.HomeFs

open Lib

variable {debug : Bool} {α β : Type} {I : HomeFs → Prop} {P : Prop} {B S : Nat → Prop}
  {V : α → Prop} {W : β → Prop} {x : HomeM α} {b : Nat}

/-- From a state with `I` the program returns a value with `V` or fails, again in a state
with `I`. Under `P` this is not asked of a panic. -/
def Keeps (I : HomeFs → Prop) (P : Prop) (x : HomeM α) (V : α → Prop) : Prop :=
  ∀ fs, I fs → Ends x fs (fun a fs' => V a ∧ I fs') fun e fs' => (P ∧ e = .panic) ∨ I fs'

namespace Keeps

protected theorem pure {a : α} (h : V a) : Keeps I P (pure a) V := fun _ hfs => ⟨h, hfs⟩

protected theorem throw (e : HomeFault) : Keeps I P (throw e) V := fun _ hfs => Or.inr hfs

protected theorem get : Keeps I P get fun _ => True := fun _ hfs => ⟨trivial, hfs⟩

protected theorem bind {x : HomeM α} {f : α → HomeM β} (hx : Keeps I P x V)
    (hf : ∀ a, V a → Keeps I P (f a) W) : Keeps I P (x >>= f) W := by
  intro fs hfs
  exact (hx fs hfs).seq (fun a fs' h => hf a h.1 fs' h.2)

protected theorem failIf (c : Bool) (e : HomeFault) :
    Keeps I P (failIf c e) fun _ => c = false := by
  cases c with
  | false => exact .pure rfl
  | true => exact .throw e

/-- A check that the rest does not need. -/
theorem guard {c : Bool} {e : HomeFault} {x : Unit → HomeM α} (hx : Keeps I P (x ()) V) :
    Keeps I P (Lib.failIf c e >>= x) V :=
  (Keeps.failIf c e).bind fun _ _ => hx

/-- A handler that passes panics on. -/
protected theorem tryCatch {x : HomeM α} {f : HomeFault → HomeM α} (hx : Keeps I P x V)
    (hf : ∀ e, Keeps I P (f (.err e)) V) (hpanic : f .panic = MonadExcept.throw .panic) :
    Keeps I P (tryCatch x f) V := by
  intro fs hfs
  rw [ends_tryCatch]
  refine (hx fs hfs).mono (fun _ _ h => h) fun e fs' he => ?_
  cases e with
  | err e => exact hf e fs' (he.resolve_left (by simp))
  | panic =>
    rw [hpanic]
    exact he

theorem rollback {x : HomeM Unit} (hx : Keeps I P x fun _ => True) :
    Keeps I P (HomeFs.rollback x) fun _ => True :=
  .tryCatch hx (fun _ => .pure trivial) rfl

theorem orUndo {undo : HomeM Unit} (hx : Keeps I P x V)
    (hundo : Keeps I P undo fun _ => True) : Keeps I P (HomeFs.orUndo x undo) V :=
  .tryCatch hx (fun _ => hundo.bind fun _ _ => .throw _) rfl

theorem readSector (sector : Nat) : Keeps I P (HomeFs.readSector sector) fun _ => True :=
  (Keeps.failIf _ _).bind fun _ _ _ hfs => ⟨trivial, hfs⟩

theorem writeSector {sector : Nat} {buf : Memory} (h : ∀ fs, I fs → I (fs.putSector sector buf)) :
    Keeps I P (HomeFs.writeSector sector buf) fun _ => True :=
  (Keeps.failIf _ _).bind fun _ _ fs hfs => ⟨trivial, h fs hfs⟩

theorem addBits (w a b : Nat) : Keeps I P (HomeFs.addBits debug w a b) fun c =>
    c = (a + b) % 2 ^ w ∧ (debug = true → a + b < 2 ^ w) := by
  refine (Keeps.failIf _ _).bind fun _ hno => Keeps.pure ⟨rfl, fun hdebug => ?_⟩
  simpa [hdebug] using hno

theorem subBits (w a b : Nat) : Keeps I P (HomeFs.subBits debug w a b) fun _ => True :=
  .guard (.pure trivial)

theorem readDirEntry (sector index : Nat) :
    Keeps I P (HomeFs.readDirEntry sector index) fun _ => True :=
  (readSector sector).bind fun _ _ => .guard (.pure trivial)

theorem entryName (entry : DirEntry) : Keeps I P (HomeFs.entryName entry) fun _ => True :=
  .guard (.guard (.pure trivial))

end Keeps

/-! ## Slots -/

/-- The slots of an inode are block numbers with `B`. -/
def SlotsIn (B : Nat → Prop) (i : HomeInode) : Prop :=
  i.directBlocks.length = maxDirectBlocks ∧ ∀ b ∈ i.directBlocks, B b

namespace SlotsIn

variable {i : HomeInode}

theorem used (h : SlotsIn B i) : ∀ b ∈ usedSlots i, B b :=
  fun b hb => h.2 b (List.mem_of_mem_take hb)

theorem getD (h : SlotsIn B i) (hzero : B 0) (k : Nat) : B (i.directBlocks.getD k 0) := by
  rw [List.getD_eq_getElem?_getD]
  cases hk : i.directBlocks[k]? with
  | none => exact hzero
  | some b => exact h.2 b (List.mem_of_getElem? hk)

/-- Another block takes a slot. -/
theorem set (h : SlotsIn B i) (hb : B b) (k : Nat) :
    (i.directBlocks.set k b).length = maxDirectBlocks ∧ ∀ c ∈ i.directBlocks.set k b, B c := by
  refine ⟨by rw [List.length_set]; exact h.1, fun c hc => ?_⟩
  rcases List.mem_or_eq_of_mem_set hc with hc | rfl
  · exact h.2 c hc
  · exact hb

end SlotsIn

/-- The steps keep `I`. -/
structure Upholds (debug : Bool) (I : HomeFs → Prop) (P : Prop) (B S : Nat → Prop) : Prop where
  zero : B 0
  put : ∀ {fs sector}, I fs → S sector → ∀ buf, I (fs.putSector sector buf)
  blockSector : ∀ {b}, B b → Keeps I P (HomeFs.blockSector debug b) S
  readInode : ∀ i, Keeps I P (HomeFs.readInode i) (SlotsIn B)
  writeInode : ∀ {inode}, SlotsIn B inode → Keeps I P (HomeFs.writeInode inode) fun _ => True
  allocateInode : Keeps I P (HomeFs.allocateInode debug) fun _ => True
  allocateBlock : Keeps I P (HomeFs.allocateBlock debug) B
  freeInode : ∀ n, Keeps I P (HomeFs.freeInode debug n) fun _ => True
  freeBlock : ∀ b, Keeps I P (HomeFs.freeBlock debug b) fun _ => True

namespace Upholds

variable (h : Upholds debug I P B S) {inode : HomeInode} {sector : Nat}
include h

theorem readDirectory (i : Nat) : Keeps I P (HomeFs.readDirectory i) (SlotsIn B) :=
  (h.readInode i).bind fun _ hi => .guard (.pure hi)

theorem readFileInode (i : Nat) : Keeps I P (HomeFs.readFileInode i) (SlotsIn B) :=
  (h.readInode i).bind fun _ hi => .guard (.pure hi)

theorem writeSector (hs : S sector) (buf : Memory) :
    Keeps I P (HomeFs.writeSector sector buf) fun _ => True :=
  .writeSector fun _ hfs => h.put hfs hs buf

theorem writeDirEntry (hs : S sector) (index : Nat) (entry : DirEntry) :
    Keeps I P (HomeFs.writeDirEntry sector index entry) fun _ => True :=
  (Keeps.readSector sector).bind fun _ _ =>
    .guard (h.writeSector hs _)

/-! ### Directories -/

variable {f : Nat → Nat → DirEntry → β → HomeM (ForInStep β)}

omit h in
theorem forEntries
    (hf : ∀ sector index entry acc, S sector → Keeps I P (f sector index entry acc) fun _ => True)
    (hs : S sector) (indices : List Nat) (acc : β) :
    Keeps I P (HomeFs.forEntries sector f indices acc) fun _ => True := by
  induction indices generalizing acc with
  | nil => exact Keeps.pure trivial
  | cons index rest ih =>
    refine (Keeps.readDirEntry sector index).bind fun entry _ => ?_
    refine (hf sector index entry acc hs).bind fun r _ => ?_
    cases r with
    | done acc => exact Keeps.pure trivial
    | yield acc => exact ih acc

/-- A walk over a directory keeps what each of its turns keeps. -/
theorem forBlocks
    (hf : ∀ sector index entry acc, S sector → Keeps I P (f sector index entry acc) fun _ => True)
    (stopAtZero : Bool) {slots : List Nat} (hslots : ∀ b ∈ slots, B b) (acc : β) :
    Keeps I P (HomeFs.forBlocks debug stopAtZero f slots acc) fun _ => True := by
  induction slots generalizing acc with
  | nil => exact .pure trivial
  | cons b rest ih =>
    unfold HomeFs.forBlocks
    split
    · exact .pure trivial
    · refine (h.blockSector (hslots b List.mem_cons_self)).bind fun sector hs => ?_
      refine (forEntries hf hs _ acc).bind fun r _ => ?_
      cases r with
      | done acc => exact .pure trivial
      | yield acc => exact ih (fun b hb => hslots b (List.mem_cons_of_mem _ hb)) acc

section

variable (i : Nat) (name : Str)
include i name

theorem lookupInDir : Keeps I P (HomeFs.lookupInDir debug i name) fun _ => True := by
  refine Keeps.guard <| (h.readDirectory i).bind fun inode hslots => ?_
  refine (h.forBlocks (fun _ _ entry acc _ => ?_) true hslots.used none).bind fun found _ => ?_
  · split
    · exact Keeps.pure trivial
    · refine (Keeps.entryName entry).bind fun _ _ => ?_
      split
      · exact Keeps.pure trivial
      · exact Keeps.pure trivial
  · split
    · exact Keeps.pure trivial
    · exact Keeps.throw _

theorem isInDir : Keeps I P (HomeFs.isInDir debug i name) fun _ => True :=
  .tryCatch ((h.lookupInDir i name).bind fun _ _ => .pure trivial)
    (fun _ => .pure trivial) rfl

theorem addDirEntry (child childType : Nat) :
    Keeps I P (HomeFs.addDirEntry debug i name child childType) fun _ => True := by
  refine Keeps.guard <| (h.isInDir i name).bind fun _ _ => ?_
  refine Keeps.guard <| (h.readDirectory i).bind fun inode hslots => ?_
  refine (h.forBlocks (fun _ index entry acc hs => ?_) false hslots.used ()).bind fun found _ => ?_
  · split
    · exact (h.writeDirEntry hs index _).bind fun _ _ => Keeps.pure trivial
    · exact Keeps.pure trivial
  · cases found with
    | done _ => exact Keeps.pure trivial
    | yield _ =>
      -- a new block for the directory
      refine Keeps.guard <| h.allocateBlock.bind fun b hb => ?_
      refine (h.blockSector hb).bind fun sector hs => (h.writeSector hs _).bind fun _ _ => ?_
      exact (h.writeDirEntry hs 0 _).bind fun _ _ => h.writeInode (hslots.set hb _)

theorem removeDirEntry : Keeps I P (HomeFs.removeDirEntry debug i name) fun _ => True := by
  refine (h.readDirectory i).bind fun inode hslots => ?_
  refine (h.forBlocks (fun _ index entry acc hs => ?_) true hslots.used ()).bind fun found _ => ?_
  · split
    · exact Keeps.pure trivial
    · refine (Keeps.entryName entry).bind fun _ _ => ?_
      split
      · exact (h.writeDirEntry hs index _).bind fun _ _ => Keeps.pure trivial
      · exact Keeps.pure trivial
  · cases found with
    | done _ => exact Keeps.pure trivial
    | yield _ => exact Keeps.throw _

end

theorem readdir (i : Nat) : Keeps I P (HomeFs.readdir debug i) fun _ => True := by
  refine (h.readDirectory i).bind fun inode hslots => ?_
  refine (h.forBlocks (fun _ _ entry acc _ => ?_) true hslots.used []).bind fun found _ => ?_
  · split
    · exact .pure trivial
    · exact (Keeps.entryName entry).bind fun _ _ =>
        .guard (.pure trivial)
  · cases found with
    | done acc => exact .pure trivial
    | yield acc => exact .pure trivial

/-! ### Files -/

theorem freeBlocks (slots : List Nat) :
    Keeps I P (HomeFs.freeBlocks debug slots) fun _ => True := by
  induction slots with
  | nil => exact .pure trivial
  | cons b rest ih =>
    unfold HomeFs.freeBlocks
    split
    · exact (h.freeBlock b).bind fun _ _ => ih
    · exact ih

/-- The slots of a new inode. -/
theorem slots_new (hb : B b) : ∀ c ∈ b :: List.replicate (maxDirectBlocks - 1) 0, B c := by
  intro c hc
  rcases List.mem_cons.mp hc with rfl | hc
  · exact hb
  · rw [List.eq_of_mem_replicate hc]
    exact h.zero

theorem createFile (dir : Nat) (name : Str) (mode : Nat) :
    Keeps I P (HomeFs.createFile debug dir name mode) fun _ => True := by
  refine h.allocateInode.bind fun n _ => (h.writeInode ⟨rfl, h.slots_new h.zero⟩).bind fun _ _ => ?_
  exact (Keeps.orUndo (h.addDirEntry dir name n _) (.rollback (h.freeInode n))).bind fun _ _ =>
    .pure trivial

theorem createDirectory (parent : Nat) (name : Str) (mode : Nat) :
    Keeps I P (HomeFs.createDirectory debug parent name mode) fun _ => True := by
  refine h.allocateInode.bind fun n _ => ?_
  refine (Keeps.orUndo h.allocateBlock (.rollback (h.freeInode n))).bind fun b hb => ?_
  refine (h.blockSector hb).bind fun sector hs => (h.writeSector hs _).bind fun _ _ => ?_
  refine (h.writeInode ⟨rfl, h.slots_new hb⟩).bind fun _ _ =>
    (Keeps.orUndo (h.addDirEntry parent name n _) ?_).bind fun _ _ => Keeps.pure trivial
  exact (Keeps.rollback (h.freeBlock b)).bind fun _ _ => .rollback (h.freeInode n)

theorem readLoop (hslots : SlotsIn B inode) (offset toRead fuel : Nat) (done : List Byte) :
    Keeps I P (HomeFs.readLoop debug inode offset toRead fuel done) fun _ => True := by
  induction fuel generalizing done with
  | zero => exact .pure trivial
  | succ fuel ih =>
    unfold HomeFs.readLoop
    split
    · exact .pure trivial
    · dsimp only
      split
      · exact .pure trivial
      · split
        · exact .pure trivial
        · exact (h.blockSector (hslots.getD h.zero _)).bind fun sector _ =>
            (Keeps.readSector sector).bind fun _ _ => ih _

theorem readFile (i offset len : Nat) :
    Keeps I P (HomeFs.readFile debug i offset len) fun _ => True := by
  refine (h.readFileInode i).bind fun inode hslots => ?_
  split
  · exact .pure trivial
  · exact h.readLoop hslots _ _ _ _

theorem growLoop (blocksNeeded fuel : Nat) (hslots : SlotsIn B inode) :
    Keeps I P (HomeFs.growLoop debug blocksNeeded fuel inode) (SlotsIn B) := by
  induction fuel generalizing inode with
  | zero => exact .pure hslots
  | succ fuel ih =>
    unfold HomeFs.growLoop
    split
    · exact .pure hslots
    · exact h.allocateBlock.bind fun b hb => ih (hslots.set hb _)

/-- What keeps `P` in one sector keeps it in the whole write. -/
theorem writeLoop (hslots : SlotsIn B inode) (offset : Nat) (data : List Byte)
    (fuel written : Nat) :
    Keeps I P (HomeFs.writeLoop debug inode offset data fuel written) fun _ => True := by
  induction fuel generalizing written with
  | zero => exact Keeps.pure trivial
  | succ fuel ih =>
    unfold HomeFs.writeLoop
    split
    · exact Keeps.pure trivial
    · refine (Keeps.addBits 64 offset written).bind fun pos _ => ?_
      dsimp only
      split
      · exact Keeps.pure trivial
      · split
        · exact Keeps.pure trivial
        · refine (h.blockSector (hslots.getD h.zero _)).bind fun sector hs => ?_
          refine (Keeps.readSector sector).bind fun _ _ => ?_
          exact (h.writeSector hs _).bind fun _ _ => ih _

theorem writeFile (i offset : Nat) (data : List Byte) :
    Keeps I P (HomeFs.writeFile debug i offset data) fun _ => True := by
  refine (h.readFileInode i).bind fun inode hslots => ?_
  refine (Keeps.addBits 64 _ _).bind fun _ _ => (Keeps.addBits 64 _ _).bind fun _ _ => ?_
  refine (Keeps.subBits 64 _ _).bind fun _ _ => .guard ?_
  refine (h.growLoop _ _ hslots).bind fun inode hslots => ?_
  refine (h.writeLoop hslots offset data _ _).bind fun _ _ => ?_
  refine (h.writeInode ?_).bind fun _ _ => .pure trivial
  split
  · exact hslots
  · exact hslots

/-- The end of `unlink_file` and `rmdir`. -/
theorem remove (slots : List Nat) (i dir : Nat) (name : Str) : Keeps I P (do
    HomeFs.freeBlocks debug slots
    HomeFs.freeInode debug i
    HomeFs.removeDirEntry debug dir name) fun _ => True :=
  (h.freeBlocks slots).bind fun _ _ => (h.freeInode i).bind fun _ _ => h.removeDirEntry dir name

theorem unlinkFile (dir : Nat) (name : Str) :
    Keeps I P (HomeFs.unlinkFile debug dir name) fun _ => True :=
  (h.lookupInDir dir name).bind fun i _ => (h.readInode i).bind fun _ _ =>
    .guard (h.remove _ i dir name)

theorem rmdir (parent : Nat) (name : Str) :
    Keeps I P (HomeFs.rmdir debug parent name) fun _ => True := by
  refine (h.lookupInDir parent name).bind fun i _ => (h.readDirectory i).bind fun inode hslots => ?_
  refine (h.forBlocks (fun _ _ entry acc _ => ?_) true hslots.used 0).bind fun count _ => ?_
  · split
    · exact .pure trivial
    · exact .pure trivial
  · cases count with
    | done count => exact .guard (h.remove _ i parent name)
    | yield count => exact .guard (h.remove _ i parent name)

theorem rename (oldDir : Nat) (oldName : Str) (newDir : Nat) (newName : Str) :
    Keeps I P (HomeFs.rename debug oldDir oldName newDir newName) fun _ => True := by
  refine (h.lookupInDir oldDir oldName).bind fun i _ => (h.readInode i).bind fun _ _ => ?_
  refine (h.isInDir newDir newName).bind fun _ _ => .guard ?_
  exact (h.addDirEntry newDir newName i _).bind fun _ _ => h.removeDirEntry oldDir oldName

theorem truncate (i : Nat) : Keeps I P (HomeFs.truncate debug i) fun _ => True :=
  (h.readFileInode i).bind fun _ _ => (h.freeBlocks _).bind fun _ _ =>
    h.writeInode ⟨rfl, h.slots_new h.zero⟩

theorem chmod (i mode : Nat) : Keeps I P (HomeFs.chmod i mode) fun _ => True :=
  (h.readInode i).bind fun _ hslots => h.writeInode hslots

/-! ### Calls and runs -/

theorem op (op : Op) : Keeps I P (op.call debug) fun _ => True := by
  cases op with
  | createFile dir name mode => exact (h.createFile dir name mode).bind fun _ _ => .pure trivial
  | createDirectory parent name mode =>
    exact (h.createDirectory parent name mode).bind fun _ _ => .pure trivial
  | writeFile i offset data => exact (h.writeFile i offset data).bind fun _ _ => .pure trivial
  | truncate i => exact h.truncate i
  | unlinkFile dir name => exact h.unlinkFile dir name
  | rmdir parent name => exact h.rmdir parent name
  | rename oldDir oldName newDir newName => exact h.rename oldDir oldName newDir newName
  | chmod i mode => exact h.chmod i mode

theorem call (call : Call) : Keeps I P (call.program debug) fun _ => True := by
  cases call with
  | op o => exact h.op o
  | addDirEntry dir name child isDir => exact h.addDirEntry dir name child _
  | lookupInDir dir name => exact (h.lookupInDir dir name).bind fun _ _ => .pure trivial
  | readdir dir => exact (h.readdir dir).bind fun _ _ => .pure trivial
  | readFile i offset len => exact (h.readFile i offset len).bind fun _ _ => .pure trivial

end Upholds

/-! ## Relations -/

/-- However the program ends, it ends in a state related to the one it started in. -/
def Follows (R : HomeFs → HomeFs → Prop) (x : HomeM α) : Prop :=
  ∀ fs, Ends x fs (fun _ => R fs) fun _ => R fs

/-- A relation that covers sector writes and the four allocator functions. -/
structure Closed (debug : Bool) (R : HomeFs → HomeFs → Prop) : Prop where
  refl : ∀ fs, R fs fs
  trans : ∀ {fs fs1 fs2}, R fs fs1 → R fs1 fs2 → R fs fs2
  put : ∀ fs sector buf, R fs (fs.putSector sector buf)
  allocateInode : Follows R (HomeFs.allocateInode debug)
  allocateBlock : Follows R (HomeFs.allocateBlock debug)
  freeInode : ∀ n, Follows R (HomeFs.freeInode debug n)
  freeBlock : ∀ b, Follows R (HomeFs.freeBlock debug b)

namespace Closed

variable {R : HomeFs → HomeFs → Prop} (h : Closed debug R)
include h

theorem keeps (hx : Follows R x) (fs : HomeFs) : Keeps (R fs) False x fun _ => True :=
  fun fs1 hfs => (hx fs1).mono (fun _ _ hrest => ⟨trivial, h.trans hfs hrest⟩) fun _ _ hrest =>
    .inr (h.trans hfs hrest)

/-- Nothing need be known of the blocks and sectors. -/
theorem upholds (fs : HomeFs) : Upholds debug (R fs) False (fun _ => True) fun _ => True where
  zero := trivial
  put hfs _ buf := h.trans hfs (h.put _ _ buf)
  blockSector _ := Keeps.get.bind fun _ _ => .guard (.pure trivial)
  readInode i := Keeps.guard <| (Keeps.readSector _).bind fun _ _ =>
    .pure ⟨by simp [HomeInode.decode], fun _ _ => trivial⟩
  writeInode _ := Keeps.guard <| (Keeps.readSector _).bind fun _ _ =>
    .writeSector fun _ hfs => h.trans hfs (h.put _ _ _)
  allocateInode := h.keeps h.allocateInode fs
  allocateBlock := h.keeps h.allocateBlock fs
  freeInode n := h.keeps (h.freeInode n) fs
  freeBlock b := h.keeps (h.freeBlock b) fs

/-- What the allocator functions and sector writes keep, every run keeps. -/
theorem runCalls (calls : List Call) (fs : HomeFs) : R fs (HomeFs.runCalls debug calls fs) := by
  induction calls generalizing fs with
  | nil => exact h.refl fs
  | cons call calls ih =>
    have hcall := (h.upholds fs).call call fs (h.refl fs)
    unfold Ends at hcall
    unfold HomeFs.runCalls
    split at hcall
    · rename_i hrun
      rw [hrun]
      exact h.trans hcall.2 (ih _)
    · rename_i e fs' hrun
      have hstep := hcall.resolve_left fun hpanic => hpanic.1
      rw [hrun]
      cases e with
      | err e => exact h.trans hstep (ih _)
      | panic => exact hstep

end Closed

end PandaOS.Kernel.HomeFs
