import PandaOS.Theorems.HomeOwned

/-!
# Stale data

`write_file` does not clear the blocks it takes, nor the bytes it skips when it writes
behind the end of the file. A byte that was never written reads as what its sector held
before. It reads as 0 in every run whose writes leave gaps over zero bytes only.
-/

namespace PandaOS.Kernel.HomeFs

open Lib Function

variable {debug : Bool} {fs fs' : HomeFs} {i n mode dir offset b parent d : Nat} {α : Type}
  {name : Str} {data : List Byte} {op : Op} {x : HomeM α}

/-! ## What was written -/

/-- The file system with, for each inode, the positions of its file that were written
since it was created or truncated. -/
structure Traced where
  fs : HomeFs
  written : Nat → Set Nat

/-- The positions after an operation. -/
def writtenAfter (debug : Bool) (fs : HomeFs) (written : Nat → Set Nat) : Op → Nat → Set Nat
  | .createFile dir name mode =>
    match outcome (createFile debug dir name mode) fs with
    | .ok n => update written n ∅
    | .error _ => written
  | .createDirectory parent name mode =>
    match outcome (createDirectory debug parent name mode) fs with
    | .ok n => update written n ∅
    | .error _ => written
  | .writeFile i offset data =>
    match outcome (writeFile debug i offset data) fs with
    | .ok n => update written i (written i ∪ Set.Ico offset (offset + n))
    | .error _ => written
  | .truncate i =>
    match outcome (truncate debug i) fs with
    | .ok _ => update written i ∅
    | .error _ => written
  | .unlinkFile _ _ | .rmdir _ _ | .rename _ _ _ _ | .chmod _ _ => written

/-- Runs from a new file system, whose operations all satisfy `P`. -/
def tracedRuns (debug : Bool) (P : HomeFs → Op → Prop) : TSys Traced where
  init t := (∃ disk, create disk = .ok () t.fs) ∧ t.written = fun _ => ∅
  step t t' := ∃ op, P t.fs op ∧ t.fs.step debug op = some t'.fs ∧
    t'.written = t.fs.writtenAfter debug t.written op

/-- A write at `offset` leaves a gap over zero bytes only, in the blocks that the file has
and those it is about to get. -/
def GapClear (fs : HomeFs) (i offset len : Nat) : Prop :=
  ∀ p, (fs.record i).size ≤ p → p < offset →
    fs.fileByte ((fs.record i).growAll (fs.freeList.take (fs.shortOf i offset len))) p = 0

/-- The operations that show no stale data: on allocated inodes, with room before the
root's block, and with gaps over zero bytes only. -/
def FreshStep (debug : Bool) (fs : HomeFs) : Op → Prop
  | .createFile dir _ _ => fs.Allocated dir ∧ 1 ≤ fs.freeBeforeRoot
  | .createDirectory parent _ _ => fs.Allocated parent ∧ 2 ≤ fs.freeBeforeRoot
  | .writeFile i offset data =>
    fs.Allocated i ∧ (debug = true ∨ offset + data.length + 511 < 2 ^ 64) ∧
      (offset + data.length ≤ blockSize * maxDirectBlocks →
        fs.shortOf i offset data.length ≤ fs.freeBeforeRoot ∧ fs.GapClear i offset data.length)
  | .truncate i => fs.Allocated i
  | .unlinkFile dir name =>
    fs.Allocated dir ∧ ∀ c, outcome (lookupInDir debug dir name) fs = .ok c → fs.Allocated c
  | .rmdir parent name =>
    fs.Allocated parent ∧ ∀ c, outcome (lookupInDir debug parent name) fs = .ok c → fs.Allocated c
  | .rename oldDir _ newDir _ => fs.Allocated oldDir ∧ fs.Allocated newDir ∧ 1 ≤ fs.freeBeforeRoot
  | .chmod i _ => fs.Allocated i

/-- The bytes of file `i` below its size are 0 at positions that are not in `W`. -/
def Blank (fs : HomeFs) (i : Nat) (W : Set Nat) : Prop :=
  ∀ k b q, (usedSlots (fs.record i))[k]? = some b → q < blockSize →
    blockSize * k + q < (fs.record i).size → blockSize * k + q ∉ W → fs.disk (35 + b) q = 0

/-- What every operation keeps. -/
structure Fresh (fs : HomeFs) (W : Nat → Set Nat) : Prop where
  owned : Owned fs.Allocated fs
  root : fs.Allocated 1
  blank : ∀ i, fs.Allocated i → (fs.record i).fileType = typeFile → Blank fs i (W i)

variable {L : Nat → Prop} {W W' : Nat → Set Nat}

theorem FileKept.blank {S : Set Nat} (h : FileKept i fs fs') (hblank : Blank fs i S) :
    Blank fs' i S := by
  intro k b q hk hq hsize hw
  rw [h.slots] at hk
  rw [h.size] at hsize
  rw [h.blocks b (List.mem_of_getElem? hk)]
  exact hblank k b q hk hq hsize hw

theorem Blank.of_size_eq_zero (hsize : (fs.record i).size = 0) (S : Set Nat) : Blank fs i S := by
  intro k b q _ _ hlt
  rw [hsize] at hlt
  exact absurd hlt (Nat.not_lt_zero _)

/-- A file is one whose contents were kept, or is blank anyway. -/
theorem Fresh.step (h : Fresh fs W) (howned : Owned fs'.Allocated fs') (hroot : fs'.Allocated 1)
    (hkept : Kept L fs fs') (hsub : ∀ i, L i → fs.Allocated i)
    (hfiles : ∀ i, fs'.Allocated i → (fs'.record i).fileType = typeFile →
      L i ∧ W' i = W i ∨ Blank fs' i (W' i)) : Fresh fs' W' := by
  refine ⟨howned, hroot, fun i hi hfile => ?_⟩
  rcases hfiles i hi hfile with ⟨hL, hw⟩ | hblank
  · rw [hkept.fileType i hL] at hfile
    rw [hw]
    exact (hkept.file i hL hfile).blank (h.blank i (hsub i hL) hfile)
  · exact hblank

/-- The same inodes are allocated, and what they hold was kept. -/
theorem Fresh.same (h : Fresh fs W) (howned : Owned fs.Allocated fs')
    (hkept : Kept fs.Allocated fs fs') (hsame : fs'.Allocated = fs.Allocated) : Fresh fs' W := by
  rw [← hsame] at howned
  exact h.step howned (hsame ▸ h.root) hkept (fun _ hi => hi) fun i hi _ => .inl ⟨hsame ▸ hi, rfl⟩

/-- A step that changes nothing, and what comes after it. -/
theorem Fresh.bind {β : Type} {f : α → HomeM β} {V : α → Prop}
    {Q : β → HomeFs → Prop} (h : Fresh fs W)
    (hx : Ends x fs (fun a fs' => fs' = fs ∧ V a) fun e fs' => e = .panic ∨ fs' = fs)
    (hf : ∀ a, V a → Ends (f a) fs Q fun e fs' => e = .panic ∨ Fresh fs' W) :
    Ends (x >>= f) fs Q fun e fs' => e = .panic ∨ Fresh fs' W := by
  refine hx.bind (fun a fs' ha => ha.1.symm ▸ hf a ha.2) fun e fs' he => he.imp id ?_
  rintro rfl
  exact h

theorem Fresh.failIf {c : Bool} {e : HomeFault} {Q : α → HomeFs → Prop} (h : Fresh fs W)
    (hx : c = false → Ends x fs Q fun e fs' => e = .panic ∨ Fresh fs' W) :
    Ends (do failIf c e; x) fs Q fun e fs' => e = .panic ∨ Fresh fs' W := by
  rw [ends_bind, ends_failIf_iff]
  exact ⟨hx, fun _ => .inr h⟩

/-! ## Allocated inodes -/

theorem allocated_of_inodeBitmap (h : fs'.inodeBitmap = fs.inodeBitmap) :
    fs'.Allocated = fs.Allocated := by
  funext i
  unfold Allocated
  rw [h]

theorem allocated_takeInode (hn : 0 < n ∧ n < maxInodes) :
    (fs.takeInode n).Allocated = fun i => fs.Allocated i ∨ i = n := by
  funext i
  unfold Allocated
  rw [takeInode_inodeBitmap, bitSet_setBit]
  by_cases hi : i = n
  · subst hi
    rw [update_self]
    simp [hn]
  · rw [update_of_ne hi]
    simp [hi]

theorem allocated_dropInode (n : Nat) : (fs.dropInode n).Allocated = fun i => fs.Allocated i ∧
    i ≠ n := by
  funext i
  unfold Allocated
  rw [dropInode_inodeBitmap, bitSet_clearBit]
  by_cases hi : i = n
  · subst hi
    rw [update_self]
    simp
  · rw [update_of_ne hi]
    simp [hi]

theorem not_allocated_next (h : fs.nextInode = some n) : ¬fs.Allocated n :=
  fun hn => hn.ne_nextInode h rfl

/-! ## Creating -/

/-- The inode of a creation that failed is given back. -/
theorem freeInode_fresh (h : Fresh fs W) (howned : Owned fs.Allocated fs')
    (hkept : Kept fs.Allocated fs fs')
    (hn : ¬fs.Allocated n) (hbits : fs'.Allocated = fun i => fs.Allocated i ∨ i = n) :
    Ends (rollback (freeInode debug n)) fs' (fun _ fs'' => Fresh fs'' W) fun e _ => e = .panic := by
  have hset : fs'.Allocated n := by
    rw [hbits]
    exact .inr rfl
  refine rollback_ends ((freeInode_exact n).mono ?_ ?_)
  · rintro _ _ ⟨-, rfl⟩
    have hsame : (fs'.dropInode n).Allocated = fs.Allocated := by
      rw [allocated_dropInode, hbits]
      funext i
      refine propext ⟨fun hi => hi.1.resolve_right hi.2, fun hi => ⟨.inl hi, ?_⟩⟩
      rintro rfl
      exact hn hi
    exact h.same (howned.dropInode hn)
      (hkept.trans (howned.kept_of_disk fun s hs => dropInode_disk n hs)) hsame
  · rintro e _ (⟨-, hnot⟩ | ⟨⟨rfl, -⟩, -⟩)
    · exact absurd hset hnot
    · rfl

/-- The record of a new inode is written. -/
theorem Owned.putNew {fileType size : Nat} {slots : List Nat}
    (h : Owned L fs) (hn : fs.Allocated n) (hnew : ¬L n)
    (hroot : n ≠ 1) (hfits : (newRecord n fileType mode size slots).Fits)
    (hlen : slots.length ≤ maxDirectBlocks)
    (hsize : size ≤ blockSize * slots.length)
    (hslots : ∀ b ∈ slots, (0 < b ∧ b < maxDataBlocks) ∧ bitSet fs.blockBitmap b = true ∧
      ∀ j, L j → b ∉ usedSlots (fs.record j))
    (hnodup : slots.Nodup) :
    Owned (fun i => L i ∨ i = n) (fs.putInode (newRecord n fileType mode size slots)) ∧
      Kept L fs (fs.putInode (newRecord n fileType mode size slots)) := by
  have hused : usedSlots (newRecord n fileType mode size slots) = slots := usedSlots_newRecord ..
  constructor
  · refine h.putInode hfits hn ⟨rfl, hlen, hsize, ?_, ?_, ?_, fun heq => absurd heq hroot⟩ ?_
    · rw [hused]
      exact fun b hb => (hslots b hb).1
    · rw [hused]
      exact fun b hb => .inl (hslots b hb).2.1
    · rwa [hused]
    · rw [hused]
      exact fun j hj _ b hb => (hslots b hb).2.2 j hj
  · exact h.kept_putInode hfits ⟨hn.1, hn.2.1.le⟩ fun hL => absurd hL hnew

/-- The end of a creation: the new inode `n` gets an entry, or what was taken for it is
given back. -/
theorem enter_fresh {childType : Nat} {undo : HomeM Unit} {fs2 : HomeFs}
    (h : Fresh fs W) (hdir : fs.Allocated dir)
    (hbits : fs2.Allocated = fun i => fs.Allocated i ∨ i = n) (howned : Owned fs2.Allocated fs2)
    (hkept : Kept fs.Allocated fs fs2) (hroom : 1 ≤ fs2.freeBeforeRoot)
    (hnew : (fs2.record n).fileType = typeFile → (fs2.record n).size = 0)
    (hundo : Ends undo fs2 (fun _ fs' => Fresh fs' W) fun e _ => e = .panic) :
    Ends (orUndo (addDirEntry debug dir name n childType) undo) fs2
      (fun _ fs' => Fresh fs' (update W n ∅)) fun e fs' => e = .panic ∨ Fresh fs' W := by
  have hin : ∀ i, fs.Allocated i → fs2.Allocated i := fun i hi => hbits ▸ .inl hi
  refine orUndo_ends ((howned.addDirEntry (hin dir hdir) hroom).mono ?_ ?_)
  · rintro _ fs' ⟨howned', hkept', hsame⟩
    have hsame := allocated_of_inodeBitmap hsame
    rw [← hsame] at howned'
    refine h.step howned' (hsame ▸ hin 1 h.root) (hkept.trans (hkept'.mono hin)) (fun _ hi => hi) ?_
    intro i hi hfile
    by_cases hin : i = n
    · subst hin
      rw [hsame] at hi
      rw [hkept'.fileType i hi] at hfile
      exact .inr (.of_size_eq_zero ((hkept'.file i hi hfile).size.trans (hnew hfile)) _)
    · rw [hsame, hbits] at hi
      exact .inl ⟨hi.resolve_right hin, update_of_ne hin _ _⟩
  · rintro e fs' (hpanic | rfl)
    · exact .inl hpanic
    · exact .inr hundo

theorem putInode_mode (r : HomeInode) :
    fs.putInode r = fs.putInode { r with mode := r.mode % 256 ^ 2 } := by
  unfold putInode
  rw [encode_mode]

theorem fileEntered_eq : fs.fileEntered n mode =
    (fs.takeInode n).putInode (newRecord n typeFile (mode % 256 ^ 2) 0 []) := putInode_mode _

theorem createFile_fresh (h : Fresh fs W) (hdir : fs.Allocated dir)
    (hroom : 1 ≤ fs.freeBeforeRoot) :
    Ends (createFile debug dir name mode) fs (fun n fs' => Fresh fs' (update W n ∅))
      fun e fs' => e = .panic ∨ Fresh fs' W := by
  refine createFile_ends (fun _ => .inr h) fun n hnext => ?_
  obtain ⟨-, hrange, -⟩ := nextInode_spec hnext
  have hn := not_allocated_next hnext
  have hfits := newFile_fits hrange.2 (Nat.mod_lt mode (by decide))
  have hbits : (fs.fileEntered n mode).Allocated = _ := allocated_takeInode hrange
  obtain ⟨howned, hkept⟩ := (h.owned.takeInode n).putNew (hbits ▸ .inr rfl) hn
    (fun heq => hn (heq ▸ h.root)) hfits (by decide) (by decide) (by simp) List.nodup_nil
  rw [← fileEntered_eq] at howned hkept
  have hkept := (h.owned.kept_of_disk fun s hs => takeInode_disk n hs).trans hkept
  refine enter_fresh h hdir hbits (hbits ▸ howned) hkept hroom ?_ ?_
  · rw [fileEntered_eq]
    exact fun _ => congrArg HomeInode.size (record_putInode hfits)
  · exact freeInode_fresh h (howned.mono fun _ hi => .inl hi) hkept hn hbits

/-- The block and the record of a new directory. -/
theorem Owned.putDirectory (h : Owned L fs) (hn : fs.Allocated n) (hnew : ¬L n) (hroot : n ≠ 1)
    (hnext : fs.nextBlock = some b) (hb : b < 35) (hmode : mode < 256 ^ 2) (buf : Memory) :
    Owned (fun i => L i ∨ i = n)
        (((fs.takeBlock b).putSector (35 + b) buf).putInode
          (newRecord n typeDirectory mode blockSize [b])) ∧
      Kept L fs (((fs.takeBlock b).putSector (35 + b) buf).putInode
        (newRecord n typeDirectory mode blockSize [b])) := by
  have hblock := h.newBlock hnext hb.ne buf
  have hfits := newDirectory_fits hn.2.1 hmode hblock.range.2
  have hn' : ((fs.takeBlock b).putSector (35 + b) buf).Allocated n :=
    (allocated_of_inodeBitmap hblock.inodeBitmap) ▸ hn
  have hslots : ∀ c ∈ [b], (0 < c ∧ c < maxDataBlocks) ∧
      bitSet ((fs.takeBlock b).putSector (35 + b) buf).blockBitmap c = true ∧
      ∀ j, L j → c ∉ usedSlots (((fs.takeBlock b).putSector (35 + b) buf).record j) := by
    intro c hc
    rw [List.mem_singleton.mp hc]
    exact ⟨hblock.range, hblock.marked, fun j hj => hblock.record j hj ▸ hblock.fresh j hj⟩
  obtain ⟨howned, hkept⟩ := hblock.owned.putNew hn' hnew hroot hfits
    (by simp [maxDirectBlocks]) (by simp) hslots (List.nodup_singleton b)
  exact ⟨howned, hblock.kept.trans hkept⟩

/-- The block of a directory whose creation failed is given back. -/
theorem freeBlock_owned (h : Owned (fun i => L i ∨ i = n) fs) (hn : ¬L n)
    (hslots : usedSlots (fs.record n) = [b]) (hset : bitSet fs.blockBitmap b = true) :
    Ends (rollback (freeBlock debug b)) fs (fun _ fs' => Owned L fs' ∧
      Kept L fs fs' ∧ fs'.inodeBitmap = fs.inodeBitmap) fun e _ => e = .panic := by
  have hold : Owned L fs := h.mono fun _ hi => .inl hi
  have hb : b ∈ usedSlots (fs.record n) := hslots ▸ List.mem_singleton_self b
  have hrange := (h.holder n (.inr rfl)).range b hb
  refine rollback_ends ((freeBlock_exact b).mono ?_ ?_)
  · rintro _ _ ⟨-, rfl⟩
    have hdrops : Drops fs [b] (fs.dropBlock b) := .cons .nil
    refine ⟨hold.drops hdrops (by simpa using hrange.1.ne) ?_,
      hold.kept_of_disk fun s hs => hdrops.disk hs, hdrops.inodeBitmap⟩
    rintro i hi c hc hmem
    rw [List.mem_singleton.mp hmem] at hc
    exact hn (h.apart i n b (.inl hi) (.inr rfl) hc hb ▸ hi)
  · rintro e _ (⟨-, hnot⟩ | ⟨⟨rfl, -⟩, -⟩)
    · exact absurd ⟨hrange.2, hset⟩ hnot
    · rfl

theorem directoryEntered_eq (hsector : fs.sectorOf b = 35 + b) :
    fs.directoryEntered n b parent mode =
      (((fs.takeInode n).takeBlock b).putSector (35 + b) (dotBlock n parent)).putInode
        (newRecord n typeDirectory (mode % 256 ^ 2) blockSize [b]) := by
  unfold directoryEntered
  rw [hsector, putInode_mode]
  rfl

theorem Owned.dataApart (h : Owned L fs) : DataApart fs := by
  unfold DataApart
  rw [h.firstDataBlock]
  decide

theorem createDirectory_fresh (h : Fresh fs W) (hparent : fs.Allocated parent)
    (hroom : 2 ≤ fs.freeBeforeRoot) :
    Ends (createDirectory debug parent name mode) fs (fun n fs' => Fresh fs' (update W n ∅))
      fun e fs' => e = .panic ∨ Fresh fs' W := by
  have hkept1 : ∀ n, Kept fs.Allocated fs (fs.takeInode n) := fun n =>
    h.owned.kept_of_disk fun s hs => takeInode_disk n hs
  refine createDirectory_ends h.owned.dataApart (fun _ => .inr h) (fun n hnext _ => ?_)
    (fun n b hnext hblock hout => ?_) fun n b hnext hblock _ => ?_
  · -- no block: the inode is given back
    exact (freeInode_fresh h (h.owned.takeInode n) (hkept1 n) (not_allocated_next hnext)
      (allocated_takeInode (nextInode_spec hnext).2.1)).mono (fun _ _ => .inr) fun _ _ => .inl
  · have hlt := (nextBlock_spec hblock).2.1
    rw [h.owned.sectorOf hlt] at hout
    exact absurd (dataSector_lt hlt) (Nat.not_lt.mpr hout)
  · obtain ⟨-, hrange, -⟩ := nextInode_spec hnext
    obtain ⟨-, hlt, hclear, -⟩ := nextBlock_spec hblock
    have hn := not_allocated_next hnext
    have hb := nextBlock_before_root hblock (by omega)
    have hmode : mode % 256 ^ 2 < 256 ^ 2 := Nat.mod_lt _ (by decide)
    have hfits := newDirectory_fits hrange.2 hmode hlt
    have heq : fs.directoryEntered n b parent mode = _ := directoryEntered_eq (h.owned.sectorOf hlt)
    have hbits : (fs.directoryEntered n b parent mode).Allocated = _ := allocated_takeInode hrange
    have hrecord : (fs.directoryEntered n b parent mode).record n = _ := heq ▸ record_putInode hfits
    obtain ⟨howned, hkept⟩ := (h.owned.takeInode n).putDirectory (hbits ▸ .inr rfl) hn
      (fun heq => hn (heq ▸ h.root)) ((nextBlock_takeInode n).trans hblock) hb hmode
        (dotBlock n parent)
    rw [← heq] at howned hkept
    have hkept := (hkept1 n).trans hkept
    refine enter_fresh h hparent hbits (hbits ▸ howned) hkept ?_ ?_ ?_
    · have hcount := clearBits_setBit hb hclear
      rw [freeBeforeRoot_eq] at hroom ⊢
      rw [directoryEntered_fields.2.1]
      omega
    · rw [hrecord]
      intro hfile
      cases hfile
    · refine (freeBlock_owned howned hn ?_ (by simp)).seq ?_
      · rw [hrecord]
        exact usedSlots_newRecord ..
      · rintro _ fs' ⟨howned', hkept', hsame⟩
        exact freeInode_fresh h howned' (hkept.trans hkept') hn
          ((allocated_of_inodeBitmap hsame).trans hbits)

/-! ## Writing -/

namespace Owned

variable (h : Owned fs.Allocated fs)
include h

theorem slotsApart : SlotsApart fs where
  range hi hb := (h.holder _ hi).range _ hb
  nodup hi := (h.holder _ hi).nodup
  apart hi hj hb hb' := h.apart _ _ _ hi hj hb hb'
  zero := h.zero

theorem recordsSound : RecordsSound fs where
  inodeNum hi := (h.holder _ hi).inodeNum
  blocksUsed hi := (h.holder _ hi).few
  size hi := (h.holder _ hi).size

/-- The free blocks before the root's are in no inode. -/
theorem unheld_takes {bs : List Nat} (htakes : Takes fs bs fs')
    (hroom : bs.length ≤ fs.freeBeforeRoot) : Unheld fs bs := fun _ hi b hb hmem =>
  h.unheld (htakes.fresh hmem).2 (htakes.before_root hroom b hmem).ne hi hb

end Owned

/-- A write beyond the eighth block is refused. -/
theorem writeFile_refused (hwrap : debug = true ∨ offset + data.length + 511 < 2 ^ 64)
    (hlarge : blockSize * maxDirectBlocks < offset + data.length) :
    Ends (writeFile debug i offset data) fs (fun _ _ => False) fun e fs' => e = .panic ∨
      fs' = fs := by
  refine writeFile_ends (fun _ => ⟨.inr rfl, .inr rfl⟩) (fun _ _ => .inl rfl)
    (fun _ _ _ => .inr rfl) ?_
  intro _ hsize hfew
  have hsum : offset + data.length + 511 < 2 ^ 64 := by
    rcases hwrap with hdebug | hsum
    · by_contra hover
      refine hsize ⟨hdebug, ?_⟩
      unfold blockSize
      omega
    · exact hsum
  unfold blocksNeeded blockSize maxDirectBlocks at *
  omega

theorem Stored.inodeBitmap (h : Stored i offset data fs fs') :
    fs'.inodeBitmap = fs.inodeBitmap := by
  obtain ⟨bs, fs1, fs2, ⟨htakes, -⟩, -, -, hwrote, rfl⟩ := h
  exact hwrote.inodeBitmap.trans htakes.inodeBitmap

section

variable {i offset : Nat} {data : List Byte} (h : Fresh fs W) (hi : fs.Allocated i)
  (hfile : (fs.record i).fileType = typeFile) (hsmall : offset + data.length ≤
    blockSize * maxDirectBlocks)
  (hstored : Stored i offset data fs fs')
include h hi hfile hsmall hstored

theorem Stored.owned (hroom : fs.shortOf i offset data.length ≤ fs.freeBeforeRoot) :
    Owned fs.Allocated fs' := by
  obtain ⟨bs, fs1, fs2, ⟨htakes, hnew, hlength⟩, hfew, hspace, hwrote, rfl⟩ := hstored
  have hslots := h.owned.slotsApart
  have hapart := h.owned.dataApart
  have hold := h.owned.holder i hi
  have hplaced := placed_growAll hslots hapart hi htakes hnew hfew
  have hfits := fs.record_fits i
  have hused := usedSlots_grownBy hfew
  have hgrown := HomeInode.growAll_fits hfits hfew fun b hb => (taken_pos hslots htakes hb).2
  have hrecord : ∀ j, fs.Allocated j → fs2.record j = fs.record j := fun j hj =>
    stored_record_ne hslots hapart hi htakes hnew hfew hwrote hj.2.1.le
  have hset : ∀ b, bitSet fs2.blockBitmap b = (decide (b ∈ bs) || bitSet fs.blockBitmap b) :=
    fun b => by rw [hwrote.blockBitmap, htakes.bitSet]
  have hroot : 35 ∉ bs :=
    fun hmem => absurd (htakes.before_root (hlength.symm ▸ hroom) 35 hmem) (by decide)
  have howned2 : Owned fs.Allocated fs2 := by
    refine h.owned.frame ?_ ?_ ?_ (fun j hj => ?_) hrecord fun j hj b hb hmarked => ?_
    · rw [hwrote.superblock, htakes.firstDataBlock]
    · rw [hset, h.owned.zero, Bool.or_true]
    · rw [hset, h.owned.rootBlock, decide_eq_false hroot]
      rfl
    · rwa [allocated_of_inodeBitmap (hwrote.inodeBitmap.trans htakes.inodeBitmap)]
    · rw [hset, hmarked, Bool.or_true]
  -- the root is a directory, so what `Holder` says of inode 1 is not at issue
  have hholder : Holder fs2 i (sized ((fs.record i).growAll bs) (offset + data.length)) := by
    refine ⟨?_, ?_, ?_, ?_, ?_, ?_, fun heq => absurd heq
      (h.owned.ne_root_of_file hi (by rw [hfile]; decide))⟩
    · rw [sized_inodeNum, HomeInode.growAll_inodeNum, hold.inodeNum]
    · rw [sized_blocksUsed]
      exact hplaced.few
    · have hsize := hold.size
      rw [sized_blocksUsed]
      unfold sized
      rw [HomeInode.growAll_size, HomeInode.growAll_blocksUsed] at *
      unfold blockSize maxDirectBlocks at *
      split
      · show (offset + data.length) % 2 ^ 32 ≤ _
        omega
      · rw [HomeInode.growAll_size]
        omega
    · rw [usedSlots_sized]
      exact fun b hb => growAll_block hslots hi htakes hfew hb
    · rw [usedSlots_sized, hused]
      intro b hb
      rw [hset]
      rcases List.mem_append.mp hb with hb | hb
      · rcases hold.marked b hb with hmarked | hroot
        · rw [hmarked, Bool.or_true]
          exact .inl rfl
        · exact .inr hroot
      · rw [decide_eq_true hb]
        exact .inl rfl
    · rw [usedSlots_sized]
      exact hplaced.nodup
  refine (howned2.putInode (sized_fits hgrown _) (howned2.allocated i hi) hholder ?_).mono
    fun _ hj => .inl hj
  intro j hj hne b hb
  rw [hrecord j hj]
  rw [usedSlots_sized, hused] at hb
  rcases List.mem_append.mp hb with hb | hb
  · exact fun hbj => hne (h.owned.apart j i b hj hi hbj hb)
  · exact fun hbj => hnew j hj b hbj hb

theorem Stored.blank (hgap : fs.GapClear i offset data.length) :
    Blank fs' i (W i ∪ Set.Ico offset (offset + data.length)) := by
  have hslots := h.owned.slotsApart
  have hrecords := h.owned.recordsSound
  have hsum : offset + data.length < 2 ^ 64 := by
    unfold blockSize maxDirectBlocks at hsmall
    omega
  have hupdated := hstored.updated hslots hrecords h.owned.dataApart hi hsum
  obtain ⟨bs, fs1, fs2, ⟨htakes, hnew, hlength⟩, hfew, -, -, rfl⟩ := hstored
  have hrecord := stored_record hslots hrecords hi htakes hfew fs2 (offset + data.length)
  generalize fs2.putInode (sized ((fs.record i).growAll bs) (offset + data.length)) = fs' at *
  intro k b q hk hq hsize hw
  have hout : blockSize * k + q < offset ∨ offset + data.length ≤ blockSize * k + q := by
    by_contra hin
    exact hw (.inr ⟨by omega, by omega⟩)
  have hused : k < (fs'.record i).blocksUsed := by
    have hlen := (List.getElem?_eq_some_iff.mp hk).1
    unfold usedSlots at hlen
    rw [List.length_take] at hlen
    omega
  have hslot : (fs'.record i).slot k = b := by
    rw [hupdated.placed.getElem?_usedSlots hused] at hk
    exact Option.some.inj hk
  have hb : b < maxDataBlocks := by
    rw [hrecord, usedSlots_sized] at hk
    exact (growAll_block hslots hi htakes hfew (List.mem_of_getElem? hk)).2
  have hdiv : (blockSize * k + q) / blockSize = k ∧ (blockSize * k + q) % blockSize = q := by
    unfold blockSize at *
    omega
  -- the byte is the one that was there before
  have hbyte : fs'.disk (35 + b) q = fs.disk (35 + b) q := by
    have hroom : blockSize * k + q < blockSize * (fs'.record i).blocksUsed := by
      unfold blockSize at *
      omega
    have hbytes := hupdated.bytes (blockSize * k + q) hroom
    rw [storeAt_outside hout] at hbytes
    unfold fileByte HomeFs.sectorOf at hbytes
    rw [hupdated.firstDataBlock, hdiv.1, hdiv.2, hslot] at hbytes
    have hsector := h.owned.sectorOf hb
    unfold HomeFs.sectorOf at hsector
    rwa [hsector] at hbytes
  rw [hbyte]
  by_cases hold : blockSize * k + q < (fs.record i).size
  · -- within the old size
    rw [hrecord, usedSlots_sized, usedSlots_grownBy hfew] at hk
    have hlt : k < (usedSlots (fs.record i)).length := by
      have hroom := hrecords.size hi
      unfold usedSlots
      rw [List.length_take, (fs.record_fits i).slots]
      unfold blockSize at *
      omega
    rw [List.getElem?_append_left hlt] at hk
    exact h.blank i hi hfile k b q hk hq hold fun hmem => hw (.inl hmem)
  · -- in the gap
    have hgapByte := hgap (blockSize * k + q) (Nat.not_lt.mp hold) (by
      rw [hrecord] at hsize
      unfold sized at hsize
      rw [HomeInode.growAll_size] at hsize
      unfold blockSize maxDirectBlocks at *
      split at hsize
      · replace hsize : 512 * k + q < (offset + data.length) % 2 ^ 32 := hsize
        omega
      · rw [HomeInode.growAll_size] at hsize
        omega)
    rw [← hlength, ← htakes.eq_take] at hgapByte
    have hsame : ((fs.record i).growAll bs).slot k = b := by
      rw [← hslot, hrecord, sized_slot]
    unfold fileByte at hgapByte
    rwa [hdiv.1, hdiv.2, hsame, h.owned.sectorOf hb] at hgapByte

end

theorem writeFile_fresh (h : Fresh fs W) (hstep : FreshStep debug fs (.writeFile i offset data)) :
    Ends (writeFile debug i offset data) fs
      (fun n fs' => Fresh fs' (update W i (W i ∪ Set.Ico offset (offset + n))))
      fun e fs' => e = .panic ∨ Fresh fs' W := by
  obtain ⟨hi, hwrap, hsmall⟩ := hstep
  -- a write beyond the largest file is refused before anything changes
  by_cases hlarge : offset + data.length ≤ blockSize * maxDirectBlocks
  · obtain ⟨hroom, hgap⟩ := hsmall hlarge
    have hsum : offset + data.length + 511 < 2 ^ 64 := by
      unfold blockSize maxDirectBlocks at hlarge
      omega
    by_cases hfile : fs.IsFile i
    · refine (writeFile_stored h.owned.slotsApart h.owned.recordsSound h.owned.dataApart hi
        (by omega)
        (.inr (.inr hsum)) fun htakes hlength => h.owned.unheld_takes htakes
          (hlength.trans hroom)).mono ?_ ?_
      · rintro n fs' ⟨rfl, hstored⟩
        have howned := hstored.owned h hi hfile.2 hlarge hroom
        have hupdated :=
          hstored.updated h.owned.slotsApart h.owned.recordsSound h.owned.dataApart hi (by omega)
        have hsame := allocated_of_inodeBitmap hstored.inodeBitmap
        have hkept : Kept (fun j => fs.Allocated j ∧ j ≠ i) fs fs' := by
          refine .of_records (fun j hj => (hupdated.others j hj.1 hj.2).record)
            fun j hj _ b hb => ?_
          have hblock := (hupdated.others j hj.1 hj.2).blocks b hb
          rwa [h.owned.sectorOf ((h.owned.holder j hj.1).range b hb).2] at hblock
        refine h.step (hsame.symm ▸ howned) (hsame.symm ▸ h.root) hkept
          (fun _ hj => hj.1) fun j hj _ => ?_
        by_cases hji : j = i
        · rw [hji, update_self]
          exact .inr (hstored.blank h hi hfile.2 hlarge hgap)
        · exact .inl ⟨⟨hsame ▸ hj, hji⟩, update_of_ne hji _ _⟩
      · rintro e fs' (⟨bs, htakes, hlength⟩ | ⟨b, hb, hout⟩)
        · have hroot : 35 ∉ bs :=
            fun hmem => absurd (htakes.before_root (hlength.trans hroom) 35 hmem) (by decide)
          exact .inr (h.same (h.owned.takes htakes hroot) (h.owned.kept_of_disk fun s hs =>
            htakes.disk hs) (allocated_of_inodeBitmap htakes.inodeBitmap))
        · rw [h.owned.sectorOf hb] at hout
          unfold totalSectors maxDataBlocks totalSectors at *
          omega
    · refine writeFile_ends (fun _ => ⟨.inr h, .inr h⟩) (fun hyes => absurd hyes hfile)
        (fun hyes => absurd hyes hfile) fun hyes => absurd hyes hfile
  · refine (writeFile_refused hwrap (Nat.not_le.mp hlarge)).mono (fun _ _ hno => hno.elim) ?_
    rintro e fs' (hpanic | rfl)
    · exact .inl hpanic
    · exact .inr h

/-! ## Giving blocks back -/

/-- The blocks of an inode are given back, and it leaves. -/
theorem Owned.release (h : Owned L fs) (hi : L i) (hroot : i ≠ 1) :
    Ends (freeBlocks debug (usedSlots (fs.record i))) fs
      (fun _ fs' => (Owned (fun j => L j ∧ j ≠ i) fs' ∧ Kept (fun j => L j ∧ j ≠ i) fs fs') ∧
        (∀ j, L j → fs'.record j = fs.record j) ∧ fs'.inodeBitmap = fs.inodeBitmap) fun e _ => e =
          .panic := by
  have hold := h.holder i hi
  refine (freeBlocks_drops hold.nodup fun b hb => ⟨hold.range b hb, h.marked hi hroot hb⟩).imp ?_
  intro _ fs' hdrops
  have hrest : Owned (fun j => L j ∧ j ≠ i) fs := h.mono fun _ hj => hj.1
  refine ⟨⟨hrest.drops hdrops (fun hzero => absurd (hold.range 0 hzero).1 (by decide)) ?_,
    hrest.kept_of_disk fun s hs => hdrops.disk hs⟩,
    fun j hj => h.record_of_disk (fun s hs _ => hdrops.disk hs) hj, hdrops.inodeBitmap⟩
  exact fun j hj b hbj hbi => hj.2 (h.apart j i b hj.1 hi hbj hbi)

/-- The record `truncate` writes. -/
def emptied (r : HomeInode) : HomeInode :=
  { r with size := 0, blocksUsed := 0, directBlocks := List.replicate maxDirectBlocks 0 }

theorem usedSlots_emptied (r : HomeInode) : usedSlots (emptied r) = [] := rfl

theorem emptied_fits {r : HomeInode} (h : r.Fits) : (emptied r).Fits where
  inodeNum := h.inodeNum
  fileType := h.fileType
  mode := h.mode
  uid := h.uid
  gid := h.gid
  linkCount := h.linkCount
  size := Nat.zero_lt_succ _
  blocksUsed := Nat.zero_lt_succ _
  slots := List.length_replicate
  directBlocks b hb := by
    rw [List.eq_of_mem_replicate hb]
    decide

theorem truncate_fresh (h : Fresh fs W) (hi : fs.Allocated i) :
    Ends (truncate debug i) fs (fun _ fs' => Fresh fs' (update W i ∅)) fun e fs' => e = .panic ∨
      Fresh fs' W := by
  unfold truncate
  refine (readFileInode_ends i).bind ?_ ?_
  · rintro _ fs' ⟨⟨rfl, hsame⟩, hfile⟩
    obtain rfl := hsame.symm
    have hroot := h.owned.ne_root_of_file hi (by rw [hfile.2]; decide)
    have hnum : (emptied (fs.record i)).inodeNum = i := (h.owned.holder i hi).inodeNum
    have hfits : (emptied (fs.record i)).Fits := emptied_fits (fs.record_fits i)
    have hrange : 0 < (emptied (fs.record i)).inodeNum ∧
        (emptied (fs.record i)).inodeNum ≤ maxInodes :=
      hnum.symm ▸ ⟨hi.1, hi.2.1.le⟩
    refine (h.owned.release hi hroot).bind ?_ fun _ _ hpanic => .inl hpanic
    rintro _ fs1 ⟨⟨howned, hkept⟩, -, hbits⟩
    have hsame := allocated_of_inodeBitmap hbits
    refine (writeInode_returns (r := emptied (fs.record i)) hrange.1 hrange.2).ends ?_
    have hholder : Holder fs1 i (emptied (fs.record i)) := by
      refine ⟨hnum, Nat.zero_le _, Nat.zero_le _, ?_, ?_, ?_, fun heq => absurd heq hroot⟩
      all_goals rw [usedSlots_emptied]; simp
    have hjoin := howned.putInode hfits (hsame ▸ hi) hholder (by simp [usedSlots_emptied])
    have hrecord : (fs1.putInode (emptied (fs.record i))).record i = emptied (fs.record i) := by
      have hput : (fs1.putInode (emptied (fs.record i))).record (emptied (fs.record i)).inodeNum =
          _ :=
        record_putInode hfits
      rwa [hnum] at hput
    have hkept' := hkept.trans (howned.kept_putInode hfits hrange fun hno => absurd hnum hno.2)
    have hall : (fs1.putInode (emptied (fs.record i))).Allocated = fs.Allocated := hsame
    have hback : (fun j => (fs.Allocated j ∧ j ≠ i) ∨ j = i) = fs.Allocated := by
      funext j
      by_cases hj : j = i
      · simp [hj, hi]
      · simp [hj]
    refine h.step (by rw [hall, ← hback]; exact hjoin) (hall ▸ h.root) hkept'
      (fun _ hj => hj.1) fun j hj _ => ?_
    by_cases hji : j = i
    · rw [hji]
      refine .inr (.of_size_eq_zero ?_ _)
      rw [hrecord]
      rfl
    · exact .inl ⟨⟨hall ▸ hj, hji⟩, update_of_ne hji _ _⟩
  · rintro e fs' ⟨⟨-, rfl⟩, -⟩
    exact .inr h

/-- The end of `unlink_file` and `rmdir`. -/
def discard (debug : Bool) (c : Nat) (inode : HomeInode) (d : Nat) (name : Str) : HomeM Unit := do
  freeBlocks debug (usedSlots inode)
  freeInode debug c
  removeDirEntry debug d name

theorem discard_fresh {c : Nat} (h : Fresh fs W) (hc : fs.Allocated c) (hroot : c ≠ 1)
    (hd : fs.Allocated d) : Leaves (Fresh · W) (discard debug c (fs.record c) d name) fs := by
  unfold discard
  refine (h.owned.release hc hroot).bind ?_ fun _ _ hpanic => .inl hpanic
  rintro _ fs1 ⟨⟨howned1, hkept1⟩, hrecord, hbits⟩
  have hsame1 := allocated_of_inodeBitmap hbits
  refine (freeInode_exact c).bind ?_ ?_
  · rintro _ _ ⟨-, rfl⟩
    have hall : (fs1.dropInode c).Allocated = fun j => fs.Allocated j ∧ j ≠ c := by
      rw [allocated_dropInode, hsame1]
    have howned2 := howned1.dropInode fun hno => hno.2 rfl
    have hkept2 := hkept1.trans (howned1.kept_of_disk fun s hs => dropInode_disk c hs)
    have hrecord2 : ∀ j, fs.Allocated j → (fs1.dropInode c).record j = fs.record j := fun j hj =>
      (record_of_disk (dropInode_disk c (inodeSector_bounds hj.2.1.le).1)).trans (hrecord j hj)
    -- only the records, the bitmaps and the blocks matter from here
    generalize fs1.dropInode c = fs2 at *
    have hroot2 : fs2.Allocated 1 := by
      rw [hall]
      exact ⟨h.root, hroot.symm⟩
    have hfresh : ∀ fs', Owned (fun j => fs.Allocated j ∧ j ≠ c) fs' →
        Kept (fun j => fs.Allocated j ∧ j ≠ c) fs2 fs' →
        fs'.inodeBitmap = fs2.inodeBitmap → Fresh fs' W := by
      intro fs' howned hkept hbits'
      have hall' := (allocated_of_inodeBitmap hbits').trans hall
      refine h.step (hall' ▸ howned) (by rw [hall']; exact hall ▸ hroot2)
        (hkept2.trans hkept) (fun _ hj => hj.1) ?_
      rw [hall']
      exact fun j hj _ => .inl ⟨hj, rfl⟩
    refine removeDirEntry_writes.mono ?_ ?_
    · intro _ fs' hwrote
      -- the entry is removed in a block of a directory, so no file loses bytes
      obtain ⟨howned, hkept, hbits'⟩ := howned2.wroteIn (d := d) (by
        rw [hrecord2 d hd]
        exact fun b hb => ((h.owned.holder d hd).range b hb).2) (by
        intro i hi hfile b hb hbi
        have htype := hwrote.1
        rw [hrecord2 d hd] at hb htype
        rw [hrecord2 i hi.1] at hbi hfile
        rw [← h.owned.apart d i b hd hi.1 hb hbi, htype] at hfile
        cases hfile) hwrote
      exact hfresh fs' howned hkept hbits'
    · rintro e _ rfl
      exact .inr (hfresh _ howned2 (.refl _ _) rfl)
  · rintro e _ (⟨-, hnot⟩ | ⟨⟨rfl, -⟩, -⟩)
    · rw [← hsame1] at hc
      exact absurd hc hnot
    · exact .inl rfl

theorem lookupInDir_pure : Ends (lookupInDir debug d name) fs
    (fun c fs' => fs' = fs ∧ outcome (lookupInDir debug d name) fs = .ok c) fun e fs' => e =
      .panic ∨ fs' = fs :=
  ((SameInode.refl d fs).lookupInDir name).ends.mono (fun _ _ h => h) fun _ _ h => .inr h

theorem readInode_pure (i : Nat) : Ends (readInode i) fs (fun r fs' => fs' = fs ∧ r = fs.record i)
    fun e fs' => e = .panic ∨ fs' = fs :=
  (readInode_ends i).mono (fun _ _ h => h.1.symm) fun _ _ h => .inr h.1.2

theorem unlinkFile_fresh (h : Fresh fs W) (hstep : FreshStep debug fs (.unlinkFile dir name)) :
    Leaves (Fresh · W) (unlinkFile debug dir name) fs := by
  obtain ⟨hdir, hfound⟩ := hstep
  refine h.bind lookupInDir_pure fun c hlookup => h.bind (readInode_pure c) ?_
  rintro _ rfl
  have hc := hfound c hlookup
  refine h.failIf fun hfile => ?_
  exact discard_fresh h hc (h.owned.ne_root_of_file hc (of_decide_eq_false hfile)) hdir

/-- The root's first block is not marked, so that the root cannot be removed. -/
theorem freeBlocks_root (h : Owned L fs) (hroot : L 1) :
    Ends (freeBlocks debug (usedSlots (fs.record 1))) fs
      (fun _ _ => False) fun e fs' => e = .panic ∨ fs' = fs := by
  obtain ⟨-, hhead⟩ := (h.holder 1 hroot).root rfl
  cases hslots : usedSlots (fs.record 1) with
  | nil => simp [hslots] at hhead
  | cons b rest =>
    rw [hslots] at hhead
    obtain rfl : b = 35 := Option.some.inj hhead
    unfold freeBlocks
    rw [if_pos (by decide)]
    refine (freeBlock_exact 35).bind ?_ ?_
    · rintro _ fs' ⟨⟨-, hset⟩, -⟩
      rw [h.rootBlock] at hset
      cases hset
    · rintro e fs' (⟨⟨-, hsame⟩, -⟩ | ⟨⟨rfl, -⟩, -⟩)
      · exact .inr hsame
      · exact .inl rfl

theorem rmdir_fresh (h : Fresh fs W) (hstep : FreshStep debug fs (.rmdir parent name)) :
    Leaves (Fresh · W) (rmdir debug parent name) fs := by
  obtain ⟨hparent, hfound⟩ := hstep
  refine h.bind lookupInDir_pure fun c hlookup => ?_
  refine h.bind ((readDirectory_ends c).mono (fun _ _ hr => hr.1.symm) fun _ _ he => .inr he.1.2) ?_
  rintro _ rfl
  have hc := hfound c hlookup
  have hrest : Leaves (Fresh · W) (discard debug c (fs.record c) parent name) fs := by
    by_cases hroot : c = 1
    · subst hroot
      refine h.bind (V := fun _ => False) ?_ fun _ hno => hno.elim
      exact (freeBlocks_root h.owned hc).imp (fun _ _ hno => hno.elim)
    · exact discard_fresh h hc hroot hparent
  refine h.bind (V := fun _ => True)
    (((SameInode.refl c fs).forBlocks (fun _ _ entry acc => ?_) true
    (fun _ hb => hb) 0).ends.mono (fun _ _ hr => ⟨hr.1, trivial⟩) fun _ _ he => .inr he)
      fun count _ => ?_
  · split
    · exact .pure _
    · exact .pure _
  · cases count with
    | done count => exact h.failIf fun _ => hrest
    | yield count => exact h.failIf fun _ => hrest

theorem rename_fresh {oldDir newDir : Nat} {oldName newName : Str} (h : Fresh fs W)
    (hstep : FreshStep debug fs (.rename oldDir oldName newDir newName)) :
    Leaves (Fresh · W) (rename debug oldDir oldName newDir newName) fs := by
  obtain ⟨hold, hnew, hroom⟩ := hstep
  refine h.bind lookupInDir_pure fun c _ => h.bind (readInode_pure c) fun _ _ => ?_
  refine h.bind (V := fun _ => True) (isInDir_exact.mono (fun _ _ hr => ⟨hr.1, trivial⟩)
    fun _ _ he => .inl he.1) fun found _ => h.failIf fun _ => ?_
  refine (h.owned.addDirEntry hnew hroom).bind ?_ ?_
  · rintro _ fs1 ⟨howned1, hkept1, hbits1⟩
    refine removeDirEntry_writes.mono ?_ ?_
    · intro _ fs2 hwrote
      obtain ⟨howned2, hkept2, hbits2⟩ :=
        howned1.wroteIn (fun b hb => ((howned1.holder oldDir hold).range b hb).2)
        (fun i hi hfile b hb => howned1.directory_apart hold hwrote.1 hb hi hfile) hwrote
      exact h.same howned2 (hkept1.trans hkept2) (allocated_of_inodeBitmap (hbits2.trans hbits1))
    · rintro e _ rfl
      exact .inr (h.same howned1 hkept1 (allocated_of_inodeBitmap hbits1))
  · rintro e fs' (hpanic | rfl)
    · exact .inl hpanic
    · exact .inr h

theorem chmod_fresh (h : Fresh fs W) (hi : fs.Allocated i) :
    Leaves (Fresh · W) (chmod i mode) fs := by
  refine h.bind (readInode_pure i) ?_
  rintro _ rfl
  have hold := h.owned.holder i hi
  generalize hr : ({ fs.record i with mode := mode % 512 } : HomeInode) = r
  have hslots : usedSlots r = usedSlots (fs.record i) := by
    rw [← hr]
    rfl
  have hholder : Holder fs i r := by
    subst hr
    exact { hold with }
  have hfits : r.Fits := by
    subst hr
    exact { fs.record_fits i with
      mode := (Nat.mod_lt _ (by decide)).trans (by decide : 512 < 256 ^ 2) }
  refine (writeInode_puts r).mono ?_ fun e fs' hfail => .inr (hfail.1.2 ▸ h)
  rintro _ _ ⟨hrange, rfl⟩
  have howned := (h.owned.putInode hfits hi hholder fun j hj hne b hb hbj =>
    hne (h.owned.apart j i b hj hi hbj (hslots ▸ hb))).mono fun _ hj => .inl hj
  have hkept : Kept fs.Allocated fs (fs.putInode r) := by
    refine h.owned.kept_putInode hfits hrange fun _ => ?_
    rw [hholder.inodeNum]
    subst hr
    exact ⟨rfl, fun _ => ⟨rfl, rfl⟩⟩
  exact h.same howned hkept rfl

/-! ## Runs -/

theorem Fresh.create {disk : Nat → Memory} (hcreate : create disk = .ok () fs) : Fresh fs W := by
  obtain ⟨hdisk, hsb, hinodes, hblocks⟩ := create_fields hcreate
  have hroot := record_root hdisk
  have hall : ∀ i, fs.Allocated i → i = 1 := fun i hi => allocated_setBit hinodes hi
  have hone : fs.Allocated 1 := by
    refine ⟨by decide, by decide, ?_⟩
    rw [hinodes, bitSet_setBit, update_self]
  refine ⟨⟨by rw [hsb]; rfl, ?_, ?_, fun i hi => hi, ?_, ?_⟩, hone, ?_⟩
  · rw [hblocks, bitSet_setBit, update_self]
  · rw [hblocks, bitSet_setBit, update_of_ne (by decide)]
    rfl
  · intro i hi
    rw [hall i hi, hroot]
    refine ⟨rfl, by decide, by decide, by decide, fun b hb => .inr ⟨rfl, ?_⟩, by decide,
      fun _ => by decide⟩
    exact List.mem_singleton.mp hb
  · intro i j b hi hj _ _
    rw [hall i hi, hall j hj]
  · intro i hi hfile
    rw [hall i hi, hroot] at hfile
    cases hfile

/-- What is known of an operation is known of the step it makes. -/
theorem fresh_of_ends (after : Except HomeFault α → Nat → Set Nat)
    (hends : Ends x fs (fun a fs' => Fresh fs' (after (.ok a))) fun e fs' => e = .panic ∨
      Fresh fs' W)
    (herror : ∀ e, after (.error e) = W)
    (hstep : (∃ a, Returns x fs a fs') ∨ ∃ e, Throws x fs (.err e) fs') :
    Fresh fs' (after (outcome x fs)) := by
  rw [ends_iff] at hends
  rcases hstep with ⟨a, hrun⟩ | ⟨e, hrun⟩
  · rw [hrun.outcome_eq]
    exact hends.1 a fs' hrun
  · rw [hrun.outcome_eq, herror]
    exact (hends.2 _ fs' hrun).resolve_left (by simp)

/-- The same with the result of the operation dropped. -/
theorem run_of_dropped
    (h : Returns (do let _ ← x) fs () fs' ∨ ∃ e, Throws (do let _ ← x) fs (.err e) fs') :
    (∃ a, Returns x fs a fs') ∨ ∃ e, Throws x fs (.err e) fs' := by
  rcases h with hrun | ⟨e, hrun⟩
  · obtain ⟨a, fs1, hx, hpure⟩ := returns_bind.mp hrun
    rw [(returns_pure.mp hpure).2]
    exact .inl ⟨a, hx⟩
  · rcases throws_bind.mp hrun with hx | ⟨a, fs1, -, hpure⟩
    · exact .inr ⟨e, hx⟩
    · exact absurd hpure not_throws_pure

theorem Fresh.next (h : Fresh fs W) (hop : FreshStep debug fs op)
    (hstep : fs.step debug op = some fs') : Fresh fs' (fs.writtenAfter debug W op) := by
  have hrun := step_cases hstep
  cases op with
  | createFile dir name mode =>
    exact fresh_of_ends (fun r => match r with | .ok n => update W n ∅ | .error _ => W)
      (createFile_fresh h hop.1 hop.2) (fun _ => rfl) (run_of_dropped hrun)
  | createDirectory parent name mode =>
    exact fresh_of_ends (fun r => match r with | .ok n => update W n ∅ | .error _ => W)
      (createDirectory_fresh h hop.1 hop.2) (fun _ => rfl) (run_of_dropped hrun)
  | writeFile i offset data =>
    exact fresh_of_ends
      (fun r => match r with
        | .ok n => update W i (W i ∪ Set.Ico offset (offset + n))
        | .error _ => W)
      (writeFile_fresh h hop) (fun _ => rfl) (run_of_dropped hrun)
  | truncate i =>
    exact fresh_of_ends (fun r => match r with | .ok _ => update W i ∅ | .error _ => W)
      (truncate_fresh h hop) (fun _ => rfl) (hrun.imp_left fun hx => ⟨(), hx⟩)
  | unlinkFile dir name =>
    exact fresh_of_ends (fun _ => W) (unlinkFile_fresh h hop)
      (fun _ => rfl) (hrun.imp_left fun hx => ⟨(), hx⟩)
  | rmdir parent name =>
    exact fresh_of_ends (fun _ => W) (rmdir_fresh h hop) (fun _ => rfl)
      (hrun.imp_left fun hx => ⟨(), hx⟩)
  | rename oldDir oldName newDir newName =>
    exact fresh_of_ends (fun _ => W) (rename_fresh h hop) (fun _ => rfl)
      (hrun.imp_left fun hx => ⟨(), hx⟩)
  | chmod i mode =>
    exact fresh_of_ends (fun _ => W) (chmod_fresh h hop) (fun _ => rfl)
      (hrun.imp_left fun hx => ⟨(), hx⟩)

/-- A byte of a file that is blank there. -/
theorem Fresh.reads {p : Nat} (h : Fresh fs W) (hi : fs.Allocated i)
    (hfile : (fs.record i).fileType = typeFile)
    (hp : p < (fs.record i).size) (hw : p ∉ W i) : outcome (readFile debug i p 1) fs = .ok [0] := by
  have hplaced : Placed fs (fs.record i) :=
    placed_growAll h.owned.slotsApart h.owned.dataApart hi .nil
    (fun _ _ _ _ hmem => by simp at hmem) (h.owned.recordsSound.blocksUsed hi)
  have hroom := h.owned.recordsSound.size hi
  have hidx : p / blockSize < (fs.record i).blocksUsed := by
    unfold blockSize at *
    omega
  have hb := ((h.owned.holder i hi).range _ (hplaced.slot_mem hidx)).2
  have hbyte := h.blank i hi hfile (p / blockSize) _ (p % blockSize)
    (hplaced.getElem?_usedSlots hidx)
    (Nat.mod_lt _ (by decide)) (by rwa [Nat.div_add_mod]) (by rwa [Nat.div_add_mod])
  rw [readFile_byte ⟨⟨hi.1, hi.2.1.le⟩, hfile⟩ hplaced hp (by omega), if_pos]
  · unfold fileByte
    rw [h.owned.sectorOf hb, hbyte]
  · rw [h.owned.sectorOf hb]
    exact dataSector_lt hb

namespace Traced

/-- A new file system on a device of zeros. -/
def new : Traced := ⟨newHome fun _ => zeroSector, fun _ => ∅⟩

/-- What an operation leaves, in a debug build. -/
def after (t : Traced) (op : Op) : Traced := ⟨t.fs.after op, t.fs.writtenAfter true t.written op⟩

variable {P : HomeFs → Op → Prop}

theorem reachable_new : (tracedRuns true P).Reachable new := .init ⟨⟨_, create_newHome _⟩, rfl⟩

theorem reachable_after {t : Traced} (h : (tracedRuns true P).Reachable t) (hop : P t.fs op)
    (hstep : (t.fs.step true op).isSome = true) : (tracedRuns true P).Reachable (t.after op) :=
  h.step ⟨op, hop, step_after hstep, rfl⟩

section

variable {t : Traced} {i offset n mode : Nat} {data : List Byte} {name : Str}

theorem written_createFile (h : outcome (createFile true i name mode) t.fs = .ok n) :
    (t.after (.createFile i name mode)).written n = ∅ := by
  unfold after
  rw [writtenAfter, h]
  exact update_self n ∅ _

theorem written_writeFile (h : outcome (writeFile true i offset data) t.fs = .ok n) :
    (t.after (.writeFile i offset data)).written i = t.written i ∪ Set.Ico offset (offset + n) := by
  unfold after
  rw [writtenAfter, h]
  exact update_self i _ _

theorem written_truncate (h : outcome (truncate true i) t.fs = .ok ()) :
    (t.after (.truncate i)).written i = ∅ := by
  unfold after
  rw [writtenAfter, h]
  exact update_self i ∅ _

end

/-- A file with one byte. -/
def oneByte : Traced := (new.after (.createFile 1 letterA 0o644)).after (.writeFile 2 0 [7])

/-- The file is truncated, and its second byte is written. -/
def stale : Traced := (oneByte.after (.truncate 2)).after (.writeFile 2 1 [0])

/-- A write that skips two bytes of a new block, on a device of zeros. -/
def skipped : Traced := (new.after (.createFile 1 letterA 0o644)).after (.writeFile 2 2 [7])

end Traced

end PandaOS.Kernel.HomeFs
