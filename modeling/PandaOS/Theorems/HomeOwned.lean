import PandaOS.Theorems.HomeCreate
import PandaOS.Theorems.HomeTree

/-!
# Who holds which block

Which inodes hold which blocks, through every function of the file system that takes,
gives back or writes blocks. Only the root's first block, 35, is held without being
marked; the results are about runs in which it is not handed out.

`Owned L fs` speaks of the inodes in `L`. Between two operations these are the allocated
ones; within an operation an inode joins when its record is in place and leaves before
its blocks are given back. `Kept L fs fs'` says that the files among them did not change.
-/

namespace PandaOS.Kernel.HomeFs

open Lib Function

variable {debug : Bool} {fs fs' fs1 : HomeFs} {bs : List Nat} {b d i n childType : Nat} {name : Str}
  {r : HomeInode}

/-! ## Blocks in the order they are handed out -/

/-- The free blocks in the order in which `allocate_block` hands them out. -/
def freeList (fs : HomeFs) : List Nat :=
  (List.range scannedBlocks).filter fun b => !bitSet fs.blockBitmap b

/-- The first number that passes a test, and the others. -/
theorem filter_range_eq_cons {p : Nat → Bool} (hb : b < n) (hpass : p b = true)
    (hbefore : ∀ c < b, p c = false) :
    (List.range n).filter p = b :: (List.range n).filter (update p b false) := by
  have hsplit : List.range n = List.range b ++ b :: List.range' (b + 1) (n - (b + 1)) := by
    rw [List.range_eq_range', List.range_eq_range', ← List.range'_succ]
    have happend := List.range'_append_1 (s := 0) (m := b) (n := n - (b + 1) + 1)
    rw [Nat.zero_add] at happend
    rw [happend]
    congr 1
    omega
  have hnone : ∀ q : Nat → Bool, (∀ c < b, q c = false) → (List.range b).filter q = [] := by
    intro q hq
    refine List.filter_eq_nil_iff.mpr fun c hc => ?_
    rw [hq c (List.mem_range.mp hc)]
    exact Bool.false_ne_true
  rw [hsplit, List.filter_append, List.filter_append, hnone p hbefore,
    hnone (update p b false) fun c hc => by rw [update_of_ne hc.ne, hbefore c hc],
    List.nil_append, List.nil_append, List.filter_cons_of_pos hpass,
    List.filter_cons_of_neg (by rw [update_self]; exact Bool.false_ne_true)]
  congr 1
  apply List.filter_congr
  intro c hc
  have hlo := (List.mem_range'_1.mp hc).1
  rw [update_of_ne (by omega)]

theorem freeList_eq_cons (h : fs.nextBlock = some b) :
    fs.freeList = b :: (fs.takeBlock b).freeList := by
  obtain ⟨-, -, hclear, hleast⟩ := nextBlock_spec h
  unfold freeList
  rw [takeBlock_blockBitmap, bitSet_setBit,
    filter_range_eq_cons (nextBlock_lt h) (by rw [hclear]; rfl)
      fun c hc => by rw [hleast c hc]; rfl]
  congr 2
  funext c
  by_cases hc : c = b
  · rw [hc, update_self, update_self]
    rfl
  · rw [update_of_ne hc, update_of_ne hc]

theorem freeBeforeRoot_eq : fs.freeBeforeRoot = clearBits fs.blockBitmap 35 :=
  List.countP_eq_length_filter.symm

/-- A free block before the root's is handed out first. -/
theorem nextBlock_before_root (h : fs.nextBlock = some b) (hroom : 1 ≤ fs.freeBeforeRoot) :
    b < 35 := by
  rw [freeBeforeRoot_eq] at hroom
  obtain ⟨c, hc, hclear⟩ := clearBits_pos.mp hroom
  by_contra hlarge
  have hset := (nextBlock_spec h).2.2.2 c (by omega)
  rw [hclear] at hset
  cases hset

namespace Takes

theorem eq_take (h : Takes fs bs fs') : bs = fs.freeList.take bs.length := by
  induction h with
  | nil => rfl
  | cons hnext _ ih => rw [freeList_eq_cons hnext, List.length_cons, List.take_succ_cons, ← ih]

theorem before_root (h : Takes fs bs fs') (hroom : bs.length ≤ fs.freeBeforeRoot) :
    ∀ b ∈ bs, b < 35 := by
  induction h with
  | nil => simp
  | @cons fs _ b _ hnext _ ih =>
    rw [List.length_cons] at hroom
    have hb := nextBlock_before_root hnext (by omega)
    have hcount := clearBits_setBit hb (nextBlock_spec hnext).2.2.1
    rw [freeBeforeRoot_eq] at hroom
    have hrest := ih (by rw [freeBeforeRoot_eq, takeBlock_blockBitmap]; omega)
    intro c hc
    rcases List.mem_cons.mp hc with rfl | hc
    · exact hb
    · exact hrest c hc

theorem bitSet (h : Takes fs bs fs') (c : Nat) :
    HomeFs.bitSet fs'.blockBitmap c = (decide (c ∈ bs) || HomeFs.bitSet fs.blockBitmap c) := by
  induction h with
  | nil => simp
  | @cons fs _ b bs _ _ ih =>
    rw [ih, takeBlock_blockBitmap, bitSet_setBit]
    by_cases hc : c = b
    · rw [hc, update_self]
      simp
    · rw [update_of_ne hc]
      simp [hc]

end Takes

/-! ## Giving blocks back -/

/-- The blocks `bs` are given back one after the other. -/
inductive Drops : HomeFs → List Nat → HomeFs → Prop
  | nil {fs : HomeFs} : Drops fs [] fs
  | cons {fs fs' : HomeFs} {b : Nat} {bs : List Nat} : Drops (fs.dropBlock b) bs fs' →
      Drops fs (b :: bs) fs'

namespace Drops

theorem disk {s : Nat} (h : Drops fs bs fs') (hs : 3 ≤ s) : fs'.disk s = fs.disk s := by
  induction h with
  | nil => rfl
  | cons _ ih => rw [ih, dropBlock_disk _ hs]

theorem inodeBitmap (h : Drops fs bs fs') : fs'.inodeBitmap = fs.inodeBitmap := by
  induction h with
  | nil => rfl
  | cons _ ih => rw [ih, dropBlock_inodeBitmap]

theorem firstDataBlock (h : Drops fs bs fs') :
    fs'.superblock.firstDataBlock = fs.superblock.firstDataBlock := by
  induction h with
  | nil => rfl
  | cons _ ih => rw [ih, dropBlock_firstDataBlock]

theorem bitSet (h : Drops fs bs fs') (c : Nat) :
    HomeFs.bitSet fs'.blockBitmap c = (decide (c ∉ bs) && HomeFs.bitSet fs.blockBitmap c) := by
  induction h with
  | nil => simp
  | @cons fs _ b bs _ ih =>
    rw [ih, dropBlock_blockBitmap, bitSet_clearBit]
    by_cases hc : c = b
    · rw [hc, update_self]
      simp
    · rw [update_of_ne hc]
      simp [hc]

end Drops

theorem freeBlocks_drops (hnodup : bs.Nodup)
    (hbs : ∀ b ∈ bs, (0 < b ∧ b < maxDataBlocks) ∧ bitSet fs.blockBitmap b = true) :
    Ends (freeBlocks debug bs) fs (fun _ fs' => Drops fs bs fs') fun e _ => e = .panic := by
  induction bs generalizing fs with
  | nil => exact .nil
  | cons b rest ih =>
    obtain ⟨⟨hpos, hlt⟩, hset⟩ := hbs b List.mem_cons_self
    obtain ⟨hnot, hrest⟩ := List.nodup_cons.mp hnodup
    unfold freeBlocks
    rw [if_pos hpos.ne']
    refine (freeBlock_exact b).bind ?_ ?_
    · rintro _ _ ⟨-, rfl⟩
      refine (ih hrest fun c hc => ?_).imp (fun _ _ hdrops => .cons hdrops)
      obtain ⟨hrange, hsetc⟩ := hbs c (List.mem_cons_of_mem _ hc)
      refine ⟨hrange, ?_⟩
      rw [dropBlock_blockBitmap, bitSet_clearBit, update_of_ne, hsetc]
      rintro rfl
      exact hnot hc
    · rintro e _ (⟨-, hnot⟩ | ⟨⟨rfl, -⟩, -⟩)
      · exact absurd ⟨hlt, hset⟩ hnot
      · rfl

/-! ## Sectors that are written -/

theorem writeSector_puts (sector : Nat) (buf : Memory) : Ends (writeSector sector buf) fs
    (fun _ fs' => fs' = fs.putSector sector buf) fun _ fs' => fs' = fs := by
  by_cases hin : sector < totalSectors
  · exact (writeSector_returns hin buf).ends rfl
  · exact (writeSector_throws (Nat.not_lt.mp hin) buf).ends rfl

theorem writeDirEntry_puts (sector index : Nat) (entry : DirEntry) :
    Ends (writeDirEntry sector index entry) fs
    (fun _ fs' => ∃ buf, fs' = fs.putSector sector buf) fun _ fs' => fs' = fs := by
  unfold writeDirEntry
  refine (readSector_ends sector).bind ?_ fun _ _ h => h.2
  rintro buf _ ⟨-, rfl, rfl⟩
  rw [ends_bind, ends_failIf_iff]
  exact ⟨fun _ => (writeSector_puts _ _).imp (fun _ _ h => ⟨_, h⟩), fun _ => rfl⟩

/-- A loop over a directory ends with one of the sectors `S` written, or goes on with
nothing changed. -/
def WroteOne {β : Type} (S : Nat → Prop) (fs : HomeFs) (r : ForInStep β) (fs' : HomeFs) : Prop :=
  match r with
  | .yield _ => fs' = fs
  | .done _ => ∃ sector buf, S sector ∧ fs' = fs.putSector sector buf

section

variable {β : Type} {f : Nat → Nat → DirEntry → β → HomeM (ForInStep β)}
  (hf : ∀ sector index entry acc (fs : HomeFs), Ends (f sector index entry acc) fs
    (WroteOne (fun s => s = sector) fs) fun _ fs' => fs' = fs)
include hf

theorem forEntries_writes (sector : Nat) (indices : List Nat) (acc : β) (fs : HomeFs) :
    Ends (forEntries sector f indices acc) fs (WroteOne (· = sector) fs) fun _ fs' => fs' = fs := by
  induction indices generalizing acc with
  | nil => exact rfl
  | cons index rest ih =>
    unfold forEntries readDirEntry
    rw [ends_bind]
    refine (readSector_ends sector).bind ?_ fun _ _ h => h.2
    rintro buf fs' ⟨-, rfl, hsame⟩
    obtain rfl := hsame.symm
    rw [ends_bind, ends_failIf_iff]
    refine ⟨fun _ => ?_, fun _ => rfl⟩
    rw [ends_pure]
    refine (hf sector index _ acc fs).seq (fun r fs' hturn => ?_)
    cases r with
    | done acc => exact hturn
    | yield acc =>
      obtain rfl : fs' = fs := hturn
      exact ih acc

theorem forBlocks_writes (stopAtZero : Bool) (slots : List Nat) (acc : β) (fs : HomeFs) :
    Ends (forBlocks debug stopAtZero f slots acc) fs
      (WroteOne (fun s => ∃ b ∈ slots, s = fs.sectorOf b) fs) fun _ fs' => fs' = fs := by
  induction slots generalizing acc with
  | nil => exact rfl
  | cons b rest ih =>
    unfold forBlocks
    split
    · exact rfl
    · rw [ends_bind]
      rcases blockSector_cases debug fs b with ⟨-, hrun⟩ | ⟨-, hrun⟩
      · exact hrun.ends rfl
      · refine hrun.ends ?_
        refine (forEntries_writes hf _ _ acc fs).seq (fun r fs' hturn => ?_)
        cases r with
        | done acc =>
          obtain ⟨_, buf, rfl, hput⟩ := hturn
          exact ⟨_, buf, ⟨b, List.mem_cons_self, rfl⟩, hput⟩
        | yield acc =>
          obtain rfl : fs' = fs := hturn
          refine (ih acc).imp (fun r fs'' hrest => ?_)
          cases r with
          | yield acc => exact hrest
          | done acc =>
            obtain ⟨s, buf, ⟨c, hc, hs⟩, hput⟩ := hrest
            exact ⟨s, buf, ⟨c, List.mem_cons_of_mem _ hc, hs⟩, hput⟩

end

/-- A block of directory `d` is written. -/
def WroteIn (d : Nat) (fs fs' : HomeFs) : Prop :=
  (fs.record d).fileType = typeDirectory ∧ ∃ b ∈ usedSlots (fs.record d), ∃ buf, fs' =
    fs.putSector (fs.sectorOf b) buf

theorem removeDirEntry_writes : Ends (removeDirEntry debug d name) fs
    (fun _ fs' => WroteIn d fs fs') fun _ fs' => fs' = fs := by
  unfold removeDirEntry
  refine (readDirectory_ends d).bind ?_ fun _ _ h => h.1.2
  rintro _ fs' ⟨⟨rfl, hsame⟩, -, htype⟩
  obtain rfl := hsame.symm
  refine (forBlocks_writes (fun sector index entry acc fs => ?_) true _ () fs).seq
    (fun r fs' hwrote => ?_)
  · split
    · exact rfl
    · unfold entryName
      rw [ends_bind, ends_bind, ends_failIf_iff]
      refine ⟨fun _ => ?_, fun _ => rfl⟩
      rw [ends_bind, ends_failIf_iff]
      refine ⟨fun _ => ?_, fun _ => rfl⟩
      rw [ends_pure]
      split
      · exact (writeDirEntry_puts _ _ _).seq (fun _ _ h => ⟨sector, h.choose, rfl, h.choose_spec⟩)
      · exact rfl
  · cases r with
    | yield _ => exact hwrote
    | done _ =>
      obtain ⟨_, buf, ⟨b, hb, rfl⟩, hput⟩ := hwrote
      exact ⟨htype, b, hb, buf, hput⟩

/-- Directory `d` gets a new block. -/
def WroteBehind (d : Nat) (fs fs' : HomeFs) : Prop :=
  (fs.record d).fileType = typeDirectory ∧ (fs.record d).blocksUsed < maxDirectBlocks ∧
    ∃ b buf buf', fs.nextBlock = some b ∧
      fs' = (((fs.takeBlock b).putSector (fs.sectorOf b) buf).putSector
        (fs.sectorOf b) buf').putInode (grown (fs.record d) b)

theorem enterInNewBlock_writes {newEntry : DirEntry}
    (htype : (fs.record d).fileType = typeDirectory) :
    Ends (enterInNewBlock debug (fs.record d) newEntry) fs
      (fun _ fs' => WroteBehind d fs fs') fun _ _ => True := by
  unfold enterInNewBlock
  rw [ends_bind, ends_failIf_iff]
  refine ⟨fun hfew => ?_, fun _ => trivial⟩
  have hfew : (fs.record d).blocksUsed < maxDirectBlocks := by simpa using hfew
  rw [ends_bind]
  cases hnext : fs.nextBlock with
  | none => exact (allocateBlock_throws hnext).ends trivial
  | some b =>
    have hsector : (fs.takeBlock b).sectorOf b = fs.sectorOf b := by
      unfold sectorOf
      rw [takeBlock_firstDataBlock]
    refine (allocateBlock_returns hnext).ends ?_
    dsimp only
    rw [ends_bind]
    rcases blockSector_cases debug (fs.takeBlock b) b with ⟨-, hrun⟩ | ⟨-, hrun⟩
    · exact hrun.ends trivial
    · refine hrun.ends ?_
      rw [hsector]
      refine (writeSector_puts _ _).bind ?_ fun _ _ _ => trivial
      rintro _ fs1 rfl
      refine (writeDirEntry_puts _ _ _).bind ?_ fun _ _ _ => trivial
      rintro _ fs2 ⟨buf, rfl⟩
      refine (writeInode_puts _).mono ?_ fun _ _ _ => trivial
      rintro _ fs3 ⟨-, rfl⟩
      exact ⟨htype, hfew, b, zeroSector, buf, hnext, rfl⟩

theorem addDirEntry_writes {child : Nat} : Ends (addDirEntry debug d name child childType) fs
      (fun _ fs' => WroteIn d fs fs' ∨ WroteBehind d fs fs') fun _ _ => True := by
  unfold addDirEntry
  rw [ends_bind, ends_failIf_iff]
  refine ⟨fun _ => ?_, fun _ => trivial⟩
  refine isInDir_exact.bind ?_ fun _ _ _ => trivial
  rintro found fs' ⟨hsame, -⟩
  obtain rfl := hsame.symm
  rw [ends_bind, ends_failIf_iff]
  refine ⟨fun _ => ?_, fun _ => trivial⟩
  refine (readDirectory_ends d).bind ?_ fun _ _ _ => trivial
  rintro _ fs' ⟨⟨rfl, hsame⟩, -, htype⟩
  obtain rfl := hsame.symm
  refine (forBlocks_writes (fun sector index entry acc fs => ?_) false _ () fs).bind
    (fun r fs' hwrote => ?_) fun _ _ _ => trivial
  · split
    · exact (writeDirEntry_puts _ _ _).seq (fun _ _ h => ⟨sector, h.choose, rfl, h.choose_spec⟩)
    · exact rfl
  · cases r with
    | done _ =>
      obtain ⟨_, buf, ⟨b, hb, rfl⟩, hput⟩ := hwrote
      exact .inl ⟨htype, b, hb, buf, hput⟩
    | yield _ =>
      obtain rfl : fs' = fs := hwrote
      exact (enterInNewBlock_writes htype).mono (fun _ _ h => .inr h) fun _ _ _ => trivial

/-! ## Ownership -/

/-- A record that inode `i` may have. -/
structure Holder (fs : HomeFs) (i : Nat) (r : HomeInode) : Prop where
  inodeNum : r.inodeNum = i
  few : r.blocksUsed ≤ maxDirectBlocks
  size : r.size ≤ blockSize * r.blocksUsed
  range : ∀ b ∈ usedSlots r, 0 < b ∧ b < maxDataBlocks
  marked : ∀ b ∈ usedSlots r, bitSet fs.blockBitmap b = true ∨ i = 1 ∧ b = 35
  nodup : (usedSlots r).Nodup
  root : i = 1 → r.fileType = typeDirectory ∧ (usedSlots r).head? = some 35

/-- The blocks of the record that were marked still are. -/
theorem Holder.frame (h : Holder fs i r) (hmarked : ∀ b ∈ usedSlots r,
      bitSet fs.blockBitmap b = true → bitSet fs'.blockBitmap b = true) : Holder fs' i r :=
  { h with marked := fun b hb => (h.marked b hb).imp_left (hmarked b hb) }

/-- The inodes in `L` are allocated and hold different blocks, all of them marked except
for the root's first one. -/
structure Owned (L : Nat → Prop) (fs : HomeFs) : Prop where
  firstDataBlock : fs.superblock.firstDataBlock = 35
  zero : bitSet fs.blockBitmap 0 = true
  rootBlock : bitSet fs.blockBitmap 35 = false
  allocated : ∀ i, L i → fs.Allocated i
  holder : ∀ i, L i → Holder fs i (fs.record i)
  apart : ∀ i j b, L i → L j → b ∈ usedSlots (fs.record i) → b ∈ usedSlots (fs.record j) → i = j

/-- The contents of inode `i` are the same. -/
structure FileKept (i : Nat) (fs fs' : HomeFs) : Prop where
  size : (fs'.record i).size = (fs.record i).size
  slots : usedSlots (fs'.record i) = usedSlots (fs.record i)
  blocks : ∀ b ∈ usedSlots (fs.record i), fs'.disk (35 + b) = fs.disk (35 + b)

/-- The types of the inodes in `L` and the contents of the files among them are the same. -/
structure Kept (L : Nat → Prop) (fs fs' : HomeFs) : Prop where
  fileType : ∀ i, L i → (fs'.record i).fileType = (fs.record i).fileType
  file : ∀ i, L i → (fs.record i).fileType = typeFile → FileKept i fs fs'

variable {L L' : Nat → Prop}

theorem FileKept.of_record (hrecord : fs'.record i = fs.record i)
    (hblocks : ∀ b ∈ usedSlots (fs.record i), fs'.disk (35 + b) = fs.disk (35 + b)) :
    FileKept i fs fs' :=
  ⟨by rw [hrecord], by rw [hrecord], hblocks⟩

theorem FileKept.trans (h : FileKept i fs fs1) (h' : FileKept i fs1 fs') : FileKept i fs fs' :=
  ⟨h'.size.trans h.size, h'.slots.trans h.slots, fun b hb =>
    (h'.blocks b (h.slots.symm ▸ hb)).trans (h.blocks b hb)⟩

namespace Kept

theorem refl (L : Nat → Prop) (fs : HomeFs) : Kept L fs fs :=
  ⟨fun _ _ => rfl, fun _ _ _ => .of_record rfl fun _ _ => rfl⟩

theorem trans (h : Kept L fs fs1) (h' : Kept L fs1 fs') : Kept L fs fs' :=
  ⟨fun i hi => (h'.fileType i hi).trans (h.fileType i hi), fun i hi hfile =>
    (h.file i hi hfile).trans (h'.file i hi ((h.fileType i hi).trans hfile))⟩

theorem mono (h : Kept L fs fs') (hsub : ∀ i, L' i → L i) : Kept L' fs fs' :=
  ⟨fun i hi => h.fileType i (hsub i hi), fun i hi => h.file i (hsub i hi)⟩

theorem of_records (hrecord : ∀ i, L i → fs'.record i = fs.record i)
    (hblocks : ∀ i, L i → (fs.record i).fileType = typeFile → ∀ b ∈ usedSlots (fs.record i),
      fs'.disk (35 + b) = fs.disk (35 + b)) : Kept L fs fs' :=
  ⟨fun i hi => by rw [hrecord i hi], fun i hi hfile =>
    .of_record (hrecord i hi) (hblocks i hi hfile)⟩

end Kept

/-- Block `b` is taken for an inode and written, and no inode in `L` has changed. -/
structure NewBlock (L : Nat → Prop) (fs : HomeFs) (b : Nat) (fs' : HomeFs) : Prop where
  owned : Owned L fs'
  kept : Kept L fs fs'
  range : 0 < b ∧ b < maxDataBlocks
  marked : bitSet fs'.blockBitmap b = true
  record : ∀ i, L i → fs'.record i = fs.record i
  fresh : ∀ i, L i → b ∉ usedSlots (fs.record i)
  inodeBitmap : fs'.inodeBitmap = fs.inodeBitmap

namespace Owned

variable (h : Owned L fs)
include h

theorem sectorOf (hb : b < maxDataBlocks) : fs.sectorOf b = 35 + b := by
  have hmax : maxDataBlocks = 989 := rfl
  unfold HomeFs.sectorOf
  rw [h.firstDataBlock]
  omega

theorem mono (hsub : ∀ i, L' i → L i) : Owned L' fs where
  firstDataBlock := h.firstDataBlock
  zero := h.zero
  rootBlock := h.rootBlock
  allocated i hi := h.allocated i (hsub i hi)
  holder i hi := h.holder i (hsub i hi)
  apart i j b hi hj := h.apart i j b (hsub i hi) (hsub j hj)

/-- A block that is free and is not the root's. -/
theorem unheld (hclear : bitSet fs.blockBitmap b = false) (hroot : b ≠ 35) (hi : L i) :
    b ∉ usedSlots (fs.record i) := by
  intro hb
  rcases (h.holder i hi).marked b hb with hset | ⟨-, hb⟩
  · rw [hclear] at hset
    cases hset
  · exact hroot hb

/-- An inode other than the root holds marked blocks. -/
theorem marked (hi : L i) (hne : i ≠ 1) (hb : b ∈ usedSlots (fs.record i)) :
    bitSet fs.blockBitmap b = true :=
  ((h.holder i hi).marked b hb).resolve_right fun hroot => hne hroot.1

theorem ne_root_of_file (hi : L i) (hfile : (fs.record i).fileType ≠ typeDirectory) : i ≠ 1 :=
  fun hroot => hfile ((h.holder i hi).root hroot).1

/-- What is not about the records stays. -/
theorem frame (hfirst : fs'.superblock.firstDataBlock = fs.superblock.firstDataBlock)
    (hzero : bitSet fs'.blockBitmap 0 = true) (hroot : bitSet fs'.blockBitmap 35 = false)
    (hallocated : ∀ i, L i → fs'.Allocated i) (hrecord : ∀ i, L i → fs'.record i = fs.record i)
    (hmarked : ∀ i, L i → ∀ b ∈ usedSlots (fs.record i), bitSet fs.blockBitmap b = true →
      bitSet fs'.blockBitmap b = true) : Owned L fs' where
  firstDataBlock := hfirst.trans h.firstDataBlock
  zero := hzero
  rootBlock := hroot
  allocated := hallocated
  holder i hi := by
    rw [hrecord i hi]
    exact (h.holder i hi).frame (hmarked i hi)
  apart i j b hi hj := by
    rw [hrecord i hi, hrecord j hj]
    exact h.apart i j b hi hj

/-- Sectors behind the bitmaps that stay keep the records. -/
theorem record_of_disk (hdisk : ∀ s, 3 ≤ s → s < 35 → fs'.disk s = fs.disk s) (hi : L i) :
    fs'.record i = fs.record i :=
  have hsector := inodeSector_bounds (h.allocated i hi).2.1.le
  HomeFs.record_of_disk (hdisk _ hsector.1 hsector.2)

theorem kept_of_disk (hdisk : ∀ s, 3 ≤ s → fs'.disk s = fs.disk s) : Kept L fs fs' :=
  .of_records (fun _ hi => h.record_of_disk (fun s hs _ => hdisk s hs) hi) fun _ _ _ _ _ =>
    hdisk _ (by omega)

/-! The steps of the allocators: -/

theorem takeInode (n : Nat) : Owned L (fs.takeInode n) := by
  refine h.frame (takeInode_firstDataBlock n) ?_ ?_ (fun i hi => ?_)
    (fun i hi => h.record_of_disk (fun s hs _ => takeInode_disk n hs) hi) fun i hi b hb hset => ?_
  · rw [takeInode_blockBitmap, h.zero]
  · rw [takeInode_blockBitmap, h.rootBlock]
  · obtain ⟨hpos, hlt, hset⟩ := h.allocated i hi
    refine ⟨hpos, hlt, ?_⟩
    rw [takeInode_inodeBitmap, bitSet_setBit]
    by_cases hin : i = n
    · rw [hin, update_self]
    · rw [update_of_ne hin, hset]
  · rwa [takeInode_blockBitmap]

theorem dropInode (hn : ¬L n) : Owned L (fs.dropInode n) := by
  refine h.frame (dropInode_firstDataBlock n) ?_ ?_ (fun i hi => ?_)
    (fun i hi => h.record_of_disk (fun s hs _ => dropInode_disk n hs) hi) fun i hi b hb hset => ?_
  · rw [dropInode_blockBitmap, h.zero]
  · rw [dropInode_blockBitmap, h.rootBlock]
  · obtain ⟨hpos, hlt, hset⟩ := h.allocated i hi
    refine ⟨hpos, hlt, ?_⟩
    rw [dropInode_inodeBitmap, bitSet_clearBit, update_of_ne, hset]
    rintro rfl
    exact hn hi
  · rwa [dropInode_blockBitmap]

theorem takes (htakes : Takes fs bs fs') (hroot : 35 ∉ bs) : Owned L fs' := by
  refine h.frame htakes.firstDataBlock ?_ ?_ (fun i hi => ?_)
    (fun i hi => h.record_of_disk (fun s hs _ => htakes.disk hs) hi) fun i hi b hb hset => ?_
  · rw [htakes.bitSet, h.zero, Bool.or_true]
  · rw [htakes.bitSet, h.rootBlock, decide_eq_false hroot]
    rfl
  · obtain ⟨hpos, hlt, hset⟩ := h.allocated i hi
    exact ⟨hpos, hlt, by rw [htakes.inodeBitmap, hset]⟩
  · rw [htakes.bitSet, hset, Bool.or_true]

theorem drops (hdrops : Drops fs bs fs') (hzero : 0 ∉ bs)
    (hothers : ∀ i, L i → ∀ b ∈ usedSlots (fs.record i), b ∉ bs) : Owned L fs' := by
  refine h.frame hdrops.firstDataBlock ?_ ?_ (fun i hi => ?_)
    (fun i hi => h.record_of_disk (fun s hs _ => hdrops.disk hs) hi) fun i hi b hb hset => ?_
  · rw [hdrops.bitSet, h.zero, decide_eq_true hzero]
    rfl
  · rw [hdrops.bitSet, h.rootBlock, Bool.and_false]
  · obtain ⟨hpos, hlt, hset⟩ := h.allocated i hi
    exact ⟨hpos, hlt, by rw [hdrops.inodeBitmap, hset]⟩
  · rw [hdrops.bitSet, hset, decide_eq_true (hothers i hi b hb)]
    rfl

/-! The sectors of data blocks: -/

theorem putData (buf : Memory) : Owned L (fs.putSector (35 + b) buf) :=
  h.frame rfl h.zero h.rootBlock h.allocated
    (fun _ hi => h.record_of_disk (fun _ _ hs => putSector_disk_ne fs (by omega) buf) hi)
      fun _ _ _ _ hset => hset

theorem kept_putData (buf : Memory)
    (hnone : ∀ i, L i → (fs.record i).fileType = typeFile → b ∉ usedSlots (fs.record i)) :
    Kept L fs (fs.putSector (35 + b) buf) := by
  refine .of_records (fun i hi => h.record_of_disk
    (fun s _ hs => putSector_disk_ne fs (by omega) buf) hi) ?_
  intro i hi hfile c hc
  refine putSector_disk_ne fs (fun heq => ?_) buf
  obtain rfl : c = b := by omega
  exact hnone i hi hfile hc

end Owned

theorem NewBlock.putData (h : NewBlock L fs b fs') (buf : Memory) :
    NewBlock L fs b (fs'.putSector (35 + b) buf) where
  owned := h.owned.putData buf
  kept := h.kept.trans (h.owned.kept_putData buf fun i hi _ => h.record i hi ▸ h.fresh i hi)
  range := h.range
  marked := h.marked
  record i hi :=
    (h.owned.record_of_disk (fun _ _ hs => putSector_disk_ne fs' (by omega) buf) hi).trans
      (h.record i hi)
  fresh := h.fresh
  inodeBitmap := h.inodeBitmap

namespace Owned

variable (h : Owned L fs)
include h

/-! Records: -/

/-- A record is written for inode `i`, which joins if it was not among the others. -/
theorem putInode (hfits : r.Fits) (hi : fs.Allocated i) (hholder : Holder fs i r)
    (hapart : ∀ j, L j → j ≠ i → ∀ b ∈ usedSlots r, b ∉ usedSlots (fs.record j)) :
    Owned (fun j => L j ∨ j = i) (fs.putInode r) := by
  have hnum := hholder.inodeNum
  have hself : (fs.putInode r).record i = r := by
    have hput : (fs.putInode r).record r.inodeNum = r := record_putInode hfits
    rwa [hnum] at hput
  have hother : ∀ j, L j → j ≠ i → (fs.putInode r).record j = fs.record j := fun j hj hne =>
    record_putInode_of_ne hfits.slots (hnum.symm ▸ hi.1) (h.allocated j hj).1 (hnum.symm ▸ hne)
  refine ⟨h.firstDataBlock, h.zero, h.rootBlock, ?_, ?_, ?_⟩
  · rintro j (hj | rfl)
    · exact h.allocated j hj
    · exact hi
  · intro j hj
    by_cases hji : j = i
    · rw [hji, hself]
      exact hholder.frame fun _ _ hset => hset
    · have hj := hj.resolve_right hji
      rw [hother j hj hji]
      exact (h.holder j hj).frame fun _ _ hset => hset
  · intro j k b hj hk hbj hbk
    by_cases hji : j = i
    · by_cases hki : k = i
      · rw [hji, hki]
      · have hk := hk.resolve_right hki
        rw [hji, hself] at hbj
        rw [hother k hk hki] at hbk
        exact absurd hbk (hapart k hk hki b hbj)
    · have hj := hj.resolve_right hji
      rw [hother j hj hji] at hbj
      by_cases hki : k = i
      · rw [hki, hself] at hbk
        exact absurd hbj (hapart j hj hji b hbk)
      · have hk := hk.resolve_right hki
        rw [hother k hk hki] at hbk
        exact h.apart j k b hj hk hbj hbk

/-- The record that is written is of no inode in `L`, or it is one with the same contents. -/
theorem kept_putInode (hfits : r.Fits) (hnum : 0 < r.inodeNum ∧ r.inodeNum ≤ maxInodes)
    (hself : L r.inodeNum → r.fileType = (fs.record r.inodeNum).fileType ∧
      (r.fileType = typeFile → r.size = (fs.record r.inodeNum).size ∧
        usedSlots r = usedSlots (fs.record r.inodeNum))) : Kept L fs (fs.putInode r) := by
  have hdata : ∀ b, (fs.putInode r).disk (35 + b) = fs.disk (35 + b) := fun b =>
    putInode_disk hnum.2 (by omega)
  have hother : ∀ i, L i → i ≠ r.inodeNum → (fs.putInode r).record i = fs.record i :=
    fun i hi hne => record_putInode_of_ne hfits.slots hnum.1 (h.allocated i hi).1 hne
  refine ⟨fun i hi => ?_, fun i hi hfile => ?_⟩
  · by_cases hne : i = r.inodeNum
    · subst hne
      rw [record_putInode hfits, (hself hi).1]
    · rw [hother i hi hne]
  · by_cases hne : i = r.inodeNum
    · subst hne
      obtain ⟨htype, hsame⟩ := hself hi
      obtain ⟨hsize, hslots⟩ := hsame (htype.trans hfile)
      refine ⟨?_, ?_, fun b _ => hdata b⟩
      · rw [record_putInode hfits, hsize]
      · rw [record_putInode hfits, hslots]
    · exact .of_record (hother i hi hne) fun b _ => hdata b

/-! Entries of directories: -/

/-- No file holds a block of a directory. -/
theorem directory_apart (hd : L d) (htype : (fs.record d).fileType = typeDirectory)
    (hb : b ∈ usedSlots (fs.record d)) (hi : L i) (hfile : (fs.record i).fileType = typeFile) :
    b ∉ usedSlots (fs.record i) := by
  intro hbi
  rw [← h.apart d i b hd hi hb hbi, htype] at hfile
  cases hfile

theorem newBlock (hnext : fs.nextBlock = some b) (hroot : b ≠ 35) (buf : Memory) :
    NewBlock L fs b ((fs.takeBlock b).putSector (35 + b) buf) := by
  obtain ⟨-, hlt, hclear, -⟩ := nextBlock_spec hnext
  have hfresh : ∀ i, L i → b ∉ usedSlots (fs.record i) := fun i hi => h.unheld hclear hroot hi
  have hdisk : ∀ s, 3 ≤ s → s ≠ 35 + b → ((fs.takeBlock b).putSector (35 + b) buf).disk s =
      fs.disk s := by
    intro s hs hne
    rw [putSector_disk_ne _ hne, takeBlock_disk b hs]
  have hrecord : ∀ i, L i → ((fs.takeBlock b).putSector (35 + b) buf).record i = fs.record i :=
    fun i hi => h.record_of_disk (fun s hs hs' => hdisk s hs (by omega)) hi
  refine ⟨(h.takes (.cons hnext .nil) (by simpa using hroot.symm)).putData buf,
    ?_, ⟨?_, hlt⟩, ?_, hrecord, hfresh, takeBlock_inodeBitmap b⟩
  · refine .of_records hrecord fun i hi _ c hc => hdisk _ (by omega) ?_
    intro heq
    obtain rfl : c = b := by omega
    exact hfresh i hi hc
  · refine Nat.pos_of_ne_zero ?_
    rintro rfl
    rw [h.zero] at hclear
    cases hclear
  · show bitSet (fs.takeBlock b).blockBitmap b = true
    rw [takeBlock_blockBitmap, bitSet_setBit, update_self]

theorem wroteBehind (hd : L d) (hroom : 1 ≤ fs.freeBeforeRoot) (hwrote : WroteBehind d fs fs') :
    Owned L fs' ∧ Kept L fs fs' ∧ fs'.inodeBitmap = fs.inodeBitmap := by
  obtain ⟨htype, hfew, b, buf, buf', hnext, rfl⟩ := hwrote
  have hnew := (h.newBlock hnext (nextBlock_before_root hnext hroom).ne buf).putData buf'
  rw [h.sectorOf hnew.range.2]
  generalize ((fs.takeBlock b).putSector (35 + b) buf).putSector (35 + b) buf' = fs3 at *
  have hold := hnew.owned.holder d hd
  rw [hnew.record d hd] at hold
  have hfits := fs.record_fits d
  have hslots := View.usedSlots_grown hfits.slots hfew b
  have hholder : Holder fs3 d (grown (fs.record d) b) := by
    refine ⟨hold.inodeNum, hfew, (Nat.mul_comm _ _).le, ?_, ?_, ?_, fun hroot => ?_⟩
    · rw [hslots, List.forall_mem_append, List.forall_mem_singleton]
      exact ⟨hold.range, hnew.range⟩
    · rw [hslots, List.forall_mem_append, List.forall_mem_singleton]
      exact ⟨hold.marked, .inl hnew.marked⟩
    · rw [hslots]
      refine List.nodup_append.mpr ⟨hold.nodup, List.nodup_singleton b, ?_⟩
      rintro c hc _ hmem rfl
      exact hnew.fresh d hd (List.mem_singleton.mp hmem ▸ hc)
    · rw [hslots, List.head?_append, (hold.root hroot).2]
      exact ⟨htype, rfl⟩
  have hgrown := grown_fits hfits hnew.range.2 hfew
  have hjoin := hnew.owned.putInode hgrown (hnew.owned.allocated d hd) hholder (by
    intro j hj hne c hc
    rw [hnew.record j hj]
    rw [hslots] at hc
    rcases List.mem_append.mp hc with hc | hc
    · exact fun hcj => hne (h.apart d j c hd hj hc hcj).symm
    · exact List.mem_singleton.mp hc ▸ hnew.fresh j hj)
  refine ⟨hjoin.mono fun i hi => Or.inl hi, hnew.kept.trans ?_, hnew.inodeBitmap⟩
  have hd' := h.allocated d hd
  have hnum : (grown (fs.record d) b).inodeNum = d := hholder.inodeNum
  refine hnew.owned.kept_putInode hgrown (hnum.symm ▸ ⟨hd'.1, hd'.2.1.le⟩) fun _ => ?_
  rw [hnum, hnew.record d hd]
  refine ⟨rfl, fun hfile => ?_⟩
  cases htype.symm.trans hfile

theorem wroteIn (hrange : ∀ b ∈ usedSlots (fs.record d), b < maxDataBlocks)
    (hnone : ∀ i, L i → (fs.record i).fileType = typeFile →
      ∀ b ∈ usedSlots (fs.record d), b ∉ usedSlots (fs.record i))
    (hwrote : WroteIn d fs fs') :
    Owned L fs' ∧ Kept L fs fs' ∧ fs'.inodeBitmap = fs.inodeBitmap := by
  obtain ⟨-, b, hb, buf, rfl⟩ := hwrote
  rw [h.sectorOf (hrange b hb)]
  exact ⟨h.putData buf, h.kept_putData buf fun i hi hfile => hnone i hi hfile b hb, rfl⟩

/-- An entry is added to a directory among the inodes in `L`. -/
theorem addDirEntry {child : Nat} (hd : L d) (hroom : 1 ≤ fs.freeBeforeRoot) :
    Ends (HomeFs.addDirEntry debug d name child childType) fs
      (fun _ fs' => Owned L fs' ∧ Kept L fs fs' ∧ fs'.inodeBitmap = fs.inodeBitmap)
      fun e fs' => e = .panic ∨ fs' = fs := by
  have hd' := h.allocated d hd
  have hsafe : ¬LosesBlock debug fs d name := by
    rintro ⟨b, hneeds, -, hout | hnum⟩
    · have hb := (nextBlock_spec hneeds.block).2.1
      rw [h.sectorOf hb] at hout
      unfold totalSectors maxDataBlocks totalSectors at *
      omega
    · rw [(h.holder d hd).inodeNum] at hnum
      exact hnum ⟨hd'.1, hd'.2.1.le⟩
  have hwrites : Ends (HomeFs.addDirEntry debug d name child childType) fs
      (fun _ fs' => WroteIn d fs fs' ∨ WroteBehind d fs fs') fun _ _ => True := addDirEntry_writes
  refine (hwrites.and addDirEntry_exact).mono ?_ ?_
  · rintro _ fs' ⟨hin | hbehind, -⟩
    · exact h.wroteIn (fun b hb => ((h.holder d hd).range b hb).2)
        (fun i hi hfile b hb => h.directory_apart hd hin.1 hb hi hfile) hin
    · exact h.wroteBehind hd hroom hbehind
  · rintro e fs' ⟨-, ⟨-, hkept⟩ | ⟨hlost, -⟩⟩
    · exact hkept
    · exact absurd hlost hsafe

end Owned

end PandaOS.Kernel.HomeFs
