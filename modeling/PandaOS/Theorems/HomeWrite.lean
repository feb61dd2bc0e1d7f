import PandaOS.Theorems.HomeCounters

/-!
# Writing files

`write_file` takes blocks one by one and gives none back when they run out: the
bitmap and the counter keep what was taken, and no inode holds those blocks.
-/

namespace PandaOS.Kernel.HomeFs

open Lib

variable {debug : Bool} {fs : HomeFs} {i offset b e s j p : Nat} {data : List Byte}
  {fs' fs1 : HomeFs} {r : HomeInode} {bs : List Nat}

/-! ## Running out of space -/

/-- What a write to inode `i` that failed for lack of space has to leave alone. -/
structure SpaceKept (debug : Bool) (i : Nat) (fs fs' : HomeFs) : Prop where
  blockBitmap : fs'.blockBitmap = fs.blockBitmap
  freeBlocks : fs'.superblock.freeBlocks = fs.superblock.freeBlocks
  freeInodes : fs'.superblock.freeInodes = fs.superblock.freeInodes
  record : fs'.record i = fs.record i
  files : ∀ j offset len, outcome (readFile debug j offset len) fs' =
    outcome (readFile debug j offset len) fs

theorem SpaceKept.refl (debug : Bool) (i : Nat) (fs : HomeFs) : SpaceKept debug i fs fs :=
  ⟨rfl, rfl, rfl, rfl, fun _ _ _ => rfl⟩

/-- Some of the blocks that the write needs can be taken, and not all of them. -/
structure RunsShort (debug : Bool) (fs : HomeFs) (i offset len : Nat) : Prop where
  file : fs.IsFile i
  size : ¬SizeOverflows debug offset len
  direct : blocksNeeded offset len ≤ maxDirectBlocks
  some_left : 0 < fs.available
  too_few : fs.available < fs.shortOf i offset len

/-- A write that is short of blocks fails, and keeps those it took. -/
theorem RunsShort.throws (hfits : fs.superblock.freeBlocks < 2 ^ 32)
    (h : RunsShort debug fs i offset data.length) :
    ∃ fs', Throws (writeFile debug i offset data) fs (.err .noSpace) fs' ∧
      fs'.superblock.freeBlocks < fs.superblock.freeBlocks := by
  obtain ⟨hfile, hsize, hdirect, hsome, hfew⟩ := h
  have hends : Ends (writeFile debug i offset data) fs (fun _ _ => False)
      fun e fs' => e = .err .noSpace ∧ fs'.superblock.freeBlocks < fs.superblock.freeBlocks := by
    refine writeFile_ends (absurd hfile) (fun _ hover => absurd hover hsize)
      (fun _ _ hlarge => ?_) fun _ _ _ => ?_
    · omega
    · unfold writeGrown
      refine (growLoop_ends _ _ _ fs).bind ?_ ?_
      · rintro r fs' ⟨bs, htakes, -, hlength⟩
        have hcount := htakes.available hfits
        unfold shortOf at hfew
        omega
      · rintro e fs' ⟨rfl, bs, htakes, hnone, -⟩
        have hcount := htakes.available hfits
        have hfree := htakes.freeBlocks hfits
        rw [available_eq_zero.mpr hnone] at hcount
        exact ⟨rfl, by omega⟩
  obtain ⟨e, fs', hrun, rfl, hfree⟩ := hends.throws
  exact ⟨fs', hrun, hfree⟩

/-- Any other write that fails for lack of space took no block. -/
theorem writeFile_noSpace_eq (hfits : fs.superblock.freeBlocks < 2 ^ 32)
    (hnot : ¬RunsShort debug fs i offset data.length)
    (h : Throws (writeFile debug i offset data) fs (.err .noSpace) fs') : fs' = fs := by
  have hends : Ends (writeFile debug i offset data) fs (fun _ _ => True)
      fun e fs' => e = .err .noSpace → fs' = fs := by
    refine writeFile_ends (fun _ => ⟨fun _ => rfl, fun _ => rfl⟩)
      (fun _ _ _ => rfl) (fun _ _ _ _ => rfl) ?_
    intro hfile hsize hdirect
    rw [ends_iff]
    refine ⟨fun _ _ _ => trivial, ?_⟩
    rintro e fs' hrun rfl
    obtain ⟨bs, htakes, hnone, hlength⟩ := writeGrown_noSpace hrun
    have hcount := htakes.available hfits
    rw [available_eq_zero.mpr hnone] at hcount
    have hzero : fs.available = 0 := by
      by_contra hsome
      exact hnot ⟨hfile, hsize, hdirect, by omega, by unfold shortOf; omega⟩
    obtain rfl : bs = [] := List.eq_nil_of_length_eq_zero (by omega)
    cases htakes
    rfl
  exact h.of_ends hends rfl

/-- A failed write leaves the file system as it was exactly if it did not run out
of blocks in the middle. The counter has 32 bits. -/
theorem no_space_keeps_iff {i offset : Nat} {data : List Byte}
    (hfits : fs.superblock.freeBlocks < 2 ^ 32) :
    (∀ fs', Throws (writeFile debug i offset data) fs (.err .noSpace) fs' →
      SpaceKept debug i fs fs') ↔ ¬RunsShort debug fs i offset data.length := by
  constructor
  · intro hkept hshort
    obtain ⟨fs', hrun, hfree⟩ := hshort.throws hfits
    have := (hkept fs' hrun).freeBlocks
    omega
  · intro hnot fs' hrun
    rw [writeFile_noSpace_eq hfits hnot hrun]
    exact .refl debug i fs

/-- A device on which inode 2 is an empty file and no other inode is in use. -/
def oneFile : HomeFs where
  disk _ :=
    storeAt zeroSector 64 (HomeInode.encode ⟨2, typeFile, 0o644, 0, 0, 1, 0, 0, List.replicate 8 0⟩)
  log := []
  superblock := newSuperblock
  inodeBitmap := setBit zeroSector 2
  blockBitmap := setBit zeroSector 0

/-- The same with block 983 as the only one left. -/
def nearlyFull : HomeFs :=
  { oneFile with
    superblock := { newSuperblock with freeBlocks := 1 }
    blockBitmap := fun j => if j = 122 then 0x7F else 0xFF }

theorem nearlyFull_available : nearlyFull.available = 1 := by decide +kernel

/-- A write of two blocks: the last block is taken and lost. -/
theorem last_block_lost : ∃ fs', Throws (writeFile true 2 512 [1]) nearlyFull (.err .noSpace) fs' ∧
    nearlyFull.superblock.freeBlocks = 1 ∧ fs'.superblock.freeBlocks = 0 ∧
      ¬SpaceKept true 2 nearlyFull fs' := by
  have hshort : RunsShort true nearlyFull 2 512 ([1] : List Byte).length := by
    refine ⟨⟨by decide, by decide⟩, ?_, by decide, ?_, ?_⟩
    · unfold SizeOverflows
      decide
    · rw [nearlyFull_available]
      decide
    · rw [nearlyFull_available]
      decide
  have hone : nearlyFull.superblock.freeBlocks = 1 := rfl
  obtain ⟨fs', hrun, hfree⟩ := hshort.throws (by rw [hone]; decide)
  exact ⟨fs', hrun, hone, by omega, fun hkept => by have := hkept.freeBlocks; omega⟩

/-- The same without any block left. -/
def full : HomeFs := { nearlyFull with superblock := { newSuperblock with freeBlocks := 0 } }

/-- The first block is refused, and nothing has changed. -/
theorem no_space_keeps_full : ∃ fs', Throws (writeFile true 2 512 [1]) full (.err .noSpace) fs' ∧
    SpaceKept true 2 full fs' := by
  obtain ⟨fs', hrun⟩ := throws_of_thrown
    (show thrown (writeFile true 2 512 [1]) full = some (.err .noSpace) by decide +kernel)
  have hnone : ¬RunsShort true full 2 512 ([1] : List Byte).length := by
    intro hshort
    exact absurd (hshort.some_left.trans_le (Nat.min_le_left _ _)) (Nat.lt_irrefl 0)
  exact ⟨fs', hrun, (no_space_keeps_iff (by decide)).mpr hnone fs' hrun⟩

/-! ## Reading back -/

/-- The record with its size raised to the end of a write. -/
def sized (r : HomeInode) (endOffset : Nat) : HomeInode :=
  if r.size < endOffset then { r with size := endOffset % 2 ^ 32 } else r

@[simp] theorem sized_inodeNum (r : HomeInode) (e : Nat) : (sized r e).inodeNum = r.inodeNum := by
  unfold sized
  split <;> rfl

@[simp] theorem sized_fileType (r : HomeInode) (e : Nat) : (sized r e).fileType = r.fileType := by
  unfold sized
  split <;> rfl

@[simp] theorem sized_blocksUsed (r : HomeInode) (e : Nat) :
    (sized r e).blocksUsed = r.blocksUsed := by
  unfold sized
  split <;> rfl

@[simp] theorem sized_slot (r : HomeInode) (e k : Nat) : (sized r e).slot k = r.slot k := by
  unfold sized
  split <;> rfl

@[simp] theorem usedSlots_sized (r : HomeInode) (e : Nat) :
    usedSlots (sized r e) = usedSlots r := by
  unfold sized
  split <;> rfl

theorem sized_fits (h : r.Fits) (e : Nat) : (sized r e).Fits := by
  unfold sized
  split
  · exact { h with size := Nat.mod_lt _ (by decide) }
  · exact h

/-- A size never shrinks: the end of a write is within eight blocks, or so large that it
is cut to almost 2^32. -/
theorem size_le_sized (hr : r.size ≤ 4096)
    (he : e ≤ 4096 ∨ 2 ^ 64 ≤ e + 511 ∧ e < 2 ^ 64) : r.size ≤ (sized r e).size := by
  unfold sized
  split
  · show r.size ≤ e % 2 ^ 32
    omega
  · exact le_rfl

theorem le_sized_size (he : e ≤ 4096) : e ≤ (sized r e).size := by
  unfold sized
  split
  · show e ≤ e % 2 ^ 32
    omega
  · omega

/-! The blocks of allocated inodes: -/

theorem SlotsDistinct.nodup (hslots : SlotsDistinct fs) (hi : fs.Allocated i) :
    (usedSlots (fs.record i)).Nodup := by
  rw [List.nodup_iff_getElem?_ne_getElem?]
  intro k l hkl hl heq
  have hget := List.getElem?_eq_getElem hl
  have := (hslots.distinct hi hi (heq.trans hget) hget).2
  omega

/-- A block of an allocated inode. -/
theorem slot_marked (hslots : SlotsDistinct fs) (hi : fs.Allocated i)
    (hb : b ∈ usedSlots (fs.record i)) :
    0 < b ∧ b < maxDataBlocks ∧ bitSet fs.blockBitmap b = true := by
  obtain ⟨k, hk, rfl⟩ := List.getElem_of_mem hb
  exact hslots.marked hi (List.getElem?_eq_getElem hk)

/-- What a write needs to know of the blocks of allocated inodes. -/
structure SlotsApart (fs : HomeFs) : Prop where
  range : ∀ {i b}, fs.Allocated i → b ∈ usedSlots (fs.record i) → 0 < b ∧ b < maxDataBlocks
  nodup : ∀ {i}, fs.Allocated i → (usedSlots (fs.record i)).Nodup
  apart : ∀ {i j b}, fs.Allocated i → fs.Allocated j → b ∈ usedSlots (fs.record i) →
    b ∈ usedSlots (fs.record j) → i = j
  zero : bitSet fs.blockBitmap 0 = true

theorem SlotsDistinct.slotsApart (hslots : SlotsDistinct fs) : SlotsApart fs where
  range hi hb := ⟨(slot_marked hslots hi hb).1, (slot_marked hslots hi hb).2.1⟩
  nodup hi := hslots.nodup hi
  apart hi hj hb hb' := by
    obtain ⟨k, hk, hget⟩ := List.getElem_of_mem hb
    obtain ⟨l, hl, hget'⟩ := List.getElem_of_mem hb'
    exact (hslots.distinct hi hj (List.getElem?_eq_some_iff.mpr ⟨hk, hget⟩)
      (List.getElem?_eq_some_iff.mpr ⟨hl, hget'⟩)).1
  zero := hslots.zero

/-- No allocated inode holds one of the blocks. -/
def Unheld (fs : HomeFs) (bs : List Nat) : Prop :=
  ∀ i, fs.Allocated i → ∀ b ∈ usedSlots (fs.record i), b ∉ bs

/-- Marked blocks are not handed out. -/
theorem SlotsDistinct.unheld (hslots : SlotsDistinct fs) (htakes : Takes fs bs fs1) :
    Unheld fs bs := by
  intro i hi b hb hmem
  have hmarked := (slot_marked hslots hi hb).2.2
  rw [(htakes.fresh hmem).2] at hmarked
  cases hmarked

/-- A write that succeeded: blocks were taken, the data copied, the record written. -/
def Stored (i offset : Nat) (data : List Byte) (fs fs' : HomeFs) : Prop :=
  ∃ bs fs1 fs2, (Takes fs bs fs1 ∧ Unheld fs bs ∧ bs.length = fs.shortOf i offset data.length) ∧
    (fs.record i).blocksUsed + bs.length ≤ maxDirectBlocks ∧
    (offset + data.length ≤ blockSize * ((fs.record i).growAll bs).blocksUsed ∨
      data = [] ∧ 2 ^ 64 ≤ offset + data.length + 511) ∧
    Wrote ((fs.record i).growAll bs) offset data fs1 fs2 ∧
    fs' = fs2.putInode (sized ((fs.record i).growAll bs) (offset + data.length))

section

variable {i : Nat} (hslots : SlotsApart fs) (hrecords : RecordsSound fs) (hapart : DataApart fs)
  (hi : fs.Allocated i)

include hslots in
/-- A block that was free. -/
theorem taken_pos (htakes : Takes fs bs fs1) (hb : b ∈ bs) : 0 < b ∧ b < maxDataBlocks := by
  obtain ⟨hlt, hclear⟩ := htakes.fresh hb
  have hscan : scannedBlocks ≤ maxDataBlocks := by decide
  refine ⟨Nat.pos_of_ne_zero fun hzero => ?_, by omega⟩
  rw [hzero, hslots.zero] at hclear
  cases hclear

/-- The slots in use after the growth. -/
theorem usedSlots_grownBy (hroom : (fs.record i).blocksUsed + bs.length ≤ maxDirectBlocks) :
    usedSlots ((fs.record i).growAll bs) = usedSlots (fs.record i) ++ bs :=
  HomeInode.usedSlots_growAll _ _ ((fs.record_fits i).slots.symm ▸ hroom)

include hslots hi in
theorem growAll_block (htakes : Takes fs bs fs1)
    (hroom : (fs.record i).blocksUsed + bs.length ≤ maxDirectBlocks)
    (hb : b ∈ usedSlots ((fs.record i).growAll bs)) : 0 < b ∧ b < maxDataBlocks := by
  rw [usedSlots_grownBy hroom] at hb
  rcases List.mem_append.mp hb with hb | hb
  · exact hslots.range hi hb
  · exact taken_pos hslots htakes hb

include hslots hapart hi in
/-- The old and the new blocks of a file that grows are all different. -/
theorem placed_growAll (htakes : Takes fs bs fs1) (hnew : Unheld fs bs)
    (hroom : (fs.record i).blocksUsed + bs.length ≤ maxDirectBlocks) :
    Placed fs1 ((fs.record i).growAll bs) := by
  have hused := usedSlots_grownBy hroom
  refine ⟨by rwa [HomeInode.growAll_blocksUsed], ?_,
    fun b hb => (growAll_block hslots hi htakes hroom hb).1.ne', fun b hb => ?_, ?_⟩
  · exact (HomeInode.growAll_fits (fs.record_fits i) hroom
      fun b hb => (taken_pos hslots htakes hb).2).slots
  · have hlt := (growAll_block hslots hi htakes hroom hb).2
    have hfirst := hapart.2
    rw [htakes.firstDataBlock]
    omega
  · rw [hused]
    refine List.nodup_append.mpr ⟨hslots.nodup hi, htakes.nodup, ?_⟩
    rintro b hold _ hmem rfl
    exact hnew i hi b hold hmem

include hrecords hi in
/-- The blocks for the whole range are there after the growth, unless the rounding
wrapped around. -/
theorem room_of_blocksNeeded (hsize : ¬SizeOverflows debug offset data.length)
    (hwrap : debug = true ∨ data = [] ∨ offset + data.length + 511 < 2 ^ 64)
    (hfew : blocksNeeded offset data.length ≤ maxDirectBlocks)
    (hlength : bs.length = min maxDirectBlocks
      (blocksNeeded offset data.length - (fs.record i).blocksUsed)) :
    offset + data.length ≤ blockSize * ((fs.record i).growAll bs).blocksUsed ∨
      data = [] ∧ 2 ^ 64 ≤ offset + data.length + 511 := by
  by_cases hsmall : offset + data.length + 511 < 2 ^ 64
  · have hused := hrecords.blocksUsed hi
    rw [HomeInode.growAll_blocksUsed]
    unfold blocksNeeded blockSize maxDirectBlocks at *
    omega
  · refine .inr ⟨?_, by omega⟩
    rcases hwrap with hdebug | hnil | hfits
    · refine absurd ⟨hdebug, ?_⟩ hsize
      unfold blockSize
      omega
    · exact hnil
    · exact absurd hfits hsmall

include hslots hrecords hapart hi

/-- A write that returns has stored its data. One that fails has changed the bitmap at most,
or has met a block beyond the device. -/
theorem writeFile_stored (hsum : offset + data.length < 2 ^ 64)
    (hwrap : debug = true ∨ data = [] ∨ offset + data.length + 511 < 2 ^ 64)
    (hnew : ∀ {bs fs1}, Takes fs bs fs1 → bs.length ≤ fs.shortOf i offset data.length →
      Unheld fs bs) :
    Ends (writeFile debug i offset data) fs
      (fun n fs' => n = data.length ∧ Stored i offset data fs fs')
      fun _ fs' => (∃ bs, Takes fs bs fs' ∧ bs.length ≤ fs.shortOf i offset data.length) ∨
        ∃ b < maxDataBlocks, totalSectors ≤ fs.sectorOf b := by
  have hnone : ∃ bs, Takes fs bs fs ∧ bs.length ≤ fs.shortOf i offset data.length :=
    ⟨[], .nil, Nat.zero_le _⟩
  refine writeFile_ends (fun _ => ⟨.inl hnone, .inl hnone⟩) (fun _ _ => .inl hnone)
    (fun _ _ _ => .inl hnone) ?_
  intro _ hsize hfew
  unfold writeGrown
  -- the file grows first: it may run out of blocks having taken some
  refine (growLoop_ends _ _ _ fs).bind ?_ ?_
  rotate_left
  · rintro e fs' ⟨rfl, bs, htakes, -, hlength⟩
    exact .inl ⟨bs, htakes, by unfold shortOf; omega⟩
  rintro _ fs1 ⟨bs, htakes, rfl, hlength⟩
  have hroom : (fs.record i).blocksUsed + bs.length ≤ maxDirectBlocks := by
    have := hrecords.blocksUsed hi
    omega
  have hunheld := hnew htakes (by unfold shortOf; omega)
  have hplaced := placed_growAll hslots hapart hi htakes hunheld hroom
  have hspace := room_of_blocksNeeded hrecords hi hsize hwrap hfew hlength
  refine (writeLoop_ends hplaced (hspace.symm.imp_left And.left)
    (Wrote.nil _ _ fs1) (Nat.zero_le _) le_rfl).bind ?_ ?_
  rotate_left
  · rintro e fs' ⟨b, hb, hout⟩
    refine .inr ⟨b, (growAll_block hslots hi htakes hroom hb).2, ?_⟩
    unfold sectorOf at hout ⊢
    rwa [htakes.firstDataBlock] at hout
  rintro n fs2 ⟨rfl, hwrote⟩
  rw [ends_bind, Nat.mod_eq_of_lt hsum]
  -- the record goes last
  have hnum : (sized ((fs.record i).growAll bs) (offset + data.length)).inodeNum = i := by
    rw [sized_inodeNum, HomeInode.growAll_inodeNum, hrecords.inodeNum hi]
  refine (writeInode_returns (r := sized ((fs.record i).growAll bs) (offset + data.length))
    ?_ ?_).ends ?_
  · exact hnum.symm ▸ hi.1
  · exact hnum.symm ▸ hi.2.1.le
  · exact ⟨rfl, bs, fs1, fs2, ⟨htakes, hunheld, by unfold shortOf; omega⟩,
      hroom, hspace, hwrote, rfl⟩

end

/-- What a successful write leaves: the file has grown, its bytes are the old ones with
the data stored over them, and no other inode is touched. -/
structure Updated (i offset : Nat) (data : List Byte) (fs fs' : HomeFs) : Prop where
  firstDataBlock : fs'.superblock.firstDataBlock = fs.superblock.firstDataBlock
  fileType : (fs'.record i).fileType = (fs.record i).fileType
  size : (fs.record i).size ≤ (fs'.record i).size
  reached : data ≠ [] → offset + data.length ≤ (fs'.record i).size ∧
    offset + data.length ≤ blockSize * (fs'.record i).blocksUsed
  placed : Placed fs' (fs'.record i)
  slots : ∃ bs, usedSlots (fs'.record i) = usedSlots (fs.record i) ++ bs
  bytes : ∀ p < blockSize * (fs'.record i).blocksUsed,
    fs'.fileByte (fs'.record i) p = storeAt (fs.fileByte (fs'.record i)) offset data p
  inRange : ∀ p, offset ≤ p → p < offset + data.length →
    fs'.sectorOf ((fs'.record i).slot (p / blockSize)) < totalSectors
  records : ∀ j, 0 < j → j ≤ maxInodes → j ≠ i → fs'.record j = fs.record j
  others : ∀ j, fs.Allocated j → j ≠ i → SameInode j fs fs'

section

variable {i offset : Nat} {data : List Byte} (hslots : SlotsApart fs) (hrecords : RecordsSound fs)
  (hapart : DataApart fs) (hi : fs.Allocated i)

include hapart in
/-- The data blocks keep off the first 35 sectors. -/
theorem sectorOf_eq (hb : b < maxDataBlocks) :
    fs.sectorOf b = fs.superblock.firstDataBlock + b ∧ 35 ≤ fs.sectorOf b := by
  obtain ⟨hlo, hhi⟩ := hapart
  unfold sectorOf
  rw [Nat.mod_eq_of_lt (by omega)]
  omega

variable {bs : List Nat} {fs1 fs2 : HomeFs} (htakes : Takes fs bs fs1) (hnew : Unheld fs bs)
  (hroom : (fs.record i).blocksUsed + bs.length ≤ maxDirectBlocks)
  (hwrote : Wrote ((fs.record i).growAll bs) offset data fs1 fs2)

include hslots hrecords hi htakes hroom in
/-- The record that was written. -/
theorem stored_record (fs2 : HomeFs) (e : Nat) :
    (fs2.putInode (sized ((fs.record i).growAll bs) e)).record i = sized
    ((fs.record i).growAll bs) e := by
  have hgrown := HomeInode.growAll_fits (fs.record_fits i) hroom
    fun b hb => (taken_pos hslots htakes hb).2
  have hput : (fs2.putInode (sized ((fs.record i).growAll bs) e)).record
      (sized ((fs.record i).growAll bs) e).inodeNum = _ := record_putInode (sized_fits hgrown e)
  rwa [sized_inodeNum, HomeInode.growAll_inodeNum, hrecords.inodeNum hi] at hput

include hrecords hi in
/-- Writing the record changes no data block. -/
theorem stored_putInode (fs2 : HomeFs) (e : Nat) (hs : 35 ≤ s) :
    (fs2.putInode (sized ((fs.record i).growAll bs) e)).disk s = fs2.disk s := by
  refine putInode_disk ?_ hs
  rw [sized_inodeNum, HomeInode.growAll_inodeNum, hrecords.inodeNum hi]
  exact hi.2.1.le

include htakes in
theorem taken_sectorOf (b : Nat) : fs1.sectorOf b = fs.sectorOf b := by
  unfold sectorOf
  rw [htakes.firstDataBlock]

include hslots hapart hi htakes hnew hroom hwrote

/-- Behind the bitmaps, only the sectors of the file's own blocks are written. -/
theorem stored_disk (hs : 3 ≤ s)
    (hne : ∀ b ∈ usedSlots ((fs.record i).growAll bs), s ≠ fs.sectorOf b) :
    fs2.disk s = fs.disk s := by
  have hplaced := placed_growAll hslots hapart hi htakes hnew hroom
  rw [hwrote.other s fun k hk => taken_sectorOf htakes _ ▸
    hne _ (hplaced.slot_mem hk), htakes.disk hs]

theorem stored_record_ne (hj : j ≤ maxInodes) : fs2.record j = fs.record j := by
  have hsector := inodeSector_bounds hj
  unfold record
  rw [stored_disk hslots hapart hi htakes hnew hroom hwrote hsector.1]
  intro b hb
  have := (sectorOf_eq hapart (growAll_block hslots hi htakes hroom hb).2).2
  omega

/-- The bytes of the file. -/
theorem stored_byte (hp : p < blockSize * ((fs.record i).growAll bs).blocksUsed) :
    fs2.fileByte ((fs.record i).growAll bs) p = storeAt
      (fs.fileByte ((fs.record i).growAll bs)) offset data p := by
  have hplaced := placed_growAll hslots hapart hi htakes hnew hroom
  have hidx : p / blockSize < ((fs.record i).growAll bs).blocksUsed := by
    unfold blockSize at *
    omega
  have hlow :=
    (sectorOf_eq hapart (growAll_block hslots hi htakes hroom (hplaced.slot_mem hidx)).2).2
  rw [hwrote.bytes p hp]
  unfold storeAt
  split
  · rfl
  · unfold fileByte
    rw [taken_sectorOf htakes, htakes.disk (by omega)]

/-- The blocks of another inode. -/
theorem stored_block (hj : fs.Allocated j) (hne : j ≠ i)
    (hb : b ∈ usedSlots (fs.record j)) : fs2.disk (fs.sectorOf b) = fs.disk (fs.sectorOf b) := by
  have hsector := sectorOf_eq hapart (hslots.range hj hb).2
  refine stored_disk hslots hapart hi htakes hnew hroom hwrote (by omega) fun c hc heq => ?_
  have hsectorc := sectorOf_eq hapart (growAll_block hslots hi htakes hroom hc).2
  obtain rfl : b = c := by omega
  rw [usedSlots_grownBy hroom] at hc
  rcases List.mem_append.mp hc with hold | hmem
  · exact hne (hslots.apart hj hi hb hold)
  · exact hnew j hj b hb hmem

end

theorem Placed.of_firstDataBlock (h : Placed fs r)
    (hfirst : fs'.superblock.firstDataBlock = fs.superblock.firstDataBlock) : Placed fs' r :=
  { h with addressable := hfirst ▸ h.addressable }

theorem Placed.sized (h : Placed fs r) (e : Nat) : Placed fs (sized r e) := by
  unfold HomeFs.sized
  split
  · exact { h with }
  · exact h

theorem Stored.updated (hslots : SlotsApart fs) (hrecords : RecordsSound fs) (hapart : DataApart fs)
    (hi : fs.Allocated i) (hsum : offset + data.length < 2 ^ 64) (h : Stored i offset data fs fs') :
    Updated i offset data fs fs' := by
  obtain ⟨bs, fs1, fs2, ⟨htakes, hnew, -⟩, hroom, hspace, hwrote, rfl⟩ := h
  have hplaced := placed_growAll hslots hapart hi htakes hnew hroom
  have hfew := hplaced.few
  have hrecord := stored_record hslots hrecords hi htakes hroom fs2 (offset + data.length)
  have hfirst : (fs2.putInode (HomeFs.sized ((fs.record i).growAll bs)
      (offset + data.length))).superblock.firstDataBlock = fs.superblock.firstDataBlock :=
    (congrArg Superblock.firstDataBlock hwrote.superblock).trans htakes.firstDataBlock
  have hsector : ∀ b,
      (fs2.putInode (HomeFs.sized ((fs.record i).growAll bs) (offset + data.length))).sectorOf b
      = fs.sectorOf b := by
    intro b
    unfold sectorOf
    rw [hfirst]
  have hrecords' : ∀ j, 0 < j → j ≤ maxInodes → j ≠ i →
      (fs2.putInode (HomeFs.sized ((fs.record i).growAll bs) (offset + data.length))).record j =
        fs.record j := by
    intro j hpos hj hne
    have hnum : (HomeFs.sized ((fs.record i).growAll bs) (offset + data.length)).inodeNum = i := by
      rw [sized_inodeNum, HomeInode.growAll_inodeNum, hrecords.inodeNum hi]
    rw [record_putInode_of_ne (hplaced.sized _).length (hnum.symm ▸ hi.1) hpos (hnum.symm ▸ hne)]
    exact stored_record_ne hslots hapart hi htakes hnew hroom hwrote hj
  refine ⟨hfirst, ?_, ?_, ?_, ?_, ⟨bs, ?_⟩, ?_, ?_, hrecords',
    fun j hj hne => ⟨hfirst, ?_, fun b hb => ?_⟩⟩
  · rw [hrecord, sized_fileType, HomeInode.growAll_fileType]
  · have hold := hrecords.size hi
    rw [hrecord, ← HomeInode.growAll_size (fs.record i) bs]
    apply size_le_sized
    · rw [HomeInode.growAll_size]
      unfold blockSize maxDirectBlocks at *
      omega
    · unfold blockSize maxDirectBlocks at *
      omega
  · intro hne
    have hend : offset + data.length ≤ blockSize * ((fs.record i).growAll bs).blocksUsed :=
      hspace.resolve_right fun hnil => hne hnil.1
    rw [hrecord, sized_blocksUsed]
    refine ⟨le_sized_size ?_, hend⟩
    unfold blockSize maxDirectBlocks at *
    omega
  · rw [hrecord]
    exact (hplaced.of_firstDataBlock (hfirst.trans htakes.firstDataBlock.symm)).sized _
  · rw [hrecord, usedSlots_sized, usedSlots_grownBy hroom]
  · intro p hp
    rw [hrecord, sized_blocksUsed] at hp
    have hidx : p / blockSize < ((fs.record i).growAll bs).blocksUsed := by
      unfold blockSize at *
      omega
    -- the inode table lies below the data, so writing the record keeps the bytes
    have hlow :=
      (sectorOf_eq hapart (growAll_block hslots hi htakes hroom (hplaced.slot_mem hidx)).2).2
    rw [hrecord]
    have hstored := stored_byte hslots hapart hi htakes hnew hroom hwrote hp
    unfold fileByte at hstored ⊢
    rw [hsector, sized_slot, stored_putInode hrecords hi fs2
      _ hlow, ← taken_sectorOf htakes, ← hwrote.sectorOf, hstored]
    simp only [sized_slot]
  · intro p hlo hhi
    rw [hrecord, hsector, sized_slot, ← taken_sectorOf htakes]
    exact hwrote.inRange p hlo hhi
  · exact hrecords' j hj.1 hj.2.1.le hne
  · rw [stored_putInode hrecords hi fs2 _ (sectorOf_eq hapart (hslots.range hj hb).2).2]
    exact stored_block hslots hapart hi htakes hnew hroom hwrote hj hne hb

/-- What a write that returned `n` has to show: all of the data is read back, and every
other byte of every allocated inode reads as before. -/
structure ReadsBack (debug : Bool) (i offset : Nat) (data : List Byte)
    (fs : HomeFs) (n : Nat) (fs' : HomeFs) : Prop where
  count : n = data.length
  range : outcome (readFile debug i offset data.length) fs' = .ok data
  rest : ∀ p < (fs.record i).size, p < offset ∨ offset + data.length ≤ p →
    outcome (readFile debug i p 1) fs' = outcome (readFile debug i p 1) fs
  records : ∀ j, 0 < j → j ≤ maxInodes → j ≠ i → fs'.record j = fs.record j
  files : ∀ j, fs.Allocated j → j ≠ i → ∀ offset len,
    outcome (readFile debug j offset len) fs' = outcome (readFile debug j offset len) fs
  directories : ∀ j, fs.Allocated j → j ≠ i → outcome (readdir debug j) fs' =
    outcome (readdir debug j) fs

theorem readFile_zero (hfile : fs.IsFile i) : Returns (readFile debug i offset 0) fs [] fs := by
  unfold readFile
  refine (readFileInode_returns hfile).bind ?_
  split
  · rfl
  · rw [Nat.zero_min]
    rfl

namespace Updated

variable {i offset : Nat} {data : List Byte} {fs' : HomeFs} (h : Updated i offset data fs fs')
include h

/-- The written range. -/
theorem range (hfile : fs'.IsFile i) :
    outcome (readFile debug i offset data.length) fs' = .ok data := by
  by_cases hne : data = []
  · rw [hne]
    exact (readFile_zero hfile).outcome_eq
  · obtain ⟨hsize, hroom⟩ := h.reached hne
    refine (readFile_returns hfile h.placed hsize hroom h.inRange).outcome_eq.trans (congrArg _ ?_)
    apply List.ext_getElem (length_bytesAt _ _ _ _)
    intro j hj hj'
    rw [getElem_bytesAt, h.bytes _ (by omega), holds_storeAt _ _ _ j hj',
      List.getD_eq_getElem _ _ hj']

/-- A byte outside of it. -/
theorem rest (hfile : fs.IsFile i) (hfile' : fs'.IsFile i) (hplaced : Placed fs (fs.record i))
    (hp : p < (fs.record i).size)
    (hroom : (fs.record i).size ≤ blockSize * (fs.record i).blocksUsed)
    (hout : p < offset ∨ offset + data.length ≤ p) :
    outcome (readFile debug i p 1) fs' = outcome (readFile debug i p 1) fs := by
  obtain ⟨bs, hslots⟩ := h.slots
  have hidx : p / blockSize < (fs.record i).blocksUsed := by
    unfold blockSize at *
    omega
  have hgrow : (fs.record i).blocksUsed ≤ (fs'.record i).blocksUsed := by
    have hlen := congrArg List.length hslots
    have hfew := hplaced.few
    have hlength := hplaced.length
    unfold usedSlots at hlen
    rw [List.length_append, List.length_take, List.length_take] at hlen
    omega
  have hslot : (fs'.record i).slot (p / blockSize) = (fs.record i).slot (p / blockSize) := by
    have hnew := h.placed.getElem?_usedSlots (hidx.trans_le hgrow)
    have hold := hplaced.getElem?_usedSlots hidx
    rw [hslots, List.getElem?_append_left (List.getElem?_eq_some_iff.mp hold).1, hold] at hnew
    exact (Option.some.inj hnew).symm
  have hsector : fs'.sectorOf ((fs'.record i).slot (p / blockSize)) =
      fs.sectorOf ((fs.record i).slot (p / blockSize)) := by
    unfold sectorOf
    rw [h.firstDataBlock, hslot]
  have hbytes : blockSize * (fs.record i).blocksUsed ≤ blockSize * (fs'.record i).blocksUsed :=
    Nat.mul_le_mul_left _ hgrow
  have hbyte : fs'.fileByte (fs'.record i) p = fs.fileByte (fs.record i) p := by
    rw [h.bytes p (by omega), storeAt_outside hout]
    unfold fileByte
    rw [hslot]
  have hsize := h.size
  rw [readFile_byte hfile' h.placed (by omega) (by omega),
    readFile_byte hfile hplaced hp (by omega), hsector, hbyte]

end Updated

/-- Behind the eighth block nothing is written. -/
theorem writeLoop_beyond {fuel : Nat} (hlo : 4096 ≤ offset) (hhi : offset < 2 ^ 64) :
    Returns (writeLoop debug r offset data fuel 0) fs 0 fs := by
  cases fuel with
  | zero => rfl
  | succ fuel =>
    unfold writeLoop
    split
    · rfl
    · refine (addBits_returns hhi).bind ?_
      dsimp only
      rw [if_pos (show maxDirectBlocks ≤
        (offset + 0) / blockSize by unfold maxDirectBlocks blockSize; omega)]
      rfl

/-- A write whose rounding wraps around stores nothing and returns. -/
theorem writeFile_wraps (hi : fs.Allocated i) (hfile : fs.IsFile i) (hrecords : RecordsSound fs)
    (hsum : offset + data.length < 2 ^ 64) (hbuf : data.length < 2 ^ 63)
    (hwrap : 2 ^ 64 ≤ offset + data.length + 511) :
    ∃ fs', Returns (writeFile false i offset data) fs 0 fs' := by
  have hneeded : blocksNeeded offset data.length = 0 := by
    unfold blocksNeeded blockSize
    omega
  have hends : Ends (writeFile false i offset data) fs (fun n _ => n = 0) fun _ _ => False := by
    refine writeFile_ends (absurd hfile) (fun _ hover => ?_) (fun _ _ hlarge => ?_) fun _ _ _ => ?_
    · cases hover.1
    · rw [hneeded] at hlarge
      exact absurd hlarge (Nat.not_lt_zero _)
    · unfold writeGrown
      rw [hneeded]
      refine (growLoop_ends _ _ _ fs).bind ?_ ?_
      · rintro _ fs1 ⟨bs, htakes, rfl, -⟩
        refine (writeLoop_beyond (by omega) (by omega)).seq ?_
        have hnum : (sized ((fs.record i).growAll bs) ((offset + data.length) % 2 ^ 64)).inodeNum =
            i := by
          rw [sized_inodeNum, HomeInode.growAll_inodeNum, hrecords.inodeNum hi]
        exact (writeInode_returns (r := sized _ _) (hnum.symm ▸ hi.1) (hnum.symm ▸ hi.2.1.le)).seq
          rfl
      · rintro e fs1 ⟨-, bs, -, -, hlength⟩
        omega
  obtain ⟨n, fs', hrun, rfl⟩ := hends.returns
  exact ⟨fs', hrun⟩

/-- A write that returns has stored its data and nothing else, exactly if the rounding up
of the end to a block does not wrap around. A slice has less than 2^63 bytes. -/
theorem write_reads_back_iff {i offset : Nat} {data : List Byte} (hslots : SlotsDistinct fs)
    (hrecords : RecordsSound fs) (hapart : DataApart fs) (hi : fs.Allocated i)
    (hfile : (fs.record i).fileType = typeFile) (hsum : offset + data.length < 2 ^ 64)
    (hbuf : data.length < 2 ^ 63) :
    (∀ n fs', Returns (writeFile debug i offset data) fs n fs' →
      ReadsBack debug i offset data fs n fs') ↔
      debug = true ∨ data = [] ∨ offset + data.length + 511 < 2 ^ 64 := by
  have hisfile : fs.IsFile i := ⟨⟨hi.1, hi.2.1.le⟩, hfile⟩
  constructor
  · intro hback
    by_contra hbad
    simp only [not_or, Bool.not_eq_true, Nat.not_lt] at hbad
    obtain ⟨rfl, hne, hwrap⟩ := hbad
    obtain ⟨fs', hrun⟩ := writeFile_wraps hi hisfile hrecords hsum hbuf hwrap
    exact hne (List.eq_nil_of_length_eq_zero (hback 0 fs' hrun).count.symm)
  · intro hwrap n fs' hrun
    obtain ⟨hn, hstored⟩ :=
      (ends_iff.mp (writeFile_stored hslots.slotsApart hrecords hapart hi hsum hwrap
      fun htakes _ => hslots.unheld htakes)).1 n fs' hrun
    have hupdated := hstored.updated hslots.slotsApart hrecords hapart hi hsum
    have hisfile' : fs'.IsFile i := ⟨hisfile.1, hupdated.fileType.trans hfile⟩
    have hplaced : Placed fs (fs.record i) :=
      placed_growAll hslots.slotsApart hapart hi .nil (hslots.unheld .nil) (hrecords.blocksUsed hi)
    exact ⟨hn, hupdated.range hisfile',
      fun p hp hout => hupdated.rest hisfile hisfile' hplaced hp (hrecords.size hi) hout,
        hupdated.records,
      fun j hj hne offset len => ((hupdated.others j hj hne).readFile offset len).outcome_eq,
      fun j hj hne => (hupdated.others j hj hne).readdir.outcome_eq⟩

theorem oneFile_allocated (h : oneFile.Allocated i) : i = 2 := by
  have hbit : bitSet (setBit zeroSector 2) i = true := h.2.2
  rw [bitSet_setBit] at hbit
  by_contra hne
  rw [Function.update_of_ne hne] at hbit
  simp [bitSet, zeroSector] at hbit

theorem oneFile_holds_nothing {k : Nat} : ¬oneFile.HoldsBlock 2 k b := by
  have hempty : usedSlots (oneFile.record 2) = [] := by decide
  unfold HoldsBlock
  rw [hempty]
  simp

theorem oneFile_slots : SlotsDistinct oneFile where
  marked hi hb := absurd (oneFile_allocated hi ▸ hb) oneFile_holds_nothing
  distinct hi _ hb _ := absurd (oneFile_allocated hi ▸ hb) oneFile_holds_nothing
  zero := by decide

theorem oneFile_records : RecordsSound oneFile where
  inodeNum hi := oneFile_allocated hi ▸ by decide
  blocksUsed hi := oneFile_allocated hi ▸ by decide
  size hi := oneFile_allocated hi ▸ by decide

theorem oneFile_apart : DataApart oneFile := by
  unfold DataApart
  decide

/-- A release build reports success with no byte written. -/
theorem write_lost_at_the_end :
    ∃ fs', Returns (writeFile false 2 (2 ^ 64 - 511) [1]) oneFile 0 fs' ∧
    ¬ReadsBack false 2 (2 ^ 64 - 511) [1] oneFile 0 fs' := by
  obtain ⟨fs', hrun⟩ : ∃ fs', Returns (writeFile false 2 (2 ^ 64 - 511) [1]) oneFile 0 fs' :=
    writeFile_wraps
    ⟨by decide, by decide, by decide⟩ ⟨by decide, by decide⟩ oneFile_records
      (by simp) (by simp) (by simp)
  exact ⟨fs', hrun, fun hback => absurd hback.count (by simp)⟩

/-- A first byte is written and read back. -/
theorem write_reads_back_first : ∃ n fs', Returns (writeFile true 2 0 [1]) oneFile n fs' ∧
    ReadsBack true 2 0 [1] oneFile n fs' := by
  obtain ⟨n, fs', hrun⟩ :=
    returns_of_succeeds (x := writeFile true 2 0 [1]) (s := oneFile) (by decide +kernel)
  exact ⟨n, fs', hrun, (write_reads_back_iff oneFile_slots oneFile_records oneFile_apart
    ⟨by decide, by decide, by decide⟩ (by decide) (by simp) (by simp)).mpr (.inl rfl) n fs' hrun⟩

end PandaOS.Kernel.HomeFs
