import PandaOS.Logic.HomeRead
import PandaOS.Logic.HomeView

/-!
# Reading and writing a file's bytes

`write_file` first takes the blocks it is short of, then copies the data sector by
sector, then writes the record.
-/

namespace PandaOS.Kernel

open Lib

variable {i offset b p fuel : Nat} {fs1 : HomeFs} {data : List Byte} {r : HomeInode}

/-- The block number in slot `k`. -/
def HomeInode.slot (inode : HomeInode) (k : Nat) : Nat := inode.directBlocks.getD k 0

/-- The record with one more block. -/
def HomeInode.grow (inode : HomeInode) (b : Nat) : HomeInode :=
  { inode with
    directBlocks := inode.directBlocks.set inode.blocksUsed b
    blocksUsed := inode.blocksUsed + 1 }

/-- The record with the blocks `bs` after its own. -/
def HomeInode.growAll (inode : HomeInode) (bs : List Nat) : HomeInode := bs.foldl grow inode

namespace HomeInode

variable (inode : HomeInode) (bs : List Nat)

@[simp] theorem growAll_inodeNum : (inode.growAll bs).inodeNum = inode.inodeNum := by
  induction bs generalizing inode with
  | nil => rfl
  | cons b bs ih => exact ih (inode.grow b)

@[simp] theorem growAll_fileType : (inode.growAll bs).fileType = inode.fileType := by
  induction bs generalizing inode with
  | nil => rfl
  | cons b bs ih => exact ih (inode.grow b)

@[simp] theorem growAll_size : (inode.growAll bs).size = inode.size := by
  induction bs generalizing inode with
  | nil => rfl
  | cons b bs ih => exact ih (inode.grow b)

@[simp] theorem growAll_blocksUsed :
    (inode.growAll bs).blocksUsed = inode.blocksUsed + bs.length := by
  induction bs generalizing inode with
  | nil => rfl
  | cons b bs ih =>
    refine (ih (inode.grow b)).trans ?_
    show inode.blocksUsed + 1 + bs.length = _
    rw [List.length_cons]
    omega

/-- The new blocks stand behind the old ones. -/
theorem usedSlots_growAll (h : inode.blocksUsed + bs.length ≤ inode.directBlocks.length) :
    HomeFs.usedSlots (inode.growAll bs) = HomeFs.usedSlots inode ++ bs := by
  induction bs generalizing inode with
  | nil => simp [growAll]
  | cons b bs ih =>
    rw [List.length_cons] at h
    have hlt : inode.blocksUsed < inode.directBlocks.length := by omega
    have hgrow : HomeFs.usedSlots (inode.grow b) = HomeFs.usedSlots inode ++ [b] := by
      show (inode.directBlocks.set inode.blocksUsed b).take (inode.blocksUsed + 1) = _
      rw [List.take_succ_eq_append_getElem (by rwa [List.length_set]),
        List.take_set_of_le (Nat.le_refl _), List.getElem_set_self]
      rfl
    have hrest := ih (inode.grow b) (by
      show inode.blocksUsed + 1 + bs.length ≤ (inode.directBlocks.set _ _).length
      rw [List.length_set]
      omega)
    rw [hgrow, List.append_assoc] at hrest
    exact hrest

theorem growAll_fits {inode : HomeInode} {bs : List Nat} (h : inode.Fits)
    (hroom : inode.blocksUsed + bs.length ≤ maxDirectBlocks) (hbs : ∀ b ∈ bs, b < maxDataBlocks) :
    (inode.growAll bs).Fits := by
  induction bs generalizing inode with
  | nil => exact h
  | cons b bs ih =>
    rw [List.length_cons] at hroom
    refine ih (?_ : (inode.grow b).Fits) ?_ fun c hc => hbs c (List.mem_cons_of_mem _ hc)
    · refine { h with blocksUsed := ?_, slots := ?_, directBlocks := ?_ }
      · show inode.blocksUsed + 1 < 256 ^ 4
        unfold maxDirectBlocks at hroom
        omega
      · exact List.length_set.trans h.slots
      · intro c hc
        rcases List.mem_or_eq_of_mem_set hc with hc | rfl
        · exact h.directBlocks c hc
        · exact (hbs c List.mem_cons_self).trans (by decide)
    · show inode.blocksUsed + 1 + bs.length ≤ _
      omega

end HomeInode

namespace HomeFs

variable {debug : Bool} {fs fs' : HomeFs} {bs : List Nat}

/-! ## Taking blocks -/

namespace Takes

section

variable (h : Takes fs bs fs')
include h

/-- Only the two sectors of the block bitmap and the superblock are written. -/
theorem disk (hi : 3 ≤ i) : fs'.disk i = fs.disk i := by
  induction h with
  | nil => rfl
  | cons _ _ ih => rw [ih, takeBlock_disk _ hi]

theorem inodeBitmap : fs'.inodeBitmap = fs.inodeBitmap := by
  induction h with
  | nil => rfl
  | cons _ _ ih => rw [ih, takeBlock_inodeBitmap]

theorem firstDataBlock : fs'.superblock.firstDataBlock = fs.superblock.firstDataBlock := by
  induction h with
  | nil => rfl
  | cons _ _ ih => rw [ih, takeBlock_firstDataBlock]

/-- The counter of the superblock goes down by the blocks taken. -/
theorem freeBlocks (hfits : fs.superblock.freeBlocks < 2 ^ 32) :
    fs'.superblock.freeBlocks + bs.length = fs.superblock.freeBlocks := by
  induction h with
  | nil => rfl
  | @cons _ _ b _ hnext _ ih =>
    have hpos := (nextBlock_spec hnext).1
    have hfree := freeBlocks_takeBlock (b := b) hfits hpos
    rw [List.length_cons]
    omega

/-- The blocks were free. -/
theorem fresh (hb : b ∈ bs) : b < scannedBlocks ∧ bitSet fs.blockBitmap b = false := by
  induction h with
  | nil => simp at hb
  | @cons fs _ c _ hnext _ ih =>
    rcases List.mem_cons.mp hb with rfl | hb
    · exact ⟨nextBlock_lt hnext, (nextBlock_spec hnext).2.2.1⟩
    · obtain ⟨hlt, hclear⟩ := ih hb
      rw [takeBlock_blockBitmap, bitSet_setBit] at hclear
      by_cases hbc : b = c
      · rw [hbc, Function.update_self] at hclear
        cases hclear
      · rw [Function.update_of_ne hbc] at hclear
        exact ⟨hlt, hclear⟩

/-- No block is taken twice. -/
theorem nodup : bs.Nodup := by
  induction h with
  | nil => exact List.nodup_nil
  | cons hnext hrest ih =>
    refine List.nodup_cons.mpr ⟨fun hmem => ?_, ih⟩
    have hclear := (hrest.fresh hmem).2
    rw [takeBlock_blockBitmap, bitSet_setBit, Function.update_self] at hclear
    cases hclear

end

theorem append {fs2 : HomeFs} {cs : List Nat} (h : Takes fs bs fs1) (hrest : Takes fs1 cs fs2) :
    Takes fs (bs ++ cs) fs2 := by
  induction h with
  | nil => exact hrest
  | cons hnext _ ih => exact .cons hnext (ih hrest)

end Takes

/-- The loop takes the blocks it is short of, or all there are. -/
theorem growLoop_ends (needed fuel : Nat) (inode : HomeInode) (fs : HomeFs) :
    Ends (growLoop debug needed fuel inode) fs (fun r fs' => ∃ bs, Takes fs bs fs' ∧
        r = inode.growAll bs ∧ bs.length = min fuel (needed - inode.blocksUsed))
      fun e fs' => e = .err .noSpace ∧ ∃ bs, Takes fs bs fs' ∧ fs'.nextBlock = none ∧
        bs.length < min fuel (needed - inode.blocksUsed) := by
  induction fuel generalizing inode fs with
  | zero => exact ⟨[], .nil, rfl, by simp⟩
  | succ fuel ih =>
    unfold growLoop
    split
    · rename_i henough
      exact ⟨[], .nil, rfl, by rw [Nat.sub_eq_zero_of_le henough]; simp⟩
    · rename_i hshort
      rw [ends_bind]
      cases hnext : fs.nextBlock with
      | none => exact (allocateBlock_throws hnext).ends ⟨rfl, [], .nil, hnext, by simp; omega⟩
      | some b =>
        refine (allocateBlock_returns hnext).ends ?_
        refine (ih (inode.grow b) (fs.takeBlock b)).mono ?_ ?_
        · rintro r fs' ⟨bs, htakes, rfl, hlength⟩
          refine ⟨b :: bs, .cons hnext htakes, rfl, ?_⟩
          rw [List.length_cons, hlength]
          simp only [HomeInode.grow]
          omega
        · rintro e fs' ⟨rfl, bs, htakes, hnone, hlength⟩
          refine ⟨rfl, b :: bs, .cons hnext htakes, hnone, ?_⟩
          simp only [HomeInode.grow] at hlength
          rw [List.length_cons]
          omega

/-! ## The record -/

/-- The inode's record can be read and is one of a file. -/
def IsFile (fs : HomeFs) (i : Nat) : Prop :=
  (0 < i ∧ i ≤ maxInodes) ∧ (fs.record i).fileType = typeFile

theorem readFileInode_ends (i : Nat) : Ends (readFileInode i) fs
    (fun r fs' => (r = fs.record i ∧ fs' = fs) ∧ fs.IsFile i)
    fun e fs' => ((e = .err .invalidArgument ∨ e = .err .isDirectory) ∧ fs' = fs) ∧ ¬fs.IsFile i :=
  readTyped_ends i typeFile .isDirectory

theorem readFileInode_returns (h : fs.IsFile i) : Returns (readFileInode i) fs (fs.record i) fs :=
  ((readFileInode_ends i).mono (fun _ _ h => h.1) fun _ _ hnot => hnot.2 h).returns_eq

/-! ## The size of a write -/

/-- The number of blocks `write_file` computes, with `usize` wrapping around. -/
def blocksNeeded (offset len : Nat) : Nat :=
  (((offset + len) % 2 ^ 64 + blockSize) % 2 ^ 64 + 2 ^ 64 - 1) % 2 ^ 64 / blockSize

/-- A debug build panics in the computation of the number of blocks. -/
def SizeOverflows (debug : Bool) (offset len : Nat) : Prop :=
  debug = true ∧ 2 ^ 64 ≤ offset + len + blockSize

/-- The part of `write_file` after the test of the size. -/
def writeGrown (debug : Bool) (offset : Nat) (data : List Byte) (inode : HomeInode) :
    HomeM Nat := do
  let inode ← growLoop debug (blocksNeeded offset data.length) maxDirectBlocks inode
  let written ← writeLoop debug inode offset data data.length 0
  writeInode (if inode.size < (offset + data.length) % 2 ^ 64 then
    { inode with size := (offset + data.length) % 2 ^ 64 % 2 ^ 32 } else inode)
  pure written

/-- `write_file`, check by check, and its rest if none of them fails. -/
theorem writeFile_ends {Q : Nat → HomeFs → Prop} {E : HomeFault → HomeFs → Prop}
    (hnot : ¬fs.IsFile i → E (.err .invalidArgument) fs ∧ E (.err .isDirectory) fs)
    (hover : fs.IsFile i → SizeOverflows debug offset data.length → E .panic fs)
    (hlarge : fs.IsFile i → ¬SizeOverflows debug offset data.length →
      maxDirectBlocks < blocksNeeded offset data.length → E (.err .noSpace) fs)
    (hgrown : fs.IsFile i → ¬SizeOverflows debug offset data.length →
      blocksNeeded offset data.length ≤ maxDirectBlocks →
        Ends (writeGrown debug offset data (fs.record i)) fs Q E) :
    Ends (writeFile debug i offset data) fs Q E := by
  unfold writeFile
  refine (readFileInode_ends i).bind ?_ ?_
  · rintro _ _ ⟨⟨rfl, rfl⟩, hfile⟩
    unfold addBits subBits
    have hsmall : blockSize = 512 := rfl
    rw [ends_bind, ends_bind, ends_failIf_iff]
    refine ⟨fun hadd => ?_, fun hadd => hover hfile ⟨?_, ?_⟩⟩
    · rw [ends_pure, ends_bind, ends_bind, ends_failIf_iff]
      refine ⟨fun hround => ?_, fun hround => hover hfile ⟨?_, ?_⟩⟩
      · rw [ends_pure, ends_bind, ends_bind, ends_failIf_iff]
        -- both additions stay in range, so the subtraction does too
        have hno : ¬SizeOverflows debug offset data.length := by
          rintro ⟨rfl, hbig⟩
          simp at hadd hround
          omega
        refine ⟨fun _ => ?_, fun hsub => ?_⟩
        · rw [ends_pure, ends_bind, ends_failIf_iff]
          refine ⟨fun hfew => ?_, fun hmany => hlarge hfile hno (of_decide_eq_true hmany)⟩
          exact hgrown hfile hno (Nat.le_of_not_lt (of_decide_eq_false hfew))
        · obtain ⟨rfl, hzero⟩ := Bool.and_eq_true_iff.mp hsub
          have hzero := of_decide_eq_true hzero
          simp at hadd hround
          omega
      · simp at hround
        exact hround.1
      · simp at hround hadd
        omega
    · simp at hadd
      exact hadd.1
    · simp at hadd
      omega
  · rintro e fs' ⟨⟨rfl | rfl, rfl⟩, hfile⟩
    · exact (hnot hfile).1
    · exact (hnot hfile).2

/-! ## Space -/

/-- The blocks a write needs and the file does not have. -/
def shortOf (fs : HomeFs) (i offset len : Nat) : Nat :=
  blocksNeeded offset len - (fs.record i).blocksUsed

/-- Copying the data is not what runs out of space. -/
theorem writeLoop_error (inode : HomeInode) (offset : Nat) (data : List Byte) (fuel written : Nat)
    (fs : HomeFs) : Ends (writeLoop debug inode offset data fuel written) fs (fun _ _ => True)
      fun e _ => e ≠ .err .noSpace := by
  induction fuel generalizing written fs with
  | zero => trivial
  | succ fuel ih =>
    unfold writeLoop addBits
    split
    · trivial
    · rw [ends_bind, ends_bind, ends_failIf_iff]
      refine ⟨fun _ => ?_, fun _ => by simp⟩
      rw [ends_pure]
      dsimp only
      split
      · trivial
      · split
        · trivial
        · unfold blockSector addBits
          rw [ends_bind, ends_bind, ends_get, ends_bind, ends_failIf_iff]
          refine ⟨fun _ => ?_, fun _ => by simp⟩
          rw [ends_pure]
          refine (readSector_ends _).bind ?_ (by rintro e _ ⟨rfl, -⟩; simp)
          rintro buf _ ⟨hin, rfl, rfl⟩
          exact (writeSector_returns hin _).seq (ih _ _)

theorem writeInode_error (r : HomeInode) :
    Ends (writeInode r) fs (fun _ _ => True) fun e _ => e ≠ .err .noSpace := by
  refine (writeInode_puts r).mono (fun _ _ _ => trivial) ?_
  rintro e _ ⟨⟨rfl, -⟩, -⟩
  simp

/-- After the test of the size, `NoSpace` comes from the allocator alone, with all
blocks taken that there were. -/
theorem writeGrown_noSpace {inode : HomeInode} {fs' : HomeFs}
    (h : Throws (writeGrown debug offset data inode) fs (.err .noSpace) fs') :
    ∃ bs, Takes fs bs fs' ∧ fs'.nextBlock = none ∧
      bs.length < blocksNeeded offset data.length - inode.blocksUsed := by
  have hends : Ends (writeGrown debug offset data inode) fs (fun _ _ => True)
      fun e fs' => e = .err .noSpace → ∃ bs, Takes fs bs fs' ∧ fs'.nextBlock = none ∧
        bs.length < blocksNeeded offset data.length - inode.blocksUsed := by
    unfold writeGrown
    refine (growLoop_ends _ _ inode fs).bind (fun r fs1 _ => ?_) ?_
    · refine (writeLoop_error r offset data _ _ fs1).bind (fun _ _ _ => ?_) fun _ _ hne he =>
        absurd he hne
      exact (writeInode_error _).bind (fun _ _ _ => trivial) fun _ _ hne he => absurd he hne
    · rintro e fs1 ⟨rfl, bs, htakes, hnone, hlength⟩ -
      exact ⟨bs, htakes, hnone, by omega⟩
  exact h.of_ends hends rfl

/-! ## The bytes of a file -/

theorem addBits_returns {w a : Nat} (h : a + b < 2 ^ w) :
    Returns (addBits debug w a b) fs (a + b) fs := by
  have hguard : (debug && decide (2 ^ w ≤ a + b)) = false := by
    simp only [Bool.and_eq_false_iff, decide_eq_false_iff_not]
    omega
  unfold addBits
  rw [hguard, Nat.mod_eq_of_lt h]
  exact (pure_returns () fs).bind (pure_returns _ fs)

/-- The byte of the device where byte `p` of a file with record `r` lies. -/
def fileByte (fs : HomeFs) (r : HomeInode) (p : Nat) : Byte :=
  fs.disk (fs.sectorOf (r.slot (p / blockSize))) (p % blockSize)

/-- The blocks of the record have addresses of their own. -/
structure Placed (fs : HomeFs) (r : HomeInode) : Prop where
  few : r.blocksUsed ≤ maxDirectBlocks
  length : r.directBlocks.length = maxDirectBlocks
  nonzero : ∀ b ∈ usedSlots r, b ≠ 0
  addressable : ∀ b ∈ usedSlots r, fs.superblock.firstDataBlock + b < 2 ^ 32
  nodup : (usedSlots r).Nodup

namespace Placed

variable {r : HomeInode} (h : Placed fs r) {k l : Nat} (hk : k < r.blocksUsed)
include h hk

theorem getElem?_usedSlots : (usedSlots r)[k]? = some (r.slot k) := by
  have hfew := h.few
  have hlen := h.length
  unfold usedSlots HomeInode.slot
  rw [List.getElem?_take_of_lt hk, List.getD_eq_getElem _ _ (by omega), List.getElem?_eq_getElem]

theorem slot_mem : r.slot k ∈ usedSlots r := List.mem_of_getElem? (h.getElem?_usedSlots hk)

theorem blockSector : Returns (blockSector debug (r.slot k)) fs (fs.sectorOf (r.slot k)) fs := by
  have haddr := h.addressable _ (h.slot_mem hk)
  rcases blockSector_cases debug fs (r.slot k) with ⟨hover, -⟩ | ⟨-, hrun⟩
  · omega
  · exact hrun

theorem sectorOf_injective (hl : l < r.blocksUsed)
    (heq : fs.sectorOf (r.slot k) = fs.sectorOf (r.slot l)) : k = l := by
  have haddrk := h.addressable _ (h.slot_mem hk)
  have haddrl := h.addressable _ (h.slot_mem hl)
  have hsame : r.slot k = r.slot l := by
    unfold sectorOf at heq
    omega
  have hlt := (List.getElem?_eq_some_iff.mp (h.getElem?_usedSlots hk)).1
  refine (List.getElem?_inj hlt h.nodup).mp ?_
  rw [h.getElem?_usedSlots hk, h.getElem?_usedSlots hl, hsame]

end Placed

/-- The state after the bytes `data` were written at `offset` of a file. -/
structure Wrote (r : HomeInode) (offset : Nat) (data : List Byte) (fs fs' : HomeFs) : Prop where
  superblock : fs'.superblock = fs.superblock
  inodeBitmap : fs'.inodeBitmap = fs.inodeBitmap
  blockBitmap : fs'.blockBitmap = fs.blockBitmap
  other : ∀ s, (∀ k < r.blocksUsed, s ≠ fs.sectorOf (r.slot k)) → fs'.disk s = fs.disk s
  bytes : ∀ p < blockSize * r.blocksUsed, fs'.fileByte r p = storeAt (fs.fileByte r) offset data p
  inRange : ∀ p, offset ≤ p → p < offset + data.length →
    fs.sectorOf (r.slot (p / blockSize)) < totalSectors

namespace Wrote

variable {r : HomeInode} {offset : Nat} {data : List Byte}

theorem nil (r : HomeInode) (offset : Nat) (fs : HomeFs) : Wrote r offset [] fs fs where
  superblock := rfl
  inodeBitmap := rfl
  blockBitmap := rfl
  other _ _ := rfl
  bytes p _ := (storeAt_outside (by simp; omega)).symm
  inRange p hlo hhi := by simp at hhi; omega

theorem sectorOf (h : Wrote r offset data fs fs') (b : Nat) : fs'.sectorOf b = fs.sectorOf b := by
  unfold HomeFs.sectorOf
  rw [h.superblock]

theorem placed (h : Wrote r offset data fs fs') (hr : Placed fs r) : Placed fs' r :=
  { hr with addressable := by rw [h.superblock]; exact hr.addressable }

/-- A sector written in one block of the file. -/
theorem fileByte_putSector (hr : Placed fs r) {pos : Nat} {chunk : List Byte}
    (hpos : pos < blockSize * r.blocksUsed) (hp : p < blockSize * r.blocksUsed)
    (hchunk : pos % blockSize + chunk.length ≤ blockSize) :
    (fs.putSector (fs.sectorOf (r.slot (pos / blockSize)))
      (storeAt (fs.disk (fs.sectorOf (r.slot (pos / blockSize)))) (pos % blockSize) chunk)).fileByte
        r p =
      storeAt (fs.fileByte r) pos chunk p := by
  unfold blockSize at *
  show (if fs.sectorOf (r.slot (p / 512)) = fs.sectorOf (r.slot (pos / 512)) then _
    else fs.disk (fs.sectorOf (r.slot (p / 512)))) (p % 512) = _
  by_cases hsame : p / 512 = pos / 512
  · rw [hsame, if_pos rfl]
    unfold storeAt
    by_cases hin : pos ≤ p ∧ p < pos + chunk.length
    · rw [if_pos (by omega), if_pos hin, show p % 512 - pos % 512 = p - pos by omega]
    · rw [if_neg (by omega), if_neg hin]
      unfold fileByte blockSize
      rw [hsame]
  · have hne : fs.sectorOf (r.slot (p / 512)) ≠ fs.sectorOf (r.slot (pos / 512)) :=
      fun heq => hsame (hr.sectorOf_injective (by omega) (by omega) heq)
    rw [if_neg hne, storeAt_outside (by omega)]
    rfl

/-- The next piece of the data, within one block. -/
theorem step (h : Wrote r offset data fs fs1) (hr : Placed fs r) (chunk : List Byte)
    (hpos : offset + data.length < blockSize * r.blocksUsed)
    (hchunk : (offset + data.length) % blockSize + chunk.length ≤ blockSize)
    (hin : fs.sectorOf (r.slot ((offset + data.length) / blockSize)) < totalSectors) :
    Wrote r offset (data ++ chunk) fs
      (fs1.putSector (fs.sectorOf (r.slot ((offset + data.length) / blockSize)))
        (storeAt (fs1.disk (fs.sectorOf (r.slot ((offset + data.length) / blockSize))))
          ((offset + data.length) % blockSize) chunk)) where
  superblock := h.superblock
  inodeBitmap := h.inodeBitmap
  blockBitmap := h.blockBitmap
  other s hs := by
    rw [putSector_disk_ne _ (hs _ (by unfold blockSize at *; omega)), h.other s hs]
  bytes p hp := by
    rw [← storeAt_append, ← h.sectorOf, fileByte_putSector (h.placed hr) hpos hp hchunk]
    unfold storeAt
    split
    · rfl
    · exact h.bytes p hp
  inRange p hlo hhi := by
    rw [List.length_append] at hhi
    by_cases hold : p < offset + data.length
    · exact h.inRange p hlo hold
    · rwa [show p / blockSize = (offset + data.length) / blockSize by unfold blockSize at *; omega]

end Wrote

/-- The loop writes all of the data, if every block it needs is there and on the device. -/
theorem writeLoop_ends (hr : Placed fs r)
    (hroom : data = [] ∨ offset + data.length ≤ blockSize * r.blocksUsed) {written : Nat}
    (h : Wrote r offset (data.take written) fs fs1) (hwritten : written ≤ data.length)
    (hfuel : data.length - written ≤ fuel) :
    Ends (writeLoop debug r offset data fuel written) fs1
      (fun n fs' => n = data.length ∧ Wrote r offset data fs fs')
      fun _ _ => ∃ b ∈ usedSlots r, totalSectors ≤ fs.sectorOf b := by
  induction fuel generalizing written fs1 with
  | zero =>
    obtain rfl : written = data.length := by omega
    rw [List.take_length] at h
    exact ⟨rfl, h⟩
  | succ fuel ih =>
    unfold writeLoop
    split
    · obtain rfl : written = data.length := by omega
      rw [List.take_length] at h
      exact ⟨rfl, h⟩
    · rename_i hmore
      have hlength : (data.take written).length = written := by
        rw [List.length_take]
        omega
      have hroom : offset + data.length ≤ 512 * r.blocksUsed := by
        rcases hroom with rfl | hroom
        · exact absurd (Nat.zero_le _) hmore
        · exact hroom
      have hfew : r.blocksUsed ≤ 8 := hr.few
      have hidx : (offset + written) / blockSize < r.blocksUsed := by
        unfold blockSize
        omega
      refine (addBits_returns (by omega)).seq ?_
      dsimp only
      have hslot : ¬r.directBlocks.getD ((offset + written) / blockSize) 0 = 0 :=
        hr.nonzero _ (hr.slot_mem hidx)
      rw [if_neg (Nat.not_le.mpr (hidx.trans_le hr.few)), if_neg hslot]
      refine ((h.placed hr).blockSector hidx).seq ?_
      rw [ends_bind, h.sectorOf]
      by_cases hin : totalSectors ≤ fs.sectorOf (r.slot ((offset + written) / blockSize))
      · exact (readSector_throws hin).ends ⟨_, hr.slot_mem hidx, hin⟩
      have hin := Nat.not_le.mp hin
      refine (readSector_returns hin).ends ?_
      generalize hc : min (blockSize - (offset + written) % blockSize) (data.length - written) = c
      -- a turn stores `c > 0` bytes, which is what the fuel counts
      have hcpos : 0 < c ∧ c ≤ data.length - written ∧
          (offset + written) % blockSize + c ≤ blockSize := by
        unfold blockSize at *
        omega
      refine (writeSector_returns hin _).seq (ih ?_ (by omega) (by omega))
      have hchunk : ((data.drop written).take c).length = c := by
        rw [List.length_take, List.length_drop]
        omega
      have hstep := h.step hr ((data.drop written).take c)
      rw [hlength, hchunk, ← List.take_add] at hstep
      exact hstep (by unfold blockSize; omega) hcpos.2.2 hin

/-- The `n` bytes of a file from `offset` on. -/
def bytesAt (fs : HomeFs) (r : HomeInode) (offset n : Nat) : List Byte :=
  (List.range n).map fun j => fs.fileByte r (offset + j)

@[simp] theorem length_bytesAt (fs : HomeFs) (r : HomeInode) (offset n : Nat) :
    (fs.bytesAt r offset n).length = n := by simp [bytesAt]

theorem getElem_bytesAt (fs : HomeFs) (r : HomeInode) {n j : Nat}
    (hj : j < (fs.bytesAt r offset n).length) :
    (fs.bytesAt r offset n)[j] = fs.fileByte r (offset + j) := by simp [bytesAt]

/-- One turn of the loop reads on within one block. -/
theorem bytesAt_add (fs : HomeFs) (r : HomeInode) {m c : Nat}
    (hc : (offset + m) % blockSize + c ≤ blockSize) :
    fs.bytesAt r offset m ++ (List.range c).map (fun j =>
      fs.disk (fs.sectorOf (r.slot ((offset + m) / blockSize))) ((offset + m) % blockSize + j)) =
      fs.bytesAt r offset (m + c) := by
  unfold bytesAt
  rw [List.range_add, List.map_append, List.map_map]
  congr 1
  apply List.map_congr_left
  intro j hj
  have hj := List.mem_range.mp hj
  unfold blockSize at hc
  show _ = fs.fileByte r (offset + (m + j))
  unfold fileByte blockSize
  rw [show (offset + (m + j)) / 512 = (offset + m) / 512 by omega,
    show (offset + (m + j)) % 512 = (offset + m) % 512 + j by omega]

theorem readLoop_returns {toRead : Nat} (hr : Placed fs r)
    (hroom : offset + toRead ≤ blockSize * r.blocksUsed)
    (hin : ∀ p, offset ≤ p → p < offset + toRead →
      fs.sectorOf (r.slot (p / blockSize)) < totalSectors) {m : Nat}
    (hm : m ≤ toRead) (hfuel : toRead - m ≤ fuel) :
    Returns (readLoop debug r offset toRead fuel (fs.bytesAt r offset m)) fs
      (fs.bytesAt r offset toRead) fs := by
  induction fuel generalizing m with
  | zero =>
    obtain rfl : m = toRead := by omega
    rfl
  | succ fuel ih =>
    unfold readLoop
    rw [length_bytesAt]
    split
    · obtain rfl : m = toRead := by omega
      rfl
    · have hidx : (offset + m) / blockSize < r.blocksUsed := by
        unfold blockSize at *
        omega
      have hslot : ¬r.directBlocks.getD ((offset + m) / blockSize) 0 = 0 :=
        hr.nonzero _ (hr.slot_mem hidx)
      have hfew : ¬(maxDirectBlocks ≤ (offset + m) / blockSize ∨
          r.blocksUsed ≤ (offset + m) / blockSize) := by
        have := hr.few
        omega
      dsimp only
      rw [if_neg hfew, if_neg hslot]
      refine (hr.blockSector hidx).bind ((readSector_returns (hin _ (by omega) (by omega))).bind ?_)
      generalize hc : min (blockSize - (offset + m) % blockSize) (toRead - m) = c
      have hcpos : 0 < c ∧ c ≤ toRead - m ∧ (offset + m) % blockSize + c ≤ blockSize := by
        unfold blockSize at *
        omega
      rw [bytesAt_add fs r hcpos.2.2]
      exact ih (by omega) (by omega)

/-- Reading a range of a file. -/
theorem readFile_returns {len : Nat} (hfile : fs.IsFile i) (hr : Placed fs (fs.record i))
    (hsize : offset + len ≤ (fs.record i).size)
    (hroom : offset + len ≤ blockSize * (fs.record i).blocksUsed)
    (hin : ∀ p, offset ≤ p → p < offset + len → fs.sectorOf ((fs.record i).slot (p / blockSize)) <
      totalSectors) :
    Returns (readFile debug i offset len) fs (fs.bytesAt (fs.record i) offset len) fs := by
  unfold readFile
  refine (readFileInode_returns hfile).bind ?_
  split
  · obtain rfl : len = 0 := by omega
    rfl
  · rw [show min len ((fs.record i).size - offset) = len by omega]
    exact readLoop_returns hr hroom hin (Nat.zero_le _) le_rfl

/-- Reading one byte of a file. -/
theorem readFile_byte (hfile : fs.IsFile i) (hr : Placed fs (fs.record i))
    (hsize : p < (fs.record i).size) (hroom : p < blockSize * (fs.record i).blocksUsed) :
    outcome (readFile debug i p 1) fs =
      if fs.sectorOf ((fs.record i).slot (p / blockSize)) < totalSectors then .ok
        [fs.fileByte (fs.record i) p]
      else .error (.err .ioError) := by
  split
  · rename_i hin
    refine (readFile_returns hfile hr (by omega) (by omega) fun q hlo hhi => ?_).outcome_eq
    rwa [show q = p by omega]
  · rename_i hin
    have hidx : p / blockSize < (fs.record i).blocksUsed := by
      unfold blockSize at *
      omega
    have hslot : ¬(fs.record i).directBlocks.getD (p / blockSize) 0 = 0 :=
      hr.nonzero _ (hr.slot_mem hidx)
    have hfew : ¬(maxDirectBlocks ≤ p / blockSize ∨ (fs.record i).blocksUsed ≤ p / blockSize) := by
      have := hr.few
      omega
    have hsector : Throws (readSector (fs.sectorOf ((fs.record i).slot (p / blockSize)))) fs
        (.err .ioError) fs :=
      readSector_throws (Nat.not_lt.mp hin)
    have hthrows : Throws (readFile debug i p 1) fs (.err .ioError) fs := by
      unfold readFile
      refine throws_bind.mpr (Or.inr ⟨_, fs, readFileInode_returns hfile, ?_⟩)
      rw [if_neg (by omega), show min 1 ((fs.record i).size - p) = 1 by omega]
      unfold readLoop
      simp only [List.length_nil, Nat.add_zero]
      rw [if_neg (by omega), if_neg hfew, if_neg hslot]
      exact throws_bind.mpr (Or.inr ⟨_, fs, hr.blockSector hidx, throws_bind.mpr (Or.inl hsector)⟩)
    exact hthrows.outcome_eq

end HomeFs

end PandaOS.Kernel
