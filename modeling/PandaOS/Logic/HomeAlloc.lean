import PandaOS.Logic.HomeFs

/-!
# The allocators of the home file system

`allocate_inode`, `allocate_block` and their counterparts, each as one equation:
what it returns, and the state it leaves. The bitmaps and the counters change in
these four functions and nowhere else.
-/

namespace PandaOS.Kernel.HomeFs

open Lib Function

variable {debug : Bool} {fs : HomeFs} {b n i : Nat} {bitmap : Memory} {accepted : Nat → Bool}

/-! ## Bits -/

/-- The mask of another bit. -/
theorem getLsbD_mask_ne {a : Nat} (h : a ≠ b) : ((1 : Byte) <<< b).getLsbD a = false := by
  rw [show (1 : Byte) = 1#8 from rfl, BitVec.getLsbD_shiftLeft, BitVec.getLsbD_one]
  simp
  omega

@[simp] theorem bitSet_setBit (bitmap : Memory) (n : Nat) :
    bitSet (setBit bitmap n) = update (bitSet bitmap) n true := by
  funext k
  unfold bitSet setBit
  have hlt : k % 8 < 8 := Nat.mod_lt _ (by decide)
  by_cases hk : k = n
  · subst hk
    simp [hlt]
  · rw [update_of_ne hk]
    by_cases hbyte : k / 8 = n / 8
    · rw [if_pos hbyte, BitVec.getLsbD_or, getLsbD_mask_ne (by omega), Bool.or_false]
    · rw [if_neg hbyte]

@[simp] theorem bitSet_clearBit (bitmap : Memory) (n : Nat) :
    bitSet (clearBit bitmap n) = update (bitSet bitmap) n false := by
  funext k
  unfold bitSet clearBit
  have hlt : k % 8 < 8 := Nat.mod_lt _ (by decide)
  by_cases hk : k = n
  · subst hk
    simp [hlt]
  · rw [update_of_ne hk]
    by_cases hbyte : k / 8 = n / 8
    · rw [if_pos hbyte, BitVec.getLsbD_and, BitVec.getLsbD_not, getLsbD_mask_ne (by omega)]
      simp [hlt]
    · rw [if_neg hbyte]

/-- A clear bit among the first `n` is set. -/
theorem clearBits_setBit (hb : b < n) (hclear : bitSet bitmap b = false) :
    clearBits (setBit bitmap b) n + 1 = clearBits bitmap n := by
  unfold clearBits
  rw [bitSet_setBit]
  induction n with
  | zero => omega
  | succ n ih =>
    rw [List.range_succ, List.countP_append, List.countP_append,
      List.countP_singleton, List.countP_singleton]
    by_cases hlast : b = n
    · -- the bit is the last one, and the others are not touched
      subst hlast
      have hsame : (List.range b).countP (fun k => !update (bitSet bitmap) b true k) =
          (List.range b).countP fun k => !bitSet bitmap k := by
        apply List.countP_congr
        intro k hk
        have hk := List.mem_range.mp hk
        rw [update_of_ne (by omega)]
      rw [hsame, update_self, hclear]
      simp
    · have hrest := ih (by omega)
      rw [update_of_ne (fun hn => hlast hn.symm)]
      omega

/-- A set bit among the first `n` is cleared. -/
theorem clearBits_clearBit (hb : b < n) (hset : bitSet bitmap b = true) :
    clearBits (clearBit bitmap b) n = clearBits bitmap n + 1 := by
  have hclear : bitSet (clearBit bitmap b) b = false := by
    rw [bitSet_clearBit, update_self]
  have hback : bitSet (setBit (clearBit bitmap b) b) = bitSet bitmap := by
    rw [bitSet_setBit, bitSet_clearBit, update_idem, ← hset, update_eq_self]
  rw [← clearBits_setBit hb hclear]
  unfold clearBits
  rw [hback]

theorem clearBits_le (bitmap : Memory) (n : Nat) : clearBits bitmap n ≤ n := by
  have hle := List.countP_le_length (p := fun b => !bitSet bitmap b) (l := List.range n)
  rwa [List.length_range] at hle

theorem clearBits_pos : 0 < clearBits bitmap n ↔ ∃ b < n, bitSet bitmap b = false := by
  unfold clearBits
  rw [List.countP_pos_iff]
  simp

/-! ## States -/

/-- The block bitmap and its counter are replaced and written back. -/
def saveBlocks (fs : HomeFs) (bitmap : Memory) (n : Nat) : HomeFs :=
  let sb := { fs.superblock with freeBlocks := n }
  (HomeFs.putSector { fs with blockBitmap := bitmap, superblock := sb } 2 bitmap).putSector 0
    (storeAt zeroSector 0 sb.encode)

/-- The inode bitmap and its counter are replaced and written back. -/
def saveInodes (fs : HomeFs) (bitmap : Memory) (n : Nat) : HomeFs :=
  let sb := { fs.superblock with freeInodes := n }
  (HomeFs.putSector { fs with inodeBitmap := bitmap, superblock := sb } 1 bitmap).putSector 0
    (storeAt zeroSector 0 sb.encode)

section

variable (bitmap : Memory) (n : Nat)

@[simp] theorem saveBlocks_superblock :
    (fs.saveBlocks bitmap n).superblock = { fs.superblock with freeBlocks := n } := rfl

theorem saveBlocks_disk (hi : 3 ≤ i) : (fs.saveBlocks bitmap n).disk i = fs.disk i := by
  show (if i = 0 then _ else if i = 2 then _ else fs.disk i) = fs.disk i
  rw [if_neg (by omega), if_neg (by omega)]

@[simp] theorem saveInodes_superblock :
    (fs.saveInodes bitmap n).superblock = { fs.superblock with freeInodes := n } := rfl

theorem saveInodes_disk (hi : 3 ≤ i) : (fs.saveInodes bitmap n).disk i = fs.disk i := by
  show (if i = 0 then _ else if i = 1 then _ else fs.disk i) = fs.disk i
  rw [if_neg (by omega), if_neg (by omega)]

end

/-- The end of `allocate_block` and `free_block`. -/
theorem saveBlocks_returns (fs : HomeFs) (bitmap : Memory) (n : Nat) :
    Returns (do writeSector 2 (← get).blockBitmap; writeSuperblock)
      { fs with blockBitmap := bitmap, superblock := { fs.superblock with freeBlocks := n } } ()
      (fs.saveBlocks bitmap n) := rfl

/-- The end of `allocate_inode` and `free_inode`. -/
theorem saveInodes_returns (fs : HomeFs) (bitmap : Memory) (n : Nat) :
    Returns (do writeSector 1 (← get).inodeBitmap; writeSuperblock)
      { fs with inodeBitmap := bitmap, superblock := { fs.superblock with freeInodes := n } } ()
      (fs.saveInodes bitmap n) := rfl

/-! ## The scan -/

/-- The blocks `allocate_block` scans. -/
def scannedBlocks : Nat := maxDataBlocks / 8 * 8

/-- The scan fails if no accepted number has a clear bit. -/
theorem firstFree_eq_none {bytes : Nat} : firstFree bitmap bytes accepted = none ↔
      ∀ n < bytes * 8, accepted n = true → bitSet bitmap n = true := by
  unfold firstFree
  rw [List.findSome?_eq_none_iff]
  constructor
  · intro hbytes n hn haccepted
    have hbyte := hbytes (n / 8) (List.mem_range.mpr (by omega))
    have hsplit : n / 8 * 8 + n % 8 = n := by omega
    have hlt : n % 8 < 8 := Nat.mod_lt _ (by decide)
    unfold bitSet
    split at hbyte
    · rename_i hfull
      rw [hfull]
      exact (show ∀ k < 8, (0xFF : Byte).getLsbD k = true by decide) _ hlt
    · have hbit := List.findSome?_eq_none_iff.mp hbyte (n % 8) (List.mem_range.mpr hlt)
      rw [hsplit] at hbit
      grind
  · intro hset byteIdx hbyteIdx
    have hlt := List.mem_range.mp hbyteIdx
    split
    · rfl
    · rw [List.findSome?_eq_none_iff]
      intro bit hbit
      have hbit := List.mem_range.mp hbit
      have hthis := hset (byteIdx * 8 + bit) (by omega)
      unfold bitSet at hthis
      rw [show (byteIdx * 8 + bit) / 8 = byteIdx by omega,
        show (byteIdx * 8 + bit) % 8 = bit by omega] at hthis
      grind

theorem firstFree_lt {bytes : Nat}
    (h : firstFree bitmap bytes accepted = some n) : n < bytes * 8 := by
  unfold firstFree at h
  obtain ⟨byteIdx, hbyteIdx, hbyte, -⟩ := findSome?_range h
  split at hbyte
  · cases hbyte
  · obtain ⟨bit, hbit8, hbit, -⟩ := findSome?_range hbyte
    have hn : byteIdx * 8 + bit = n := by grind
    omega

/-- The number `allocate_block` returns, if there is one. -/
def nextBlock (fs : HomeFs) : Option Nat :=
  if fs.superblock.freeBlocks = 0 then none
  else firstFree fs.blockBitmap (maxDataBlocks / 8) fun n => decide (n < maxDataBlocks)

/-- The number `allocate_inode` returns, if there is one. -/
def nextInode (fs : HomeFs) : Option Nat :=
  if fs.superblock.freeInodes = 0 then none
  else firstFree fs.inodeBitmap 32 fun n => n ≠ 0 && decide (n < maxInodes)

theorem nextBlock_eq_none : fs.nextBlock = none ↔ fs.superblock.freeBlocks = 0 ∨
    ∀ b < scannedBlocks, bitSet fs.blockBitmap b = true := by
  unfold nextBlock
  split
  · rename_i hzero
    simp [hzero]
  · rename_i hpos
    rw [firstFree_eq_none]
    have hscan : ∀ b, b < maxDataBlocks / 8 * 8 → b < maxDataBlocks := by
      intro b hb
      omega
    simp only [hpos, false_or, decide_eq_true_eq]
    exact ⟨fun h b hb => h b hb (hscan b hb), fun h b hb _ => h b hb⟩

theorem nextInode_eq_none : fs.nextInode = none ↔ fs.superblock.freeInodes = 0 ∨
    ∀ i, 0 < i → i < maxInodes → bitSet fs.inodeBitmap i = true := by
  unfold nextInode
  split
  · rename_i hzero
    simp [hzero]
  · rename_i hpos
    rw [firstFree_eq_none]
    simp only [hpos, false_or, Bool.and_eq_true, decide_eq_true_eq, ne_eq]
    unfold maxInodes
    exact ⟨fun h i hlo hhi => h i (by omega) ⟨by omega, hhi⟩,
      fun h i hi hne => h i (by omega) hne.2⟩

/-- The next block is the first that is clear. -/
theorem nextBlock_spec (h : fs.nextBlock = some b) :
    fs.superblock.freeBlocks ≠ 0 ∧ b < maxDataBlocks ∧ bitSet fs.blockBitmap b = false ∧
      ∀ c < b, bitSet fs.blockBitmap c = true := by
  unfold nextBlock at h
  split at h
  · cases h
  · rename_i hpos
    obtain ⟨haccepted, hclear, hleast⟩ := firstFree_spec h
    simp only [decide_eq_true_eq] at haccepted hleast
    exact ⟨hpos, haccepted, hclear, fun c hc => hleast c hc (by omega)⟩

/-- Inode 0 is never the next one. -/
theorem nextInode_spec (h : fs.nextInode = some n) :
    fs.superblock.freeInodes ≠ 0 ∧ (0 < n ∧ n < maxInodes) ∧ bitSet fs.inodeBitmap n = false := by
  unfold nextInode at h
  split at h
  · cases h
  · rename_i hpos
    obtain ⟨haccepted, hclear, -⟩ := firstFree_spec h
    simp only [Bool.and_eq_true, decide_eq_true_eq, ne_eq] at haccepted
    exact ⟨hpos, by omega, hclear⟩

theorem nextBlock_lt (h : fs.nextBlock = some b) : b < scannedBlocks := by
  unfold nextBlock at h
  split at h
  · cases h
  · exact firstFree_lt h

/-! ## The four functions -/

/-- The subtraction of one, after the test for 0. -/
theorem subBits_one_returns (hpos : n ≠ 0) :
    Returns (subBits debug 32 n 1) fs ((n + 2 ^ 32 - 1) % 2 ^ 32) fs := by
  have hno : (debug && decide (n < 1)) = false := by
    simp only [Bool.and_eq_false_iff, decide_eq_false_iff_not]
    omega
  unfold subBits
  rw [hno]
  exact (pure_returns () fs).bind (pure_returns _ fs)

/-- The state `allocate_block` leaves. -/
def takeBlock (fs : HomeFs) (b : Nat) : HomeFs :=
  fs.saveBlocks (setBit fs.blockBitmap b) ((fs.superblock.freeBlocks + 2 ^ 32 - 1) % 2 ^ 32)

/-- The state `allocate_inode` leaves. -/
def takeInode (fs : HomeFs) (n : Nat) : HomeFs :=
  fs.saveInodes (setBit fs.inodeBitmap n) ((fs.superblock.freeInodes + 2 ^ 32 - 1) % 2 ^ 32)

section

variable (b n : Nat)

@[simp] theorem takeBlock_blockBitmap : (fs.takeBlock b).blockBitmap = setBit fs.blockBitmap b :=
  rfl

@[simp] theorem takeBlock_inodeBitmap : (fs.takeBlock b).inodeBitmap = fs.inodeBitmap := rfl

@[simp] theorem takeBlock_freeInodes :
    (fs.takeBlock b).superblock.freeInodes = fs.superblock.freeInodes := by
  rw [takeBlock, saveBlocks_superblock]

@[simp] theorem takeBlock_firstDataBlock :
    (fs.takeBlock b).superblock.firstDataBlock = fs.superblock.firstDataBlock := by
  rw [takeBlock, saveBlocks_superblock]

theorem takeBlock_disk (hi : 3 ≤ i) : (fs.takeBlock b).disk i = fs.disk i :=
  saveBlocks_disk _ _ hi

theorem takeBlock_freeBlocks : (fs.takeBlock b).superblock.freeBlocks =
    (fs.superblock.freeBlocks + 2 ^ 32 - 1) % 2 ^ 32 := rfl

@[simp] theorem takeInode_inodeBitmap : (fs.takeInode n).inodeBitmap = setBit fs.inodeBitmap n :=
  rfl

@[simp] theorem takeInode_blockBitmap : (fs.takeInode n).blockBitmap = fs.blockBitmap := rfl

@[simp] theorem takeInode_freeBlocks :
    (fs.takeInode n).superblock.freeBlocks = fs.superblock.freeBlocks := by
  rw [takeInode, saveInodes_superblock]

@[simp] theorem takeInode_firstDataBlock :
    (fs.takeInode n).superblock.firstDataBlock = fs.superblock.firstDataBlock := by
  rw [takeInode, saveInodes_superblock]

theorem takeInode_disk (hi : 3 ≤ i) : (fs.takeInode n).disk i = fs.disk i :=
  saveInodes_disk _ _ hi

theorem takeInode_freeInodes : (fs.takeInode n).superblock.freeInodes =
    (fs.superblock.freeInodes + 2 ^ 32 - 1) % 2 ^ 32 := rfl

end

theorem allocateBlock_returns (h : fs.nextBlock = some b) :
    Returns (allocateBlock debug) fs b (fs.takeBlock b) := by
  have hpos := (nextBlock_spec h).1
  have hscan : firstFree fs.blockBitmap (maxDataBlocks / 8) (fun n => decide (n < maxDataBlocks)) =
      some b := by
    unfold nextBlock at h
    rwa [if_neg hpos] at h
  unfold allocateBlock
  refine (get_returns fs).bind ?_
  simp only [hpos, decide_false, hscan]
  refine (pure_returns () fs).bind ((subBits_one_returns hpos).bind ?_)
  exact rfl

/-- A failed allocation has changed nothing. -/
theorem allocateBlock_throws (h : fs.nextBlock = none) :
    Throws (allocateBlock debug) fs (.err .noSpace) fs := by
  unfold nextBlock at h
  unfold allocateBlock
  refine throws_bind.mpr (.inr ⟨fs, fs, get_returns fs, ?_⟩)
  split at h
  · rename_i hzero
    simp only [hzero, decide_true]
    exact throws_bind.mpr (.inl rfl)
  · rename_i hpos
    simp only [hpos, decide_false, h]
    exact throws_bind.mpr (.inr ⟨(), fs, rfl, rfl⟩)

theorem allocateInode_returns (h : fs.nextInode = some n) :
    Returns (allocateInode debug) fs n (fs.takeInode n) := by
  have hpos := (nextInode_spec h).1
  have hscan : firstFree fs.inodeBitmap 32 (fun n => n ≠ 0 && decide (n < maxInodes)) = some n := by
    unfold nextInode at h
    rwa [if_neg hpos] at h
  unfold allocateInode
  refine (get_returns fs).bind ?_
  simp only [hpos, decide_false, hscan]
  refine (pure_returns () fs).bind ((subBits_one_returns hpos).bind ?_)
  exact rfl

theorem allocateInode_throws (h : fs.nextInode = none) :
    Throws (allocateInode debug) fs (.err .noSpace) fs := by
  unfold nextInode at h
  unfold allocateInode
  refine throws_bind.mpr (.inr ⟨fs, fs, get_returns fs, ?_⟩)
  split at h
  · rename_i hzero
    simp only [hzero, decide_true]
    exact throws_bind.mpr (.inl rfl)
  · rename_i hpos
    simp only [hpos, decide_false, h]
    exact throws_bind.mpr (.inr ⟨(), fs, rfl, rfl⟩)

/-- The state `free_block` leaves. -/
def dropBlock (fs : HomeFs) (b : Nat) : HomeFs :=
  fs.saveBlocks (clearBit fs.blockBitmap b) ((fs.superblock.freeBlocks + 1) % 2 ^ 32)

/-- The state `free_inode` leaves. -/
def dropInode (fs : HomeFs) (n : Nat) : HomeFs :=
  fs.saveInodes (clearBit fs.inodeBitmap n) ((fs.superblock.freeInodes + 1) % 2 ^ 32)

section

variable (b n : Nat)

@[simp] theorem dropBlock_blockBitmap : (fs.dropBlock b).blockBitmap = clearBit fs.blockBitmap b :=
  rfl

@[simp] theorem dropBlock_inodeBitmap : (fs.dropBlock b).inodeBitmap = fs.inodeBitmap := rfl

@[simp] theorem dropBlock_freeInodes :
    (fs.dropBlock b).superblock.freeInodes = fs.superblock.freeInodes := by
  rw [dropBlock, saveBlocks_superblock]

@[simp] theorem dropBlock_firstDataBlock :
    (fs.dropBlock b).superblock.firstDataBlock = fs.superblock.firstDataBlock := by
  rw [dropBlock, saveBlocks_superblock]

theorem dropBlock_freeBlocks : (fs.dropBlock b).superblock.freeBlocks =
    (fs.superblock.freeBlocks + 1) % 2 ^ 32 := rfl

theorem dropBlock_disk (hi : 3 ≤ i) : (fs.dropBlock b).disk i = fs.disk i :=
  saveBlocks_disk _ _ hi

@[simp] theorem dropInode_inodeBitmap : (fs.dropInode n).inodeBitmap = clearBit fs.inodeBitmap n :=
  rfl

@[simp] theorem dropInode_blockBitmap : (fs.dropInode n).blockBitmap = fs.blockBitmap := rfl

@[simp] theorem dropInode_freeBlocks :
    (fs.dropInode n).superblock.freeBlocks = fs.superblock.freeBlocks := by
  rw [dropInode, saveInodes_superblock]

@[simp] theorem dropInode_firstDataBlock :
    (fs.dropInode n).superblock.firstDataBlock = fs.superblock.firstDataBlock := by
  rw [dropInode, saveInodes_superblock]

theorem dropInode_disk (hi : 3 ≤ i) : (fs.dropInode n).disk i = fs.disk i :=
  saveInodes_disk _ _ hi

end

/-- A block is freed if it is marked; a debug build panics if the counter is at
its maximum. -/
theorem freeBlock_exact (b : Nat) : Ends (freeBlock debug b) fs
    (fun _ fs' => (b < maxDataBlocks ∧ bitSet fs.blockBitmap b = true) ∧ fs' = fs.dropBlock b)
    fun e fs' => ((e = .err .invalidArgument ∧ fs' = fs) ∧
      ¬(b < maxDataBlocks ∧ bitSet fs.blockBitmap b = true)) ∨
      ((e = .panic ∧ fs' = { fs with blockBitmap := clearBit fs.blockBitmap b }) ∧
        2 ^ 32 ≤ fs.superblock.freeBlocks + 1) := by
  unfold freeBlock addBits
  rw [ends_bind, ends_failIf_iff]
  refine ⟨fun hin => ?_, fun hout => .inl ⟨⟨rfl, rfl⟩, fun hused => ?_⟩⟩
  · have hin : ¬maxDataBlocks ≤ b := by simpa using hin
    rw [ends_bind, ends_get, ends_bind, ends_failIf_iff]
    refine ⟨fun hbit => ?_, fun hclear => .inl ⟨⟨rfl, rfl⟩, fun hused => ?_⟩⟩
    · have hbit : bitSet fs.blockBitmap b = true := by simpa using hbit
      rw [ends_bind, ends_modify, ends_bind, ends_bind, ends_failIf_iff]
      refine ⟨fun _ => ?_, fun hover => .inr ⟨⟨rfl, rfl⟩, by simp at hover; omega⟩⟩
      rw [ends_pure, ends_bind, ends_modify]
      exact (saveBlocks_returns fs (clearBit fs.blockBitmap b)
        ((fs.superblock.freeBlocks + 1) % 2 ^ 32)).ends ⟨⟨by omega, hbit⟩, rfl⟩
    · simp [hused] at hclear
  · have hout : maxDataBlocks ≤ b := by simpa using hout
    omega

/-- If `free_inode` panics, the bit has been cleared. -/
theorem freeInode_exact (n : Nat) : Ends (freeInode debug n) fs
    (fun _ fs' => (0 < n ∧ n < maxInodes ∧ bitSet fs.inodeBitmap n = true) ∧ fs' = fs.dropInode n)
    fun e fs' => ((e = .err .invalidArgument ∧ fs' = fs) ∧
      ¬(0 < n ∧ n < maxInodes ∧ bitSet fs.inodeBitmap n = true)) ∨
      ((e = .panic ∧ fs' = { fs with inodeBitmap := clearBit fs.inodeBitmap n }) ∧
        2 ^ 32 ≤ fs.superblock.freeInodes + 1) := by
  unfold freeInode addBits
  rw [ends_bind, ends_failIf_iff]
  refine ⟨fun hin => ?_, fun hout => .inl ⟨⟨rfl, rfl⟩, fun hused => ?_⟩⟩
  · have hin : ¬(n = 0 ∨ maxInodes ≤ n) := by simpa using hin
    rw [ends_bind, ends_get, ends_bind, ends_failIf_iff]
    refine ⟨fun hbit => ?_, fun hclear => .inl ⟨⟨rfl, rfl⟩, fun hused => ?_⟩⟩
    · have hbit : bitSet fs.inodeBitmap n = true := by simpa using hbit
      rw [ends_bind, ends_modify, ends_bind, ends_bind, ends_failIf_iff]
      refine ⟨fun _ => ?_, fun hover => .inr ⟨⟨rfl, rfl⟩, by simp at hover; omega⟩⟩
      rw [ends_pure, ends_bind, ends_modify]
      exact (saveInodes_returns fs (clearBit fs.inodeBitmap n)
        ((fs.superblock.freeInodes + 1) % 2 ^ 32)).ends ⟨⟨by omega, by omega, hbit⟩, rfl⟩
    · simp [hused] at hclear
  · have hout : n = 0 ∨ maxInodes ≤ n := by simpa using hout
    omega

/-! ## Taking several blocks -/

/-- The blocks `bs` are taken one after the other. -/
inductive Takes : HomeFs → List Nat → HomeFs → Prop
  | nil {fs : HomeFs} : Takes fs [] fs
  | cons {fs fs' : HomeFs} {b : Nat} {bs : List Nat} :
    fs.nextBlock = some b → Takes (fs.takeBlock b) bs fs' → Takes fs (b :: bs) fs'

/-- How many blocks can be taken. -/
def available (fs : HomeFs) : Nat :=
  min fs.superblock.freeBlocks (clearBits fs.blockBitmap scannedBlocks)

/-- The counter has 32 bits. -/
theorem freeBlocks_takeBlock (hfits : fs.superblock.freeBlocks < 2 ^ 32)
    (hpos : fs.superblock.freeBlocks ≠ 0) :
    (fs.takeBlock b).superblock.freeBlocks = fs.superblock.freeBlocks - 1 := by
  show (fs.superblock.freeBlocks + 2 ^ 32 - 1) % 2 ^ 32 = _
  omega

theorem available_eq_zero : fs.available = 0 ↔ fs.nextBlock = none := by
  rw [nextBlock_eq_none]
  unfold available
  have hnone : clearBits fs.blockBitmap scannedBlocks = 0 ↔
      ∀ b < scannedBlocks, bitSet fs.blockBitmap b = true := by
    rw [← not_iff_not, ← Ne, ← Nat.pos_iff_ne_zero, clearBits_pos]
    simp
  rw [← hnone]
  omega

theorem available_takeBlock (hfits : fs.superblock.freeBlocks < 2 ^ 32)
    (h : fs.nextBlock = some b) : (fs.takeBlock b).available + 1 = fs.available := by
  obtain ⟨hpos, -, hclear, -⟩ := nextBlock_spec h
  have hbits := clearBits_setBit (nextBlock_lt h) hclear
  unfold available
  rw [freeBlocks_takeBlock hfits hpos]
  show min _ (clearBits (setBit fs.blockBitmap b) scannedBlocks) + 1 = _
  omega

/-- Every block taken is one that was available. -/
theorem Takes.available {bs : List Nat} {fs' : HomeFs} (hfits : fs.superblock.freeBlocks < 2 ^ 32)
    (h : Takes fs bs fs') : fs'.available + bs.length = fs.available := by
  induction h with
  | nil => simp
  | cons hnext _ ih =>
    have hpos := (nextBlock_spec hnext).1
    have hstep := available_takeBlock hfits hnext
    have hrest := ih (by rw [freeBlocks_takeBlock hfits hpos]; omega)
    rw [List.length_cons]
    omega

end PandaOS.Kernel.HomeFs
