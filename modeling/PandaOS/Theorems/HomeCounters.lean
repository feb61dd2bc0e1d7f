import PandaOS.Logic.HomeFile
import PandaOS.Logic.HomeWalk
import PandaOS.Theorems.HomeBlocks

/-!
# The free counters of the home file system

The two counters of the superblock follow their bitmaps in every run. Not all they
count can be handed out: `create` leaves the bit of inode 0 clear, and the scan of
`allocate_block` goes over the whole bytes of 989 bits only, which leaves the last
five blocks out.
-/

namespace PandaOS.Kernel.HomeFs

open Lib Function Relation

variable {debug : Bool} {fs : HomeFs} {b n : Nat}

/-! ## The counters are exact -/

/-- One operation on the device: the write of a sector, an allocation or a release. An
allocation finds its counter above 0 and a release finds it below the maximum, so that
neither wraps around. -/
inductive Moved (fs : HomeFs) : HomeFs → Prop
  | write (sector : Nat) (buf : Memory) : Moved fs (fs.putSector sector buf)
  | takeBlock (b : Nat) : fs.superblock.freeBlocks ≠ 0 → Moved fs (fs.takeBlock b)
  | takeInode (n : Nat) : fs.superblock.freeInodes ≠ 0 → Moved fs (fs.takeInode n)
  | dropBlock (b : Nat) : fs.superblock.freeBlocks + 1 < 2 ^ 32 → Moved fs (fs.dropBlock b)
  | dropInode (n : Nat) : fs.superblock.freeInodes + 1 < 2 ^ 32 → Moved fs (fs.dropInode n)

/-- One operation, with both counters exact before and after, neither of which goes up or
down by more than one. -/
structure CounterStep (fs fs' : HomeFs) : Prop where
  before : CountersExact fs
  after : CountersExact fs'
  blocks : fs'.superblock.freeBlocks ≤ fs.superblock.freeBlocks + 1 ∧
    fs.superblock.freeBlocks ≤ fs'.superblock.freeBlocks + 1
  inodes : fs'.superblock.freeInodes ≤ fs.superblock.freeInodes + 1 ∧
    fs.superblock.freeInodes ≤ fs'.superblock.freeInodes + 1
  moved : Moved fs fs'

/-- Counters that are exact stay exact, and go up and down by ones. -/
def CountersFollow (fs fs' : HomeFs) : Prop :=
  CountersExact fs → CountersExact fs' ∧ ReflTransGen CounterStep fs fs'

/-- A change by at most one in each counter. -/
theorem CounterStep.follow {fs' : HomeFs} (h : CountersExact fs → CounterStep fs fs') :
    CountersFollow fs fs' :=
  fun hfs => ⟨(h hfs).after, .single (h hfs)⟩

section

variable (hfs : CountersExact fs)
include hfs

/-- The counters never overflow in the functions that free. -/
theorem CountersExact.no_overflow :
    fs.superblock.freeBlocks + 1 < 2 ^ 32 ∧ fs.superblock.freeInodes + 1 < 2 ^ 32 := by
  have hblocks := clearBits_le fs.blockBitmap maxDataBlocks
  have hinodes := clearBits_le fs.inodeBitmap maxInodes
  have hmax : maxDataBlocks = 989 ∧ maxInodes = 256 := ⟨rfl, rfl⟩
  rw [hfs.blocks, hfs.inodes]
  omega

theorem counterStep_takeBlock (hnext : fs.nextBlock = some b) :
    CounterStep fs (fs.takeBlock b) := by
  obtain ⟨hpos, hb, hclear, -⟩ := nextBlock_spec hnext
  have hcount := hfs.blocks
  have hover := hfs.no_overflow
  have hbits := clearBits_setBit hb hclear
  have hfree : (fs.takeBlock b).superblock.freeBlocks = fs.superblock.freeBlocks - 1 :=
    freeBlocks_takeBlock (by omega) hpos
  refine ⟨hfs, ⟨?_, by simpa using hfs.inodes⟩, ?_, by simp, .takeBlock b hpos⟩
  · show (fs.takeBlock b).superblock.freeBlocks = clearBits (setBit fs.blockBitmap b) maxDataBlocks
    omega
  · omega

theorem counterStep_takeInode (hnext : fs.nextInode = some n) :
    CounterStep fs (fs.takeInode n) := by
  obtain ⟨hpos, ⟨-, hn⟩, hclear⟩ := nextInode_spec hnext
  have hcount := hfs.inodes
  have hover := hfs.no_overflow
  have hbits := clearBits_setBit hn hclear
  have hfree : (fs.takeInode n).superblock.freeInodes = fs.superblock.freeInodes - 1 := by
    show (fs.superblock.freeInodes + 2 ^ 32 - 1) % 2 ^ 32 = _
    omega
  refine ⟨hfs, ⟨by simpa using hfs.blocks, ?_⟩, by simp, ?_, .takeInode n hpos⟩
  · show (fs.takeInode n).superblock.freeInodes = clearBits (setBit fs.inodeBitmap n) maxInodes
    omega
  · omega

theorem counterStep_dropBlock (hb : b < maxDataBlocks)
    (hset : bitSet fs.blockBitmap b = true) : CounterStep fs (fs.dropBlock b) := by
  have hcount := hfs.blocks
  have hover := hfs.no_overflow
  have hbits := clearBits_clearBit hb hset
  have hfree : (fs.dropBlock b).superblock.freeBlocks = fs.superblock.freeBlocks + 1 := by
    show (fs.superblock.freeBlocks + 1) % 2 ^ 32 = _
    omega
  refine ⟨hfs, ⟨?_, hfs.inodes⟩, ?_, by simp [dropBlock], .dropBlock b hover.1⟩
  · show (fs.dropBlock b).superblock.freeBlocks =
        clearBits (clearBit fs.blockBitmap b) maxDataBlocks
    omega
  · omega

theorem counterStep_dropInode (hn : n < maxInodes) (hset : bitSet fs.inodeBitmap n = true) :
    CounterStep fs (fs.dropInode n) := by
  have hcount := hfs.inodes
  have hover := hfs.no_overflow
  have hbits := clearBits_clearBit hn hset
  have hfree : (fs.dropInode n).superblock.freeInodes = fs.superblock.freeInodes + 1 := by
    show (fs.superblock.freeInodes + 1) % 2 ^ 32 = _
    omega
  refine ⟨hfs, ⟨hfs.blocks, ?_⟩, by simp [dropInode], ?_, .dropInode n hover.2⟩
  · show (fs.dropInode n).superblock.freeInodes = clearBits (clearBit fs.inodeBitmap n) maxInodes
    omega
  · omega

end

theorem closed_counters : Closed debug CountersFollow where
  refl _ hfs := ⟨hfs, .refl⟩
  trans hfirst hrest hfs := by
    obtain ⟨hfs1, hsteps⟩ := hfirst hfs
    obtain ⟨hfs2, hsteps'⟩ := hrest hfs1
    exact ⟨hfs2, hsteps.trans hsteps'⟩
  put fs sector buf := CounterStep.follow fun hfs =>
    ⟨hfs, ⟨hfs.blocks, hfs.inodes⟩, ⟨Nat.le_succ _, Nat.le_succ _⟩, ⟨Nat.le_succ _, Nat.le_succ _⟩,
      .write sector buf⟩
  allocateInode fs := by
    cases hnext : fs.nextInode with
    | none => exact (allocateInode_throws hnext).ends fun hfs => ⟨hfs, .refl⟩
    | some n =>
      exact (allocateInode_returns hnext).ends (CounterStep.follow (counterStep_takeInode · hnext))
  allocateBlock fs := by
    cases hnext : fs.nextBlock with
    | none => exact (allocateBlock_throws hnext).ends fun hfs => ⟨hfs, .refl⟩
    | some b =>
      exact (allocateBlock_returns hnext).ends (CounterStep.follow (counterStep_takeBlock · hnext))
  freeInode n fs := by
    refine (freeInode_exact n).mono ?_ ?_
    · rintro _ fs' ⟨⟨-, hn, hset⟩, rfl⟩
      exact CounterStep.follow (counterStep_dropInode · hn hset)
    · rintro e fs' (⟨⟨-, rfl⟩, -⟩ | ⟨-, hover⟩) hfs
      · exact ⟨hfs, .refl⟩
      · have := hfs.no_overflow
        omega
  freeBlock b fs := by
    refine (freeBlock_exact b).mono ?_ ?_
    · rintro _ fs' ⟨⟨hb, hset⟩, rfl⟩
      exact CounterStep.follow (counterStep_dropBlock · hb hset)
    · rintro e fs' (⟨⟨-, rfl⟩, -⟩ | ⟨-, hover⟩) hfs
      · exact ⟨hfs, .refl⟩
      · have := hfs.no_overflow
        omega

theorem clearBits_zero (n : Nat) : clearBits zeroSector n = n := by
  unfold clearBits
  rw [List.countP_eq_length.mpr]
  · exact List.length_range
  · intro b _
    simp [bitSet, zeroSector]

/-- A new file system has one block and one inode in use. -/
theorem countersExact_create {disk : Nat → Memory} (h : create disk = .ok () fs) :
    CountersExact fs := by
  obtain ⟨-, hsb, hinodes, hblocks⟩ := create_fields h
  have hblock :=
    clearBits_setBit (show 0 < maxDataBlocks by decide) (show bitSet zeroSector 0 = false by decide)
  have hinode :=
    clearBits_setBit (show 1 < maxInodes by decide) (show bitSet zeroSector 1 = false by decide)
  rw [clearBits_zero] at hblock hinode
  constructor
  · rw [hsb, hblocks]
    show maxDataBlocks - 1 = _
    omega
  · rw [hsb, hinodes]
    show maxInodes - 1 = _
    omega

/-- A file is created in the root and written, which takes an inode and a block. -/
def twoTaken : List Call := [.op (.createFile 1 letterA 0o644), .op (.writeFile 2 0 [7])]

/-- The bits that no allocator sets. -/
structure TailClear (fs : HomeFs) : Prop where
  blocks : ∀ b, scannedBlocks ≤ b → b < maxDataBlocks → bitSet fs.blockBitmap b = false
  inode : bitSet fs.inodeBitmap 0 = false

theorem TailClear.takeBlock (h : TailClear fs) (hnext : fs.nextBlock = some b) :
    TailClear (fs.takeBlock b) := by
  refine ⟨fun c hlo hhi => ?_, by simpa using h.inode⟩
  have hlt := nextBlock_lt hnext
  rw [takeBlock_blockBitmap, bitSet_setBit, update_of_ne (by omega)]
  exact h.blocks c hlo hhi

theorem TailClear.takeInode (h : TailClear fs) (hnext : fs.nextInode = some n) :
    TailClear (fs.takeInode n) := by
  refine ⟨by simpa using h.blocks, ?_⟩
  have hpos := (nextInode_spec hnext).2.1.1
  rw [takeInode_inodeBitmap, bitSet_setBit, update_of_ne (by omega)]
  exact h.inode

/-- Clearing a bit. -/
theorem bitSet_clearBit_false {bitmap : Memory} {k : Nat} (h : bitSet bitmap k = false) (n : Nat) :
    bitSet (clearBit bitmap n) k = false := by
  rw [bitSet_clearBit]
  by_cases hk : k = n
  · rw [hk, update_self]
  · rwa [update_of_ne hk]

theorem closed_tailClear : Closed debug fun fs fs' => TailClear fs → TailClear fs' where
  refl _ hfs := hfs
  trans hfirst hrest hfs := hrest (hfirst hfs)
  put fs sector buf hfs := ⟨hfs.blocks, hfs.inode⟩
  allocateInode fs := by
    cases hnext : fs.nextInode with
    | none => exact (allocateInode_throws hnext).ends id
    | some n => exact (allocateInode_returns hnext).ends (·.takeInode hnext)
  allocateBlock fs := by
    cases hnext : fs.nextBlock with
    | none => exact (allocateBlock_throws hnext).ends id
    | some b => exact (allocateBlock_returns hnext).ends (·.takeBlock hnext)
  freeInode n fs := by
    refine (freeInode_exact n).mono ?_ ?_
    · rintro _ fs' ⟨-, rfl⟩ hfs
      exact ⟨hfs.blocks, bitSet_clearBit_false hfs.inode n⟩
    · rintro e fs' (⟨⟨-, rfl⟩, -⟩ | ⟨⟨-, rfl⟩, -⟩) hfs
      · exact hfs
      · exact ⟨hfs.blocks, bitSet_clearBit_false hfs.inode n⟩
  freeBlock b fs := by
    refine (freeBlock_exact b).mono ?_ ?_
    · rintro _ fs' ⟨-, rfl⟩ hfs
      exact ⟨fun c hlo hhi => bitSet_clearBit_false (hfs.blocks c hlo hhi) b, hfs.inode⟩
    · rintro e fs' (⟨⟨-, rfl⟩, -⟩ | ⟨⟨-, rfl⟩, -⟩) hfs
      · exact hfs
      · exact ⟨fun c hlo hhi => bitSet_clearBit_false (hfs.blocks c hlo hhi) b, hfs.inode⟩

theorem tailClear_create {disk : Nat → Memory} (h : create disk = .ok () fs) : TailClear fs := by
  obtain ⟨-, -, hinodes, hblocks⟩ := create_fields h
  constructor
  · intro b hlo _
    have hscan : scannedBlocks = 984 := rfl
    rw [hblocks, bitSet_setBit, update_of_ne (by omega)]
    simp [bitSet, zeroSector]
  · rw [hinodes]
    decide

/-- The counters never reach 0. -/
theorem TailClear.counters_pos (h : TailClear fs) (hexact : CountersExact fs) :
    fs.superblock.freeBlocks ≠ 0 ∧ fs.superblock.freeInodes ≠ 0 := by
  have hblocks : 0 < clearBits fs.blockBitmap maxDataBlocks :=
    clearBits_pos.mpr ⟨scannedBlocks, by decide, h.blocks _ (by decide) (by decide)⟩
  have hinodes : 0 < clearBits fs.inodeBitmap maxInodes := clearBits_pos.mpr ⟨0, by decide, h.inode⟩
  rw [hexact.blocks, hexact.inodes]
  omega

theorem allocateBlock_noSpace_iff :
    outcome (allocateBlock debug) fs = .error (.err .noSpace) ↔ fs.nextBlock = none := by
  cases hnext : fs.nextBlock with
  | none => simp [(allocateBlock_throws hnext).outcome_eq]
  | some b => simp [(allocateBlock_returns hnext).outcome_eq]

theorem allocateInode_noSpace_iff :
    outcome (allocateInode debug) fs = .error (.err .noSpace) ↔ fs.nextInode = none := by
  cases hnext : fs.nextInode with
  | none => simp [(allocateInode_throws hnext).outcome_eq]
  | some n => simp [(allocateInode_returns hnext).outcome_eq]

/-- In every state of every run, the allocators are right about running out exactly
if a block below 984 and an inode from 1 on are free: the counters count five blocks
and one inode that are never handed out. -/
theorem fully_usable_iff {disk : Nat → Memory} {fs₀ : HomeFs} (hcreate : create disk = .ok () fs₀)
    (calls : List Call) :
    FullyUsable debug (runCalls debug calls fs₀) ↔
      (∃ b < scannedBlocks, bitSet (runCalls debug calls fs₀).blockBitmap b = false) ∧
      ∃ i, 0 < i ∧ i < maxInodes ∧ bitSet (runCalls debug calls fs₀).inodeBitmap i = false := by
  have htail : TailClear (runCalls debug calls fs₀) :=
    closed_tailClear.runCalls calls fs₀ (tailClear_create hcreate)
  have hexact : CountersExact (runCalls debug calls fs₀) :=
    (closed_counters.runCalls calls fs₀ (countersExact_create hcreate)).1
  obtain ⟨hblocks, hinodes⟩ := htail.counters_pos hexact
  have hblock : (runCalls debug calls fs₀).nextBlock ≠ none ↔
      ∃ b < scannedBlocks, bitSet (runCalls debug calls fs₀).blockBitmap b = false := by
    rw [Ne, nextBlock_eq_none]
    simp [hblocks]
  have hinode : (runCalls debug calls fs₀).nextInode ≠ none ↔
      ∃ i, 0 < i ∧ i < maxInodes ∧ bitSet (runCalls debug calls fs₀).inodeBitmap i = false := by
    rw [Ne, nextInode_eq_none]
    simp [hinodes]
  rw [← hblock, ← hinode]
  constructor
  · rintro ⟨husable, husable'⟩
    exact ⟨fun hnone => hblocks (husable (allocateBlock_noSpace_iff.mpr hnone)),
      fun hnone => hinodes (husable' (allocateInode_noSpace_iff.mpr hnone))⟩
  · rintro ⟨hblock, hinode⟩
    exact ⟨fun hfull => absurd (allocateBlock_noSpace_iff.mp hfull) hblock,
      fun hfull => absurd (allocateInode_noSpace_iff.mp hfull) hinode⟩

/-- After a file was created and written there are both. -/
theorem fully_usable_taken :
    FullyUsable true (runCalls true twoTaken (newHome fun _ => zeroSector)) :=
  (fully_usable_iff (create_newHome _) twoTaken).mpr
    ⟨⟨2, by decide, by decide +kernel⟩, 3, by decide, by decide, by decide +kernel⟩

/-! ### A full file system with five free blocks

Record 256 is left over from an earlier use of the device: a file with no blocks and
no number. `create` does not clear it, `write_file` reads it, and the write of the
record fails after the blocks were taken. -/

/-- The sector of record 256. -/
def staleSector : Memory := storeAt zeroSector 452 [1]

/-- A write up to the end of block `k` through the stale record. -/
def staleWrite (k : Nat) : Call := .op (.writeFile maxInodes (blockSize * k) [])

theorem staleWrite_run {k : Nat} (hstale : fs.disk 34 = staleSector) (hk : k ≤ maxDirectBlocks)
    (hfits : fs.superblock.freeBlocks < 2 ^ 32) (hroom : k ≤ fs.available) :
    ∃ fs' bs, Throws ((staleWrite k).program debug) fs (.err .invalidArgument) fs' ∧
      Takes fs bs fs' ∧ bs.length = k := by
  have hrecord : fs.record maxInodes = HomeInode.decode staleSector 448 := by rw [← hstale]; rfl
  have hnum : (fs.record maxInodes).inodeNum = 0 := by rw [hrecord]; decide
  have hused : (fs.record maxInodes).blocksUsed = 0 := by rw [hrecord]; decide
  have hfile : fs.IsFile maxInodes := ⟨by decide, by rw [hrecord]; decide⟩
  have hneeded : blocksNeeded (blockSize * k) ([] : List Byte).length = k := by
    unfold maxDirectBlocks at hk
    unfold blocksNeeded blockSize
    rw [List.length_nil]
    omega
  have hsize : ¬SizeOverflows debug (blockSize * k) ([] : List Byte).length := by
    unfold maxDirectBlocks at hk
    unfold SizeOverflows blockSize
    rw [List.length_nil]
    omega
  have hends : Ends ((staleWrite k).program debug) fs (fun _ _ => False) fun e fs' =>
      e = .err .invalidArgument ∧ ∃ bs, Takes fs bs fs' ∧ bs.length = k := by
    show Ends (do let _ ← writeFile debug maxInodes (blockSize * k) []) fs _ _
    rw [ends_bind]
    refine writeFile_ends (absurd hfile) (fun _ hover => absurd hover hsize)
      (fun _ _ hlarge => ?_) fun _ _ _ => ?_
    · rw [hneeded] at hlarge
      omega
    · unfold writeGrown
      rw [hneeded]
      refine (growLoop_ends _ _ _ fs).bind ?_ ?_
      · rintro r fs' ⟨bs, htakes, rfl, hlength⟩
        refine Ends.bind (Q := fun _ fs1 => fs1 = fs') (E := fun _ _ => False) rfl ?_ (by simp)
        rintro _ _ rfl
        rw [ends_bind]
        refine (writeInode_throws ?_).ends ⟨rfl, bs, htakes, ?_⟩
        · split <;> simp [hnum]
        · omega
      · rintro e fs' ⟨rfl, bs, htakes, hnone, hlength⟩
        have hcount := htakes.available hfits
        rw [available_eq_zero.mpr hnone] at hcount
        omega
  obtain ⟨e, fs', hrun, rfl, bs, htakes, hlength⟩ := hends.throws
  exact ⟨fs', bs, hrun, htakes, hlength⟩

/-- Write after write takes blocks until none is left. -/
theorem staleWrites_run {ks : List Nat} (hstale : fs.disk 34 = staleSector)
    (hks : ∀ k ∈ ks, k ≤ maxDirectBlocks)
    (hfits : fs.superblock.freeBlocks < 2 ^ 32) (hroom : ks.sum ≤ fs.available) :
    ∃ bs, Takes fs bs (runCalls debug (ks.map staleWrite) fs) ∧ bs.length = ks.sum := by
  induction ks generalizing fs with
  | nil => exact ⟨[], .nil, rfl⟩
  | cons k ks ih =>
    rw [List.sum_cons] at hroom ⊢
    obtain ⟨fs', bs, hrun, htakes, hlength⟩ : ∃ fs' bs,
        Throws ((staleWrite k).program debug) fs (.err .invalidArgument) fs' ∧
          Takes fs bs fs' ∧ bs.length = k :=
      staleWrite_run hstale (hks k List.mem_cons_self) hfits (by omega)
    have hcount := htakes.available hfits
    have hfree := htakes.freeBlocks hfits
    obtain ⟨cs, hrest, hcs⟩ := ih ((htakes.disk (by decide)).trans hstale)
      (fun c hc => hks c (List.mem_cons_of_mem _ hc)) (by omega) (by omega)
    refine ⟨bs ++ cs, htakes.append ?_, by rw [List.length_append]; omega⟩
    unfold Throws at hrun
    rw [List.map_cons]
    unfold runCalls
    rw [hrun]
    exact hrest

/-- After 983 blocks the allocator is at its end, and the counter says five. -/
theorem five_blocks_unusable : ∃ disk fs calls, create disk = .ok () fs ∧
    outcome (allocateBlock true) (runCalls true calls fs) = .error (.err .noSpace) ∧
      (runCalls true calls fs).superblock.freeBlocks = 5 ∧
        ¬FullyUsable true (runCalls true calls fs) := by
  obtain ⟨fs, hcreate, hdisk, hsb, -, hblocks⟩ := create_eq fun _ => staleSector
  have hfree : fs.superblock.freeBlocks = 988 := by rw [hsb]; rfl
  have hbits := clearBits_setBit (show 0 < scannedBlocks by decide)
    (show bitSet zeroSector 0 = false by decide)
  rw [clearBits_zero] at hbits
  have havailable : fs.available = 983 := by
    unfold available
    have hscan : scannedBlocks = 984 := rfl
    rw [hfree, hblocks]
    omega
  have hsum : (List.replicate 122 8 ++ [7]).sum = 983 := by simp
  have hfits : fs.superblock.freeBlocks < 2 ^ 32 := by omega
  have hks : ∀ k ∈ List.replicate 122 8 ++ [7], k ≤ maxDirectBlocks := by
    unfold maxDirectBlocks
    intro k hk
    rcases List.mem_append.mp hk with hk | hk
    · exact (List.eq_of_mem_replicate hk).le
    · rw [List.mem_singleton.mp hk]
      decide
  have hstale : fs.disk 34 = staleSector := by rw [hdisk]; rfl
  obtain ⟨bs, htakes, hlength⟩ : ∃ bs,
      Takes fs bs (runCalls true ((List.replicate 122 8 ++ [7]).map staleWrite) fs) ∧
        bs.length = _ :=
    staleWrites_run hstale hks hfits (by omega)
  have hcount := htakes.available hfits
  have hleft := htakes.freeBlocks hfits
  have hnone : (runCalls true ((List.replicate 122 8 ++ [7]).map staleWrite) fs).nextBlock = none :=
    available_eq_zero.mp (by omega)
  have hfull : outcome (allocateBlock true) _ = _ := allocateBlock_noSpace_iff.mpr hnone
  refine ⟨_, fs, _, hcreate, hfull, by omega, fun husable => ?_⟩
  have := husable.blocks hfull
  omega

end PandaOS.Kernel.HomeFs
