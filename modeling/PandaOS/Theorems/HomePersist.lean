import PandaOS.Logic.HomeRead
import PandaOS.Logic.HomeWalk
import PandaOS.Theorems.HomeBlocks

/-!
# Persistence of the home file system

The superblock and both bitmaps are written back whenever they change, and
nothing else is written to their sectors as long as no block number wraps around
when `first_data_block` is added to it. In a debug build that addition panics; in
a release build it takes a slot of an inode record that `create` did not write.
-/

namespace PandaOS.Kernel.HomeFs

open Lib

/-- The slots of an inode lead to data sectors (a debug build checks each). -/
def GoodSlots (debug : Bool) (i : HomeInode) : Prop :=
  i.directBlocks.length = maxDirectBlocks ∧ (debug = true ∨ ∀ b ∈ i.directBlocks, 35 + b < 2 ^ 32)

/-- The device holds what the instance holds in memory. -/
structure InStep (debug : Bool) (fs : HomeFs) : Prop where
  superblock : Superblock.decode (fs.disk 0) = fs.superblock
  magic : fs.superblock.magic = fsMagic
  version : fs.superblock.version = fsVersion
  firstDataBlock : fs.superblock.firstDataBlock = 35
  fits : ∀ w ∈ fs.superblock.fields, w < 256 ^ 4
  inodes : fs.disk 1 = fs.inodeBitmap
  blocks : fs.disk 2 = fs.blockBitmap
  slots : ∀ i, 0 < i → i ≤ maxInodes → GoodSlots debug (fs.record i)

variable {debug : Bool} {fs : HomeFs} {sb : Superblock} {i inode : HomeInode} {n : Nat}

/-! ## Sector writes -/

/-- A data sector is written. -/
theorem InStep.putData (h : InStep debug fs) {sector : Nat} (hs : 35 ≤ sector)
    (buf : Memory) : InStep debug (fs.putSector sector buf) where
  superblock := by
    rw [putSector_disk_ne fs (by omega)]
    exact h.superblock
  magic := h.magic
  version := h.version
  firstDataBlock := h.firstDataBlock
  fits := h.fits
  inodes := (putSector_disk_ne fs (by omega) buf).trans h.inodes
  blocks := (putSector_disk_ne fs (by omega) buf).trans h.blocks
  slots i hlo hhi := by
    have hi := inodeSector_bounds hhi
    unfold record
    rw [putSector_disk_ne fs (by omega)]
    exact h.slots i hlo hhi

/-- The slots of a record just written. -/
theorem directBlocks_storeAt (h : GoodSlots false i) (buf : Memory) (offset : Nat) :
    (HomeInode.decode (storeAt buf offset i.encode) offset).directBlocks = i.directBlocks := by
  have hholds := holds_storeAt buf offset i.encode
  unfold HomeInode.encode at hholds
  have hblocks := hholds.left.right
  simp only [List.length_append, length_fieldBytes] at hblocks
  have hsmall : ∀ b ∈ i.directBlocks, b < 256 ^ 4 := by
    intro b hb
    have := h.2.resolve_left (by simp) b hb
    omega
  have hslots := Holds.fields hblocks hsmall
  apply List.ext_getElem
  · simp [HomeInode.decode, h.1]
  · intro j hj hj'
    have hslot := hslots j hj'
    simpa [HomeInode.decode, HomeInode.encode, List.getD_eq_getElem?_getD, hj'] using hslot

/-- The slots of an inode just written are good, whichever build. -/
theorem GoodSlots.stored (h : GoodSlots debug i) (buf : Memory) (offset : Nat) :
    GoodSlots debug (HomeInode.decode (storeAt buf offset i.encode) offset) := by
  refine ⟨by simp [HomeInode.decode], ?_⟩
  rcases h.2 with hdebug | hslots
  · exact .inl hdebug
  · rw [directBlocks_storeAt ⟨h.1, Or.inr hslots⟩]
    exact .inr hslots

/-- An inode record is written. -/
theorem InStep.putInode (h : InStep debug fs)
    (hgood : GoodSlots debug inode) (hlo : 0 < inode.inodeNum) (hhi : inode.inodeNum ≤ maxInodes) :
    InStep debug (fs.putInode inode) := by
  have hsector := inodeSector_bounds hhi
  have hother : ∀ sector < 3, (fs.putInode inode).disk sector = fs.disk sector := fun sector hs =>
    putSector_disk_ne fs (by omega) _
  refine ⟨?_, h.magic, h.version, h.firstDataBlock, h.fits, ?_, ?_, fun i hi hi' => ?_⟩
  · rw [hother 0 (by omega)]
    exact h.superblock
  · exact (hother 1 (by omega)).trans h.inodes
  · exact (hother 2 (by omega)).trans h.blocks
  · by_cases hnum : i = inode.inodeNum
    · subst hnum
      unfold record HomeFs.putInode
      rw [putSector_disk]
      exact hgood.stored _ _
    · rw [record_putInode_of_ne hgood.1 hlo hi hnum]
      exact h.slots i hi hi'

/-! ## Sectors and inodes -/

/-- A block number that leads to a data sector. -/
def GoodBlock (debug : Bool) (b : Nat) : Prop := debug = true ∨ 35 + b < 2 ^ 32

theorem goodSlots_iff : GoodSlots debug i ↔ SlotsIn (GoodBlock debug) i := by
  refine and_congr_right fun _ => ⟨fun h b hb => h.imp id fun hall => hall b hb, fun h => ?_⟩
  cases debug with
  | true => exact .inl rfl
  | false => exact .inr fun b hb => (h b hb).resolve_left (by simp)

/-- A slot of a good inode leads to a data sector. -/
theorem keeps_blockSector {b : Nat} (hb : GoodBlock debug b) :
    Keeps (InStep debug) True (blockSector debug b) (35 ≤ ·) := by
  intro fs hfs
  unfold blockSector
  rw [ends_bind, ends_get, hfs.firstDataBlock]
  refine (Keeps.addBits 32 35 b fs hfs).imp ?_
  rintro sector fs' ⟨⟨rfl, hno⟩, hfs'⟩
  have hlt : 35 + b < 2 ^ 32 := hb.elim hno id
  rw [Nat.mod_eq_of_lt hlt]
  exact ⟨by omega, hfs'⟩

theorem keeps_readInode (i : Nat) :
    Keeps (InStep debug) True (readInode i) (SlotsIn (GoodBlock debug)) := by
  intro fs hfs
  refine (readInode_ends i).mono ?_ ?_
  · rintro _ _ ⟨⟨rfl, rfl⟩, hi⟩
    exact ⟨goodSlots_iff.mp (hfs.slots i hi.1 hi.2), hfs⟩
  · rintro _ _ ⟨⟨-, rfl⟩, -⟩
    exact .inr hfs

theorem keeps_writeInode (hgood : SlotsIn (GoodBlock debug) inode) :
    Keeps (InStep debug) True (writeInode inode) fun _ => True := by
  intro fs hfs
  refine (writeInode_puts inode).mono ?_ ?_
  · rintro _ _ ⟨hnum, rfl⟩
    exact ⟨trivial, hfs.putInode (goodSlots_iff.mpr hgood) hnum.1 hnum.2⟩
  · rintro _ _ ⟨⟨-, rfl⟩, -⟩
    exact .inr hfs

/-! ## Bitmaps -/

/-- Both bitmaps and the superblock are changed and written back. -/
theorem InStep.saved {fs' : HomeFs} (h : InStep debug fs)
    (hsb : fs'.disk 0 = storeAt zeroSector 0 fs'.superblock.encode)
    (hmagic : fs'.superblock.magic = fs.superblock.magic)
    (hversion : fs'.superblock.version = fs.superblock.version)
    (hfirst : fs'.superblock.firstDataBlock = fs.superblock.firstDataBlock)
    (hfits : ∀ w ∈ fs'.superblock.fields, w < 256 ^ 4) (hinodes : fs'.disk 1 = fs'.inodeBitmap)
    (hblocks : fs'.disk 2 = fs'.blockBitmap) (hrest : ∀ i, 3 ≤ i → fs'.disk i = fs.disk i) :
    InStep debug fs' where
  superblock := by
    rw [hsb]
    exact Superblock.decode_of_holds hfits (holds_storeAt zeroSector 0 _)
  magic := hmagic.trans h.magic
  version := hversion.trans h.version
  firstDataBlock := hfirst.trans h.firstDataBlock
  fits := hfits
  inodes := hinodes
  blocks := hblocks
  slots i hlo hhi := by
    unfold record
    rw [hrest _ (inodeSector_bounds hhi).1]
    exact h.slots i hlo hhi

section

variable (h : ∀ w ∈ sb.fields, w < 256 ^ 4)
include h

/-- The counters are the only fields that change. -/
theorem fits_counters {blocks inodes : Nat} (hb : blocks < 256 ^ 4) (hi : inodes < 256 ^ 4) :
    ∀ w ∈ ({ sb with freeBlocks := blocks, freeInodes := inodes } : Superblock).fields, w <
      256 ^ 4 := by
  simp only [Superblock.fields, List.forall_mem_cons] at h ⊢
  obtain ⟨h0, h1, h2, h3, h4, -, -, h7⟩ := h
  exact ⟨h0, h1, h2, h3, h4, hb, hi, h7⟩

theorem fits_freeBlocks : sb.freeBlocks < 256 ^ 4 :=
  h _ (by simp [Superblock.fields])

theorem fits_freeInodes : sb.freeInodes < 256 ^ 4 :=
  h _ (by simp [Superblock.fields])

end

theorem InStep.saveInodes (h : InStep debug fs) (bitmap : Memory)
    (hn : n < 256 ^ 4) : InStep debug (fs.saveInodes bitmap n) :=
  h.saved rfl rfl rfl rfl (fits_counters h.fits (fits_freeBlocks h.fits) hn) rfl h.blocks
    fun _ hi => saveInodes_disk bitmap n hi

theorem InStep.saveBlocks (h : InStep debug fs) (bitmap : Memory)
    (hn : n < 256 ^ 4) : InStep debug (fs.saveBlocks bitmap n) :=
  h.saved rfl rfl rfl rfl (fits_counters h.fits hn (fits_freeInodes h.fits)) h.inodes rfl
    fun _ hi => saveBlocks_disk bitmap n hi

theorem keeps_allocateInode : Keeps (InStep debug) True (allocateInode debug) fun _ => True := by
  intro fs hfs
  cases hnext : fs.nextInode with
  | none => exact (allocateInode_throws hnext).ends (.inr hfs)
  | some n =>
    exact (allocateInode_returns hnext).ends ⟨trivial, hfs.saveInodes _ (Nat.mod_lt _ (by decide))⟩

/-- A block handed out leads to a data sector. -/
theorem keeps_allocateBlock :
    Keeps (InStep debug) True (allocateBlock debug) (GoodBlock debug) := by
  intro fs hfs
  cases hnext : fs.nextBlock with
  | none => exact (allocateBlock_throws hnext).ends (.inr hfs)
  | some b =>
    have hb := (nextBlock_spec hnext).2.1
    refine (allocateBlock_returns hnext).ends ⟨.inr ?_, hfs.saveBlocks _ (Nat.mod_lt _ (by decide))⟩
    unfold maxDataBlocks totalSectors at hb
    omega

theorem keeps_freeInode (i : Nat) :
    Keeps (InStep debug) True (freeInode debug i) fun _ => True := by
  intro fs hfs
  refine (freeInode_exact i).mono ?_ ?_
  · rintro _ fs' ⟨-, rfl⟩
    exact ⟨trivial, hfs.saveInodes _ (Nat.mod_lt _ (by decide))⟩
  · rintro e fs' (⟨⟨-, rfl⟩, -⟩ | ⟨⟨rfl, -⟩, -⟩)
    · exact .inr hfs
    · exact .inl ⟨trivial, rfl⟩

theorem keeps_freeBlock (b : Nat) :
    Keeps (InStep debug) True (freeBlock debug b) fun _ => True := by
  intro fs hfs
  refine (freeBlock_exact b).mono ?_ ?_
  · rintro _ fs' ⟨-, rfl⟩
    exact ⟨trivial, hfs.saveBlocks _ (Nat.mod_lt _ (by decide))⟩
  · rintro e fs' (⟨⟨-, rfl⟩, -⟩ | ⟨⟨rfl, -⟩, -⟩)
    · exact .inr hfs
    · exact .inl ⟨trivial, rfl⟩

/-- Every operation keeps the device in step with the instance. -/
theorem inStep_upholds : Upholds debug (InStep debug) True (GoodBlock debug) (35 ≤ ·) where
  zero := .inr (by decide)
  put hfs hs buf := hfs.putData hs buf
  blockSector := keeps_blockSector
  readInode i := keeps_readInode i
  writeInode := keeps_writeInode
  allocateInode := keeps_allocateInode
  allocateBlock := keeps_allocateBlock
  freeInode i := keeps_freeInode i
  freeBlock b := keeps_freeBlock b

/-! ## Reopening -/

theorem InStep.persistent (h : InStep debug fs) : Persistent debug fs := by
  have hopen : «open» fs.disk = .ok { fs with log := [] } := by
    unfold «open»
    rw [h.superblock, h.inodes, h.blocks]
    simp [h.magic, h.version]
  -- reopening changes the log only, and no reader looks at it
  have hsame : ∀ i, SameInode i fs { fs with log := [] } := SameInode.of_disk_eq rfl rfl
  exact ⟨_, hopen, rfl, rfl, rfl, fun i => (hsame i).readInode.outcome_eq,
    fun i name => ((hsame i).lookupInDir name).outcome_eq, fun i => (hsame i).readdir.outcome_eq,
    fun i offset len => ((hsame i).readFile offset len).outcome_eq⟩

theorem inStep_create {disk : Nat → Memory} (hdisk : NoWrap debug disk)
    (h : create disk = .ok () fs) : InStep debug fs := by
  obtain ⟨hd, hsb, hinodes, hblocks⟩ := create_fields h
  refine ⟨?_, by rw [hsb]; rfl, by rw [hsb]; rfl, by rw [hsb]; rfl, by rw [hsb]; decide, ?_, ?_, ?_⟩
  · rw [hd, hsb]
    exact newSuperblock_decode disk
  · rw [hd, hinodes]
    rfl
  · rw [hd, hblocks]
    rfl
  · intro i hlo hhi
    refine ⟨by simp [record, HomeInode.decode], hdisk.imp id fun hslots => ?_⟩
    by_cases hi : i = 1
    · rw [hi, record_root hd]
      decide
    · -- `create` changes no other record
      have hsame : fs.record i = HomeInode.decode (disk (inodeSector i)) (inodeOffset i) := by
        have hsector := inodeSector_bounds hhi
        unfold record
        rw [hd]
        unfold formatted
        rw [if_neg (by omega)]
        by_cases hthree : inodeSector i = 3
        · rw [if_pos hthree, hthree]
          apply decode_keep
          intro a hlo' hhi'
          apply storeAt_outside
          rw [newRoot_encode_length]
          unfold inodeSector inodeOffset inodesPerSector inodeSize at *
          omega
        · rw [if_neg hthree, if_neg (by omega), if_neg (by omega), if_neg (by omega)]
      rw [hsame]
      exact hslots i (by omega) hhi

/-- In every run on a device without wrapping slots, opening the device gives the
running instance again. -/
theorem home_persistent {debug : Bool} {fs : HomeFs}
    (h : (callRuns debug (NoWrap debug)).Reachable fs) : Persistent debug fs := by
  have hind : (callRuns debug (NoWrap debug)).Inductive (InStep debug) := by
    refine ⟨?_, ?_⟩
    · rintro fs ⟨disk, hdisk, hcreate⟩
      exact inStep_create hdisk hcreate
    · rintro fs fs' hfs ⟨call, hrun⟩
      obtain ⟨hreturns, hthrows⟩ := ends_iff.mp (inStep_upholds.call call fs hfs)
      rcases hrun with hrun | ⟨e, hrun⟩
      · exact (hreturns _ _ hrun).2
      · exact (hthrows _ _ hrun).resolve_left (by simp)
  exact (hind.invariant fs h).persistent

theorem reachable_after {D : (Nat → Memory) → Prop} (h : (callRuns true D).Reachable fs) (op : Op)
    (hstep : (fs.step true op).isSome = true) : (callRuns true D).Reachable (fs.after op) :=
  h.step ⟨.op op, step_cases (step_after hstep)⟩

/-- A file on a device of zeros. -/
def newFile : HomeFs := (newHome fun _ => zeroSector).after (.createFile 1 letterA 0o644)

/-- The file is created and written. -/
theorem home_persistent_one_file :
    (newFile.after (.writeFile 2 0 [7])).superblock.freeBlocks = 987 ∧
      Persistent true (newFile.after (.writeFile 2 0 [7])) := by
  have hnew : (callRuns true (NoWrap true)).Reachable (newHome fun _ => zeroSector) :=
    .init ⟨_, .inl rfl, create_newHome _⟩
  have hfile : (callRuns true (NoWrap true)).Reachable newFile :=
    reachable_after hnew _ (by decide +kernel)
  exact ⟨by decide +kernel, home_persistent (reachable_after hfile _ (by decide +kernel))⟩

/-- A device whose record of inode 2, which `create` leaves as it is, is a file
with the slot `2 ^ 32 - 35`. -/
def wrappingDisk : Nat → Memory := fun i =>
  if i = 3 then
    storeAt zeroSector inodeSize
      (HomeInode.encode ⟨2, typeFile, 0, 0, 0, 0, 0, 1, [2 ^ 32 - 35, 0, 0, 0, 0, 0, 0, 0]⟩)
  else zeroSector

/-- In a release build, writing to that inode overwrites the superblock on the
device, and the device cannot be opened. -/
theorem write_wraps_onto_superblock : ∃ fs, (callRuns false fun _ => True).Reachable fs ∧
      «open» fs.disk = .error .corrupted ∧ ¬Persistent false fs := by
  have hinit : (callRuns false fun _ => True).Reachable (newHome wrappingDisk) :=
    .init ⟨_, trivial, create_newHome _⟩
  have hsome : ((newHome wrappingDisk).step false (.writeFile 2 0 [0])).any (fun fs' =>
      decide ((Superblock.decode (fs'.disk 0)).magic ≠ fsMagic)) = true := by decide +kernel
  obtain ⟨fs', hstep, hmagic⟩ := (Option.any_eq_true _ _).mp hsome
  have hopen : «open» fs'.disk = .error .corrupted := if_pos (of_decide_eq_true hmagic)
  refine ⟨fs', hinit.step ⟨.op _, step_cases hstep⟩, hopen, ?_⟩
  rintro ⟨reopened, hok, -⟩
  rw [hopen] at hok
  cases hok

end PandaOS.Kernel.HomeFs
