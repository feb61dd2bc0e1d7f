import PandaOS.Theorems.HomeWrite

/-!
# Failed creations

`create_file` and `create_directory` undo their own allocations when `add_dir_entry`
fails. What `add_dir_entry` itself took for a directory that is full stays taken if one
of its later steps fails.
-/

namespace PandaOS.Kernel.HomeFs

open Lib Function

variable {debug : Bool} {fs fs' : HomeFs} {j dir n sector childType s : Nat} {name : Str}
  {undo : HomeM Unit} {Q : Nat → HomeFs → Prop} {E : HomeFault → HomeFs → Prop}

/-! ## Looking for room in a directory -/

/-- The body of the loop of `add_dir_entry`. -/
def enterIn (newEntry : DirEntry) (sector index : Nat) (entry : DirEntry) (acc : Unit) :
    HomeM (ForInStep Unit) := do
  if entry.inode = 0 then
    writeDirEntry sector index newEntry
    pure (.done acc)
  else pure (.yield acc)

/-- The entries of a sector. -/
def entryAt (fs : HomeFs) (sector j : Nat) : DirEntry :=
  DirEntry.decode (fs.disk sector) (j * dirEntrySize)

theorem readDirEntry_run (hs : sector < totalSectors) (hj : j < entriesPerBlock) :
    Returns (readDirEntry sector j) fs (fs.entryAt sector j) fs := by
  unfold readDirEntry
  refine (readSector_returns hs).bind ?_
  rw [entryGuard hj]
  exact (pure_returns () fs).bind (pure_returns _ fs)

theorem writeDirEntry_run (hs : sector < totalSectors)
    (hj : j < entriesPerBlock) (e : DirEntry) : Returns (writeDirEntry sector j e) fs ()
      (fs.putSector sector (storeAt (fs.disk sector) (j * dirEntrySize) e.encode)) := by
  unfold writeDirEntry
  refine (readSector_returns hs).bind ?_
  rw [entryGuard hj]
  exact (pure_returns () fs).bind (writeSector_returns hs _)

section

variable {newEntry : DirEntry} {sector : Nat} {indices : List Nat}
  (hindices : ∀ j ∈ indices, j < entriesPerBlock)
include hindices

theorem enterIn_full (hs : sector < totalSectors)
    (hlive : ∀ j ∈ indices, (fs.entryAt sector j).inode ≠ 0) :
    Returns (forEntries sector (enterIn newEntry) indices ()) fs (.yield ()) fs := by
  induction indices with
  | nil => rfl
  | cons j rest ih =>
    unfold forEntries
    refine (readDirEntry_run hs (hindices j List.mem_cons_self)).bind ?_
    unfold enterIn
    rw [if_neg (hlive j List.mem_cons_self)]
    refine (pure_returns _ fs).bind ?_
    exact ih (fun k hk => hindices k (List.mem_cons_of_mem _ hk)) fun k hk =>
      hlive k (List.mem_cons_of_mem _ hk)

theorem enterIn_room (hs : sector < totalSectors)
    (hfree : ∃ j ∈ indices, (fs.entryAt sector j).inode = 0) :
    ∃ fs', Returns (forEntries sector (enterIn newEntry) indices ()) fs (.done ()) fs' := by
  induction indices with
  | nil => simp at hfree
  | cons j rest ih =>
    have hj := hindices j List.mem_cons_self
    by_cases hzero : (fs.entryAt sector j).inode = 0
    · refine ⟨fs.putSector sector (storeAt (fs.disk sector) (j * dirEntrySize) newEntry.encode), ?_⟩
      unfold forEntries
      refine (readDirEntry_run hs hj).bind ?_
      have hbody : Returns (enterIn newEntry sector j (fs.entryAt sector j) ()) fs (.done ())
          (fs.putSector sector (storeAt (fs.disk sector) (j * dirEntrySize) newEntry.encode)) := by
        unfold enterIn
        rw [if_pos hzero]
        exact (writeDirEntry_run hs hj newEntry).bind (pure_returns _ _)
      exact hbody.bind (pure_returns _ _)
    · have hrest : ∃ k ∈ rest, (fs.entryAt sector k).inode = 0 := by
        obtain ⟨k, hk, hkzero⟩ := hfree
        rcases List.mem_cons.mp hk with rfl | hk
        · exact absurd hkzero hzero
        · exact ⟨k, hk, hkzero⟩
      obtain ⟨fs', hrun⟩ := ih (fun k hk => hindices k (List.mem_cons_of_mem _ hk)) hrest
      refine ⟨fs', ?_⟩
      unfold forEntries
      refine (readDirEntry_run hs hj).bind ?_
      unfold enterIn
      rw [if_neg hzero]
      exact (pure_returns _ fs).bind hrun

end

/-- The block can be read and all its entries are in use. -/
structure LiveBlock (debug : Bool) (fs : HomeFs) (b : Nat) : Prop where
  addressable : ¬(debug = true ∧ 2 ^ 32 ≤ fs.superblock.firstDataBlock + b)
  inRange : fs.sectorOf b < totalSectors
  live : ∀ j < entriesPerBlock, (fs.entryAt (fs.sectorOf b) j).inode ≠ 0

section

variable {newEntry : DirEntry} {slots : List Nat}

theorem enterIn_forBlocks_full (hlive : ∀ b ∈ slots, LiveBlock debug fs b) :
    Returns (forBlocks debug false (enterIn newEntry) slots ()) fs (.yield ()) fs := by
  induction slots with
  | nil => rfl
  | cons b rest ih =>
    obtain ⟨haddr, hin, hentries⟩ := hlive b List.mem_cons_self
    unfold forBlocks
    rw [if_neg (by simp)]
    rcases blockSector_cases debug fs b with ⟨hover, -⟩ | ⟨-, hsector⟩
    · exact absurd hover haddr
    · refine hsector.bind ((enterIn_full (fun j hj => List.mem_range.mp hj) hin fun j hj =>
        hentries j (List.mem_range.mp hj)).bind ?_)
      exact ih fun c hc => hlive c (List.mem_cons_of_mem _ hc)

/-- A block that is not full ends the search, by an entry or an error. -/
theorem enterIn_forBlocks_room (hnot : ¬∀ b ∈ slots, LiveBlock debug fs b) :
    Ends (forBlocks debug false (enterIn newEntry) slots ()) fs (fun r _ => r = .done ())
      fun e fs' => e = .panic ∨ fs' = fs := by
  induction slots with
  | nil => simp at hnot
  | cons b rest ih =>
    unfold forBlocks
    rw [if_neg (by simp), ends_bind]
    rcases blockSector_cases debug fs b with ⟨-, hsector⟩ | ⟨haddr, hsector⟩
    · exact hsector.ends (.inl rfl)
    · refine hsector.ends ?_
      rw [ends_bind]
      by_cases hin : fs.sectorOf b < totalSectors
      · by_cases hfree : ∃ j ∈ List.range entriesPerBlock, (fs.entryAt (fs.sectorOf b) j).inode = 0
        · obtain ⟨fs', hrun⟩ := enterIn_room (fun j hj => List.mem_range.mp hj) hin hfree
          exact hrun.ends rfl
        · have hlive : ∀ j ∈ List.range entriesPerBlock, (fs.entryAt (fs.sectorOf b) j).inode ≠ 0 :=
            fun j hj hzero => hfree ⟨j, hj, hzero⟩
          refine (enterIn_full (fun j hj => List.mem_range.mp hj) hin hlive).ends
            (ih fun hrest => hnot ?_)
          intro c hc
          rcases List.mem_cons.mp hc with rfl | hc
          · exact ⟨haddr, hin, fun j hj => hlive j (List.mem_range.mpr hj)⟩
          · exact hrest c hc
      · -- the first entry cannot be read
        have hthrows : Throws (forEntries (fs.sectorOf b) (enterIn newEntry)
            (List.range entriesPerBlock) ()) fs (.err .ioError) fs := by
          show Throws (forEntries (fs.sectorOf b) (enterIn newEntry) [0, 1] ()) fs _ fs
          unfold forEntries readDirEntry
          exact throws_bind.mpr
            (.inl (throws_bind.mpr (.inl (readSector_throws (Nat.not_lt.mp hin)))))
        exact hthrows.ends (.inr rfl)

end

/-! ## Adding an entry -/

/-- `add_dir_entry` needs a new block for the directory and can take block `b`. -/
structure NeedsBlock (debug : Bool) (fs : HomeFs) (dir : Nat) (name : Str) (b : Nat) : Prop where
  name_ok : (name.bytes.isEmpty || decide (maxFilenameLen < name.bytes.length)) = false
  absent : ∃ e, outcome (lookupInDir debug dir name) fs = .error (.err e)
  inode : 0 < dir ∧ dir ≤ maxInodes
  directory : (fs.record dir).fileType = typeDirectory
  full : ∀ b ∈ usedSlots (fs.record dir), LiveBlock debug fs b
  few : (fs.record dir).blocksUsed < maxDirectBlocks
  block : fs.nextBlock = some b

/-- It takes a block and then fails: the block lies beyond the device, or the directory's
record does not carry the number of an inode. -/
def LosesBlock (debug : Bool) (fs : HomeFs) (dir : Nat) (name : Str) : Prop :=
  ∃ b, NeedsBlock debug fs dir name b ∧
    ¬(debug = true ∧ 2 ^ 32 ≤ fs.superblock.firstDataBlock + b) ∧
    (totalSectors ≤ fs.sectorOf b ∨ ¬(0 < (fs.record dir).inodeNum ∧
      (fs.record dir).inodeNum ≤ maxInodes))

/-- The bitmaps and counters are those after a block was taken. -/
def LostBlock (fs fs' : HomeFs) : Prop :=
  ∃ b, fs.nextBlock = some b ∧ fs'.blockBitmap = setBit fs.blockBitmap b ∧
    fs'.inodeBitmap = fs.inodeBitmap ∧ fs'.superblock = (fs.takeBlock b).superblock

theorem isInDir_exact : Ends (isInDir debug dir name) fs (fun found fs' => fs' = fs ∧
      (found = false ↔ ∃ e, outcome (lookupInDir debug dir name) fs = .error (.err e)))
    fun e _ => e = .panic ∧ ¬∃ e, outcome (lookupInDir debug dir name) fs = .error (.err e) := by
  have hself : SameInode dir fs fs := SameInode.of_disk_eq rfl rfl dir
  unfold isInDir
  rw [ends_tryCatch, ends_bind]
  rcases hself.lookupInDir name with ⟨i, hrun, -⟩ | ⟨e, hrun, -⟩
  · refine hrun.ends ?_
    rw [hrun.outcome_eq]
    exact ⟨rfl, by simp⟩
  · refine hrun.ends ?_
    rw [hrun.outcome_eq]
    cases e with
    | err e => exact ⟨rfl, by simp⟩
    | panic => exact ⟨rfl, by simp⟩

/-- The end of `add_dir_entry`, with a new block for the directory. -/
def enterInNewBlock (debug : Bool) (inode : HomeInode) (newEntry : DirEntry) : HomeM Unit := do
  failIf (maxDirectBlocks ≤ inode.blocksUsed) (.err .noSpace)
  let newBlock ← allocateBlock debug
  let dirInode := grown inode newBlock
  let sector ← blockSector debug newBlock
  writeSector sector zeroSector
  writeDirEntry sector 0 newEntry
  writeInode dirInode

/-- Where `L` holds the call fails and leaves `R`. Elsewhere it returns, panics or fails
and leaves `P`. -/
abbrev LosesIf (L : Prop) (P R : HomeFs → Prop) (x : HomeM α) (fs : HomeFs) : Prop :=
  Ends x fs (fun _ _ => ¬L) fun e fs' =>
    (¬L ∧ (e = .panic ∨ P fs')) ∨ (L ∧ (∃ err, e = .err err) ∧ R fs')

theorem enterInNewBlock_exact {newEntry : DirEntry}
    (hneeds : ∀ b, (fs.record dir).blocksUsed < maxDirectBlocks → fs.nextBlock = some b →
      NeedsBlock debug fs dir name b) :
    LosesIf (LosesBlock debug fs dir name) (· = fs) (LostBlock fs)
      (enterInNewBlock debug (fs.record dir) newEntry) fs := by
  unfold LosesIf enterInNewBlock
  rw [ends_bind, ends_failIf_iff]
  refine ⟨fun hfew => ?_, fun hmany => .inl ⟨?_, .inr rfl⟩⟩
  · have hfew : (fs.record dir).blocksUsed < maxDirectBlocks := by simpa using hfew
    rw [ends_bind]
    cases hnext : fs.nextBlock with
    | none =>
      refine (allocateBlock_throws hnext).ends (.inl ⟨?_, .inr rfl⟩)
      rintro ⟨b, hb, -⟩
      cases hnext.symm.trans hb.block
    | some b =>
      have hneeds := hneeds b hfew hnext
      have hfirst : (fs.takeBlock b).superblock.firstDataBlock = fs.superblock.firstDataBlock :=
        takeBlock_firstDataBlock b
      have hsector : (fs.takeBlock b).sectorOf b = fs.sectorOf b := by
        unfold sectorOf
        rw [hfirst]
      -- the block is the one that is lost, if one is
      have hloses : LosesBlock debug fs dir name ↔
          ¬(debug = true ∧ 2 ^ 32 ≤ fs.superblock.firstDataBlock + b) ∧
            (totalSectors ≤ fs.sectorOf b ∨
            ¬(0 < (fs.record dir).inodeNum ∧ (fs.record dir).inodeNum ≤ maxInodes)) := by
        constructor
        · rintro ⟨c, hc, hlost⟩
          obtain rfl : b = c := Option.some.inj (hnext.symm.trans hc.block)
          exact hlost
        · exact fun hlost => ⟨b, hneeds, hlost⟩
      have hlost : ∀ {fs' : HomeFs}, fs'.blockBitmap = (fs.takeBlock b).blockBitmap →
          fs'.inodeBitmap = (fs.takeBlock b).inodeBitmap →
          fs'.superblock = (fs.takeBlock b).superblock → LostBlock fs fs' :=
        fun hblocks hinodes hsb => ⟨b, hnext, by rw [hblocks, takeBlock_blockBitmap],
          by rw [hinodes, takeBlock_inodeBitmap], hsb⟩
      refine (allocateBlock_returns hnext).ends ?_
      dsimp only
      rw [ends_bind]
      rcases blockSector_cases debug (fs.takeBlock b) b with ⟨hover, hrun⟩ | ⟨haddr, hrun⟩
      · rw [hfirst] at hover
        exact hrun.ends (.inl ⟨fun h => (hloses.mp h).1 hover, .inl rfl⟩)
      · rw [hfirst] at haddr
        refine hrun.ends ?_
        rw [hsector, ends_bind]
        by_cases hin : fs.sectorOf b < totalSectors
        · refine (writeSector_returns hin _).ends ?_
          refine (writeDirEntry_run hin (by decide) _).seq ?_
          by_cases hnum : 0 < (fs.record dir).inodeNum ∧ (fs.record dir).inodeNum ≤ maxInodes
          · refine (writeInode_returns (r := grown (fs.record dir) b) hnum.1 hnum.2).ends
              fun h => ?_
            rcases (hloses.mp h).2 with hout | hbad
            · omega
            · exact hbad hnum
          · refine (writeInode_throws (r := grown (fs.record dir) b) hnum).ends
              (.inr ⟨?_, ⟨_, rfl⟩, hlost rfl rfl rfl⟩)
            exact hloses.mpr ⟨haddr, .inr hnum⟩
        · have hout := Nat.not_lt.mp hin
          refine (writeSector_throws hout _).ends (.inr ⟨?_, ⟨_, rfl⟩, hlost rfl rfl rfl⟩)
          exact hloses.mpr ⟨haddr, .inl hout⟩
  · rintro ⟨b, hb, -⟩
    have := hb.few
    simp at hmany
    omega

/-- `add_dir_entry` fails without a trace, unless it loses a block. -/
theorem addDirEntry_exact {child : Nat} :
    LosesIf (LosesBlock debug fs dir name) (· = fs) (LostBlock fs)
      (addDirEntry debug dir name child childType) fs := by
  unfold LosesIf addDirEntry
  rw [ends_bind, ends_failIf_iff]
  refine ⟨fun hname => ?_, fun hname => .inl ⟨?_, .inr rfl⟩⟩
  · refine isInDir_exact.bind ?_ ?_
    · rintro found fs' ⟨hsame, hfound⟩
      obtain rfl := hsame.symm
      rw [ends_bind, ends_failIf_iff]
      refine ⟨fun habsent => ?_, fun hthere => .inl ⟨?_, .inr rfl⟩⟩
      · refine (readDirectory_ends dir).bind ?_ ?_
        · rintro _ fs' ⟨⟨rfl, hsame⟩, hdir, htype⟩
          obtain rfl := hsame.symm
          rw [ends_bind]
          -- a block can be lost only where a new one is taken
          by_cases hfull : ∀ b ∈ usedSlots (fs.record dir), LiveBlock debug fs b
          · refine (enterIn_forBlocks_full hfull).ends
              (enterInNewBlock_exact fun b hfew hnext => ?_)
            exact ⟨hname, hfound.mp habsent, hdir, htype, hfull, hfew, hnext⟩
          · have hkept : ¬LosesBlock debug fs dir name := by
              rintro ⟨b, hneeds, -⟩
              exact hfull hneeds.full
            refine (enterIn_forBlocks_room hfull).mono ?_ fun e fs' hends => .inl ⟨hkept, hends⟩
            rintro _ fs' rfl
            exact hkept
        · rintro e _ ⟨⟨-, rfl⟩, hnot⟩
          refine .inl ⟨?_, .inr rfl⟩
          rintro ⟨b, hneeds, -⟩
          exact hnot ⟨hneeds.inode, hneeds.directory⟩
      · rintro ⟨b, hneeds, -⟩
        rw [hfound.mpr hneeds.absent] at hthere
        cases hthere
    · rintro e fs' ⟨rfl, hpanic⟩
      refine .inl ⟨?_, .inl rfl⟩
      rintro ⟨b, hneeds, -⟩
      exact hpanic hneeds.absent
  · rintro ⟨b, hneeds, -⟩
    rw [hneeds.name_ok] at hname
    cases hname

/-! ## Undoing a creation -/

/-- What a creation that failed has to leave as it was. -/
structure Undone (debug : Bool) (fs fs' : HomeFs) : Prop where
  inodeBitmap : fs'.inodeBitmap = fs.inodeBitmap
  blockBitmap : fs'.blockBitmap = fs.blockBitmap
  freeInodes : fs'.superblock.freeInodes = fs.superblock.freeInodes
  freeBlocks : fs'.superblock.freeBlocks = fs.superblock.freeBlocks
  records : ∀ j, fs.Allocated j → fs'.record j = fs.record j
  files : ∀ j, fs.Allocated j → ∀ offset len,
    outcome (readFile debug j offset len) fs' = outcome (readFile debug j offset len) fs
  directories : ∀ j, fs.Allocated j → outcome (readdir debug j) fs' = outcome (readdir debug j) fs

theorem Undone.refl (debug : Bool) (fs : HomeFs) : Undone debug fs fs :=
  ⟨rfl, rfl, rfl, rfl, fun _ _ => rfl, fun _ _ _ _ => rfl, fun _ _ => rfl⟩

theorem bitmap_ext {a b : Memory} (h : bitSet a = bitSet b) : a = b := by
  funext i
  apply BitVec.eq_of_getLsbD_eq
  intro k hk
  have hbit := congrFun h (i * 8 + k)
  unfold bitSet at hbit
  rwa [show (i * 8 + k) / 8 = i by omega, show (i * 8 + k) % 8 = k by omega] at hbit

theorem clearBit_setBit {bitmap : Memory} (h : bitSet bitmap n = false) :
    clearBit (setBit bitmap n) n = bitmap := by
  apply bitmap_ext
  rw [bitSet_clearBit, bitSet_setBit, update_idem, ← h, update_eq_self]

/-- The record `create_file` writes. -/
def fileRecord (n mode : Nat) : HomeInode where
  inodeNum := n
  fileType := typeFile
  mode := mode
  uid := 0
  gid := 0
  linkCount := 1
  size := 0
  blocksUsed := 0
  directBlocks := List.replicate maxDirectBlocks 0

/-- The record `create_directory` writes. -/
def directoryRecord (n b mode : Nat) : HomeInode where
  inodeNum := n
  fileType := typeDirectory
  mode := mode
  uid := 0
  gid := 0
  linkCount := 1
  size := blockSize
  blocksUsed := 1
  directBlocks := b :: List.replicate (maxDirectBlocks - 1) 0

/-- The file system in which `create_file` calls `add_dir_entry`. -/
def fileEntered (fs : HomeFs) (n mode : Nat) : HomeFs :=
  (fs.takeInode n).putInode (fileRecord n mode)

/-- The file system in which `create_directory` calls `add_dir_entry`. -/
def directoryEntered (fs : HomeFs) (n b parent mode : Nat) : HomeFs :=
  (((fs.takeInode n).takeBlock b).putSector (fs.sectorOf b) (dotBlock n parent)).putInode
    (directoryRecord n b mode)

theorem record_of_disk (h : fs'.disk (inodeSector j) = fs.disk (inodeSector j)) :
    fs'.record j = fs.record j := by
  unfold record
  rw [h]

section

variable {n b parent mode j : Nat}

@[simp] theorem fileEntered_fields : (fs.fileEntered n mode).inodeBitmap = setBit fs.inodeBitmap n ∧
    (fs.fileEntered n mode).blockBitmap = fs.blockBitmap ∧
    (fs.fileEntered n mode).superblock = (fs.takeInode n).superblock := ⟨rfl, rfl, rfl⟩

theorem fileEntered_disk (hn : n < maxInodes) (hs : 35 ≤ s) :
    (fs.fileEntered n mode).disk s = fs.disk s := by
  unfold fileEntered
  rw [putInode_disk hn.le hs, takeInode_disk _ (by omega)]

theorem fileEntered_record (hpos : 0 < n) (hj : 0 < j) (hjn : j ≠ n) (hhi : j ≤ maxInodes) :
    (fs.fileEntered n mode).record j = fs.record j := by
  unfold fileEntered
  rw [record_putInode_of_ne (by simp [fileRecord]) hpos hj hjn]
  exact record_of_disk (takeInode_disk _ (inodeSector_bounds hhi).1)

@[simp] theorem directoryEntered_fields :
    (fs.directoryEntered n b parent mode).inodeBitmap = setBit fs.inodeBitmap n ∧
    (fs.directoryEntered n b parent mode).blockBitmap = setBit fs.blockBitmap b ∧
    (fs.directoryEntered n b parent mode).superblock = ((fs.takeInode n).takeBlock b).superblock :=
  ⟨rfl, rfl, rfl⟩

theorem directoryEntered_disk (hn : n < maxInodes) (hs : 35 ≤ s)
    (hb : s ≠ fs.sectorOf b) : (fs.directoryEntered n b parent mode).disk s = fs.disk s := by
  unfold directoryEntered
  rw [putInode_disk hn.le hs, putSector_disk_ne _ hb, takeBlock_disk _ (by omega),
    takeInode_disk _ (by omega)]

theorem directoryEntered_record (hpos : 0 < n) (hj : 0 < j) (hjn : j ≠ n) (hhi : j ≤ maxInodes)
    (hb : 35 ≤ fs.sectorOf b) : (fs.directoryEntered n b parent mode).record j = fs.record j := by
  have hsector := inodeSector_bounds hhi
  unfold directoryEntered
  rw [record_putInode_of_ne (by simp [directoryRecord, maxDirectBlocks]) hpos hj hjn]
  apply record_of_disk
  rw [putSector_disk_ne _ (by omega), takeBlock_disk _ hsector.1, takeInode_disk _ hsector.1]

end

/-- An allocated inode is not the one that was handed out. -/
theorem Allocated.ne_nextInode (hj : fs.Allocated j) (hnext : fs.nextInode = some n) : j ≠ n := by
  rintro rfl
  have hclear := (nextInode_spec hnext).2.2
  rw [hj.2.2] at hclear
  cases hclear

/-- A decrement and an increment of 32 bits. -/
theorem counter_restored {x : Nat} (h : x < 2 ^ 32) :
    ((x + 2 ^ 32 - 1) % 2 ^ 32 + 1) % 2 ^ 32 = x := by
  omega

section

variable {mode n b parent : Nat} (hslots : SlotsDistinct fs) (hapart : DataApart fs)
  (hinodes : fs.superblock.freeInodes < 2 ^ 32) (hblocks : fs.superblock.freeBlocks < 2 ^ 32)

include hslots in
/-- Readers of allocated inodes see their records and marked blocks only. -/
theorem undone_of (hinodeBitmap : fs'.inodeBitmap = fs.inodeBitmap)
    (hblockBitmap : fs'.blockBitmap = fs.blockBitmap)
    (hfreeInodes : fs'.superblock.freeInodes = fs.superblock.freeInodes)
    (hfreeBlocks : fs'.superblock.freeBlocks = fs.superblock.freeBlocks)
    (hfirst : fs'.superblock.firstDataBlock = fs.superblock.firstDataBlock)
    (hrecords : ∀ j, fs.Allocated j → fs'.record j = fs.record j)
    (hdisk : ∀ c < maxDataBlocks, bitSet fs.blockBitmap c = true →
      fs'.disk (fs.sectorOf c) = fs.disk (fs.sectorOf c)) : Undone debug fs fs' := by
  have hsame : ∀ j, fs.Allocated j → SameInode j fs fs' :=
    fun j hj => ⟨hfirst, hrecords j hj, fun c hc =>
    hdisk c (slot_marked hslots hj hc).2.1 (slot_marked hslots hj hc).2.2⟩
  exact ⟨hinodeBitmap, hblockBitmap, hfreeInodes, hfreeBlocks, hrecords,
    fun j hj offset len => ((hsame j hj).readFile offset len).outcome_eq,
    fun j hj => (hsame j hj).readdir.outcome_eq⟩

include hslots hapart hinodes

/-- Giving back the inode of a file. -/
theorem undone_file (hnext : fs.nextInode = some n) :
    Undone debug fs ((fs.fileEntered n mode).dropInode n) := by
  obtain ⟨-, ⟨hpos, hn⟩, hclear⟩ := nextInode_spec hnext
  refine undone_of hslots ?_ ?_ ?_ ?_ ?_ (fun j hj => ?_) fun c hc _ => ?_
  · simp [clearBit_setBit hclear]
  · simp
  · exact counter_restored hinodes
  · simp
  · simp
  · exact (record_of_disk (dropInode_disk _ (inodeSector_bounds hj.2.1.le).1)).trans
      (fileEntered_record hpos hj.1 (hj.ne_nextInode hnext) hj.2.1.le)
  · have hsector := (sectorOf_eq hapart hc).2
    rw [dropInode_disk _ (by omega), fileEntered_disk hn hsector]

/-- Giving back the inode of a directory that got no block. -/
theorem undone_inode (hnext : fs.nextInode = some n) :
    Undone debug fs ((fs.takeInode n).dropInode n) := by
  refine undone_of hslots ?_ ?_ ?_ ?_ ?_ (fun j hj => ?_) fun c hc _ => ?_
  · simp [clearBit_setBit (nextInode_spec hnext).2.2]
  · simp
  · exact counter_restored hinodes
  · simp
  · simp
  · have hsector := (inodeSector_bounds hj.2.1.le).1
    exact record_of_disk ((dropInode_disk _ hsector).trans (takeInode_disk _ hsector))
  · have hsector := (sectorOf_eq hapart hc).2
    rw [dropInode_disk _ (by omega), takeInode_disk _ (by omega)]

include hblocks

/-- Giving back the block and the inode of a directory. -/
theorem undone_directory (hnext : fs.nextInode = some n) (hblock : fs.nextBlock = some b) :
    Undone debug fs (((fs.directoryEntered n b parent mode).dropBlock b).dropInode n) := by
  obtain ⟨-, ⟨hpos, hn⟩, hclear⟩ := nextInode_spec hnext
  obtain ⟨-, hb, hfree, -⟩ := nextBlock_spec hblock
  have hsectorb := sectorOf_eq hapart hb
  refine undone_of hslots ?_ ?_ ?_ ?_ ?_ (fun j hj => ?_) fun c hc hmarked => ?_
  · simp [clearBit_setBit hclear]
  · simp [clearBit_setBit hfree]
  · exact counter_restored hinodes
  · simp only [dropInode_freeBlocks, dropBlock_freeBlocks, directoryEntered_fields,
      takeBlock_freeBlocks, takeInode_freeBlocks, counter_restored hblocks]
  · simp
  · have hsector := (inodeSector_bounds hj.2.1.le).1
    exact (record_of_disk ((dropInode_disk _ hsector).trans (dropBlock_disk _ hsector))).trans
      (directoryEntered_record hpos hj.1 (hj.ne_nextInode hnext) hj.2.1.le hsectorb.2)
  · have hsectorc := sectorOf_eq hapart hc
    have hne : fs.sectorOf c ≠ fs.sectorOf b := by
      intro heq
      obtain rfl : c = b := by omega
      rw [hfree] at hmarked
      cases hmarked
    rw [dropInode_disk _ (by omega), dropBlock_disk _ (by omega),
      directoryEntered_disk hn hsectorc.2 hne]

end

/-- `create_file` takes a block for the parent and then fails. -/
def FileLoses (debug : Bool) (fs : HomeFs) (dir : Nat) (name : Str) (mode : Nat) : Prop :=
  ∃ n, fs.nextInode = some n ∧ LosesBlock debug (fs.fileEntered n mode) dir name

/-- `create_directory` fails after it took its own block, which lies beyond the device, or
after it took one for the parent. -/
def DirectoryLoses (debug : Bool) (fs : HomeFs) (parent : Nat) (name : Str) (mode : Nat) : Prop :=
  ∃ n b, fs.nextInode = some n ∧ fs.nextBlock = some b ∧
    (totalSectors ≤ fs.sectorOf b ∨
      LosesBlock debug (fs.directoryEntered n b parent mode) parent name)

section

variable {mode parent : Nat} {name : Str} (hslots : SlotsDistinct fs) (hapart : DataApart fs)
  (hinodes : fs.superblock.freeInodes < 2 ^ 32) (hblocks : fs.superblock.freeBlocks < 2 ^ 32)

theorem rollback_freeInode_returns (hn : 0 < n ∧ n < maxInodes)
    (hset : bitSet fs.inodeBitmap n = true) (hcount : fs.superblock.freeInodes + 1 < 2 ^ 32) :
    Returns (rollback (freeInode debug n)) fs () (fs.dropInode n) := by
  refine returns_tryCatch.mpr
    (.inl ((freeInode_exact n).mono (fun _ _ h => ⟨rfl, h.2⟩) ?_).returns_eq)
  rintro e _ (⟨-, hnot⟩ | ⟨-, hover⟩)
  · exact hnot ⟨hn.1, hn.2, hset⟩
  · omega

theorem rollback_freeBlock_returns {b : Nat} (hb : b < maxDataBlocks)
    (hset : bitSet fs.blockBitmap b = true) (hcount : fs.superblock.freeBlocks + 1 < 2 ^ 32) :
    Returns (rollback (freeBlock debug b)) fs () (fs.dropBlock b) := by
  refine returns_tryCatch.mpr
    (.inl ((freeBlock_exact b).mono (fun _ _ h => ⟨rfl, h.2⟩) ?_).returns_eq)
  rintro e _ (⟨-, hnot⟩ | ⟨-, hover⟩)
  · exact hnot ⟨hb, hset⟩
  · omega

theorem orUndo_returns {x : HomeM α} {a : α}
    (h : Returns x fs a fs') : Returns (orUndo x undo) fs a fs' :=
  returns_tryCatch.mpr (.inl h)

theorem nextBlock_takeInode (n : Nat) : (fs.takeInode n).nextBlock = fs.nextBlock := by
  unfold nextBlock
  rw [takeInode_freeBlocks, takeInode_blockBitmap]

/-- `add_dir_entry` with the undoing of what was done before it. The undoing runs in the
same state, or in one in which a block is lost. -/
theorem orUndo_addDirEntry {child : Nat} {P R : HomeFs → Prop}
    (hclean : Ends undo fs (fun _ => P) fun _ _ => False)
    (hlost : ∀ fs', LostBlock fs fs' → Ends undo fs' (fun _ => R) fun _ _ => False) :
    LosesIf (LosesBlock debug fs dir name) P R
      (orUndo (addDirEntry debug dir name child childType) undo) fs := by
  unfold LosesIf orUndo
  rw [ends_tryCatch]
  refine addDirEntry_exact.mono (fun _ _ hkept => hkept) fun e fs' hfailed => ?_
  cases e with
  | panic =>
    rcases hfailed with ⟨hkept, -⟩ | ⟨-, ⟨err, herr⟩, -⟩
    · exact .inl ⟨hkept, .inl rfl⟩
    · cases herr
  | err err =>
    dsimp only
    rw [ends_bind]
    rcases hfailed with ⟨hkept, hpanic | rfl⟩ | ⟨hloses, -, hlose⟩
    · cases hpanic
    · exact hclean.mono (fun _ _ hP => .inl ⟨hkept, .inr hP⟩) fun _ _ hno => hno.elim
    · exact (hlost fs' hlose).mono (fun _ _ hR => .inr ⟨hloses, ⟨err, rfl⟩, hR⟩)
        fun _ _ hno => hno.elim

/-- What a block that was lost leaves: its bit is set. -/
theorem LostBlock.bit (h : LostBlock fs fs') :
    ∃ b, bitSet fs.blockBitmap b = false ∧ fs'.blockBitmap = setBit fs.blockBitmap b := by
  obtain ⟨b, hnext, hbits, -⟩ := h
  exact ⟨b, (nextBlock_spec hnext).2.2.1, hbits⟩

/-- `create_file`, by what it does in the parent. -/
theorem createFile_ends (hfull : fs.nextInode = none → E (.err .noSpace) fs)
    (henter : ∀ n, fs.nextInode = some n →
      Ends (orUndo (addDirEntry debug parent name n typeFile) (rollback (freeInode debug n)))
        (fs.fileEntered n mode) (fun _ => Q n) E) :
    Ends (createFile debug parent name mode) fs Q E := by
  unfold createFile
  rw [ends_bind]
  cases hnext : fs.nextInode with
  | none => exact (allocateInode_throws hnext).ends (hfull hnext)
  | some n =>
    obtain ⟨-, hn, -⟩ := nextInode_spec hnext
    refine (allocateInode_returns hnext).ends ?_
    refine (writeInode_returns (r := fileRecord n mode) hn.1 hn.2.le).seq ?_
    exact ends_bind.mpr (henter n hnext)

include hapart in
/-- `create_directory`, by what it does in the parent. -/
theorem createDirectory_ends (hfull : fs.nextInode = none → E (.err .noSpace) fs)
    (hnoBlock : ∀ n, fs.nextInode = some n → fs.nextBlock = none →
      Ends (rollback (freeInode debug n)) (fs.takeInode n) (fun _ => E (.err .noSpace)) E)
    (hbeyond : ∀ n b, fs.nextInode = some n → fs.nextBlock = some b → totalSectors ≤ fs.sectorOf b →
      E (.err .ioError) ((fs.takeInode n).takeBlock b))
    (henter : ∀ n b, fs.nextInode = some n → fs.nextBlock = some b → fs.sectorOf b < totalSectors →
      Ends (orUndo (addDirEntry debug parent name n typeDirectory) do
          rollback (freeBlock debug b)
          rollback (freeInode debug n))
        (fs.directoryEntered n b parent mode) (fun _ => Q n) E) :
    Ends (createDirectory debug parent name mode) fs Q E := by
  unfold createDirectory
  rw [ends_bind]
  cases hnext : fs.nextInode with
  | none => exact (allocateInode_throws hnext).ends (hfull hnext)
  | some n =>
    obtain ⟨-, hn, -⟩ := nextInode_spec hnext
    refine (allocateInode_returns hnext).ends ?_
    have hsame : (fs.takeInode n).nextBlock = fs.nextBlock := nextBlock_takeInode n
    rw [ends_bind]
    -- without a block the inode is given back
    cases hblock : fs.nextBlock with
    | none =>
      unfold orUndo
      rw [ends_tryCatch]
      refine (allocateBlock_throws (hsame.trans hblock)).ends ?_
      exact ends_bind.mpr (hnoBlock n hnext hblock)
    | some b =>
      refine (orUndo_returns (allocateBlock_returns (hsame.trans hblock))).ends ?_
      have hhi := hapart.2
      have hb := (nextBlock_spec hblock).2.1
      rw [ends_bind]
      rcases blockSector_cases debug ((fs.takeInode n).takeBlock b) b with ⟨hover, -⟩ | ⟨-, hrun⟩
      · simp only [takeBlock_firstDataBlock, takeInode_firstDataBlock] at hover
        omega
      · refine hrun.ends ?_
        have hsector : ((fs.takeInode n).takeBlock b).sectorOf b = fs.sectorOf b := by
          simp [sectorOf]
        rw [hsector, ends_bind]
        by_cases hin : fs.sectorOf b < totalSectors
        · refine (writeSector_returns hin _).ends ?_
          refine (writeInode_returns (r := directoryRecord n b mode) hn.1 hn.2.le).seq ?_
          exact ends_bind.mpr (henter n b hnext hblock hin)
        · have hout := Nat.not_lt.mp hin
          exact (writeSector_throws hout _).ends (hbeyond n b hnext hblock hout)

include hslots hapart hinodes

theorem createFile_exact : LosesIf (FileLoses debug fs parent name mode) (Undone debug fs)
    (·.blockBitmap ≠ fs.blockBitmap) (createFile debug parent name mode) fs := by
  refine createFile_ends (fun hnext => .inl ⟨by simp [FileLoses, hnext], .inr (.refl debug fs)⟩)
    fun n hnext => ?_
  obtain ⟨hpos, hn, -⟩ := nextInode_spec hnext
  have hcount : (fs.fileEntered n mode).superblock.freeInodes + 1 < 2 ^ 32 := by
    rw [fileEntered_fields.2.2, takeInode_freeInodes]
    omega
  have hloses : FileLoses debug fs parent name mode ↔
      LosesBlock debug (fs.fileEntered n mode) parent name := by simp [FileLoses, hnext]
  rw [hloses]
  refine orUndo_addDirEntry ?_ fun fs' hlost => ?_
  · exact (rollback_freeInode_returns hn (by simp) hcount).ends
      (undone_file hslots hapart hinodes hnext)
  · obtain ⟨c, hclear, hbits⟩ := hlost.bit
    obtain ⟨b, -, -, hsame, hsb⟩ := hlost
    have hcount' : fs'.superblock.freeInodes + 1 < 2 ^ 32 := by rwa [hsb, takeBlock_freeInodes]
    refine (rollback_freeInode_returns hn (by simp [hsame]) hcount').ends fun heq => ?_
    -- the block that was free is marked
    have hset : bitSet fs.blockBitmap c = true := by
      rw [← heq]
      simp [hbits]
    cases hclear.symm.trans hset

include hblocks

theorem createDirectory_exact : LosesIf (DirectoryLoses debug fs parent name mode) (Undone debug fs)
    (·.blockBitmap ≠ fs.blockBitmap) (createDirectory debug parent name mode) fs := by
  have hcount : ∀ {n}, fs.superblock.freeInodes ≠ 0 →
      (fs.takeInode n).superblock.freeInodes + 1 < 2 ^ 32 := by
    intro n hpos
    rw [takeInode_freeInodes]
    omega
  refine createDirectory_ends hapart
    (fun hnext => .inl ⟨by simp [DirectoryLoses, hnext], .inr (.refl debug fs)⟩)
    (fun n hnext hblock => ?_) (fun n b hnext hblock hout => .inr ⟨?_, ⟨_, rfl⟩, fun heq => ?_⟩)
    fun n b hnext hblock hin => ?_
  · obtain ⟨hpos, hn, -⟩ := nextInode_spec hnext
    refine (rollback_freeInode_returns hn (by simp) (hcount hpos)).ends (.inl ⟨?_, .inr ?_⟩)
    · simp [DirectoryLoses, hblock]
    · exact undone_inode hslots hapart hinodes hnext
  · exact ⟨n, b, hnext, hblock, .inl hout⟩
  · have hset : bitSet fs.blockBitmap b = true := by
      rw [← heq]
      simp
    cases (nextBlock_spec hblock).2.2.1.symm.trans hset
  · obtain ⟨hpos, hn, -⟩ := nextInode_spec hnext
    obtain ⟨hposb, hb, -⟩ := nextBlock_spec hblock
    have hcountb : (fs.directoryEntered n b parent mode).superblock.freeBlocks + 1 < 2 ^ 32 := by
      rw [directoryEntered_fields.2.2, takeBlock_freeBlocks, takeInode_freeBlocks]
      omega
    have hcounti : (fs.directoryEntered n b parent mode).superblock.freeInodes + 1 < 2 ^ 32 := by
      rw [directoryEntered_fields.2.2, takeBlock_freeInodes]
      exact hcount hpos
    have hloses : DirectoryLoses debug fs parent name mode ↔
        LosesBlock debug (fs.directoryEntered n b parent mode) parent name := by
      simp [DirectoryLoses, hnext, hblock, hin]
    rw [hloses]
    refine orUndo_addDirEntry ?_ fun fs' hlost => ?_
    · refine (rollback_freeBlock_returns hb (by simp) hcountb).seq ?_
      refine (rollback_freeInode_returns hn (by simp) (by rwa [dropBlock_freeInodes])).ends ?_
      exact undone_directory hslots hapart hinodes hblocks hnext hblock
    · -- block `c` was clear when `b` was marked already
      obtain ⟨c, hclear, hbits⟩ := hlost.bit
      obtain ⟨c', hnextc, -, hsame, hsb⟩ := hlost
      have hcb : c ≠ b := by
        rintro rfl
        simp at hclear
      have hcounti' : fs'.superblock.freeInodes + 1 < 2 ^ 32 := by
        rwa [hsb, takeBlock_freeInodes]
      have hcountc : fs'.superblock.freeBlocks + 1 < 2 ^ 32 := by
        rw [hsb, freeBlocks_takeBlock (by omega) (nextBlock_spec hnextc).1]
        omega
      refine (rollback_freeBlock_returns hb (by simp [hbits, hcb.symm]) hcountc).seq ?_
      refine (rollback_freeInode_returns hn (by simp [hsame]) (by rwa [dropBlock_freeInodes])).ends
        fun heq => ?_
      have hset : bitSet fs.blockBitmap c = true := by
        rw [← heq]
        simp [hbits, hcb]
      simp [hcb, hset] at hclear

end

/-- A program that returns only if `L` is false, and fails cleanly or loses a block as `L`
says. -/
theorem undone_iff {x : HomeM α} {L : Prop}
    (h : LosesIf L (Undone debug fs) (·.blockBitmap ≠ fs.blockBitmap) x fs) :
    (∀ e fs', Throws x fs (.err e) fs' → Undone debug fs fs') ↔ ¬L := by
  constructor
  · intro hundone hlost
    rcases h.cases with ⟨a, fs', -, hkept⟩ | ⟨e, fs', hrun, ⟨hkept, -⟩ | ⟨-, ⟨err, rfl⟩, hbits⟩⟩
    · exact hkept hlost
    · exact hkept hlost
    · exact hbits (hundone err fs' hrun).blockBitmap
  · intro hkept e fs' hrun
    rcases hrun.of_ends h with ⟨-, hpanic | hundone⟩ | ⟨hlost, -⟩
    · cases hpanic
    · exact hundone
    · exact absurd hlost hkept

/-- A creation that fails leaves everything as it was, exactly if `add_dir_entry` does not
lose a block on the way (and, for a directory, its own block lies on the device). The two
counters have 32 bits. -/
theorem failed_creation_undone_iff (hslots : SlotsDistinct fs) (hapart : DataApart fs)
    (hinodes : fs.superblock.freeInodes < 2 ^ 32) (hblocks : fs.superblock.freeBlocks < 2 ^ 32)
    (parent : Nat) (name : Str) (mode : Nat) :
    ((∀ e fs', Throws (createFile debug parent name mode) fs (.err e) fs' → Undone debug fs fs') ↔
      ¬FileLoses debug fs parent name mode) ∧
    ((∀ e fs', Throws (createDirectory debug parent name mode) fs (.err e) fs' →
      Undone debug fs fs') ↔ ¬DirectoryLoses debug fs parent name mode) :=
  ⟨undone_iff (createFile_exact hslots hapart hinodes),
    undone_iff (createDirectory_exact hslots hapart hinodes hblocks)⟩

/-- Inode 2 is an empty directory whose record carries the number 0. -/
def strayDirectory : HomeFs :=
  { oneFile with
    disk := fun _ => storeAt zeroSector 64
      (HomeInode.encode ⟨0, typeDirectory, 0o755, 0, 0, 1, 0, 0, List.replicate 8 0⟩) }

theorem strayDirectory_slots : SlotsDistinct strayDirectory := by
  have hempty : ∀ {k b}, ¬strayDirectory.HoldsBlock 2 k b := by
    have hslots : usedSlots (strayDirectory.record 2) = [] := by decide
    intro k b
    unfold HoldsBlock
    rw [hslots]
    simp
  exact ⟨fun hi hb => absurd (oneFile_allocated hi ▸ hb) hempty,
    fun hi _ hb _ => absurd (oneFile_allocated hi ▸ hb) hempty, by decide⟩

/-- The directory's new block is lost when its record cannot be written. -/
theorem directory_block_lost : SlotsDistinct strayDirectory ∧ DataApart strayDirectory ∧
    ∃ fs', Throws (createFile true 2 letterA 0o644) strayDirectory (.err .invalidArgument) fs' ∧
      bitSet strayDirectory.blockBitmap 1 = false ∧ bitSet fs'.blockBitmap 1 = true ∧
      ¬Undone true strayDirectory fs' := by
  refine ⟨strayDirectory_slots, oneFile_apart, ?_⟩
  have hrun : (match (createFile true 2 letterA 0o644).run strayDirectory with
      | .error (.err .invalidArgument) fs' => bitSet fs'.blockBitmap 1
      | _ => false) = true := by decide +kernel
  split at hrun
  · rename_i fs' hthrows
    refine ⟨fs', hthrows, by decide, hrun, fun hundone => ?_⟩
    rw [hundone.blockBitmap] at hrun
    exact absurd hrun (by decide)
  · cases hrun

/-- A file for a parent is refused without a trace. -/
theorem failed_creation_undone_file :
    ∃ e fs', Throws (createFile true 2 letterA 0o644) oneFile (.err e) fs' ∧
    Undone true oneFile fs' := by
  have hkept : ¬FileLoses true oneFile 2 letterA 0o644 := by
    rintro ⟨n, hn, b, hneeds, -⟩
    have hnext : oneFile.nextInode = some 1 := by decide
    obtain rfl : n = 1 := Option.some.inj (hn.symm.trans hnext)
    exact absurd hneeds.directory (by decide)
  have hthrown : thrown (createFile true 2 letterA 0o644) oneFile = some (.err .notDirectory) := by
    decide +kernel
  obtain ⟨fs', hrun⟩ := throws_of_thrown hthrown
  exact ⟨_, fs', hrun, (failed_creation_undone_iff oneFile_slots oneFile_apart
    (by decide) (by decide) 2 letterA 0o644).1.mpr hkept _ fs' hrun⟩

end PandaOS.Kernel.HomeFs
