import PandaOS.Kernel.Process
import PandaOS.Lib.Bytes
import PandaOS.Lib.Run
import PandaOS.Lib.TSys

/-!
# The home file system

`homefs.rs` over a block device of 1024 sectors without faults: an access beyond
the last sector fails, any other succeeds. A sector is a byte memory of which the
first 512 bytes count, and every sector write is also logged, so that a crash is
a prefix of the log. Arithmetic on `u32` and `usize` panics on overflow in a debug
build and wraps around otherwise.

The records are kept as the source lays them out. `Superblock` is declared four
bytes longer than a sector; only its twelve fields are modelled, which lie within
the first 48 bytes.
-/

namespace PandaOS.Kernel

open Lib

inductive HomeFsError
  | ioError | notFound | alreadyExists | notDirectory | isDirectory | noSpace | invalidArgument
  | notEmpty | corrupted
  deriving DecidableEq, Repr

/-- Why an operation of the home file system stops. -/
inductive HomeFault
  | err (e : HomeFsError)
  | panic
  deriving DecidableEq, Repr

def fsMagic : Nat := 0x50414E44
def fsVersion : Nat := 2
def blockSize : Nat := 512
def maxDirectBlocks : Nat := 8
def inodeSize : Nat := 64
def inodesPerSector : Nat := 8
def dirEntrySize : Nat := 256
def entriesPerBlock : Nat := 2
def maxFilenameLen : Nat := 248
def totalSectors : Nat := 1024
def maxInodes : Nat := 256
def maxDataBlocks : Nat := totalSectors - 35

structure Superblock where
  magic : Nat
  version : Nat
  blockSize : Nat
  totalBlocks : Nat
  inodeCount : Nat
  freeBlocks : Nat
  freeInodes : Nat
  firstDataBlock : Nat
  inodeBitmapSector : Nat
  blockBitmapSector : Nat
  inodeTableSector : Nat
  rootInode : Nat
  deriving DecidableEq, Repr

structure HomeInode where
  inodeNum : Nat
  fileType : Nat
  mode : Nat
  uid : Nat
  gid : Nat
  linkCount : Nat
  size : Nat
  blocksUsed : Nat
  directBlocks : List Nat
  deriving DecidableEq, Repr

structure DirEntry where
  inode : Nat
  nameLen : Nat
  fileType : Nat
  /-- The 248 bytes of the name field. -/
  name : List Byte
  deriving DecidableEq, Repr

/-- `FileType::File as u32`. -/
def typeFile : Nat := 1

/-- `FileType::Directory as u32`. -/
def typeDirectory : Nat := 2

structure HomeFs where
  disk : Nat → Memory
  /-- The sector writes issued so far, oldest first. -/
  log : List (Nat × Memory)
  superblock : Superblock
  inodeBitmap : Memory
  blockBitmap : Memory

abbrev HomeM := EStateM HomeFault HomeFs

/-! ## Records -/

namespace Superblock

def fields (sb : Superblock) : List Nat :=
  [sb.magic, sb.version, sb.blockSize, sb.totalBlocks, sb.inodeCount, sb.freeBlocks, sb.freeInodes,
    sb.firstDataBlock, sb.inodeBitmapSector, sb.blockBitmapSector,
      sb.inodeTableSector, sb.rootInode]

/-- The bytes `write_superblock` puts in the sector. -/
def encode (sb : Superblock) : List Byte := sb.fields.flatMap (fieldBytes 4)

def decode (buf : Memory) : Superblock where
  magic := fieldAt buf 0 4
  version := fieldAt buf 4 4
  blockSize := fieldAt buf 8 4
  totalBlocks := fieldAt buf 12 4
  inodeCount := fieldAt buf 16 4
  freeBlocks := fieldAt buf 20 4
  freeInodes := fieldAt buf 24 4
  firstDataBlock := fieldAt buf 28 4
  inodeBitmapSector := fieldAt buf 32 4
  blockBitmapSector := fieldAt buf 36 4
  inodeTableSector := fieldAt buf 40 4
  rootInode := fieldAt buf 44 4

end Superblock

namespace HomeInode

def encode (i : HomeInode) : List Byte :=
  fieldBytes 4 i.inodeNum ++ fieldBytes 4 i.fileType ++ fieldBytes 2 i.mode ++ fieldBytes 2 i.uid ++
    fieldBytes 2 i.gid ++ fieldBytes 2 i.linkCount ++ fieldBytes 4 i.size ++
    fieldBytes 4 i.blocksUsed ++ i.directBlocks.flatMap (fieldBytes 4) ++ List.replicate 8 0

def decode (buf : Memory) (offset : Nat) : HomeInode where
  inodeNum := fieldAt buf offset 4
  fileType := fieldAt buf (offset + 4) 4
  mode := fieldAt buf (offset + 8) 2
  uid := fieldAt buf (offset + 10) 2
  gid := fieldAt buf (offset + 12) 2
  linkCount := fieldAt buf (offset + 14) 2
  size := fieldAt buf (offset + 16) 4
  blocksUsed := fieldAt buf (offset + 20) 4
  directBlocks := (List.range maxDirectBlocks).map fun j => fieldAt buf (offset + 24 + 4 * j) 4

end HomeInode

namespace DirEntry

def encode (e : DirEntry) : List Byte :=
  fieldBytes 4 e.inode ++ fieldBytes 1 e.nameLen ++ fieldBytes 1 e.fileType ++
    fieldBytes 2 0 ++ e.name

def decode (buf : Memory) (offset : Nat) : DirEntry where
  inode := fieldAt buf offset 4
  nameLen := fieldAt buf (offset + 4) 1
  fileType := fieldAt buf (offset + 5) 1
  name := (List.range maxFilenameLen).map fun j => buf (offset + 8 + j)

/-- An entry for a name of at most 248 bytes. -/
def named (inode : Nat) (name : List Byte) (fileType : Nat) : DirEntry where
  inode := inode
  nameLen := name.length
  fileType := fileType
  name := name ++ List.replicate (maxFilenameLen - name.length) 0

/-- The entry `remove_dir_entry` leaves. -/
def empty : DirEntry := ⟨0, 0, 0, List.replicate maxFilenameLen 0⟩

end DirEntry

def dotName : List Byte := [0x2E]

def dotDotName : List Byte := [0x2E, 0x2E]

/-- The bytes of an entry's name. -/
def DirEntry.bytes (e : DirEntry) : List Byte := e.name.take e.nameLen

/-- An entry `.` or `..`. -/
def DirEntry.IsDot (e : DirEntry) : Prop := e.bytes = dotName ∨ e.bytes = dotDotName

instance (e : DirEntry) : Decidable e.IsDot := inferInstanceAs (Decidable (_ ∨ _))

/-- A continuation byte of UTF-8. -/
def isContinuation (b : Byte) : Bool := 0x80 ≤ b.toNat && b.toNat ≤ 0xBF

/-- `core::str::from_utf8` accepts the bytes. -/
def validUtf8 : List Byte → Bool
  | [] => true
  | a :: rest =>
    if a.toNat < 0x80 then validUtf8 rest
    else
      match rest with
      | [] => false
      | b :: rest =>
        if 0xC2 ≤ a.toNat ∧ a.toNat ≤ 0xDF then isContinuation b && validUtf8 rest
        else
          match rest with
          | [] => false
          | c :: rest =>
            if 0xE0 ≤ a.toNat ∧ a.toNat ≤ 0xEF then
              isContinuation b && (a.toNat ≠ 0xE0 || 0xA0 ≤ b.toNat) &&
                (a.toNat ≠ 0xED || b.toNat ≤ 0x9F) && isContinuation c && validUtf8 rest
            else
              match rest with
              | [] => false
              | d :: rest =>
                0xF0 ≤ a.toNat && a.toNat ≤ 0xF4 && isContinuation b &&
                  (a.toNat ≠ 0xF0 || 0x90 ≤ b.toNat) && (a.toNat ≠ 0xF4 || b.toNat ≤ 0x8F) &&
                  isContinuation c && isContinuation d && validUtf8 rest

/-- A `&str`: bytes that are valid UTF-8. -/
structure Str where
  bytes : List Byte
  valid : validUtf8 bytes = true

namespace HomeFs

variable (debug : Bool)

/-- `a + b` in `w` bits. -/
def addBits (w a b : Nat) : HomeM Nat := do
  failIf (debug && decide (2 ^ w ≤ a + b)) .panic
  pure ((a + b) % 2 ^ w)

/-- `a - b` in `w` bits. -/
def subBits (w a b : Nat) : HomeM Nat := do
  failIf (debug && decide (a < b)) .panic
  pure ((a + 2 ^ w - b) % 2 ^ w)

/-! ## The device -/

def readSector (sector : Nat) : HomeM Memory := do
  failIf (totalSectors ≤ sector) (.err .ioError)
  pure ((← get).disk sector)

/-- The state after a sector is written. -/
def putSector (fs : HomeFs) (sector : Nat) (buf : Memory) : HomeFs :=
  { fs with
    disk := fun i => if i = sector then buf else fs.disk i
    log := fs.log ++ [(sector, buf)] }

def writeSector (sector : Nat) (buf : Memory) : HomeM Unit := do
  failIf (totalSectors ≤ sector) (.err .ioError)
  modify (·.putSector sector buf)

def zeroSector : Memory := fun _ => 0

def writeSuperblock : HomeM Unit := do
  let sb := (← get).superblock
  writeSector 0 (storeAt zeroSector 0 sb.encode)

/-! ## Inodes -/

def inodeSector (inodeNum : Nat) : Nat := 3 + (inodeNum - 1) / inodesPerSector

def inodeOffset (inodeNum : Nat) : Nat := (inodeNum - 1) % inodesPerSector * inodeSize

def readInode (inodeNum : Nat) : HomeM HomeInode := do
  failIf (inodeNum = 0 || maxInodes < inodeNum) (.err .invalidArgument)
  let buf ← readSector (inodeSector inodeNum)
  pure (HomeInode.decode buf (inodeOffset inodeNum))

/-- The inode's own number says where it is written. -/
def writeInode (inode : HomeInode) : HomeM Unit := do
  failIf (inode.inodeNum = 0 || maxInodes < inode.inodeNum) (.err .invalidArgument)
  let buf ← readSector (inodeSector inode.inodeNum)
  writeSector (inodeSector inode.inodeNum)
    (storeAt buf (inodeOffset inode.inodeNum) inode.encode)

/-! ## Bitmaps -/

def bitSet (bitmap : Memory) (n : Nat) : Bool := (bitmap (n / 8)).getLsbD (n % 8)

def setBit (bitmap : Memory) (n : Nat) : Memory := fun i =>
  if i = n / 8 then bitmap i ||| ((1 : Byte) <<< (n % 8)) else bitmap i

def clearBit (bitmap : Memory) (n : Nat) : Memory := fun i =>
  if i = n / 8 then bitmap i &&& ~~~((1 : Byte) <<< (n % 8)) else bitmap i

/-- The scan of `allocate_inode` and `allocate_block`: the first clear bit of the
first `bytes` bytes whose number is accepted. -/
def firstFree (bitmap : Memory) (bytes : Nat) (accepted : Nat → Bool) : Option Nat :=
  (List.range bytes).findSome? fun byteIdx =>
    if bitmap byteIdx = 0xFF then none
    else (List.range 8).findSome? fun bit =>
      let n := byteIdx * 8 + bit
      if (bitmap byteIdx).getLsbD bit then none else if accepted n then some n else none

def allocateInode : HomeM Nat := do
  let fs ← get
  failIf (fs.superblock.freeInodes = 0) (.err .noSpace)
  match firstFree fs.inodeBitmap 32 fun n => n ≠ 0 && decide (n < maxInodes) with
  | none => throw (.err .noSpace)
  | some inodeNum =>
    let freeInodes ← subBits debug 32 fs.superblock.freeInodes 1
    modify fun fs => { fs with
      inodeBitmap := setBit fs.inodeBitmap inodeNum
      superblock := { fs.superblock with freeInodes := freeInodes } }
    writeSector 1 (← get).inodeBitmap
    writeSuperblock
    pure inodeNum

def freeInode (inodeNum : Nat) : HomeM Unit := do
  failIf (inodeNum = 0 || maxInodes ≤ inodeNum) (.err .invalidArgument)
  let fs ← get
  failIf (!bitSet fs.inodeBitmap inodeNum) (.err .invalidArgument)
  -- the bit is cleared before the counter is raised
  modify fun fs => { fs with inodeBitmap := clearBit fs.inodeBitmap inodeNum }
  let freeInodes ← addBits debug 32 fs.superblock.freeInodes 1
  modify fun fs => { fs with superblock := { fs.superblock with freeInodes := freeInodes } }
  writeSector 1 (← get).inodeBitmap
  writeSuperblock

def allocateBlock : HomeM Nat := do
  let fs ← get
  failIf (fs.superblock.freeBlocks = 0) (.err .noSpace)
  match firstFree fs.blockBitmap (maxDataBlocks / 8) fun n => decide (n < maxDataBlocks) with
  | none => throw (.err .noSpace)
  | some blockNum =>
    let freeBlocks ← subBits debug 32 fs.superblock.freeBlocks 1
    modify fun fs => { fs with
      blockBitmap := setBit fs.blockBitmap blockNum
      superblock := { fs.superblock with freeBlocks := freeBlocks } }
    writeSector 2 (← get).blockBitmap
    writeSuperblock
    pure blockNum

def freeBlock (blockNum : Nat) : HomeM Unit := do
  failIf (maxDataBlocks ≤ blockNum) (.err .invalidArgument)
  let fs ← get
  failIf (!bitSet fs.blockBitmap blockNum) (.err .invalidArgument)
  modify fun fs => { fs with blockBitmap := clearBit fs.blockBitmap blockNum }
  let freeBlocks ← addBits debug 32 fs.superblock.freeBlocks 1
  modify fun fs => { fs with superblock := { fs.superblock with freeBlocks := freeBlocks } }
  writeSector 2 (← get).blockBitmap
  writeSuperblock

/-! ## Directories -/

/-- `self.superblock.first_data_block + block_num`. -/
def blockSector (blockNum : Nat) : HomeM Nat := do
  addBits debug 32 (← get).superblock.firstDataBlock blockNum

def readDirEntry (sector index : Nat) : HomeM DirEntry := do
  let buf ← readSector sector
  failIf (blockSize < index * dirEntrySize + dirEntrySize) (.err .invalidArgument)
  pure (DirEntry.decode buf (index * dirEntrySize))

def writeDirEntry (sector index : Nat) (entry : DirEntry) : HomeM Unit := do
  let buf ← readSector sector
  failIf (blockSize < index * dirEntrySize + dirEntrySize) (.err .invalidArgument)
  writeSector sector (storeAt buf (index * dirEntrySize) entry.encode)

/-- The slots a loop over `0..blocks_used` with a break at `MAX_DIRECT_BLOCKS`
visits. -/
def usedSlots (inode : HomeInode) : List Nat := inode.directBlocks.take inode.blocksUsed

/-- The loop over the entries of a block, from entry `index` on. -/
def forEntries (sector : Nat) (f : Nat → Nat → DirEntry → β → HomeM (ForInStep β)) :
    List Nat → β → HomeM (ForInStep β)
  | [], acc => pure (.yield acc)
  | index :: rest, acc => do
    let entry ← readDirEntry sector index
    match ← f sector index entry acc with
    | .done acc => pure (.done acc)
    | .yield acc => forEntries sector f rest acc

/-- The loop over a directory's blocks; with `stopAtZero` a slot that is 0 ends it. -/
def forBlocks (stopAtZero : Bool) (f : Nat → Nat → DirEntry → β → HomeM (ForInStep β)) :
    List Nat → β → HomeM (ForInStep β)
  | [], acc => pure (.yield acc)
  | blockNum :: rest, acc =>
    if stopAtZero ∧ blockNum = 0 then pure (.yield acc)
    else do
      let sector ← blockSector debug blockNum
      match ← forEntries sector f (List.range entriesPerBlock) acc with
      | .done acc => pure (.done acc)
      | .yield acc => forBlocks stopAtZero f rest acc

/-- An entry's name; slicing more than the name field panics. -/
def entryName (entry : DirEntry) : HomeM (List Byte) := do
  failIf (maxFilenameLen < entry.nameLen) .panic
  let name := entry.name.take entry.nameLen
  failIf (!validUtf8 name) (.err .corrupted)
  pure name

def readDirectory (inodeNum : Nat) : HomeM HomeInode := do
  let inode ← readInode inodeNum
  failIf (inode.fileType ≠ typeDirectory) (.err .notDirectory)
  pure inode

def lookupInDir (dirInodeNum : Nat) (name : Str) : HomeM Nat := do
  failIf (maxFilenameLen < name.bytes.length) (.err .invalidArgument)
  let dirInode ← readDirectory dirInodeNum
  let found ← forBlocks debug true (fun _ _ entry acc => do
    if entry.inode = 0 then pure (.yield acc)
    else
      let entryName ← entryName entry
      if entryName = name.bytes then pure (.done (some entry.inode)) else pure (.yield acc))
    (usedSlots dirInode) none
  match found with
  | .done (some inode) => pure inode
  | _ => throw (.err .notFound)

/-- Whether `lookup_in_dir` returns `Ok`; a panic stays a panic. -/
def isInDir (dirInodeNum : Nat) (name : Str) : HomeM Bool :=
  tryCatch (do let _ ← lookupInDir debug dirInodeNum name; pure true) fun
    | .err _ => pure false
    | .panic => throw .panic

def addDirEntry (dirInodeNum : Nat) (name : Str) (childInode childType : Nat) : HomeM Unit := do
  failIf (name.bytes.isEmpty || decide (maxFilenameLen < name.bytes.length)) (.err .invalidArgument)
  failIf (← isInDir debug dirInodeNum name) (.err .alreadyExists)
  let dirInode ← readDirectory dirInodeNum
  let newEntry := DirEntry.named childInode name.bytes childType
  let found ← forBlocks debug false (fun sector index entry acc => do
    if entry.inode = 0 then
      writeDirEntry sector index newEntry
      pure (.done acc)
    else pure (.yield acc))
    (usedSlots dirInode) ()
  match found with
  | .done _ => pure ()
  | .yield _ => do
    failIf (maxDirectBlocks ≤ dirInode.blocksUsed) (.err .noSpace)
    let newBlock ← allocateBlock debug
    let dirInode := { dirInode with
      directBlocks := dirInode.directBlocks.set dirInode.blocksUsed newBlock
      blocksUsed := dirInode.blocksUsed + 1
      size := (dirInode.blocksUsed + 1) * blockSize }
    let sector ← blockSector debug newBlock
    writeSector sector zeroSector
    writeDirEntry sector 0 newEntry
    writeInode dirInode

def removeDirEntry (dirInodeNum : Nat) (name : Str) : HomeM Unit := do
  let dirInode ← readDirectory dirInodeNum
  let found ← forBlocks debug true (fun sector index entry acc => do
    if entry.inode = 0 then pure (.yield acc)
    else
      let entryName ← entryName entry
      if entryName = name.bytes then
        writeDirEntry sector index DirEntry.empty
        pure (.done acc)
      else pure (.yield acc))
    (usedSlots dirInode) ()
  match found with
  | .done _ => pure ()
  | .yield _ => throw (.err .notFound)

/-- The name and the type of each live entry. -/
def readdir (dirInodeNum : Nat) : HomeM (List (Nat × List Byte × Nat)) := do
  let dirInode ← readDirectory dirInodeNum
  let found ← forBlocks debug true (fun _ _ entry acc => do
    if entry.inode = 0 then pure (.yield acc)
    else
      let name ← entryName entry
      failIf (entry.fileType ≠ typeFile && entry.fileType ≠ typeDirectory) (.err .corrupted)
      pure (.yield (acc ++ [(entry.inode, name, entry.fileType)])))
    (usedSlots dirInode) []
  match found with
  | .done acc => pure acc
  | .yield acc => pure acc

/-! ## Files -/

/-- The loops that free an inode's blocks, skipping slots that are 0. -/
def freeBlocks : List Nat → HomeM Unit
  | [] => pure ()
  | blockNum :: rest => do
    if blockNum ≠ 0 then freeBlock debug blockNum
    freeBlocks rest

/-- Undo a step of a creation that failed, ignoring errors. -/
def rollback (x : HomeM Unit) : HomeM Unit :=
  tryCatch x fun
    | .err _ => pure ()
    | .panic => throw .panic

/-- Run `x`; if it fails, run `undo` and fail as it did. -/
def orUndo (x : HomeM α) (undo : HomeM Unit) : HomeM α :=
  tryCatch x fun
    | .err e => do
      undo
      throw (.err e)
    | .panic => throw .panic

def createFile (dirInodeNum : Nat) (name : Str) (mode : Nat) : HomeM Nat := do
  let inodeNum ← allocateInode debug
  writeInode
    { inodeNum := inodeNum, fileType := typeFile, mode := mode, uid := 0, gid := 0, linkCount := 1,
      size := 0, blocksUsed := 0, directBlocks := List.replicate maxDirectBlocks 0 }
  orUndo (addDirEntry debug dirInodeNum name inodeNum typeFile)
    (rollback (freeInode debug inodeNum))
  pure inodeNum

/-- The block of a new directory. -/
def dotBlock (inodeNum parentInodeNum : Nat) : Memory :=
  storeAt (storeAt zeroSector 0 (DirEntry.named inodeNum dotName typeDirectory).encode) dirEntrySize
    (DirEntry.named parentInodeNum dotDotName typeDirectory).encode

def createDirectory (parentInodeNum : Nat) (name : Str) (mode : Nat) : HomeM Nat := do
  let inodeNum ← allocateInode debug
  let blockNum ← orUndo (allocateBlock debug) (rollback (freeInode debug inodeNum))
  let sector ← blockSector debug blockNum
  writeSector sector (dotBlock inodeNum parentInodeNum)
  writeInode
    { inodeNum := inodeNum, fileType := typeDirectory, mode := mode, uid := 0, gid := 0,
      linkCount := 1, size := blockSize, blocksUsed := 1,
      directBlocks := blockNum :: List.replicate (maxDirectBlocks - 1) 0 }
  orUndo (addDirEntry debug parentInodeNum name inodeNum typeDirectory) do
    rollback (freeBlock debug blockNum)
    rollback (freeInode debug inodeNum)
  pure inodeNum

def readFileInode (inodeNum : Nat) : HomeM HomeInode := do
  let inode ← readInode inodeNum
  failIf (inode.fileType ≠ typeFile) (.err .isDirectory)
  pure inode

/-- The loop of `read_file`; `fuel` bounds its turns, each of which reads a byte
or more. -/
def readLoop (inode : HomeInode) (offset toRead : Nat) : Nat → List Byte → HomeM (List Byte)
  | 0, done => pure done
  | fuel + 1, done =>
    if toRead ≤ done.length then pure done
    else do
      let blockIdx := (offset + done.length) / blockSize
      let blockOffset := (offset + done.length) % blockSize
      if maxDirectBlocks ≤ blockIdx ∨ inode.blocksUsed ≤ blockIdx then pure done
      else
        let blockNum := inode.directBlocks.getD blockIdx 0
        if blockNum = 0 then pure done
        else
          let sector ← blockSector debug blockNum
          let buf ← readSector sector
          let chunkSize := min (blockSize - blockOffset) (toRead - done.length)
          readLoop inode offset toRead fuel
            (done ++ (List.range chunkSize).map fun j => buf (blockOffset + j))

/-- The bytes read into a buffer of `len` bytes. -/
def readFile (inodeNum offset len : Nat) : HomeM (List Byte) := do
  let inode ← readFileInode inodeNum
  if inode.size ≤ offset then pure []
  else
    let toRead := min len (inode.size - offset)
    readLoop debug inode offset toRead toRead []

/-- The loop of `write_file` that allocates blocks. -/
def growLoop (blocksNeeded : Nat) : Nat → HomeInode → HomeM HomeInode
  | 0, inode => pure inode
  | fuel + 1, inode =>
    if blocksNeeded ≤ inode.blocksUsed then pure inode
    else do
      let newBlock ← allocateBlock debug
      growLoop blocksNeeded fuel { inode with
        directBlocks := inode.directBlocks.set inode.blocksUsed newBlock
        blocksUsed := inode.blocksUsed + 1 }

/-- The loop of `write_file` that writes data; it returns the bytes written. -/
def writeLoop (inode : HomeInode) (offset : Nat) (data : List Byte) : Nat → Nat → HomeM Nat
  | 0, written => pure written
  | fuel + 1, written =>
    if data.length ≤ written then pure written
    else do
      let pos ← addBits debug 64 offset written
      let blockIdx := pos / blockSize
      let blockOffset := pos % blockSize
      if maxDirectBlocks ≤ blockIdx then pure written
      else
        let blockNum := inode.directBlocks.getD blockIdx 0
        if blockNum = 0 then pure written
        else
          let sector ← blockSector debug blockNum
          let buf ← readSector sector
          let chunkSize := min (blockSize - blockOffset) (data.length - written)
          writeSector sector (storeAt buf blockOffset ((data.drop written).take chunkSize))
          writeLoop inode offset data fuel (written + chunkSize)

def writeFile (inodeNum offset : Nat) (data : List Byte) : HomeM Nat := do
  let inode ← readFileInode inodeNum
  let endOffset ← addBits debug 64 offset data.length
  let rounded ← addBits debug 64 endOffset blockSize
  let rounded ← subBits debug 64 rounded 1
  let blocksNeeded := rounded / blockSize
  failIf (maxDirectBlocks < blocksNeeded) (.err .noSpace)
  let inode ← growLoop debug blocksNeeded maxDirectBlocks inode
  let written ← writeLoop debug inode offset data data.length 0
  writeInode (if inode.size < endOffset then { inode with size := endOffset % 2 ^ 32 } else inode)
  pure written

def unlinkFile (dirInodeNum : Nat) (name : Str) : HomeM Unit := do
  let fileInodeNum ← lookupInDir debug dirInodeNum name
  let fileInode ← readInode fileInodeNum
  failIf (fileInode.fileType = typeDirectory) (.err .isDirectory)
  freeBlocks debug (usedSlots fileInode)
  freeInode debug fileInodeNum
  removeDirEntry debug dirInodeNum name

def rmdir (parentInodeNum : Nat) (name : Str) : HomeM Unit := do
  let dirInodeNum ← lookupInDir debug parentInodeNum name
  let dirInode ← readDirectory dirInodeNum
  let count ← forBlocks debug true (fun _ _ entry acc =>
    if entry.inode = 0 then pure (.yield acc) else pure (.yield (acc + 1)))
    (usedSlots dirInode) 0
  match count with
  | .done count => failIf (2 < count) (.err .notEmpty)
  | .yield count => failIf (2 < count) (.err .notEmpty)
  freeBlocks debug (usedSlots dirInode)
  freeInode debug dirInodeNum
  removeDirEntry debug parentInodeNum name

def rename (oldDir : Nat) (oldName : Str) (newDir : Nat) (newName : Str) : HomeM Unit := do
  let inodeNum ← lookupInDir debug oldDir oldName
  let inode ← readInode inodeNum
  failIf (← isInDir debug newDir newName) (.err .alreadyExists)
  addDirEntry debug newDir newName inodeNum
    (if inode.fileType = typeDirectory then typeDirectory else typeFile)
  removeDirEntry debug oldDir oldName

def truncate (inodeNum : Nat) : HomeM Unit := do
  let inode ← readFileInode inodeNum
  freeBlocks debug (usedSlots inode)
  writeInode
    { inode with size := 0, blocksUsed := 0, directBlocks := List.replicate maxDirectBlocks 0 }

def chmod (inodeNum mode : Nat) : HomeM Unit := do
  let inode ← readInode inodeNum
  writeInode { inode with mode := mode % 512 }

/-! ## Creating and opening -/

def newSuperblock : Superblock where
  magic := fsMagic
  version := fsVersion
  blockSize := Kernel.blockSize
  totalBlocks := totalSectors
  inodeCount := maxInodes
  freeBlocks := maxDataBlocks - 1
  freeInodes := maxInodes - 1
  firstDataBlock := 35
  inodeBitmapSector := 1
  blockBitmapSector := 2
  inodeTableSector := 3
  rootInode := 1

def newRoot : HomeInode where
  inodeNum := 1
  fileType := typeDirectory
  mode := 0o755
  uid := 0
  gid := 0
  linkCount := 1
  size := Kernel.blockSize
  blocksUsed := 1
  directBlocks := [35, 0, 0, 0, 0, 0, 0, 0]

/-- The instance `create` works on, over a device with the contents `disk`. -/
def blank (disk : Nat → Memory) : HomeFs where
  disk := disk
  log := []
  superblock := newSuperblock
  inodeBitmap := setBit zeroSector 1
  blockBitmap := setBit zeroSector 0

/-- The writes of `create`. -/
def format : HomeM Unit := do
  let fs ← get
  writeSuperblock
  writeSector 1 fs.inodeBitmap
  writeSector 2 fs.blockBitmap
  writeInode newRoot
  writeSector 35 (dotBlock 1 1)

def create (disk : Nat → Memory) : EStateM.Result HomeFault HomeFs Unit := format.run (blank disk)

/-- `open` on a device with the contents `disk`. -/
def «open» (disk : Nat → Memory) : Except HomeFsError HomeFs :=
  let superblock := Superblock.decode (disk 0)
  if superblock.magic ≠ fsMagic then .error .corrupted
  else if superblock.version ≠ fsVersion then .error .invalidArgument
  else .ok ⟨disk, [], superblock, disk 1, disk 2⟩

/-! ## Runs -/

inductive Op
  | createFile (dir : Nat) (name : Str) (mode : Nat)
  | createDirectory (parent : Nat) (name : Str) (mode : Nat)
  | writeFile (inode offset : Nat) (data : List Byte)
  | truncate (inode : Nat)
  | unlinkFile (dir : Nat) (name : Str)
  | rmdir (parent : Nat) (name : Str)
  | rename (oldDir : Nat) (oldName : Str) (newDir : Nat) (newName : Str)
  | chmod (inode mode : Nat)

/-- The operation as a program, its result dropped. -/
def Op.call : Op → HomeM Unit
  | .createFile dir name mode => do let _ ← HomeFs.createFile debug dir name mode
  | .createDirectory parent name mode => do let _ ← HomeFs.createDirectory debug parent name mode
  | .writeFile inode offset data => do let _ ← HomeFs.writeFile debug inode offset data
  | .truncate inode => HomeFs.truncate debug inode
  | .unlinkFile dir name => HomeFs.unlinkFile debug dir name
  | .rmdir parent name => HomeFs.rmdir debug parent name
  | .rename oldDir oldName newDir newName => HomeFs.rename debug oldDir oldName newDir newName
  | .chmod inode mode => HomeFs.chmod inode mode

/-- What an operation leaves, whether it returns or fails; `none` after a panic. -/
def step (fs : HomeFs) (op : Op) : Option HomeFs :=
  match (op.call debug).run fs with
  | .ok _ fs' => some fs'
  | .error (.err _) fs' => some fs'
  | .error .panic _ => none

/-- Runs from a file system created on a device that satisfies `D`, whose
operations all satisfy `P`. -/
def runs (D : (Nat → Memory) → Prop) (P : HomeFs → Op → Prop) : TSys HomeFs where
  init fs := ∃ disk, D disk ∧ create disk = .ok () fs
  step fs fs' := ∃ op, P fs op ∧ fs.step debug op = some fs'

/-- The state after a list of operations, or the one a panic leaves. -/
def runOps : List Op → HomeFs → HomeFs
  | [], fs => fs
  | op :: ops, fs =>
    match (op.call debug).run fs with
    | .ok _ fs' => runOps ops fs'
    | .error (.err _) fs' => runOps ops fs'
    | .error .panic fs' => fs'

/-- Every call the file system offers. -/
inductive Call
  | op (op : Op)
  | addDirEntry (dir : Nat) (name : Str) (child : Nat) (isDir : Bool)
  | lookupInDir (dir : Nat) (name : Str)
  | readdir (dir : Nat)
  | readFile (inode offset len : Nat)

/-- The call as a program, its result dropped. -/
def Call.program : Call → HomeM Unit
  | .op o => o.call debug
  | .addDirEntry dir name child isDir =>
    HomeFs.addDirEntry debug dir name child (if isDir then typeDirectory else typeFile)
  | .lookupInDir dir name => do let _ ← HomeFs.lookupInDir debug dir name
  | .readdir dir => do let _ ← HomeFs.readdir debug dir
  | .readFile inode offset len => do let _ ← HomeFs.readFile debug inode offset len

/-- Runs of calls that return or fail, from a file system created on a device that
satisfies `D`. -/
def callRuns (D : (Nat → Memory) → Prop) : TSys HomeFs where
  init fs := ∃ disk, D disk ∧ create disk = .ok () fs
  step fs fs' := ∃ call : Call, Returns (call.program debug) fs () fs' ∨
    ∃ e, Throws (call.program debug) fs (.err e) fs'

/-- The state after a list of calls, or the one a panic leaves. -/
def runCalls : List Call → HomeFs → HomeFs
  | [], fs => fs
  | call :: calls, fs =>
    match (call.program debug).run fs with
    | .ok _ fs' => runCalls calls fs'
    | .error (.err _) fs' => runCalls calls fs'
    | .error .panic fs' => fs'

/-! ## Free counters -/

/-- The number of clear bits among the first `n`. -/
def clearBits (bitmap : Memory) (n : Nat) : Nat := (List.range n).countP fun b => !bitSet bitmap b

/-- Both counters are the numbers of clear bits. -/
structure CountersExact (fs : HomeFs) : Prop where
  blocks : fs.superblock.freeBlocks = clearBits fs.blockBitmap maxDataBlocks
  inodes : fs.superblock.freeInodes = clearBits fs.inodeBitmap maxInodes

/-- An allocator that has nothing left says so only if its counter is 0. -/
structure FullyUsable (fs : HomeFs) : Prop where
  blocks : outcome (allocateBlock debug) fs = .error (.err .noSpace) → fs.superblock.freeBlocks = 0
  inodes : outcome (allocateInode debug) fs = .error (.err .noSpace) → fs.superblock.freeInodes = 0

/-! ## Persistence -/

/-- Opening the device rebuilds the instance, and every reader answers alike. -/
def Persistent (fs : HomeFs) : Prop :=
  ∃ fs', «open» fs.disk = .ok fs' ∧ fs'.superblock = fs.superblock ∧
    fs'.inodeBitmap = fs.inodeBitmap ∧ fs'.blockBitmap = fs.blockBitmap ∧
    (∀ i, outcome (readInode i) fs' = outcome (readInode i) fs) ∧
    (∀ i name, outcome (lookupInDir debug i name) fs' = outcome (lookupInDir debug i name) fs) ∧
    (∀ i, outcome (readdir debug i) fs' = outcome (readdir debug i) fs) ∧
    ∀ i offset len, outcome (readFile debug i offset len) fs' =
      outcome (readFile debug i offset len) fs

/-- In a release build, no slot of an inode record that the device held before
`create` wraps around when `first_data_block` is added; the root's is overwritten. -/
def NoWrap (disk : Nat → Memory) : Prop :=
  debug = true ∨ ∀ i, 1 < i → i ≤ maxInodes →
    ∀ b ∈ (HomeInode.decode (disk (inodeSector i)) (inodeOffset i)).directBlocks, 35 + b < 2 ^ 32

/-! ## Block ownership -/

/-- The inode's bit is set. -/
def Allocated (fs : HomeFs) (i : Nat) : Prop :=
  0 < i ∧ i < maxInodes ∧ bitSet fs.inodeBitmap i = true

/-- The inode's record on the device. -/
def record (fs : HomeFs) (i : Nat) : HomeInode :=
  HomeInode.decode (fs.disk (inodeSector i)) (inodeOffset i)

/-- Slot `k` of inode `i` is below `blocks_used` and holds block number `b`. -/
def HoldsBlock (fs : HomeFs) (i k b : Nat) : Prop := (usedSlots (fs.record i))[k]? = some b

/-- A bit of the block bitmap is set exactly if one slot of one allocated inode
holds its block. -/
def BlocksOwned (fs : HomeFs) : Prop :=
  ∀ b < 8 * blockSize, bitSet fs.blockBitmap b = true ↔
    ∃! s : Nat × Nat, fs.Allocated s.1 ∧ fs.HoldsBlock s.1 s.2 b

/-- The slots of allocated inodes hold different marked blocks, and block 0 is marked. -/
structure SlotsDistinct (fs : HomeFs) : Prop where
  marked : ∀ {i k b}, fs.Allocated i → fs.HoldsBlock i k b →
    0 < b ∧ b < maxDataBlocks ∧ bitSet fs.blockBitmap b = true
  distinct : ∀ {i k j l b}, fs.Allocated i → fs.Allocated j →
    fs.HoldsBlock i k b → fs.HoldsBlock j l b → i = j ∧ k = l
  zero : bitSet fs.blockBitmap 0 = true

/-- The records of allocated inodes carry their own number, and their sizes fit their
blocks. -/
structure RecordsSound (fs : HomeFs) : Prop where
  inodeNum : ∀ {i}, fs.Allocated i → (fs.record i).inodeNum = i
  blocksUsed : ∀ {i}, fs.Allocated i → (fs.record i).blocksUsed ≤ maxDirectBlocks
  size : ∀ {i}, fs.Allocated i → (fs.record i).size ≤ blockSize * (fs.record i).blocksUsed

/-- The data blocks lie behind the inode table, at addresses of 32 bits; `create` puts
the first one into sector 35. -/
def DataApart (fs : HomeFs) : Prop :=
  35 ≤ fs.superblock.firstDataBlock ∧ fs.superblock.firstDataBlock + maxDataBlocks ≤ 2 ^ 32

/-! ## Crashes -/

/-- The live entries of a directory, as its readers find them. -/
def liveEntries (fs : HomeFs) (i : Nat) : List DirEntry :=
  ((usedSlots (fs.record i)).takeWhile (· ≠ 0)).flatMap fun b =>
    ((List.range entriesPerBlock).map fun index =>
      DirEntry.decode (fs.disk ((fs.superblock.firstDataBlock + b) % 2 ^ 32))
        (index * dirEntrySize)).filter
      (·.inode ≠ 0)

/-- Inode `d` is a directory with a live entry for `c`. -/
def EntryFor (fs : HomeFs) (d c : Nat) : Prop :=
  (fs.record d).fileType = typeDirectory ∧ ∃ e ∈ fs.liveEntries d, e.inode = c

/-- The inodes reachable from the root. -/
def ReachableInode (fs : HomeFs) (i : Nat) : Prop :=
  Relation.ReflTransGen fs.EntryFor fs.superblock.rootInode i

/-- What has to hold of a file system opened after a crash. -/
structure CrashConsistent (fs : HomeFs) : Prop where
  /-- Every reachable entry names an allocated inode. -/
  entries_allocated : ∀ d c, fs.ReachableInode d → fs.EntryFor d c → fs.Allocated c
  /-- Every block of a reachable inode is marked. -/
  blocks_marked : ∀ i k b, fs.ReachableInode i → fs.HoldsBlock i k b →
    bitSet fs.blockBitmap b = true
  /-- Nothing is marked that is not reachable. -/
  no_inode_leak : ∀ i, fs.Allocated i → fs.ReachableInode i
  no_block_leak : ∀ b < 8 * blockSize, bitSet fs.blockBitmap b = true →
    ∃ i k, fs.ReachableInode i ∧ fs.HoldsBlock i k b

/-- A device after a list of sector writes. -/
def applyWrites (disk : Nat → Memory) (writes : List (Nat × Memory)) : Nat → Memory :=
  writes.foldl (fun d w => fun i => if i = w.1 then w.2 else d i) disk

/-- The device if the power is lost after `k` of the sector writes that `ops`
issue on `fs`. -/
def crashed (fs : HomeFs) (ops : List Op) (k : Nat) : Nat → Memory :=
  applyWrites fs.disk (((runOps debug ops fs).log.drop fs.log.length).take k)

/-! ## The directory tree -/

/-- An allocated directory. -/
def IsDirectory (fs : HomeFs) (d : Nat) : Prop :=
  fs.Allocated d ∧ (fs.record d).fileType = typeDirectory

/-- Live entry `k` of a reachable directory `d` names inode `c`, and is not a dot. -/
def Names (fs : HomeFs) (d k c : Nat) : Prop :=
  fs.ReachableInode d ∧ (fs.record d).fileType = typeDirectory ∧
    ∃ e, (fs.liveEntries d)[k]? = some e ∧ e.inode = c ∧ ¬e.IsDot

/-- The directories form a tree below the root, and their dots follow it. -/
structure TreeShaped (fs : HomeFs) : Prop where
  entries_allocated : ∀ d c, fs.ReachableInode d → fs.EntryFor d c → fs.Allocated c
  named_once : ∀ i, fs.Allocated i → i ≠ fs.superblock.rootInode →
    ∃! p : Nat × Nat, fs.Names p.1 p.2 i
  dot : ∀ d, fs.IsDirectory d → (∃ e ∈ fs.liveEntries d, e.bytes = dotName) ∧
    ∀ e ∈ fs.liveEntries d, e.bytes = dotName → e.inode = d
  /-- The root is its own container. -/
  dot_dot : ∀ d, fs.IsDirectory d → (∃ e ∈ fs.liveEntries d, e.bytes = dotDotName) ∧
    ∀ e ∈ fs.liveEntries d, e.bytes = dotDotName →
      if d = fs.superblock.rootInode then e.inode = d else ∃ k, fs.Names e.inode k d

/-- The device holds the root's dots where the root's slot 35 leads its readers. -/
def RootInPlace (disk : Nat → Memory) : Prop :=
  ∃ i < entriesPerBlock, ∃ j < entriesPerBlock,
    let entry k := DirEntry.decode (disk (35 + 35)) (k * dirEntrySize)
    ((entry i).inode = 1 ∧ (entry i).bytes = dotName) ∧ (entry j).inode = 1 ∧
      (entry j).bytes = dotDotName

/-- The free blocks that are handed out before block 35, which the root occupies
without its bit being set. -/
def freeBeforeRoot (fs : HomeFs) : Nat :=
  ((List.range 35).filter fun b => !bitSet fs.blockBitmap b).length

/-- The operations that keep the tree: on allocated directories, with room before
the root's block, no dot removed or renamed, and no directory moved to another
directory. -/
def TreeStep (fs : HomeFs) : Op → Prop
  | .createFile dir _ _ => fs.IsDirectory dir ∧ 1 ≤ fs.freeBeforeRoot
  | .createDirectory parent _ _ => fs.IsDirectory parent ∧ 2 ≤ fs.freeBeforeRoot
  | .unlinkFile dir _ => fs.IsDirectory dir
  | .rmdir parent name => fs.IsDirectory parent ∧ name.bytes ≠ dotName ∧ name.bytes ≠ dotDotName
  | .rename oldDir oldName newDir _ =>
    fs.IsDirectory oldDir ∧ fs.IsDirectory newDir ∧ 1 ≤ fs.freeBeforeRoot ∧
      (oldName.bytes ≠ dotName ∧ oldName.bytes ≠ dotDotName) ∧
      (oldDir = newDir ∨ ∀ i, outcome (lookupInDir debug oldDir oldName) fs = .ok i →
        (fs.record i).fileType ≠ typeDirectory)
  | _ => False

end HomeFs

end PandaOS.Kernel
