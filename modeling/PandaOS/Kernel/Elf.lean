import PandaOS.Kernel.Paging

/-!
# The ELF loader

`elf.rs`: `parse_elf` checks the headers of a file and collects its loadable
segments, `load_elf_segments` maps and fills them. Sizes and addresses of the
file are `u64`; the additions the source leaves unchecked panic in a debug
build and wrap in a release build.
-/

namespace PandaOS.Kernel

open Lib

/-- `ElfError`. -/
inductive ElfError
  | invalidMagic | invalidClass | invalidEndian | invalidVersion | notExecutable
  | wrongMachine | fileTooSmall | invalidPhdrOffset | invalidPhdrCount | invalidAlignment
  | invalidSize
  deriving DecidableEq, Repr

/-- How `parse_elf` stops without a result. -/
inductive ElfStop
  | error (e : ElfError)
  | panic (msg : String)
  /-- A header is read outside the file, after a bounds check that wrapped. -/
  | wild
  deriving DecidableEq, Repr

/-- `LoadSegment`. -/
structure LoadSegment where
  vaddr : Nat
  fileOffset : Nat
  fileSize : Nat
  memSize : Nat
  flags : Nat
  deriving DecidableEq, Repr

namespace LoadSegment

def isWritable (seg : LoadSegment) : Bool := seg.flags &&& 2 != 0

def isExecutable (seg : LoadSegment) : Bool := seg.flags &&& 1 != 0

end LoadSegment

/-- `ElfInfo`. -/
structure ElfInfo where
  entryPoint : Nat
  loadSegments : List LoadSegment
  phdrAddr : Nat
  phnum : Nat
  deriving DecidableEq, Repr

/-! ## Parsing -/

/-- The little-endian number of `n` bytes at an offset. -/
def leNat (data : List Byte) (off n : Nat) : Nat :=
  Nat.ofDigits 256 ((List.range n).map fun j => (data.getD (off + j) 0).toNat)

/-- The fields of `Elf64Ehdr` that are read. -/
structure Ehdr where
  eIdent : List Byte
  eType : Nat
  eMachine : Nat
  eVersion : Nat
  eEntry : Nat
  ePhoff : Nat
  ePhentsize : Nat
  ePhnum : Nat

def ehdrSize : Nat := 64

def phdrSize : Nat := 56

def readEhdr (data : List Byte) : Ehdr where
  eIdent := data.take 16
  eType := leNat data 16 2
  eMachine := leNat data 18 2
  eVersion := leNat data 20 4
  eEntry := leNat data 24 8
  ePhoff := leNat data 32 8
  ePhentsize := leNat data 54 2
  ePhnum := leNat data 56 2

/-- The fields of `Elf64Phdr` that are read. -/
structure Phdr where
  pType : Nat
  pFlags : Nat
  pOffset : Nat
  pVaddr : Nat
  pFilesz : Nat
  pMemsz : Nat

def readPhdr (data : List Byte) (off : Nat) : Phdr where
  pType := leNat data off 4
  pFlags := leNat data (off + 4) 4
  pOffset := leNat data (off + 8) 8
  pVaddr := leNat data (off + 16) 8
  pFilesz := leNat data (off + 32) 8
  pMemsz := leNat data (off + 40) 8

/-- `usize` addition in `parse_elf`. -/
def elfAdd (debug : Bool) (a b : Nat) : Except ElfStop Nat :=
  if a + b < 2 ^ 64 then .ok (a + b)
  else if debug then .error (.panic "attempt to add with overflow")
  else .ok ((a + b) % 2 ^ 64)

/-- The checks on the file header, in the source's order. -/
def checkEhdr (h : Ehdr) : Except ElfStop Unit :=
  if h.eIdent.take 4 ≠ [0x7f, 0x45, 0x4c, 0x46] then .error (.error .invalidMagic)
  else if h.eIdent.getD 4 0 ≠ 2 then .error (.error .invalidClass)
  else if h.eIdent.getD 5 0 ≠ 1 then .error (.error .invalidEndian)
  else if h.eIdent.getD 6 0 ≠ 1 ∨ h.eVersion ≠ 1 then .error (.error .invalidVersion)
  else if h.eType ≠ 2 then .error (.error .notExecutable)
  else if h.eMachine ≠ 62 then .error (.error .wrongMachine)
  else if h.ePhentsize ≠ phdrSize then .error (.error .invalidPhdrOffset)
  else if h.ePhnum > 8 then .error (.error .invalidPhdrCount)
  else .ok ()

/-- The checks on one program header; a loadable one is added to the segments. -/
def addPhdr (data : List Byte) (segments : List LoadSegment) (p : Phdr) :
    Except ElfStop (List LoadSegment) :=
  if p.pType ≠ 1 then .ok segments
  else if p.pFilesz > p.pMemsz then .error (.error .invalidSize)
  else if p.pOffset + p.pFilesz ≥ 2 ^ 64 then .error (.error .invalidSize)
  else if p.pOffset + p.pFilesz > data.length then .error (.error .invalidSize)
  else .ok (segments ++ [⟨p.pVaddr, p.pOffset, p.pFilesz, p.pMemsz, p.pFlags⟩])

/-- One turn of the loop over the program headers. -/
def parsePhdr (debug : Bool) (data : List Byte) (h : Ehdr) (segments : List LoadSegment)
    (i : Nat) : Except ElfStop (List LoadSegment) := do
  let off ← elfAdd debug h.ePhoff (i * h.ePhentsize)
  let stop ← elfAdd debug off phdrSize
  if stop > data.length then .error (.error .invalidPhdrOffset)
  else if off + phdrSize > data.length then .error .wild
  else addPhdr data segments (readPhdr data off)

/-- The address of the program headers in the first segment. -/
def phdrAddrOf (debug : Bool) (h : Ehdr) (segments : List LoadSegment) : Except ElfStop Nat :=
  match segments with
  | seg :: _ => if h.ePhoff < 0x1000 then elfAdd debug seg.vaddr h.ePhoff else .ok 0
  | [] => .ok 0

/-- `parse_elf`. -/
def parseElf (debug : Bool) (data : List Byte) : Except ElfStop ElfInfo := do
  if data.length < ehdrSize then .error (.error .fileTooSmall)
  else
    let h := readEhdr data
    checkEhdr h
    let segments ← (List.range h.ePhnum).foldlM (parsePhdr debug data h) []
    let phdrAddr ← phdrAddrOf debug h segments
    return ⟨h.eEntry, segments, phdrAddr, h.ePhnum⟩

/-! ## Loading -/

/-- The page flags of a segment. -/
def segmentFlags (seg : LoadSegment) : Word :=
  Pte.PRESENT ||| Pte.USER_ACCESSIBLE
    ||| (if seg.isWritable then Pte.WRITABLE else 0)
    ||| (if seg.isExecutable then 0 else Pte.NO_EXECUTE)

/-- Copy the part of the file that belongs to one page of a segment. -/
def copySegmentPage (seg : LoadSegment) (data : List Byte) (f va : Nat) : KM Unit := do
  let offsetInSegment := if va ≥ seg.vaddr then va - seg.vaddr else 0
  let fileOffset ← addU64 seg.fileOffset offsetInSegment
  let offsetInPage := if seg.vaddr > va then seg.vaddr - va else 0
  let room ← subU64 4096 offsetInPage
  let left ← subU64 seg.fileSize offsetInSegment
  let bytesToCopy := min room left
  if bytesToCopy > 0 ∧ fileOffset < data.length then
    if fileOffset + bytesToCopy > data.length then
      throwPanic "range end index out of range for slice"
    else writeBytes ((f * 4096 + offsetInPage) % 2 ^ 64) ((data.drop fileOffset).take bytesToCopy)

/-- One page of a segment: allocate, map, clear, copy. -/
def loadSegmentPage (seg : LoadSegment) (data : List Byte) (pt vaddrStart i : Nat) : KM Unit := do
  match ← allocateFrame with
  | none => throwErr "Failed to allocate frame for segment"
  | some f =>
    let va ← addU64 vaddrStart (i * 4096)
    mapPage pt va f (segmentFlags seg)
    zeroFrame f
    let fileEnd ← addU64 seg.vaddr seg.fileSize
    if va < fileEnd then copySegmentPage seg data f va

/-- The pages of one segment. -/
def loadSegment (data : List Byte) (pt : Nat) (seg : LoadSegment) : KM Unit := do
  let vaddrStart := pageOf seg.vaddr
  let segEnd ← addU64 seg.vaddr seg.memSize
  let rounded ← addU64 segEnd 0xFFF
  let len ← subU64 (pageOf rounded) vaddrStart
  forRange 0 (len / 4096) (loadSegmentPage seg data pt vaddrStart)

/-- `load_elf_segments`. -/
def loadElfSegments (info : ElfInfo) (data : List Byte) (pt : Nat) : KM Unit :=
  info.loadSegments.forM (loadSegment data pt)

/-- `calculate_heap_start`. -/
def calculateHeapStart (info : ElfInfo) : KM Nat := do
  let maxAddr ← info.loadSegments.foldlM (fun acc seg => do
    let segEnd ← addU64 seg.vaddr seg.memSize
    return max acc segEnd) 0
  let rounded ← addU64 maxAddr 0xFFF
  return pageOf rounded

end PandaOS.Kernel
