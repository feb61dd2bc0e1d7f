import PandaOS.Kernel.Vfs
import PandaOS.Lib.Bytes

/-!
# FAT32 volumes

The boot sector of `fat32.rs`: a byte memory of which the first 512 bytes count.
-/

namespace PandaOS.Kernel

open Lib

inductive Fat32Error
  | ioError | invalidSignature | invalidBpb | unsupportedSectorSize | invalidCluster
  | badCluster | notFound | notADirectory | invalidPath
  deriving DecidableEq, Repr

namespace Fat32

def signature : Nat := 0xAA55
def sectorSize : Nat := 512

/-! ## The boot sector -/

structure Bpb where
  bytesPerSector : Nat
  sectorsPerCluster : Nat
  reservedSectors : Nat
  numFats : Nat
  totalSectors : Nat
  sectorsPerFat : Nat
  rootCluster : Nat
  fatStartSector : Nat
  dataStartSector : Nat
  deriving DecidableEq, Repr

/-- Why parsing the boot sector stops. -/
inductive ParseFault
  | err (e : Fat32Error)
  | panic
  deriving DecidableEq, Repr

/-- The result of an operation on `u32`, which panics in a debug build if it does not fit. -/
def toU32 (debug : Bool) (n : Nat) : Except ParseFault Nat :=
  if debug ∧ 2 ^ 32 ≤ n then .error .panic else .ok (n % 2 ^ 32)

/-- `Bpb::parse`. The sectors are added up before the fields are checked. -/
def Bpb.parse (debug : Bool) (boot : Memory) : Except ParseFault Bpb :=
  if fieldAt boot 510 2 ≠ signature then .error (.err .invalidSignature)
  else do
    let bytesPerSector := fieldAt boot 11 2
    let sectorsPerCluster := fieldAt boot 13 1
    let reservedSectors := fieldAt boot 14 2
    let numFats := fieldAt boot 16 1
    let sectorsPerFat := fieldAt boot 36 4
    let fatSectors ← toU32 debug (numFats * sectorsPerFat)
    let dataStartSector ← toU32 debug (reservedSectors + fatSectors)
    if bytesPerSector ≠ sectorSize then .error (.err .unsupportedSectorSize)
    else if ¬∃ k < 8, sectorsPerCluster = 2 ^ k then .error (.err .invalidBpb)
    else if numFats = 0 ∨ reservedSectors = 0 then .error (.err .invalidBpb)
    else return {
      bytesPerSector, sectorsPerCluster, reservedSectors, numFats, sectorsPerFat, dataStartSector
      totalSectors := fieldAt boot 32 4
      rootCluster := fieldAt boot 44 4
      fatStartSector := reservedSectors }

def Bpb.clusterToSector (b : Bpb) (cluster : Nat) : Nat :=
  let clusterOffset := if 2 ≤ cluster then cluster - 2 else 0
  b.dataStartSector + clusterOffset * b.sectorsPerCluster

end Fat32

end PandaOS.Kernel
