import PandaOS.Logic.HomeFs

/-!
# Readers

What the readers of an inode return depends on its record, the sectors of its
blocks and the first data block. Two instances that agree on these answer alike.
-/

namespace PandaOS.Kernel.HomeFs

open Lib

/-- The program ends alike in both instances and changes neither. -/
def Alike (fs fs' : HomeFs) (x : HomeM α) : Prop :=
  (∃ a, Returns x fs a fs ∧ Returns x fs' a fs') ∨ ∃ e, Throws x fs e fs ∧ Throws x fs' e fs'

/-- The sector of a block, wrapping around. -/
def sectorOf (fs : HomeFs) (b : Nat) : Nat := (fs.superblock.firstDataBlock + b) % 2 ^ 32

/-- The two instances agree on all that readers of inode `i` look at. -/
structure SameInode (i : Nat) (fs fs' : HomeFs) : Prop where
  firstDataBlock : fs'.superblock.firstDataBlock = fs.superblock.firstDataBlock
  record : fs'.record i = fs.record i
  blocks : ∀ b ∈ usedSlots (fs.record i), fs'.disk (fs.sectorOf b) = fs.disk (fs.sectorOf b)

variable {debug : Bool} {fs fs' : HomeFs} {α β : Type} {x : HomeM α} {sector : Nat}
  {f : Nat → Nat → DirEntry → β → HomeM (ForInStep β)}

namespace Alike

theorem outcome_eq (h : Alike fs fs' x) : outcome x fs' = outcome x fs := by
  rcases h with ⟨a, ha, ha'⟩ | ⟨e, he, he'⟩
  · exact ha'.outcome_eq.trans ha.outcome_eq.symm
  · exact he'.outcome_eq.trans he.outcome_eq.symm

/-- A reader leaves the state as it is. -/
theorem ends (h : Alike fs fs x) :
    Ends x fs (fun a fs' => fs' = fs ∧ outcome x fs = .ok a) fun _ fs' => fs' = fs := by
  rcases h with ⟨a, hrun, -⟩ | ⟨e, hrun, -⟩
  · exact hrun.ends ⟨rfl, hrun.outcome_eq⟩
  · exact hrun.ends rfl

protected theorem pure (a : α) : Alike fs fs' (pure a) := Or.inl ⟨a, rfl, rfl⟩

protected theorem throw (e : HomeFault) : Alike fs fs' (throw e : HomeM α) := Or.inr ⟨e, rfl, rfl⟩

protected theorem bind {x : HomeM α} {f : α → HomeM β} (hx : Alike fs fs' x)
    (hf : ∀ a, Returns x fs a fs → Alike fs fs' (f a)) : Alike fs fs' (x >>= f) := by
  rcases hx with ⟨a, ha, ha'⟩ | ⟨e, he, he'⟩
  · rcases hf a ha with ⟨b, hb, hb'⟩ | ⟨e, he, he'⟩
    · exact .inl ⟨b, ha.bind hb, ha'.bind hb'⟩
    · exact .inr ⟨e, throws_bind.mpr (.inr ⟨a, fs, ha, he⟩),
        throws_bind.mpr (.inr ⟨a, fs', ha', he'⟩)⟩
  · exact .inr ⟨e, throws_bind.mpr (.inl he), throws_bind.mpr (.inl he')⟩

protected theorem failIf (c : Bool) (e : HomeFault) : Alike fs fs' (failIf c e) := by
  cases c with
  | false => exact .pure ()
  | true => exact .throw e

theorem readSector (h : fs'.disk sector = fs.disk sector) : Alike fs fs' (readSector sector) :=
  .bind (.failIf _ _) fun _ _ => .inl ⟨fs.disk sector, rfl, congrArg (EStateM.Result.ok · fs') h⟩

theorem entryName (entry : DirEntry) : Alike fs fs' (entryName entry) :=
  .bind (.failIf _ _) fun _ _ => .bind (.failIf _ _) fun _ _ => .pure _

theorem forEntries (hf : ∀ sector index entry acc, Alike fs fs' (f sector index entry acc))
    (h : fs'.disk sector = fs.disk sector) (indices : List Nat) (acc : β) :
    Alike fs fs' (forEntries sector f indices acc) := by
  induction indices generalizing acc with
  | nil => exact .pure _
  | cons index rest ih =>
    have hentry : Alike fs fs' (readDirEntry sector index) :=
      .bind (readSector h) fun _ _ => .bind (.failIf _ _) fun _ _ => .pure _
    refine .bind hentry fun entry _ => .bind (hf sector index entry acc) fun r _ => ?_
    cases r with
    | done acc => exact .pure _
    | yield acc => exact ih acc

end Alike

/-- The address panics in a debug build, or wraps around. -/
theorem blockSector_cases (debug : Bool) (fs : HomeFs) (b : Nat) :
    ((debug = true ∧ 2 ^ 32 ≤ fs.superblock.firstDataBlock + b) ∧
      Throws (blockSector debug b) fs .panic fs) ∨
    (¬(debug = true ∧ 2 ^ 32 ≤ fs.superblock.firstDataBlock + b) ∧
      Returns (blockSector debug b) fs (fs.sectorOf b) fs) := by
  by_cases hover : debug = true ∧ 2 ^ 32 ≤ fs.superblock.firstDataBlock + b
  · refine .inl ⟨hover, ?_⟩
    have hguard : (debug && decide (2 ^ 32 ≤ fs.superblock.firstDataBlock + b)) = true := by
      simpa using hover
    unfold blockSector addBits
    refine throws_bind.mpr (.inr ⟨fs, fs, get_returns fs, throws_bind.mpr (.inl ?_)⟩)
    rw [hguard]
    rfl
  · refine .inr ⟨hover, ?_⟩
    have hguard : (debug && decide (2 ^ 32 ≤ fs.superblock.firstDataBlock + b)) = false := by
      simpa using hover
    unfold blockSector addBits
    refine (get_returns fs).bind ?_
    rw [hguard]
    exact (pure_returns () fs).bind (pure_returns _ fs)

/-- A slot below `blocks_used` that is not 0. -/
theorem mem_usedSlots {r : HomeInode} {k : Nat} (hk : k < r.blocksUsed)
    (hne : r.directBlocks.getD k 0 ≠ 0) : r.directBlocks.getD k 0 ∈ usedSlots r := by
  have hlen : k < r.directBlocks.length := by
    by_contra hout
    exact hne (List.getD_eq_default _ _ (by omega))
  rw [List.getD_eq_getElem _ _ hlen]
  exact List.mem_take_iff_getElem.mpr ⟨k, by omega, rfl⟩

namespace SameInode

/-- A change that leaves the device alone. -/
theorem of_disk_eq (hdisk : fs'.disk = fs.disk)
    (hfirst : fs'.superblock.firstDataBlock = fs.superblock.firstDataBlock) (i : Nat) :
    SameInode i fs fs' :=
  ⟨hfirst, by unfold HomeFs.record; rw [hdisk], fun _ _ => by rw [hdisk]⟩

theorem refl (i : Nat) (fs : HomeFs) : SameInode i fs fs := ⟨rfl, rfl, fun _ _ => rfl⟩

variable {i : Nat} (h : SameInode i fs fs')
include h

theorem blockSector (b : Nat) : Alike fs fs' (HomeFs.blockSector debug b) := by
  have hsector : fs'.sectorOf b = fs.sectorOf b := by
    unfold sectorOf
    rw [h.firstDataBlock]
  rcases blockSector_cases debug fs b with ⟨hover, hrun⟩ | ⟨hover, hrun⟩
  · rcases blockSector_cases debug fs' b with ⟨-, hrun'⟩ | ⟨hno, -⟩
    · exact .inr ⟨_, hrun, hrun'⟩
    · rw [h.firstDataBlock] at hno
      exact absurd hover hno
  · rcases blockSector_cases debug fs' b with ⟨hno, -⟩ | ⟨-, hrun'⟩
    · rw [h.firstDataBlock] at hno
      exact absurd hno hover
    · exact .inl ⟨_, hrun, hsector ▸ hrun'⟩

/-- The sector of one of the inode's blocks. -/
theorem readBlock {b : Nat} (hb : b ∈ usedSlots (fs.record i))
    (hrun : Returns (HomeFs.blockSector debug b) fs sector fs) :
    fs'.disk sector = fs.disk sector := by
  rcases blockSector_cases debug fs b with ⟨-, hrun'⟩ | ⟨-, hrun'⟩
  · exact absurd hrun (not_returns_of_throws hrun')
  · obtain ⟨rfl, -⟩ := hrun.unique hrun'
    exact h.blocks b hb

theorem readInode : Alike fs fs' (HomeFs.readInode i) := by
  refine .bind (.failIf _ _) fun _ _ => ?_
  by_cases hin : totalSectors ≤ inodeSector i
  · have hguard : decide (totalSectors ≤ inodeSector i) = true := by simpa using hin
    unfold readSector
    rw [hguard]
    exact .inr ⟨_, rfl, rfl⟩
  · have hguard : decide (totalSectors ≤ inodeSector i) = false := by simpa using hin
    unfold readSector
    rw [hguard]
    exact .inl ⟨fs.record i, rfl, congrArg (EStateM.Result.ok · fs') h.record⟩

theorem readDirectory : Alike fs fs' (HomeFs.readDirectory i) :=
  .bind h.readInode fun _ _ => .bind (.failIf _ _) fun _ _ => .pure _

theorem readFileInode : Alike fs fs' (HomeFs.readFileInode i) :=
  .bind h.readInode fun _ _ => .bind (.failIf _ _) fun _ _ => .pure _

/-- The walk sees the same entries on both devices. -/
theorem forBlocks
    (hf : ∀ sector index entry acc, Alike fs fs' (f sector index entry acc)) (stopAtZero : Bool)
    {slots : List Nat} (hslots : ∀ b ∈ slots, b ∈ usedSlots (fs.record i)) (acc : β) :
    Alike fs fs' (HomeFs.forBlocks debug stopAtZero f slots acc) := by
  induction slots generalizing acc with
  | nil => exact .pure _
  | cons b rest ih =>
    unfold HomeFs.forBlocks
    split
    · exact .pure _
    · refine .bind (h.blockSector b) fun sector hsector => ?_
      have hsame := h.readBlock (hslots b List.mem_cons_self) hsector
      refine .bind (.forEntries hf hsame _ acc) fun r _ => ?_
      cases r with
      | done acc => exact .pure _
      | yield acc => exact ih (fun c hc => hslots c (List.mem_cons_of_mem _ hc)) acc

theorem lookupInDir (name : Str) : Alike fs fs' (HomeFs.lookupInDir debug i name) := by
  refine .bind (.failIf _ _) fun _ _ => .bind h.readDirectory fun inode hinode => ?_
  rw [(hinode.of_ends (readDirectory_ends _)).1.1]
  refine .bind (h.forBlocks (fun _ _ entry acc => ?_) true (fun _ hb => hb) none) fun found _ => ?_
  · split
    · exact .pure _
    · refine .bind (.entryName entry) fun _ _ => ?_
      split
      · exact .pure _
      · exact .pure _
  · split
    · exact .pure _
    · exact .throw _

theorem readdir : Alike fs fs' (HomeFs.readdir debug i) := by
  refine .bind h.readDirectory fun inode hinode => ?_
  rw [(hinode.of_ends (readDirectory_ends _)).1.1]
  refine .bind (h.forBlocks (fun _ _ entry acc => ?_) true (fun _ hb => hb) []) fun found _ => ?_
  · split
    · exact .pure _
    · exact .bind (.entryName entry) fun _ _ => .bind (.failIf _ _) fun _ _ => .pure _
  · cases found with
    | done acc => exact .pure _
    | yield acc => exact .pure _

/-- The bytes of the file are read from the same blocks. -/
theorem readLoop (offset toRead fuel : Nat) (done : List Byte) :
    Alike fs fs' (HomeFs.readLoop debug (fs.record i) offset toRead fuel done) := by
  induction fuel generalizing done with
  | zero => exact .pure _
  | succ fuel ih =>
    unfold HomeFs.readLoop
    split
    · exact .pure _
    · dsimp only
      split
      · exact .pure _
      · split
        · exact .pure _
        · rename_i hidx hblock
          refine .bind (h.blockSector _) fun sector hsector => ?_
          have hslot : (fs.record i).directBlocks.getD ((offset + done.length) / blockSize) 0 ∈
              usedSlots (fs.record i) := mem_usedSlots (by omega) hblock
          exact .bind (.readSector (h.readBlock hslot hsector)) fun _ _ => ih _

theorem readFile (offset len : Nat) : Alike fs fs' (HomeFs.readFile debug i offset len) := by
  refine .bind h.readFileInode fun inode hinode => ?_
  rw [(hinode.of_ends (readTyped_ends _ _ _)).1.1]
  split
  · exact .pure _
  · exact h.readLoop _ _ _ _

end SameInode

end PandaOS.Kernel.HomeFs
