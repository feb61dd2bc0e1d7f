import PandaOS.Logic.HomeFs

/-!
# Block ownership and crash consistency of the home file system

`create` gives the root the slot value 35, the number of a sector, where every
reader takes a slot as a block number relative to `first_data_block`, and marks
block 0. So the bitmap and the root disagree from the first state on, whatever
the device held and whatever follows.
-/

namespace PandaOS.Kernel.HomeFs

open Lib

/-! ## What `create` leaves -/

/-- The device after `create`. -/
def formatted (disk : Nat → Memory) : Nat → Memory := fun i =>
  if i = 35 then dotBlock 1 1
  else if i = 3 then storeAt (disk 3) 0 newRoot.encode
  else if i = 2 then setBit zeroSector 0
  else if i = 1 then setBit zeroSector 1
  else if i = 0 then storeAt zeroSector 0 newSuperblock.encode
  else disk i

/-- `create` succeeds on every device. -/
theorem create_eq (disk : Nat → Memory) :
    ∃ fs, create disk = .ok () fs ∧ fs.disk = formatted disk ∧ fs.superblock = newSuperblock ∧
      fs.inodeBitmap = setBit zeroSector 1 ∧ fs.blockBitmap = setBit zeroSector 0 := by
  refine ⟨_, rfl, ?_, rfl, rfl, rfl⟩
  funext i
  rfl

theorem create_fields {disk : Nat → Memory} {fs : HomeFs} (h : create disk = .ok () fs) :
    fs.disk = formatted disk ∧ fs.superblock = newSuperblock ∧
      fs.inodeBitmap = setBit zeroSector 1 ∧ fs.blockBitmap = setBit zeroSector 0 := by
  obtain ⟨fs', hcreate, hfields⟩ := create_eq disk
  rw [h] at hcreate
  cases hcreate
  exact hfields

/-- The instance that `create` leaves. -/
def newHome (disk : Nat → Memory) : HomeFs :=
  match create disk with
  | .ok _ fs => fs
  | .error _ fs => fs

theorem create_newHome (disk : Nat → Memory) : create disk = .ok () (newHome disk) := by
  obtain ⟨fs, hcreate, -⟩ := create_eq disk
  unfold newHome
  rw [hcreate]

/-- A step is a run of the operation that does not panic. -/
theorem step_cases {debug : Bool} {fs fs' : HomeFs} {op : Op} (h : fs.step debug op = some fs') :
    Returns (op.call debug) fs () fs' ∨ ∃ e, Throws (op.call debug) fs (.err e) fs' := by
  unfold HomeFs.step at h
  split at h
  · rename_i hrun
    obtain rfl := Option.some.inj h
    exact .inl hrun
  · rename_i e _ hrun
    obtain rfl := Option.some.inj h
    exact .inr ⟨e, hrun⟩
  · cases h

/-- The state after an operation, in a debug build. -/
def after (fs : HomeFs) (op : Op) : HomeFs := (fs.step true op).getD fs

theorem step_after {fs : HomeFs} {op : Op} (h : (fs.step true op).isSome = true) :
    fs.step true op = some (fs.after op) := by
  unfold after
  cases hstep : fs.step true op with
  | none => simp [hstep] at h
  | some fs' => rfl

theorem newRoot_fits : newRoot.Fits := by
  constructor <;> decide

theorem newRoot_encode_length : newRoot.encode.length = 64 := by decide

/-- The root's record after `create`. -/
theorem formatted_root (disk : Nat → Memory) : HomeInode.decode (formatted disk 3) 0 = newRoot :=
  HomeInode.decode_of_holds newRoot_fits (holds_storeAt (disk 3) 0 newRoot.encode)

variable {disk : Nat → Memory} {fs : HomeFs}

theorem record_root (h : fs.disk = formatted disk) : fs.record 1 = newRoot := by
  unfold record
  rw [h]
  exact formatted_root disk

/-- The root's one slot holds 35. -/
theorem holdsBlock_root (h : fs.disk = formatted disk) {k b : Nat} :
    fs.HoldsBlock 1 k b ↔ k = 0 ∧ b = 35 := by
  unfold HoldsBlock
  rw [record_root h]
  show [35][k]? = some b ↔ _
  cases k with
  | zero => simp [eq_comm]
  | succ k => simp

/-- The root is the one inode allocated by `create`. -/
theorem allocated_setBit (h : fs.inodeBitmap = setBit zeroSector 1)
    {i : Nat} (hi : fs.Allocated i) : i = 1 := by
  obtain ⟨-, hlt, hbit⟩ := hi
  rw [h] at hbit
  have honly : ∀ i < maxInodes, bitSet (setBit zeroSector 1) i = true → i = 1 := by decide +kernel
  exact honly i hlt hbit

/-! ## Ownership -/

/-- Block 0 is marked and no slot holds it. -/
theorem not_blocksOwned (hdisk : fs.disk = formatted disk)
    (hinodes : fs.inodeBitmap = setBit zeroSector 1)
    (hblocks : fs.blockBitmap = setBit zeroSector 0) :
    ¬BlocksOwned fs := by
  intro howned
  have hbit : bitSet fs.blockBitmap 0 = true := by
    rw [hblocks]
    decide
  obtain ⟨⟨i, k⟩, ⟨halloc, hslot⟩, -⟩ := (howned 0 (by decide)).mp hbit
  obtain rfl := allocated_setBit hinodes halloc
  obtain ⟨-, hzero⟩ := (holdsBlock_root hdisk).mp hslot
  cases hzero

/-- On every device and for every list of operations, some state on the way
breaks block ownership. -/
theorem blocks_never_owned (debug : Bool) (disk : Nat → Memory) (ops : List Op) :
    ∃ fs, create disk = .ok () fs ∧ ¬∀ n, BlocksOwned (runOps debug (ops.take n) fs) := by
  obtain ⟨fs, hcreate, hdisk, -, hinodes, hblocks⟩ := create_eq disk
  refine ⟨fs, hcreate, fun h => ?_⟩
  exact not_blocksOwned hdisk hinodes hblocks (h 0)

/-- A device of zeros: block 0 is marked, and the root's slot holds the unmarked
block 35. -/
theorem new_root_block_unmarked :
    ∃ fs, create (fun _ => zeroSector) = .ok () fs ∧ bitSet fs.blockBitmap 0 = true ∧
      fs.HoldsBlock 1 0 35 ∧ bitSet fs.blockBitmap 35 = false ∧ ¬BlocksOwned fs := by
  obtain ⟨fs, hcreate, hdisk, -, hinodes, hblocks⟩ := create_eq fun _ => zeroSector
  refine ⟨fs, hcreate, ?_, (holdsBlock_root hdisk).mpr ⟨rfl, rfl⟩, ?_,
    not_blocksOwned hdisk hinodes hblocks⟩
  · rw [hblocks]
    decide
  · rw [hblocks]
    decide

/-! ## Crashes -/

theorem newSuperblock_decode (disk : Nat → Memory) :
    Superblock.decode (formatted disk 0) = newSuperblock :=
  Superblock.decode_of_holds (by decide) (holds_storeAt zeroSector 0 newSuperblock.encode)

/-- A new file system is opened, and its root refers to an unmarked block. -/
theorem open_formatted (disk : Nat → Memory) : ∃ fs, «open» (formatted disk) = .ok fs ∧
      fs.HoldsBlock 1 0 35 ∧ bitSet fs.blockBitmap 35 = false ∧ ¬CrashConsistent fs := by
  have hopen : «open» (formatted disk) =
      .ok ⟨formatted disk, [], newSuperblock, formatted disk 1, formatted disk 2⟩ := by
    unfold «open»
    rw [newSuperblock_decode]
    rfl
  refine ⟨_, hopen, (holdsBlock_root rfl).mpr ⟨rfl, rfl⟩, ?_, fun hok => ?_⟩
  · show bitSet (setBit zeroSector 0) 35 = false
    decide
  · have hmarked := hok.blocks_marked 1 0 35 .refl ((holdsBlock_root rfl).mpr ⟨rfl, rfl⟩)
    have hclear : bitSet (setBit zeroSector 0) 35 = false := by decide
    cases hclear.symm.trans hmarked

/-- On every device and for every list of operations, a crash before the first
write leaves an inconsistent file system. -/
theorem never_crash_consistent (debug : Bool) (disk : Nat → Memory) (ops : List Op) :
    ∃ fs, create disk = .ok () fs ∧
      ¬∀ k fs', «open» (crashed debug fs ops k) = .ok fs' → CrashConsistent fs' := by
  obtain ⟨fs, hcreate, hdisk, -, -, -⟩ := create_eq disk
  refine ⟨fs, hcreate, fun h => ?_⟩
  obtain ⟨fs', hopen, -, -, hbad⟩ := open_formatted disk
  have hcrashed : crashed debug fs ops 0 = formatted disk := by
    rw [← hdisk]
    rfl
  exact hbad (h 0 fs' (by rw [hcrashed]; exact hopen))

/-- A device of zeros, no operation: the file system opened again is inconsistent. -/
theorem new_device_inconsistent :
    ∃ fs fs', create (fun _ => zeroSector) = .ok () fs ∧ «open» (crashed true fs [] 0) = .ok fs' ∧
      fs'.HoldsBlock 1 0 35 ∧ bitSet fs'.blockBitmap 35 = false ∧ ¬CrashConsistent fs' := by
  obtain ⟨fs, hcreate, hdisk, -, -, -⟩ := create_eq fun _ => zeroSector
  obtain ⟨fs', hopen, hbad⟩ := open_formatted fun _ => zeroSector
  refine ⟨fs, fs', hcreate, ?_, hbad⟩
  show «open» fs.disk = .ok fs'
  rw [hdisk, hopen]

end PandaOS.Kernel.HomeFs
