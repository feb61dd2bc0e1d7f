import PandaOS.Kernel.Fat32

/-!
# The boot sector of a FAT32 volume

`Bpb::parse` adds up the sectors before the data area in 32 bits before it checks the
fields. What it accepts is a sound layout if they can be counted so.
-/

namespace PandaOS.Kernel.Fat32

open Lib

variable {n : Nat} {debug : Bool} {b : Bpb}

/-- The data area begins behind the FATs, and clusters do not overlap. -/
structure Bpb.Sound (b : Bpb) : Prop where
  exact : b.dataStartSector = b.reservedSectors + b.numFats * b.sectorsPerFat
  injective : ∀ c d, 2 ≤ c → 2 ≤ d → b.clusterToSector c = b.clusterToSector d → c = d
  behind : ∀ c, b.reservedSectors + b.numFats * b.sectorsPerFat ≤ b.clusterToSector c

/-- The sectors before the data area, as the fields of the boot sector give them. -/
def sectorsBeforeData (boot : Memory) : Nat :=
  fieldAt boot 14 2 + fieldAt boot 16 1 * fieldAt boot 36 4

theorem toU32_eq (h : n < 2 ^ 32) : toU32 debug n = .ok n := by
  unfold toU32
  rw [if_neg (by omega), Nat.mod_eq_of_lt h]

theorem toU32_panics (h : 2 ^ 32 ≤ n) : toU32 true n = .error .panic :=
  if_pos ⟨rfl, h⟩

/-- An accepted boot sector has a sector size of 512 and a cluster of one sector or more. -/
theorem Bpb.parse_ok {boot : Memory} (h : Bpb.parse debug boot = .ok b) :
    b.bytesPerSector = sectorSize ∧ 0 < b.sectorsPerCluster ∧
      (sectorsBeforeData boot < 2 ^ 32 → b.dataStartSector =
        b.reservedSectors + b.numFats * b.sectorsPerFat) := by
  unfold Bpb.parse at h
  split at h
  · cases h
  obtain ⟨fatSectors, hfat, h⟩ := ok_of_bind h
  obtain ⟨dataStart, hdata, h⟩ := ok_of_bind h
  split at h
  · cases h
  rename_i hsize
  split at h
  · cases h
  rename_i hpow
  split at h
  · cases h
  obtain rfl := Except.ok.inj h
  obtain ⟨k, -, hk⟩ := not_not.mp hpow
  refine ⟨not_not.mp hsize, hk ▸ Nat.two_pow_pos k, fun hfits => ?_⟩
  unfold sectorsBeforeData at hfits
  obtain rfl : _ = fatSectors := Except.ok.inj ((toU32_eq (by omega)).symm.trans hfat)
  exact (Except.ok.inj ((toU32_eq hfits).symm.trans hdata)).symm

theorem Bpb.sound_of_exact (hpos : 0 < b.sectorsPerCluster)
    (hexact : b.dataStartSector = b.reservedSectors + b.numFats * b.sectorsPerFat) : b.Sound where
  exact := hexact
  injective c d hc hd h := by
    simp only [Bpb.clusterToSector, if_pos hc, if_pos hd] at h
    have := Nat.eq_of_mul_eq_mul_right hpos (Nat.add_left_cancel h)
    omega
  behind c := hexact ▸ Nat.le_add_right _ _

/-- Parsing does not overflow, and gives a sound layout, exactly if the sectors before the data area
can be counted in 32 bits. -/
theorem bpb_parse_sound_iff (boot : Memory) :
    (Bpb.parse true boot ≠ .error .panic ∧ ∀ debug b, Bpb.parse debug boot = .ok b → b.Sound) ↔
      fieldAt boot 510 2 ≠ signature ∨ sectorsBeforeData boot < 2 ^ 32 := by
  constructor
  · rintro ⟨hpanic, -⟩
    by_contra hbad
    push Not at hbad
    obtain ⟨hsig, hover⟩ := hbad
    apply hpanic
    unfold Bpb.parse
    rw [if_neg (not_not.mpr hsig)]
    unfold sectorsBeforeData at hover
    dsimp only
    by_cases hfat : 2 ^ 32 ≤ fieldAt boot 16 1 * fieldAt boot 36 4
    · rw [toU32_panics hfat]
      rfl
    · rw [toU32_eq (Nat.not_le.mp hfat)]
      simp only [bind, Except.bind]
      rw [toU32_panics hover]
  · intro h
    refine ⟨fun hpanic => ?_, fun debug b hb => ?_⟩
    · unfold Bpb.parse at hpanic
      rcases h with hsig | hfits
      · rw [if_pos hsig] at hpanic
        cases hpanic
      · unfold sectorsBeforeData at hfits
        dsimp only at hpanic
        rw [toU32_eq (by omega)] at hpanic
        simp only [bind, Except.bind] at hpanic
        rw [toU32_eq hfits] at hpanic
        simp only [pure, Except.pure] at hpanic
        split_ifs at hpanic <;> cases hpanic
    · obtain ⟨-, hpos, hexact⟩ := Bpb.parse_ok hb
      rcases h with hsig | hfits
      · rw [Bpb.parse, if_pos hsig] at hb
        cases hb
      · exact Bpb.sound_of_exact hpos (hexact hfits)

/-- A boot sector with two FATs of `2 ^ 31` sectors. -/
def hugeFatBoot : Memory := fun i =>
  match i with
  | 12 => 2
  | 13 => 1
  | 14 => 1
  | 16 => 2
  | 39 => 0x80
  | 510 => 0x55
  | 511 => 0xAA
  | _ => 0

theorem hugeFatBoot_overflows : Bpb.parse true hugeFatBoot = .error .panic ∧
    ∃ b, Bpb.parse false hugeFatBoot = .ok b ∧ ¬b.Sound := by
  refine ⟨by decide, _, rfl, fun h => ?_⟩
  have hexact := h.exact
  revert hexact
  decide

end PandaOS.Kernel.Fat32
