import PandaOS.Kernel.Paging

/-!
# Bits of page table entries

What `set`, `addr`, `flags` and `contains` do to the bits of an entry.
-/

namespace PandaOS.Kernel

namespace Pte

theorem addrMask_getLsbD (i : Nat) : addrMask.getLsbD i = (decide (12 ≤ i) && decide (i < 52)) := by
  by_cases hi : i < 64
  · have h : ∀ j : Fin 64, addrMask.getLsbD j = (decide (12 ≤ j.val) && decide (j.val < 52)) := by
      decide
    exact h ⟨i, hi⟩
  · rw [BitVec.getLsbD_of_ge _ _ (by omega), decide_eq_false (by omega : ¬i < 52), Bool.and_false]

theorem addr_make {a flags : Word} (h : flags &&& addrMask = 0) :
    addr (make a flags) = a &&& addrMask := by
  have hbit : ∀ i, (flags.getLsbD i && addrMask.getLsbD i) = false := by
    intro i
    rw [← BitVec.getLsbD_and, h]
    simp
  unfold addr make
  apply BitVec.eq_of_getLsbD_eq
  intro i _
  have := hbit i
  rw [BitVec.getLsbD_and, BitVec.getLsbD_or, BitVec.getLsbD_and]
  cases hf : flags.getLsbD i <;> simp_all

variable {f : Nat} {k : Nat}

theorem frameAddr_and_mask (h : f < 2 ^ 40) : frameAddr f &&& addrMask = frameAddr f := by
  unfold frameAddr
  apply BitVec.eq_of_getLsbD_eq
  intro i hi
  rw [BitVec.getLsbD_and, addrMask_getLsbD, BitVec.getLsbD_ofNat]
  by_cases hlow : i < 12
  · have : (f * 4096).testBit i = false := by
      rw [show (4096 : Nat) = 2 ^ 12 by norm_num, Nat.testBit_mul_two_pow]
      simp; omega
    simp [this]
  · by_cases hhigh : i < 52
    · simp [hhigh]; omega
    · have : (f * 4096).testBit i = false := by
        apply Nat.testBit_lt_two_pow
        calc f * 4096 < 2 ^ 40 * 4096 := by omega
          _ = 2 ^ 52 := by norm_num
          _ ≤ 2 ^ i := Nat.pow_le_pow_right (by omega) (by omega)
      simp [this]

theorem toNat_frameAddr (h : f < 2 ^ 40) : (frameAddr f).toNat = f * 4096 := by
  unfold frameAddr
  rw [BitVec.toNat_ofNat, Nat.mod_eq_of_lt (by omega)]

/-- The frame of an entry, from its address. -/
theorem frame_of_addr {e : Word} (hf : f < 2 ^ 40) (h : addr e = frameAddr f) : frame e = f := by
  unfold frame
  rw [h, toNat_frameAddr hf, Nat.mul_div_cancel _ (by omega)]

theorem make_frameAddr (h : f < 2 ^ 40) (flags : Word) :
    make (frameAddr f) flags = frameAddr f ||| flags := by
  rw [make, frameAddr_and_mask h]

/-- The frame an entry was made for. -/
theorem frame_make {flags : Word} (hf : f < 2 ^ 40) (h : flags &&& addrMask = 0) :
    frame (make (frameAddr f) flags) = f := by
  unfold frame
  rw [addr_make h, frameAddr_and_mask hf, toNat_frameAddr hf, Nat.mul_div_cancel _ (by omega)]

theorem frame_make_addr {e flags : Word} (h : flags &&& addrMask = 0) :
    frame (make (addr e) flags) = frame e := by
  unfold frame
  rw [addr_make h]
  unfold addr
  rw [BitVec.and_assoc, BitVec.and_self]

/-- A flag of one bit is set where that bit is. -/
theorem has_bit (e : Word) (hk : k < 64) : has e (BitVec.twoPow 64 k) = e.getLsbD k := by
  unfold has
  rw [BitVec.and_twoPow]
  cases h : e.getLsbD k with
  | true => simp
  | false =>
    have hne : (0#64 : Word) ≠ BitVec.twoPow 64 k := by
      intro hz
      have := congrArg (fun w : Word => w.getLsbD k) hz
      simp [hk] at this
    simpa using hne

theorem isPresent_eq (e : Word) : isPresent e = e.getLsbD 0 := by
  rw [← has_bit e (by decide : 0 < 64)]
  unfold isPresent has
  rw [show PRESENT = BitVec.twoPow 64 0 from rfl, BitVec.and_twoPow]
  cases e.getLsbD 0 <;> decide

/-- Outside the address an entry has the bits of its flags. -/
theorem make_bit (a flags : Word) (hk : k < 12 ∨ 52 ≤ k) :
    (make a flags).getLsbD k = flags.getLsbD k := by
  have hmask : (decide (12 ≤ k) && decide (k < 52)) = false := by
    rw [Bool.and_eq_false_iff, decide_eq_false_iff_not, decide_eq_false_iff_not]
    omega
  unfold make
  rw [BitVec.getLsbD_or, BitVec.getLsbD_and, addrMask_getLsbD, hmask, Bool.and_false, Bool.false_or]

theorem isPresent_make (a flags : Word) : isPresent (make a flags) = flags.getLsbD 0 := by
  rw [isPresent_eq, make_bit a flags (by omega)]

/-- A flag of one bit outside the address, in an entry and in its flags. -/
theorem has_make (a flags : Word) (hk : k < 12 ∨ 52 ≤ k) (hlt : k < 64) :
    has (make a flags) (BitVec.twoPow 64 k) = has flags (BitVec.twoPow 64 k) := by
  rw [has_bit _ hlt, has_bit _ hlt, make_bit a flags hk]

/-! ## Flags without address bits -/

theorem or_mask {a b m : Word} (ha : a &&& m = 0) (hb : b &&& m = 0) : (a ||| b) &&& m = 0 := by
  apply BitVec.eq_of_getLsbD_eq
  intro i _
  have ha' := congrArg (fun w : Word => w.getLsbD i) ha
  have hb' := congrArg (fun w : Word => w.getLsbD i) hb
  simp only [BitVec.getLsbD_and, BitVec.getLsbD_or] at ha' hb' ⊢
  cases hm : m.getLsbD i <;> simp_all

theorem and_mask {a b m : Word} (ha : a &&& m = 0) : (a &&& b) &&& m = 0 := by
  rw [BitVec.and_assoc, BitVec.and_comm b m, ← BitVec.and_assoc, ha]
  simp

theorem flags_mask (e : Word) : flags e &&& addrMask = 0 := by
  unfold flags
  rw [BitVec.and_assoc, show (0xFFF : Word) &&& addrMask = 0 by decide]
  simp

theorem flags_bit (e : Word) (hk : k < 12) : (flags e).getLsbD k = e.getLsbD k := by
  unfold flags
  have h : ∀ j : Fin 12, (0xFFF : Word).getLsbD j = true := by decide
  rw [BitVec.getLsbD_and, h ⟨k, hk⟩, Bool.and_true]

theorem cowFlags_mask {fl : Word} (h : fl &&& addrMask = 0) : cowFlags fl &&& addrMask = 0 := by
  unfold cowFlags
  split
  · exact or_mask (and_mask h) (by decide)
  · exact h

theorem cowFlags_bit (fl : Word) (h1 : k ≠ 1) (h9 : k ≠ 9) (hk : k < 64) :
    (cowFlags fl).getLsbD k = fl.getLsbD k := by
  unfold cowFlags
  split
  · have hw : WRITABLE.getLsbD k = false := by
      rw [show WRITABLE = BitVec.twoPow 64 1 from rfl, BitVec.getLsbD_twoPow]
      simp [Ne.symm h1]
    have hc : COPY_ON_WRITE.getLsbD k = false := by
      rw [show COPY_ON_WRITE = BitVec.twoPow 64 9 from rfl, BitVec.getLsbD_twoPow]
      simp [Ne.symm h9]
    rw [BitVec.getLsbD_or, BitVec.getLsbD_and, BitVec.getLsbD_not, hw, hc]
    simp [hk]
  · rfl

end Pte

end PandaOS.Kernel
