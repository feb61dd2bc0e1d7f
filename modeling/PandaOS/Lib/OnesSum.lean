import Mathlib.Tactic.Common

/-!
# One's-complement sums

A sum in base `b` whose carry out of the lowest digit is added to it again, as
the checksums of the Internet protocols are. `endAround b s` is the digit that
is left: it is zero for the sum zero only, and otherwise the number in
`1 .. b - 1` that agrees with the sum modulo `b - 1`.

`wordSum` adds up a byte string as 16-bit words, the high byte first. A byte
string that carries its own checksum has the sum `0xFFFF`.
-/

namespace PandaOS.Lib

/-- What is left of a sum when its carries are added to its lowest digit. -/
def endAround (b s : Nat) : Nat := if s = 0 then 0 else (s - 1) % (b - 1) + 1

section

variable {b s : Nat}

theorem endAround_of_lt (h : s < b) : endAround b s = s := by
  unfold endAround
  split
  · exact Eq.symm ‹_›
  · rw [Nat.mod_eq_of_lt (by omega)]
    omega

/-- Adding the carry once does not change the result. -/
theorem endAround_carry (hb : 1 < b) (s : Nat) : endAround b (s % b + s / b) = endAround b s := by
  have hs := Nat.div_add_mod s b
  generalize s / b = carry at *
  generalize s % b = digit at *
  unfold endAround
  by_cases h0 : s = 0
  · have hcarry : carry = 0 := by
      rcases Nat.eq_zero_or_pos carry with h | h
      · exact h
      · have := Nat.mul_pos (show 0 < b by omega) h
        omega
    rw [if_pos h0, if_pos (by omega)]
  · have hpos : digit + carry ≠ 0 := by
      intro hz
      obtain ⟨rfl, rfl⟩ : digit = 0 ∧ carry = 0 := by omega
      omega
    rw [if_neg h0, if_neg hpos]
    -- `s` and the new sum differ by `(b - 1) * carry`
    have hmul : b * carry = (b - 1) * carry + carry := by
      have := Nat.le_mul_of_pos_left carry (show 0 < b by omega)
      rw [Nat.sub_one_mul]
      omega
    have hsplit : s - 1 = (digit + carry - 1) + (b - 1) * carry := by omega
    rw [hsplit, Nat.add_mul_mod_self_left]

/-- The result is the largest digit if the sum is a positive multiple of it. -/
theorem endAround_eq_top (hb : 1 < b) : endAround b s = b - 1 ↔ s ≠ 0 ∧ (b - 1) ∣ s := by
  unfold endAround
  by_cases h0 : s = 0
  · simp only [h0, if_true]
    omega
  · have hlt := Nat.mod_lt (s - 1) (show 0 < b - 1 by omega)
    have hstep : (s - 1) % (b - 1) + 1 = b - 1 ↔ s % (b - 1) = 0 := by
      obtain ⟨t, rfl⟩ : ∃ t, s = t + 1 := ⟨s - 1, by omega⟩
      rw [Nat.add_sub_cancel, Nat.add_mod_eq_ite]
      have hone : 1 % (b - 1) = if b - 1 = 1 then 0 else 1 := by
        split
        · rename_i h
          rw [h]
        · exact Nat.mod_eq_of_lt (by omega)
      rw [Nat.add_sub_cancel] at hlt
      rw [hone]
      split <;> split <;> omega
    simp only [h0, if_false, ne_eq, not_false_eq_true, true_and]
    rw [hstep, Nat.dvd_iff_mod_eq_zero]

theorem endAround_lt (hb : 1 < b) (s : Nat) : endAround b s < b := by
  unfold endAround
  split
  · omega
  · have := Nat.mod_lt (s - 1) (show 0 < b - 1 by omega)
    omega

theorem endAround_modEq (b s : Nat) : endAround b s % (b - 1) = s % (b - 1) := by
  unfold endAround
  split
  · simp [*]
  · rw [Nat.mod_add_mod, Nat.sub_add_cancel (by omega)]

end

/-- The sum of the 16-bit words of a byte string, high byte first; a last odd
byte is a high byte. -/
def wordSum : List (BitVec 8) → Nat
  | [] => 0
  | [hi] => hi.toNat * 256
  | hi :: lo :: rest => hi.toNat * 256 + lo.toNat + wordSum rest

/-- The words of the byte string add up to `0xFFFF`. -/
def Cancels (xs : List (BitVec 8)) : Prop := wordSum xs ≠ 0 ∧ 65535 ∣ wordSum xs

instance (xs : List (BitVec 8)) : Decidable (Cancels xs) := inferInstanceAs (Decidable (_ ∧ _))

theorem cancels_iff {xs : List (BitVec 8)} : Cancels xs ↔ endAround 65536 (wordSum xs) = 65535 :=
  (endAround_eq_top (by decide : 1 < 65536)).symm

theorem wordSum_pair (hi lo : BitVec 8) : wordSum [hi, lo] = hi.toNat * 256 + lo.toNat := by
  simp [wordSum]

theorem wordSum_append : ∀ {xs : List (BitVec 8)} (ys : List (BitVec 8)), xs.length % 2 = 0 →
    wordSum (xs ++ ys) = wordSum xs + wordSum ys
  | [], ys, _ => by simp [wordSum]
  | [x], _, h => by simp at h
  | hi :: lo :: rest, ys, h => by
    have hrest : rest.length % 2 = 0 := by
      simp only [List.length_cons] at h
      omega
    simp only [List.cons_append, wordSum, wordSum_append ys hrest]
    omega

theorem wordSum_le : ∀ xs : List (BitVec 8), wordSum xs ≤ 65535 * ((xs.length + 1) / 2)
  | [] => by simp [wordSum]
  | [hi] => by
    have := hi.isLt
    simp only [wordSum, List.length_singleton]
    omega
  | hi :: lo :: rest => by
    have := hi.isLt
    have := lo.isLt
    have := wordSum_le rest
    simp only [wordSum, List.length_cons]
    omega

/-- A word that completes a sum: put beside words of sum `s`, it makes them
cancel. -/
theorem endAround_complement {s : Nat} (hs : s ≠ 0) :
    s + (65535 - endAround 65536 s) ≠ 0 ∧ 65535 ∣ s + (65535 - endAround 65536 s) := by
  have hlt := endAround_lt (b := 65536) (by decide) s
  have hmod : endAround 65536 s % 65535 = s % 65535 := endAround_modEq 65536 s
  exact ⟨by omega, by omega⟩

end PandaOS.Lib
