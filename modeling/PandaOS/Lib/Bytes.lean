import Mathlib.Data.Nat.Digits.Lemmas
import Mathlib.Data.List.GetD

/-!
# Byte memories

A memory is a function from addresses to bytes. `storeAt` writes a list of
bytes, `Holds` says that a list of bytes is at an address, and `wordAt` reads
the eight bytes at an address as a little-endian number.
-/

namespace PandaOS.Lib

variable {ws vs : List Nat} {w n : Nat} {data xs ys : List (BitVec 8)}

abbrev Memory := Nat → BitVec 8

/-- Write a list of bytes. -/
def storeAt (mem : Memory) (addr : Nat) (data : List (BitVec 8)) : Memory := fun a =>
  if addr ≤ a ∧ a < addr + data.length then data.getD (a - addr) 0 else mem a

/-- The bytes of a number, least significant first. -/
def leBytes (w : Nat) : List (BitVec 8) := (List.range 8).map fun j => BitVec.ofNat 8 (w / 256 ^ j)

/-- The number in the eight bytes at an address. -/
def wordAt (mem : Memory) (addr : Nat) : Nat :=
  Nat.ofDigits 256 ((List.range 8).map fun j => (mem (addr + j)).toNat)

/-- The bytes at an address. -/
def Holds (mem : Memory) (addr : Nat) (data : List (BitVec 8)) : Prop :=
  ∀ i, i < data.length → mem (addr + i) = data.getD i 0

/-- The words at an address. -/
def HoldsWords (mem : Memory) (addr : Nat) (words : List Nat) : Prop :=
  ∀ i, i < words.length → wordAt mem (addr + 8 * i) = words.getD i 0

variable {mem mem' : Memory} {addr : Nat}

theorem storeAt_outside {a : Nat}
    (h : a < addr ∨ addr + data.length ≤ a) : storeAt mem addr data a = mem a :=
  if_neg (by omega)

theorem holds_storeAt (mem : Memory) (addr : Nat) (data : List (BitVec 8)) :
    Holds (storeAt mem addr data) addr data := by
  intro i hi
  unfold storeAt
  rw [if_pos (by omega), Nat.add_sub_cancel_left]

theorem storeAt_append (mem : Memory) (addr : Nat) (xs ys : List (BitVec 8)) :
    storeAt (storeAt mem addr xs) (addr + xs.length) ys = storeAt mem addr (xs ++ ys) := by
  funext a
  simp only [storeAt, List.length_append]
  by_cases hlo : addr ≤ a
  · by_cases hx : a < addr + xs.length
    · rw [if_neg (by omega), if_pos ⟨hlo, hx⟩, if_pos (by omega),
        List.getD_append _ _ _ _ (by omega)]
    · by_cases hy : a < addr + xs.length + ys.length
      · rw [if_pos (by omega), if_pos (by omega), List.getD_append_right _ _ _ _ (by omega)]
        congr 1
        omega
      · rw [if_neg (by omega), if_neg (by omega), if_neg (by omega)]
  · rw [if_neg (by omega), if_neg (by omega), if_neg (by omega)]

/-- Bytes stay where the memory does not change. -/
theorem Holds.keep (h : Holds mem addr data)
    (hsame : ∀ a, addr ≤ a → a < addr + data.length → mem' a = mem a) : Holds mem' addr data := by
  intro i hi
  rw [hsame _ (by omega) (by omega), h i hi]

theorem wordAt_keep (hsame : ∀ a, addr ≤ a → a < addr + 8 → mem' a = mem a) :
    wordAt mem' addr = wordAt mem addr := by
  unfold wordAt
  congr 1
  apply List.map_congr_left
  intro j hj
  have := List.mem_range.mp hj
  rw [hsame _ (by omega) (by omega)]

theorem HoldsWords.keep {words : List Nat} (h : HoldsWords mem addr words)
    (hsame : ∀ a, addr ≤ a → a < addr + 8 * words.length → mem' a = mem a) :
    HoldsWords mem' addr words := by
  intro i hi
  rw [← h i hi]
  exact wordAt_keep fun a hlo hhi => hsame a (by omega) (by omega)

theorem HoldsWords.append (h : HoldsWords mem addr ws)
    (h' : HoldsWords mem (addr + 8 * ws.length) vs) : HoldsWords mem addr (ws ++ vs) := by
  intro i hi
  rw [List.length_append] at hi
  by_cases hlt : i < ws.length
  · rw [h i hlt, List.getD_append _ _ _ _ hlt]
  · have hrest := h' (i - ws.length) (by omega)
    rw [List.getD_append_right _ _ _ _ (by omega), ← hrest]
    congr 1
    omega

theorem HoldsWords.left (h : HoldsWords mem addr (ws ++ vs)) : HoldsWords mem addr ws := by
  intro i hi
  rw [h i (by rw [List.length_append]; omega), List.getD_append _ _ _ _ hi]

theorem HoldsWords.right (h : HoldsWords mem addr (ws ++ vs)) :
    HoldsWords mem (addr + 8 * ws.length) vs := by
  intro i hi
  have hword := h (ws.length + i) (by rw [List.length_append]; omega)
  rw [List.getD_append_right _ _ _ _ (by omega), Nat.add_sub_cancel_left] at hword
  rw [← hword]
  congr 1
  omega

theorem HoldsWords.head (h : HoldsWords mem addr (w :: ws)) : wordAt mem addr = w := h 0 (by simp)

theorem HoldsWords.tail (h : HoldsWords mem addr (w :: ws)) : HoldsWords mem (addr + 8) ws := by
  rw [← List.singleton_append] at h
  exact h.right

theorem length_leBytes (w : Nat) : (leBytes w).length = 8 := by simp [leBytes]

/-- The low digits of a number. -/
theorem ofDigits_low (n w : Nat) :
    Nat.ofDigits 256 ((List.range n).map fun j => w / 256 ^ j % 256) = w % 256 ^ n := by
  induction n generalizing w with
  | zero => simp [Nat.mod_one]
  | succ n ih =>
    have htail : ∀ j, w / 256 ^ (j + 1) % 256 = w / 256 / 256 ^ j % 256 := by
      intro j
      rw [Nat.div_div_eq_div_mul, Nat.pow_succ']
    rw [List.range_succ_eq_map, List.map_cons, List.map_map, Nat.ofDigits_cons]
    simp only [Function.comp_def, Nat.succ_eq_add_one, htail, ih, pow_zero, Nat.div_one]
    rw [Nat.pow_succ', Nat.mod_mul]

/-- A number of 64 bits is read back. -/
theorem wordAt_storeAt (hw : w < 2 ^ 64) (mem : Memory) (addr : Nat) :
    wordAt (storeAt mem addr (leBytes w)) addr = w := by
  have hdigits : ((List.range 8).map fun j => (storeAt mem addr (leBytes w) (addr + j)).toNat) =
      (List.range 8).map fun j => w / 256 ^ j % 256 := by
    apply List.map_congr_left
    intro j hj
    have hj := List.mem_range.mp hj
    rw [holds_storeAt mem addr (leBytes w) j (by rw [length_leBytes]; exact hj)]
    simp [leBytes, List.getD_eq_getElem?_getD, hj]
  rw [wordAt, hdigits, ofDigits_low]
  exact Nat.mod_eq_of_lt (by simpa using hw)

/-! ## Fields of other widths -/

/-- The low `n` bytes of a number, least significant first. -/
def fieldBytes (n w : Nat) : List (BitVec 8) :=
  (List.range n).map fun j => BitVec.ofNat 8 (w / 256 ^ j)

/-- The number in the `n` bytes at an address. -/
def fieldAt (mem : Memory) (addr n : Nat) : Nat :=
  Nat.ofDigits 256 ((List.range n).map fun j => (mem (addr + j)).toNat)

theorem length_fieldBytes (n w : Nat) : (fieldBytes n w).length = n := by simp [fieldBytes]

/-- A number is cut to its field. -/
theorem fieldBytes_mod (n w : Nat) : fieldBytes n (w % 256 ^ n) = fieldBytes n w := by
  apply List.map_congr_left
  intro j hj
  have hj := List.mem_range.mp hj
  apply BitVec.eq_of_toNat_eq
  have hpow : 256 ^ n = 256 ^ j * 256 ^ (n - j) := by
    rw [← Nat.pow_add]
    congr 1
    omega
  have hdvd : 2 ^ 8 ∣ 256 ^ (n - j) := dvd_pow_self 256 (by omega)
  rw [BitVec.toNat_ofNat, BitVec.toNat_ofNat, hpow, Nat.mod_mul_right_div_self,
    Nat.mod_mod_of_dvd _ hdvd]

theorem fieldAt_lt (mem : Memory) (addr n : Nat) : fieldAt mem addr n < 256 ^ n := by
  have hlt := Nat.ofDigits_lt_base_pow_length (b := 256)
    (l := (List.range n).map fun j => (mem (addr + j)).toNat)
    (by decide) (by simp only [List.mem_map]; rintro x ⟨j, -, rfl⟩; exact (mem (addr + j)).isLt)
  rwa [List.length_map, List.length_range] at hlt

theorem fieldAt_keep (hsame : ∀ a, addr ≤ a → a < addr + n → mem' a = mem a) :
    fieldAt mem' addr n = fieldAt mem addr n := by
  unfold fieldAt
  congr 1
  apply List.map_congr_left
  intro j hj
  have := List.mem_range.mp hj
  rw [hsame _ (by omega) (by omega)]

theorem Holds.left (h : Holds mem addr (xs ++ ys)) : Holds mem addr xs := by
  intro i hi
  rw [h i (by rw [List.length_append]; omega), List.getD_append _ _ _ _ hi]

theorem Holds.right (h : Holds mem addr (xs ++ ys)) : Holds mem (addr + xs.length) ys := by
  intro i hi
  have hbyte := h (xs.length + i) (by rw [List.length_append]; omega)
  rw [List.getD_append_right _ _ _ _ (by omega), Nat.add_sub_cancel_left] at hbyte
  rw [← hbyte, Nat.add_assoc]

/-- A number that fits its field is read back. -/
theorem Holds.fieldAt_eq (h : Holds mem addr (fieldBytes n w)) (hw : w < 256 ^ n) :
    fieldAt mem addr n = w := by
  have hdigits : ((List.range n).map fun j => (mem (addr + j)).toNat) =
      (List.range n).map fun j => w / 256 ^ j % 256 := by
    apply List.map_congr_left
    intro j hj
    have hj := List.mem_range.mp hj
    rw [h j (by rw [length_fieldBytes]; exact hj)]
    simp [fieldBytes, List.getD_eq_getElem?_getD, hj]
  rw [fieldAt, hdigits, ofDigits_low, Nat.mod_eq_of_lt hw]

end PandaOS.Lib
