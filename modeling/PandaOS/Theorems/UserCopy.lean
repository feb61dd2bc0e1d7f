import PandaOS.Kernel.UserCopy

/-!
# User pointers

Which addresses the copies of `Kernel/UserCopy` access. None of them compares a
pointer with `USER_SPACE_MAX`, so a call stays in the user half exactly if what
it is pointed to lies there: the bytes, the string up to its NUL, or the array
up to its null pointer with every string of it.
-/

namespace PandaOS.Kernel

open Lib

variable {debug : Bool} {addr a n start ptr w : Nat} {str : List Byte} {u : Unit} {b : Byte}
  {data : Nat → Byte} {strs : List (Nat × List Byte)} {load : Nat → Option Byte}

/-! ## What memory holds

In a release build an address that passes the top goes on at 0; a debug build
stops there. -/

section

variable (debug : Bool) (load : Nat → Option Byte)

/-- The bytes from an address on. -/
def BytesAt : Nat → List Byte → Prop
  | _, [] => True
  | addr, b :: bytes => load (wrapAddr addr) = some b ∧ BytesAt (addr + 1) bytes

/-- A NUL-terminated string. -/
def StringAt : Nat → List Byte → Prop
  | addr, [] => (debug → addr < 2 ^ 64) ∧ load (wrapAddr addr) = some 0
  | addr, b :: str =>
    (debug → addr < 2 ^ 64) ∧ load (wrapAddr addr) = some b ∧ b ≠ 0 ∧ StringAt (addr + 1) str

/-- A word, aligned in a debug build. -/
def UserWordAt (addr w : Nat) : Prop :=
  (debug → addr % 8 = 0) ∧ ∃ bytes : List Byte, bytes.length = 8 ∧ BytesAt load addr bytes ∧
    w = Nat.ofDigits 256 (bytes.map BitVec.toNat)

/-- A null-terminated array of pointers to strings, each with its string. -/
def ArrayAt : Nat → List (Nat × List Byte) → Prop
  | addr, [] => (debug → addr < 2 ^ 64) ∧ UserWordAt debug load (wrapAddr addr) 0
  | addr, (ptr, str) :: rest =>
    (debug → addr < 2 ^ 64) ∧ UserWordAt debug load (wrapAddr addr) ptr ∧ ptr ≠ 0 ∧
      StringAt debug load ptr str ∧ ArrayAt (addr + 8) rest

end

/-- The addresses of `n` bytes. -/
def addrsFrom : Nat → Nat → List Nat
  | _, 0 => []
  | addr, n + 1 => wrapAddr addr :: addrsFrom (addr + 1) n

/-- The addresses of an array and of its strings. -/
def arrayAddrs : Nat → List (Nat × List Byte) → List Nat
  | addr, [] => addrsFrom (wrapAddr addr) 8
  | addr, (ptr, str) :: rest =>
    addrsFrom (wrapAddr addr) 8 ++ (addrsFrom ptr (str.length + 1) ++ arrayAddrs (addr + 8) rest)

/-- The state after more accesses. -/
def AddressView.touch (s : AddressView) (addrs : List Nat) : AddressView :=
  { s with touched := s.touched ++ addrs }

/-- The state after a byte is written. -/
def AddressView.store (s : AddressView) (addr : Nat) (b : Byte) : AddressView :=
  { s with load := Function.update s.load addr (some b), touched := s.touched ++ [addr] }

theorem AddressView.store_other (s : AddressView) (b : Byte) (h : a ≠ addr) :
    (s.store addr b).load a = s.load a := Function.update_of_ne h ..

section

variable (s : AddressView) (xs ys : List Nat)

@[simp] theorem AddressView.touch_load : (s.touch xs).load = s.load := rfl

@[simp] theorem AddressView.touch_touched : (s.touch xs).touched = s.touched ++ xs := rfl

theorem AddressView.touch_touch : (s.touch xs).touch ys = s.touch (xs ++ ys) := by
  simp [AddressView.touch]

theorem AddressView.touch_cons (x : Nat) : (s.touch [x]).touch xs = s.touch (x :: xs) :=
  s.touch_touch [x] xs

theorem AddressView.touch_nil : s.touch [] = s := by
  simp [AddressView.touch]

end

/-! ## Runs that return -/

section

variable {s s' : AddressView} {ptr addr : Nat} {bytes : List Byte}

theorem readByte_returns : Returns (readByte addr) s b s' ↔
    s.load addr = some b ∧ s' = s.touch [addr] := by
  unfold readByte
  simp only [returns_bind, returns_get]
  constructor
  · rintro ⟨_, _, ⟨rfl, rfl⟩, h⟩
    split at h
    · exact absurd h not_returns_throw
    · rename_i c hload
      simp only [returns_bind, returns_modify, returns_pure] at h
      obtain ⟨_, _, rfl, rfl, rfl⟩ := h
      exact ⟨hload, rfl⟩
  · rintro ⟨hload, rfl⟩
    refine ⟨s, s, ⟨rfl, rfl⟩, ?_⟩
    rw [hload]
    exact (modify_returns _ _).bind (pure_returns _ _)

theorem addAddr_returns {i : Nat} : Returns (addAddr debug ptr i) s a s' ↔
    (debug → ptr + i < 2 ^ 64) ∧ a = wrapAddr (ptr + i) ∧ s' = s := by
  unfold addAddr
  split
  · rename_i h
    exact iff_of_false not_returns_throw fun hr => absurd (hr.1 h.1) (by omega)
  · rename_i h
    rw [returns_pure]
    exact ⟨fun hr => ⟨fun hd => by by_contra hge; exact h ⟨hd, by omega⟩, hr⟩, fun hr => hr.2⟩

theorem readBytes_returns : Returns (readBytes addr n) s bytes s' ↔
    bytes.length = n ∧ BytesAt s.load addr bytes ∧ s' = s.touch (addrsFrom addr n) := by
  induction n generalizing addr bytes s s' with
  | zero =>
    simp only [readBytes, returns_pure, addrsFrom, AddressView.touch_nil, List.length_eq_zero_iff]
    exact ⟨fun h => ⟨h.1, h.1 ▸ trivial, h.2⟩, fun h => ⟨h.1, h.2.2⟩⟩
  | succ n ih =>
    simp only [readBytes, returns_bind, returns_pure, readByte_returns, ih]
    constructor
    · rintro ⟨b, _, ⟨hb, rfl⟩, rest, _, ⟨hlen, hrest, rfl⟩, rfl, rfl⟩
      exact ⟨by simp [hlen], ⟨hb, hrest⟩, s.touch_cons _ _⟩
    · rintro ⟨hlen, hbytes, rfl⟩
      obtain ⟨b, rest, rfl⟩ : ∃ b rest, bytes = b :: rest :=
        List.exists_cons_of_length_eq_add_one hlen
      exact ⟨b, _, ⟨hbytes.1, rfl⟩, rest, _, ⟨by simpa using hlen, hbytes.2, rfl⟩,
        rfl, (s.touch_cons _ _).symm⟩

theorem readU64_returns : Returns (readU64 debug addr) s w s' ↔
    UserWordAt debug s.load addr w ∧ s' = s.touch (addrsFrom addr 8) := by
  unfold readU64 UserWordAt
  by_cases hmis : debug ∧ addr % 8 ≠ 0
  · rw [if_pos hmis]
    refine iff_of_false ?_ fun h => hmis.2 (h.1.1 hmis.1)
    simp
  · rw [if_neg hmis]
    have halign : debug → addr % 8 = 0 := fun hd => by by_contra h; exact hmis ⟨hd, h⟩
    simp only [returns_bind, returns_pure, readBytes_returns]
    constructor
    · rintro ⟨bytes, _, ⟨hlen, hbytes, rfl⟩, rfl, rfl⟩
      exact ⟨⟨halign, bytes, hlen, hbytes, rfl⟩, rfl⟩
    · rintro ⟨⟨-, bytes, hlen, hbytes, rfl⟩, rfl⟩
      exact ⟨bytes, _, ⟨hlen, hbytes, rfl⟩, rfl, rfl⟩

/-- A scan returns the string from where it stands, in front of it what it has
read before. -/
theorem scanUser_returns {tooLong : ErrorCode} {pre : List Byte} :
    Returns (scanUser debug ptr tooLong n pre) s str s' ↔
      ∃ rest, str = pre ++ rest ∧ rest.length < n ∧ StringAt debug s.load (ptr + pre.length) rest ∧
        s' = s.touch (addrsFrom (ptr + pre.length) (rest.length + 1)) := by
  induction n generalizing pre s with
  | zero => simp [scanUser]
  | succ n ih =>
    simp only [scanUser, returns_bind, addAddr_returns, readByte_returns]
    have hnext : ∀ b, ptr + (pre ++ [b]).length = ptr + pre.length + 1 := fun b => by
      rw [List.length_append, List.length_singleton, Nat.add_assoc]
    constructor
    · rintro ⟨a, _, ⟨hwrap, rfl, rfl⟩, b, _, ⟨hb, rfl⟩, h⟩
      split at h
      · rename_i hnul
        obtain ⟨rfl, rfl⟩ := returns_pure.mp h
        exact ⟨[], by simp, Nat.succ_pos n, ⟨hwrap, hnul ▸ hb⟩, rfl⟩
      · rename_i hnul
        obtain ⟨rest, rfl, hlen, hrest, rfl⟩ := ih.mp h
        rw [hnext] at hrest ⊢
        refine ⟨b :: rest, by simp, by simpa using hlen, ⟨hwrap, hb, hnul, hrest⟩, ?_⟩
        exact AddressView.touch_cons _ _ _
    · rintro ⟨rest, rfl, hlen, hrest, rfl⟩
      cases rest with
      | nil =>
        refine ⟨_, _, ⟨hrest.1, rfl, rfl⟩, 0, _, ⟨hrest.2, rfl⟩, ?_⟩
        rw [if_pos rfl, List.append_nil]
        exact pure_returns _ _
      | cons b rest =>
        obtain ⟨hwrap, hb, hnul, hrest⟩ := hrest
        refine ⟨_, _, ⟨hwrap, rfl, rfl⟩, b, _, ⟨hb, rfl⟩, ?_⟩
        rw [if_neg hnul, ih, hnext]
        refine ⟨rest, by simp, by simpa using hlen, hrest, ?_⟩
        exact (s.touch_cons _ _).symm

theorem copyUserCstr_returns {bufLen : Nat} : Returns (copyUserCstr debug ptr bufLen) s str s' ↔
      ptr ≠ 0 ∧ str.length < bufLen ∧ validUtf8 str ∧ StringAt debug s.load ptr str ∧
        s' = s.touch (addrsFrom ptr (str.length + 1)) := by
  unfold copyUserCstr
  by_cases hptr : ptr = 0
  · rw [if_pos hptr]
    exact iff_of_false (by simp) fun h => h.1 hptr
  · rw [if_neg hptr]
    simp only [returns_bind, scanUser_returns, List.nil_append, List.length_nil, Nat.add_zero]
    constructor
    · rintro ⟨_, _, ⟨_, rfl, hlen, hstr, rfl⟩, h⟩
      split at h
      · rename_i hutf
        obtain ⟨rfl, rfl⟩ := returns_pure.mp h
        exact ⟨hptr, hlen, hutf, hstr, rfl⟩
      · exact absurd h not_returns_throw
    · rintro ⟨-, hlen, hutf, hstr, rfl⟩
      refine ⟨str, _, ⟨str, rfl, hlen, hstr, rfl⟩, ?_⟩
      rw [if_pos hutf]
      exact pure_returns _ _

theorem readUserString_returns : Returns (readUserString debug ptr) s str s' ↔
    ptr ≠ 0 ∧ str.length < maxStrlen ∧ StringAt debug s.load ptr str ∧
      s' = s.touch (addrsFrom ptr (str.length + 1)) := by
  unfold readUserString
  by_cases hptr : ptr = 0
  · rw [if_pos hptr]
    exact iff_of_false (by simp) fun h => h.1 hptr
  · rw [if_neg hptr, scanUser_returns]
    simp [hptr]

/-- An array is read to its null pointer. The limit on all strings together is
never met: there are at most 64 of them, with at most 256 bytes each. -/
theorem parseStrings_returns {total : Nat} {pre args : List (List Byte)}
    (htotal : total ≤ pre.length * maxStrlen) (hcount : pre.length + n ≤ 64) :
    Returns (parseStrings debug ptr n pre total) s args s' ↔
      ∃ strs, args = pre ++ strs.map (·.2) ∧ strs.length < n ∧
        (∀ x ∈ strs, x.2.length < maxStrlen) ∧ ArrayAt debug s.load (ptr + pre.length * 8) strs ∧
        s' = s.touch (arrayAddrs (ptr + pre.length * 8) strs) := by
  induction n generalizing pre total s with
  | zero => simp [parseStrings]
  | succ n ih =>
    simp only [parseStrings, returns_bind, addAddr_returns, readU64_returns]
    have hlength : ∀ arg, (pre ++ [arg]).length = pre.length + 1 := fun arg => by simp
    have hnext : ∀ arg, ptr + (pre ++ [arg]).length * 8 = ptr + pre.length * 8 + 8 := fun arg => by
      rw [hlength]
      omega
    -- 64 strings stay within `maxTotalBytes`: the check of the total never fails
    have hfits : ∀ arg : List Byte, arg.length < maxStrlen →
        total + (arg.length + 1) ≤ (pre ++ [arg]).length * maxStrlen ∧
          ¬maxTotalBytes < total + (arg.length + 1) := by
      intro arg harg
      rw [hlength]
      unfold maxStrlen maxTotalBytes at *
      omega
    constructor
    · rintro ⟨a, _, ⟨hwrap, rfl, rfl⟩, w, _, ⟨hw, rfl⟩, h⟩
      by_cases hnull : w = 0
      · rw [if_pos hnull] at h
        obtain ⟨rfl, rfl⟩ := returns_pure.mp h
        exact ⟨[], by simp, Nat.succ_pos n, by simp, ⟨hwrap, hnull ▸ hw⟩, rfl⟩
      · rw [if_neg hnull] at h
        simp only [returns_bind, readUserString_returns] at h
        obtain ⟨arg, _, ⟨-, harg, hstr, rfl⟩, h⟩ := h
        rw [if_neg (hfits arg harg).2] at h
        obtain ⟨strs, rfl, hlen, hshort, harr, rfl⟩ :=
          (ih (hfits arg harg).1 (by rw [hlength]; omega)).mp h
        rw [hnext] at harr ⊢
        refine ⟨(w, arg) :: strs, by simp, by simpa using hlen,
          ?_, ⟨hwrap, hw, hnull, hstr, harr⟩, ?_⟩
        · intro x hx
          rcases List.mem_cons.mp hx with rfl | hx
          · exact harg
          · exact hshort x hx
        · rw [AddressView.touch_touch, AddressView.touch_touch, arrayAddrs]
    · rintro ⟨strs, rfl, hlen, hshort, harr, rfl⟩
      cases strs with
      | nil =>
        refine ⟨_, _, ⟨harr.1, rfl, rfl⟩, 0, _, ⟨harr.2, rfl⟩, ?_⟩
        rw [if_pos rfl, List.map_nil, List.append_nil]
        exact pure_returns _ _
      | cons x strs =>
        obtain ⟨w, arg⟩ := x
        obtain ⟨hwrap, hw, hnull, hstr, harr⟩ := harr
        have harg := hshort _ List.mem_cons_self
        refine ⟨_, _, ⟨hwrap, rfl, rfl⟩, w, _, ⟨hw, rfl⟩, ?_⟩
        rw [if_neg hnull]
        refine .bind (readUserString_returns.mpr ⟨hnull, harg, ?_, rfl⟩) ?_
        · exact hstr
        rw [if_neg (hfits arg harg).2, ih (hfits arg harg).1 (by rw [hlength]; omega), hnext]
        refine ⟨strs, by simp, by simpa using hlen, ?_, harr, ?_⟩
        · exact fun x hx => hshort x (List.mem_cons_of_mem _ hx)
        · rw [AddressView.touch_touch, AddressView.touch_touch, arrayAddrs]

/-- The loop of `copy_user_bytes`. -/
theorem readLoop_returns :
    Returns (forRange start n fun i => do let _ ← readByte (← addAddr debug ptr i)) s u s' ↔
      ∃ bytes, bytes.length = n ∧ BytesAt s.load (ptr + start) bytes ∧
        (debug → n = 0 ∨ ptr + start + n ≤ 2 ^ 64) ∧ s' = s.touch (addrsFrom (ptr + start) n) := by
  induction n generalizing start s with
  | zero =>
    simp only [forRange, returns_pure, addrsFrom, AddressView.touch_nil]
    constructor
    · exact fun h => ⟨[], rfl, trivial, fun _ => .inl trivial, h.2⟩
    · rintro ⟨_, -, -, -, h⟩
      exact ⟨trivial, h⟩
  | succ n ih =>
    simp only [forRange, returns_bind, returns_pure, addAddr_returns, readByte_returns, ih]
    constructor
    · rintro ⟨_, _, ⟨a, _, ⟨hwrap, rfl, rfl⟩, b, _, ⟨hb, rfl⟩, -, rfl⟩,
        bytes, hlen, hbytes, htop, rfl⟩
      refine ⟨b :: bytes, by simp [hlen], ⟨hb, hbytes⟩, fun hd => .inr ?_,
        AddressView.touch_cons _ _ _⟩
      have := hwrap hd
      have := htop hd
      omega
    · rintro ⟨bytes, hlen, hbytes, htop, rfl⟩
      obtain ⟨b, rest, rfl⟩ : ∃ b rest, bytes = b :: rest :=
        List.exists_cons_of_length_eq_add_one hlen
      have hend : debug → ptr + start + (n + 1) ≤ 2 ^ 64 :=
        fun hd => (htop hd).resolve_left (by omega)
      refine ⟨(), _, ⟨_, _, ⟨fun hd => ?_, rfl, rfl⟩, b, _, ⟨hbytes.1, rfl⟩, trivial, rfl⟩, rest,
        by simpa using hlen, hbytes.2, fun hd => .inr ?_, (AddressView.touch_cons _ _ _).symm⟩
      · have := hend hd
        omega
      · have := hend hd
        omega

theorem copyUserBuf_returns {len dstLen r : Nat} :
    Returns (copyUserBuf debug ptr len dstLen) s r s' ↔
    r = len ∧ ptr ≠ 0 ∧ len ≤ dstLen ∧ ∃ bytes, bytes.length = len ∧ BytesAt s.load ptr bytes ∧
      (debug → len = 0 ∨ ptr + len ≤ 2 ^ 64) ∧ s' = s.touch (addrsFrom ptr len) := by
  unfold copyUserBuf
  by_cases hptr : ptr = 0
  · rw [if_pos hptr]
    exact iff_of_false (by simp) fun h => h.2.1 hptr
  by_cases hlen : dstLen < len
  · rw [if_neg hptr, if_pos hlen]
    exact iff_of_false (by simp) fun h => absurd h.2.2.1 (by omega)
  rw [if_neg hptr, if_neg hlen]
  simp only [returns_bind, returns_pure, readLoop_returns, Nat.add_zero]
  constructor
  · rintro ⟨_, _, h, rfl, rfl⟩
    exact ⟨rfl, hptr, by omega, h⟩
  · rintro ⟨rfl, -, -, h⟩
    exact ⟨(), _, h, rfl, rfl⟩

theorem writeByte_returns : Returns (writeByte addr b) s u s' ↔
    s.load addr ≠ none ∧ s.writable addr ∧ s' = s.store addr b := by
  unfold writeByte
  simp only [returns_bind, returns_get]
  constructor
  · rintro ⟨_, _, ⟨rfl, rfl⟩, h⟩
    split at h
    · simp at h
    · rename_i hcan
      rw [not_or] at hcan
      exact ⟨hcan.1, by simpa using hcan.2, returns_set.mp h⟩
  · rintro ⟨hload, hwrite, rfl⟩
    refine ⟨s, s, ⟨rfl, rfl⟩, ?_⟩
    rw [if_neg (by simp [hload, hwrite])]
    exact returns_set.mpr rfl

/-- The loop of `copy_to_user_bytes` returns if all bytes are there and writable. -/
theorem writeLoop_returns
    (h : Returns (forRange start n fun i => writeByte (ptr + i) (data i)) s u s') :
    (∀ i < n, s.load (ptr + start + i) ≠ none ∧ s.writable (ptr + start + i)) ∧
      s'.touched = s.touched ++ List.range' (ptr + start) n := by
  induction n generalizing start s with
  | zero =>
    simp only [forRange, returns_pure] at h
    simp [h.2]
  | succ n ih =>
    simp only [forRange, returns_bind, writeByte_returns] at h
    obtain ⟨_, _, ⟨hload, hwrite, rfl⟩, h⟩ := h
    obtain ⟨hrest, htouched⟩ := ih h
    constructor
    · intro i hi
      cases i with
      | zero => exact ⟨hload, hwrite⟩
      | succ i =>
        have hne : ptr + (start + 1) + i ≠ ptr + start := by omega
        have hi := hrest i (by omega)
        rw [AddressView.store_other _ _ hne] at hi
        rwa [show ptr + start + (i + 1) = ptr + (start + 1) + i by omega]
    · show s'.touched = _
      rw [htouched, List.range'_succ, Nat.add_assoc ptr start 1]
      exact List.append_assoc s.touched [ptr + start] _

theorem writeLoop_exists
    (h : ∀ i < n, s.load (ptr + start + i) ≠ none ∧ s.writable (ptr + start + i)) :
    ∃ s', Returns (forRange start n fun i => writeByte (ptr + i) (data i)) s () s' := by
  induction n generalizing start s with
  | zero => exact ⟨s, rfl⟩
  | succ n ih =>
    obtain ⟨hload, hwrite⟩ := h 0 (Nat.succ_pos n)
    have hfirst : Returns (writeByte (ptr + start) (data start)) s () _ :=
      writeByte_returns.mpr ⟨hload, hwrite, rfl⟩
    obtain ⟨s', hs'⟩ : ∃ s', Returns (forRange (start + 1) n fun i => writeByte (ptr + i) (data i))
        (s.store (ptr + start) (data start)) () s' := by
      apply ih
      intro i hi
      have hi := h (i + 1) (by omega)
      rw [show ptr + start + (i + 1) = ptr + (start + 1) + i by omega] at hi
      rwa [AddressView.store_other _ _ (by omega)]
    exact ⟨s', hfirst.bind hs'⟩

end

/-! ## Confinement -/

/-- An address a user program may name. -/
def IsUserAddr (a : Nat) : Prop := 1 ≤ a ∧ a < userSpaceMax

theorem mem_addrsFrom : a ∈ addrsFrom addr n ↔ ∃ i < n, a = wrapAddr (addr + i) := by
  induction n generalizing addr with
  | zero => simp [addrsFrom]
  | succ n ih =>
    rw [addrsFrom, List.mem_cons, ih]
    constructor
    · rintro (rfl | ⟨i, hi, rfl⟩)
      · exact ⟨0, Nat.succ_pos n, rfl⟩
      · exact ⟨i + 1, by omega, by rw [Nat.add_right_comm, Nat.add_assoc]⟩
    · rintro ⟨i, hi, rfl⟩
      cases i with
      | zero => exact .inl rfl
      | succ i => exact .inr ⟨i, by omega, by rw [Nat.add_right_comm, Nat.add_assoc]⟩

/-- Bytes are in the user half if the last one is. -/
theorem isUserAddr_addrsFrom (haddr : addr < 2 ^ 64) (hn : 0 < n) :
    (∀ a ∈ addrsFrom addr n, IsUserAddr a) ↔ 1 ≤ addr ∧ addr + n ≤ userSpaceMax := by
  unfold IsUserAddr userSpaceMax
  constructor
  · intro h
    have hfirst := h (wrapAddr (addr + 0)) (mem_addrsFrom.mpr ⟨0, hn, rfl⟩)
    unfold wrapAddr at h hfirst
    rw [Nat.add_zero, Nat.mod_eq_of_lt haddr] at hfirst
    refine ⟨hfirst.1, ?_⟩
    by_contra hend
    -- the first byte of the kernel half would be among them
    have hover := h ((addr + (0x800000000000 - addr)) % 2 ^ 64)
      (mem_addrsFrom.mpr ⟨0x800000000000 - addr, by omega, rfl⟩)
    omega
  · rintro ⟨hlo, hhi⟩ a ha
    obtain ⟨i, hi, rfl⟩ := mem_addrsFrom.mp ha
    unfold wrapAddr
    omega

/-- The words of an array are in the user half if the null pointer is. -/
theorem isUserAddr_arrayAddrs (haddr : addr < 2 ^ 64) (hptrs : ∀ x ∈ strs, x.1 < 2 ^ 64) :
    (∀ a ∈ arrayAddrs addr strs, IsUserAddr a) ↔ 1 ≤ addr ∧ addr + strs.length * 8 + 8 ≤
      userSpaceMax ∧ ∀ x ∈ strs, 1 ≤ x.1 ∧ x.1 + x.2.length < userSpaceMax := by
  have hword : wrapAddr addr = addr := Nat.mod_eq_of_lt haddr
  induction strs generalizing addr with
  | nil =>
    rw [arrayAddrs, hword, isUserAddr_addrsFrom haddr (by decide)]
    simp
  | cons x strs ih =>
    obtain ⟨ptr, str⟩ := x
    have hptr := hptrs _ List.mem_cons_self
    rw [arrayAddrs, hword]
    rw [List.forall_mem_append, List.forall_mem_append, List.forall_mem_cons,
      isUserAddr_addrsFrom haddr (by decide), isUserAddr_addrsFrom hptr (Nat.succ_pos _)]
    simp only [List.length_cons]
    constructor
    · rintro ⟨⟨hlo, hhi⟩, hstr, hrest⟩
      have hnext : addr + 8 < 2 ^ 64 := by
        unfold userSpaceMax at hhi
        omega
      have hrest := (ih hnext (fun x hx => hptrs x (List.mem_cons_of_mem _ hx))
        (Nat.mod_eq_of_lt hnext)).mp hrest
      exact ⟨hlo, by omega, by omega, hrest.2.2⟩
    · rintro ⟨hlo, hhi, hstr, hrest⟩
      have hnext : addr + 8 < 2 ^ 64 := by
        unfold userSpaceMax at hhi
        omega
      refine ⟨⟨hlo, by omega⟩, by omega, ?_⟩
      exact (ih hnext (fun x hx => hptrs x (List.mem_cons_of_mem _ hx))
        (Nat.mod_eq_of_lt hnext)).mpr ⟨by omega, by omega, hrest⟩

theorem UserWordAt.lt (h : UserWordAt debug load addr w) : w < 2 ^ 64 := by
  obtain ⟨-, bytes, hlen, -, rfl⟩ := h
  have hdigits : ∀ d ∈ bytes.map BitVec.toNat, d < 256 := by
    intro d hd
    obtain ⟨b, -, rfl⟩ := List.mem_map.mp hd
    exact b.isLt
  have hlt := Nat.ofDigits_lt_base_pow_length (by decide) hdigits
  rwa [List.length_map, hlen] at hlt

theorem ArrayAt.pointers
    (h : ArrayAt debug load addr strs) : ∀ x ∈ strs, 1 ≤ x.1 ∧ x.1 < 2 ^ 64 := by
  induction strs generalizing addr with
  | nil => simp
  | cons x strs ih =>
    obtain ⟨-, hword, hnull, -, hrest⟩ := h
    rw [List.forall_mem_cons]
    exact ⟨⟨Nat.one_le_iff_ne_zero.mpr hnull, hword.lt⟩, ih hrest⟩

/-- When the call returns, every address it accessed was one of the user's. -/
def UserAccess.Confined (debug : Bool) (s : AddressView) (call : UserAccess) : Prop :=
  ∀ s', Returns (call.run debug) { s with touched := [] } () s' → ∀ a ∈ s'.touched, IsUserAddr a

/-- The array at `ptr` and its strings, if they are short enough to be accepted,
end below the kernel half. -/
def ArrayBelow (debug : Bool) (load : Nat → Option Byte) (ptr count : Nat) : Prop :=
  ptr ≠ 0 → ∀ strs, ArrayAt debug load ptr strs → strs.length < count →
    (∀ x ∈ strs, x.2.length < maxStrlen) →
      ptr + strs.length * 8 + 8 ≤ userSpaceMax ∧ ∀ x ∈ strs, x.1 + x.2.length < userSpaceMax

/-- What the call is pointed to, if the call accepts it, ends below the kernel
half. -/
def UserAccess.Below (debug : Bool) (s : AddressView) : UserAccess → Prop
  | .cstr ptr bufLen => ptr ≠ 0 → ∀ str, StringAt debug s.load ptr.toNat str → str.length < bufLen →
      validUtf8 str → ptr.toNat + str.length < userSpaceMax
  | .bytes ptr len dstLen => ptr ≠ 0 → len ≤ dstLen → ∀ bytes, bytes.length = len →
      BytesAt s.load ptr.toNat bytes → (debug → len = 0 ∨ ptr.toNat + len ≤ 2 ^ 64) →
        len = 0 ∨ ptr.toNat + len ≤ userSpaceMax
  | .toUser ptr src => ptr ≠ 0 → ptr.toNat + src.length < 2 ^ 64 →
      (∀ i < src.length, s.load (ptr.toNat + i) ≠ none ∧ s.writable (ptr.toNat + i)) →
        src = [] ∨ ptr.toNat + src.length ≤ userSpaceMax
  | .argv ptr => ArrayBelow debug s.load ptr.toNat maxArgc
  | .envp ptr => ArrayBelow debug s.load ptr.toNat maxEnvc

section

variable {s : AddressView}

theorem toNat_ne_zero {ptr : Word} : ptr.toNat ≠ 0 ↔ ptr ≠ 0 := by
  rw [ne_eq, ne_eq, ← BitVec.toNat_inj]
  rfl

/-- A call whose result is dropped. -/
theorem returns_discard {α : Type} {x : CopyM α} {s' : AddressView} :
    Returns (do let _ ← x) s () s' ↔ ∃ a, Returns x s a s' := by
  simp

theorem confined_cstr (ptr : Word) (bufLen : Nat) :
    (UserAccess.cstr ptr bufLen).Confined debug s ↔ (UserAccess.cstr ptr bufLen).Below debug s := by
  simp only [UserAccess.Confined, UserAccess.Below, UserAccess.run,
    returns_discard, copyUserCstr_returns]
  have hpos : ptr ≠ 0 → 1 ≤ ptr.toNat := fun h => Nat.one_le_iff_ne_zero.mpr (toNat_ne_zero.mpr h)
  constructor
  · intro h hptr str hstr hlen hutf
    have haddrs := h _ ⟨str, toNat_ne_zero.mpr hptr, hlen, hutf, hstr, rfl⟩
    exact ((isUserAddr_addrsFrom ptr.isLt (Nat.succ_pos _)).mp (by simpa using haddrs)).2
  · rintro h _ ⟨str, hptr, hlen, hutf, hstr, rfl⟩
    have hptr := toNat_ne_zero.mp hptr
    have haddrs := (isUserAddr_addrsFrom ptr.isLt (Nat.succ_pos str.length)).mpr
      ⟨hpos hptr, h hptr str hstr hlen hutf⟩
    simpa using haddrs

theorem confined_bytes (ptr : Word) (len dstLen : Nat) :
    (UserAccess.bytes ptr len dstLen).Confined debug s ↔
      (UserAccess.bytes ptr len dstLen).Below debug s := by
  simp only [UserAccess.Confined, UserAccess.Below, UserAccess.run,
    returns_discard, copyUserBuf_returns]
  have hpos : ptr ≠ 0 → 1 ≤ ptr.toNat := fun h => Nat.one_le_iff_ne_zero.mpr (toNat_ne_zero.mpr h)
  constructor
  · intro h hptr hlen bytes hbytes hat htop
    have haddrs := h _ ⟨len, rfl, toNat_ne_zero.mpr hptr, hlen, bytes, hbytes, hat, htop, rfl⟩
    rcases Nat.eq_zero_or_pos len with h0 | hlt
    · exact .inl h0
    · exact .inr ((isUserAddr_addrsFrom ptr.isLt hlt).mp (by simpa using haddrs)).2
  · rintro h _ ⟨_, -, hptr, hlen, bytes, hbytes, hat, htop, rfl⟩
    have hptr := toNat_ne_zero.mp hptr
    rcases Nat.eq_zero_or_pos len with rfl | hlt
    · simp [addrsFrom]
    · have hend := (h hptr hlen bytes hbytes hat htop).resolve_left (by omega)
      have haddrs := (isUserAddr_addrsFrom ptr.isLt hlt).mpr ⟨hpos hptr, hend⟩
      simpa using haddrs

theorem copyToUserBytes_returns {src : List Byte} {r : Nat} {s' : AddressView}
    (h : Returns (copyToUserBytes ptr src) s r s') :
    ptr ≠ 0 ∧ (src = [] ∧ s' = s ∨ ptr + src.length < 2 ^ 64 ∧
      (∀ i < src.length, s.load (ptr + i) ≠ none ∧ s.writable (ptr + i)) ∧
        s'.touched = s.touched ++ List.range' ptr src.length) := by
  unfold copyToUserBytes at h
  by_cases hptr : ptr = 0
  · rw [if_pos hptr] at h
    simp at h
  refine ⟨hptr, ?_⟩
  by_cases hnil : src.isEmpty
  · rw [if_neg hptr, if_pos hnil] at h
    exact .inl ⟨by simpa using hnil, (returns_pure.mp h).2⟩
  by_cases htop : 2 ^ 64 ≤ ptr + src.length
  · rw [if_neg hptr, if_neg hnil, if_pos htop] at h
    simp at h
  · rw [if_neg hptr, if_neg hnil, if_neg htop] at h
    simp only [returns_bind, returns_pure] at h
    obtain ⟨_, _, hloop, -, rfl⟩ := h
    exact .inr ⟨by omega, writeLoop_returns hloop⟩

theorem copyToUserBytes_exists {src : List Byte} (hptr : ptr ≠ 0) (htop : ptr + src.length < 2 ^ 64)
    (hbytes : ∀ i < src.length, s.load (ptr + i) ≠ none ∧ s.writable (ptr + i)) :
    ∃ r s', Returns (copyToUserBytes ptr src) s r s' := by
  unfold copyToUserBytes
  rw [if_neg hptr]
  split
  · exact ⟨0, s, rfl⟩
  · rw [if_neg (by omega)]
    obtain ⟨s', hloop⟩ : ∃ s', Returns (forRange 0 src.length fun i =>
        writeByte (ptr + i) (src.getD i 0)) s () s' := writeLoop_exists hbytes
    exact ⟨_, s', hloop.bind (pure_returns _ _)⟩

theorem isUserAddr_range' (hptr : ptr ≠ 0) (hn : 0 < n) :
    (∀ a ∈ List.range' ptr n, IsUserAddr a) ↔ ptr + n ≤ userSpaceMax := by
  unfold IsUserAddr
  simp only [List.mem_range'_1]
  constructor
  · intro h
    have := h (ptr + n - 1) ⟨by omega, by omega⟩
    omega
  · intro h a ha
    omega

theorem confined_toUser (ptr : Word) (src : List Byte) :
    (UserAccess.toUser ptr src).Confined debug s ↔ (UserAccess.toUser ptr src).Below debug s := by
  simp only [UserAccess.Confined, UserAccess.Below, UserAccess.run, returns_discard]
  constructor
  · intro h hptr htop hbytes
    rcases List.eq_nil_or_concat src with hnil | hne
    · exact .inl hnil
    have hpos : 0 < src.length := by
      obtain ⟨init, b, rfl⟩ := hne
      simp
    obtain ⟨r, s', hrun⟩ := copyToUserBytes_exists (s := { s with touched := [] })
      (toNat_ne_zero.mpr hptr) htop hbytes
    have haddrs := h s' ⟨r, hrun⟩
    rcases (copyToUserBytes_returns hrun).2 with ⟨hnil, -⟩ | ⟨-, -, htouched⟩
    · exact .inl hnil
    · rw [htouched] at haddrs
      exact .inr ((isUserAddr_range' (toNat_ne_zero.mpr hptr) hpos).mp (by simpa using haddrs))
  · rintro h s' ⟨r, hrun⟩ a ha
    obtain ⟨hptr, ⟨-, rfl⟩ | ⟨htop, hbytes, htouched⟩⟩ := copyToUserBytes_returns hrun
    · simp at ha
    · rw [htouched] at ha
      rcases h (toNat_ne_zero.mp hptr) htop hbytes with rfl | hend
      · simp at ha
      · have hpos : 0 < src.length := by
          rcases Nat.eq_zero_or_pos src.length with h0 | h0
          · rw [h0] at ha
            simp at ha
          · exact h0
        exact (isUserAddr_range' hptr hpos).mpr hend a (by simpa using ha)

/-- The common case of `parse_argv` and `parse_envp`. -/
theorem confined_array (ptr : Word) {count : Nat} (hcount : count ≤ 64)
    {parse : CopyM (List (List Byte))}
    (hparse : parse = if ptr.toNat = 0 then pure [] else parseStrings debug ptr.toNat count [] 0) :
    (∀ s', Returns (do let _ ← parse) { s with touched := [] } () s' →
      ∀ a ∈ s'.touched, IsUserAddr a) ↔
      ArrayBelow debug s.load ptr.toNat count := by
  unfold ArrayBelow
  simp only [returns_discard, hparse]
  by_cases hptr : ptr.toNat = 0
  · rw [if_pos hptr]
    refine iff_of_true ?_ fun h => absurd hptr h
    rintro s' ⟨_, h⟩
    rw [(returns_pure.mp h).2]
    simp
  rw [if_neg hptr]
  have hspec : ∀ {args s'}, Returns (parseStrings debug ptr.toNat count [] 0)
      { s with touched := [] }
      args s' ↔ _ := parseStrings_returns (Nat.zero_le _) (by simpa using hcount)
  simp only [hspec, List.length_nil, Nat.zero_mul, Nat.add_zero]
  constructor
  · intro h _ strs harr hlen hshort
    have haddrs := h _ ⟨_, strs, rfl, hlen, hshort, harr, rfl⟩
    have hbelow := (isUserAddr_arrayAddrs ptr.isLt fun x hx => (harr.pointers x hx).2).mp
      (by simpa using haddrs)
    exact ⟨hbelow.2.1, fun x hx => (hbelow.2.2 x hx).2⟩
  · rintro h _ ⟨_, strs, -, hlen, hshort, harr, rfl⟩
    obtain ⟨hend, hstrs⟩ := h hptr strs harr hlen hshort
    have haddrs := (isUserAddr_arrayAddrs ptr.isLt fun x hx => (harr.pointers x hx).2).mpr
      ⟨Nat.one_le_iff_ne_zero.mpr hptr, hend, fun x hx => ⟨(harr.pointers x hx).1, hstrs x hx⟩⟩
    simpa using haddrs

/-- No copy checks its pointer: a call accesses user addresses only exactly if
what it is pointed to happens to lie below the kernel half. -/
theorem userAccess_confined_iff (debug : Bool) (s : AddressView) (call : UserAccess) :
    call.Confined debug s ↔ call.Below debug s := by
  cases call with
  | cstr ptr bufLen => exact confined_cstr ptr bufLen
  | bytes ptr len dstLen => exact confined_bytes ptr len dstLen
  | toUser ptr src => exact confined_toUser ptr src
  | argv ptr => exact confined_array ptr (Nat.le_refl 64) rfl
  | envp ptr => exact confined_array ptr (Nat.le_refl 64) rfl

/-- The kernel half holds something and can be written. -/
def kernelView : AddressView := ⟨fun _ => some 0x41, fun _ => true, []⟩

/-- A user program has 8 bytes copied from and to the start of the kernel half. -/
theorem kernel_half_copied :
    ¬(UserAccess.bytes 0xFFFF800000000000 8 4096).Confined false kernelView ∧
      ¬(UserAccess.toUser 0xFFFF800000000000 [1, 2, 3, 4, 5, 6, 7, 8]).Confined
        false kernelView := by
  constructor
  · rw [confined_bytes]
    intro h
    have hbytes : BytesAt kernelView.load (0xFFFF800000000000 : Word).toNat
        (List.replicate 8 0x41) := by
      simp [BytesAt, kernelView, List.replicate]
    exact absurd (h (by decide) (by decide) _ rfl hbytes (by decide)) (by decide)
  · rw [confined_toUser]
    intro h
    exact absurd (h (by decide) (by decide) (fun i _ => ⟨by simp [kernelView], rfl⟩)) (by decide)

end

end PandaOS.Kernel
