import Mathlib.Algebra.Group.Action.Defs
import Mathlib.Algebra.Order.BigOperators.Group.List
import PandaOS.Theorems.ExecStack
import PandaOS.Theorems.UserCopy

/-!
# The arguments of execve

How `parse_argv` and `parse_envp` limit what they read, and how much of the new
stack `setup_user_stack` fills with it. Both loops stop at 64 strings before they
look for the null pointer, and a string is refused when no NUL is among its first
256 bytes, so the greatest allowed numbers are 63 and 255 (`execArgs_iff`). The
size computed in advance is what is used in the end, alignment included, so the
stack stays in its four pages (`setupUserStack_confined`).
-/

namespace PandaOS.Kernel

open Lib

/-! ## Writing below the stack pointer -/

/-- Memory outside an interval is as it was. -/
def KeptOutside (lo hi : Nat) (m m' : Memory) : Prop := ∀ a, a < lo ∨ hi ≤ a → m' a = m a

theorem KeptOutside.trans {lo hi lo' hi' : Nat} {m m1 m2 : Memory} (h : KeptOutside lo hi m m1)
    (h' : KeptOutside lo' hi' m1 m2) : KeptOutside (min lo lo') (max hi hi') m m2 := fun a ha => by
  rw [h' a (by omega), h a (by omega)]

theorem KeptOutside.mono {lo hi lo' hi' : Nat} {m m' : Memory} (h : KeptOutside lo hi m m')
    (hlo : lo' ≤ lo) (hhi : hi ≤ hi') : KeptOutside lo' hi' m m' := fun a ha => h a (by omega)

theorem keptOutside_storeAt (m : Memory) (addr : Nat) (data : List Byte) :
    KeptOutside addr (addr + data.length) m (storeAt m addr data) :=
  fun _ ha => storeAt_outside ha

/-- The program lowers the stack pointer by `n`, writes below the old one only, and
returns a value with `P`; if it stops on the way, it has written to these `n` bytes
only. -/
def Spends {α : Type} (n : Nat) (x : StackM α) (P : α → Prop) : Prop :=
  ∀ s : UserStack, n ≤ s.sp → Ends x s (fun a s' => P a ∧ s'.sp + n = s.sp ∧
      KeptOutside s'.sp s.sp s.mem s'.mem) fun _ s' => KeptOutside (s.sp - n) s.sp s.mem s'.mem

namespace Spends

variable {α β : Type} {n m : Nat} {P : α → Prop} {R : β → Prop}

theorem pure {a : α} (h : P a) : Spends 0 (pure a : StackM α) P :=
  fun _ _ => ⟨h, rfl, fun _ _ => rfl⟩

theorem bind {x : StackM α} {f : α → StackM β} (hx : Spends n x P)
    (hf : ∀ a, P a → Spends m (f a) R) : Spends (n + m) (x >>= f) R := by
  intro s hs
  refine (hx s (by omega)).bind (fun a s1 ⟨ha, hsp, hkept⟩ => ?_) fun _ s' hkept =>
    hkept.mono (by omega) le_rfl
  refine (hf a ha s1 (by omega)).mono (fun b s2 ⟨hb, hsp', hkept'⟩ => ⟨hb, by omega, ?_⟩)
    fun _ s2 hkept' => ?_
  · exact (hkept.trans hkept').mono (by omega) (by omega)
  · exact (hkept.trans hkept').mono (by omega) (by omega)

end Spends

theorem ends_lowerSp {debug : Bool} {n : Nat} {s : UserStack} {Q : Unit → UserStack → Prop}
    {E : ExecFault → UserStack → Prop} (h : n ≤ s.sp) :
    Ends (lowerSp debug n) s Q E ↔ Q () { s with sp := s.sp - n } := by
  simp only [lowerSp, ends_bind, ends_get, if_pos h, ends_modify]

theorem ends_writeUserMemory {addr : Nat} {data : List Byte} {s : UserStack}
    {Q : Unit → UserStack → Prop} {E : ExecFault → UserStack → Prop}
    (hQ : Q () { s with mem := storeAt s.mem addr data }) (hE : E (.err .efault) s) :
    Ends (writeUserMemory addr data) s Q E := by
  unfold writeUserMemory
  split
  · exact hE
  · exact hQ

/-- Two blocks written side by side below the stack pointer, as strings and their NULs
and the entries of the auxiliary vector are. -/
theorem spends_writes (debug : Bool) {α : Type} (first second : List Byte) (result : Nat → α) :
    Spends (first.length + second.length) (do
      lowerSp debug (first.length + second.length)
      let sp := (← get).sp
      writeUserMemory sp first
      writeUserMemory (sp + first.length) second
      return result sp) fun _ => True := by
  intro s hs
  simp only [ends_bind, ends_lowerSp hs, ends_get]
  have hfirst := keptOutside_storeAt s.mem (s.sp - (first.length + second.length)) first
  refine ends_writeUserMemory ?_ fun _ _ => rfl
  refine ends_writeUserMemory ?_ (hfirst.mono le_rfl (by omega))
  refine ⟨trivial, Nat.sub_add_cancel hs, ?_⟩
  exact (hfirst.trans (keptOutside_storeAt _ _ second)).mono (by dsimp only; omega) (by omega)

variable (debug : Bool) {argv envp strs : List (List Byte)} {load : Nat → Option Byte}
  {stackTop argvPtr envpPtr n a : Nat} {str : List Byte} {xs : List (Nat × List Byte)}
  {s : AddressView}

theorem spends_pushString (str : List Byte) :
    Spends (str.length + 1) (pushString debug str) fun _ => True :=
  spends_writes debug str [0] id

/-- There are as many pointers as strings. -/
theorem spends_pushStrings (strs : List (List Byte)) :
    Spends (stringBytes strs) (pushStrings debug strs) fun ptrs => ptrs.length = strs.length := by
  induction strs with
  | nil => exact Spends.pure rfl
  | cons str strs ih =>
    have hbytes : stringBytes (str :: strs) = stringBytes strs + (str.length + 1 + 0) := by
      simp only [stringBytes, List.map_cons, List.sum_cons]
      omega
    rw [hbytes]
    refine ih.bind fun ptrs hptrs => (spends_pushString debug str).bind fun ptr _ => ?_
    exact Spends.pure (by simp [hptrs])

theorem spends_pushU64 (w : Nat) : Spends 8 (pushU64 debug w) fun _ => True := by
  intro s hs
  simp only [pushU64, writeUserU64, ends_bind, ends_lowerSp hs, ends_get]
  refine ends_writeUserMemory ⟨trivial, Nat.sub_add_cancel hs, ?_⟩ fun _ _ => rfl
  have hstore := keptOutside_storeAt s.mem (s.sp - 8) (leBytes w)
  rw [length_leBytes] at hstore
  exact hstore.mono le_rfl (by omega)

theorem spends_pushPointers (ptrs : List Nat) :
    Spends (8 * ptrs.length) (pushPointers debug ptrs) fun _ => True := by
  induction ptrs with
  | nil => exact Spends.pure trivial
  | cons ptr ptrs ih => exact ih.bind fun _ _ => spends_pushU64 debug ptr

theorem spends_pushAux (entry : AuxvType × Nat) :
    Spends 16 (pushAux debug entry) fun _ => True := by
  have h := spends_writes debug (leBytes entry.1.num) (leBytes entry.2) fun _ => ()
  simp only [length_leBytes] at h
  exact h

theorem spends_auxv (entries : List (AuxvType × Nat)) :
    Spends (16 * entries.length) (entries.forM (pushAux debug)) fun _ => True := by
  induction entries with
  | nil => exact Spends.pure trivial
  | cons entry entries ih =>
    rw [List.forM_eq_forM, List.forM_cons, List.length_cons, Nat.mul_succ, Nat.add_comm]
    exact (spends_pushAux debug entry).bind fun _ _ => ih

/-- The strings and the random bytes, with as many pointers as strings. -/
theorem spends_writeStrings (path : List Byte) (argv envp : List (List Byte)) :
    Spends (blockBytes path argv envp) (writeStrings debug path argv envp) fun r =>
      r.1.length = argv.length ∧ r.2.1.length = envp.length := by
  have hrandom : ∀ {argvPtrs envpPtrs : List Nat} {execfnPtr : Nat},
      argvPtrs.length = argv.length → envpPtrs.length = envp.length →
      Spends 16 (do
        lowerSp debug 16
        let randomPtr := (← get).sp
        writeUserMemory randomPtr randomBytes
        return (argvPtrs, envpPtrs, execfnPtr, randomPtr)) fun r =>
          r.1.length = argv.length ∧ r.2.1.length = envp.length := by
    intro argvPtrs envpPtrs execfnPtr hargs henvs s hs
    simp only [ends_bind, ends_lowerSp hs, ends_get]
    refine ends_writeUserMemory ⟨⟨hargs, henvs⟩, Nat.sub_add_cancel hs, ?_⟩ fun _ _ => rfl
    exact (keptOutside_storeAt s.mem (s.sp - 16) randomBytes).mono le_rfl
      (by simp only [randomBytes, List.length_cons, List.length_nil]; omega)
  have hbytes : blockBytes path argv envp =
      stringBytes argv + (stringBytes envp + (path.length + 1 + 16)) := by
    unfold blockBytes
    omega
  rw [hbytes]
  exact (spends_pushStrings debug argv).bind fun _ hargs =>
    (spends_pushStrings debug envp).bind fun _ henvs =>
      (spends_pushString debug path).bind fun _ _ => hrandom hargs henvs

theorem spends_writeVectors (entries : List (AuxvType × Nat)) (envpPtrs argvPtrs : List Nat)
    (argc : Nat) : Spends (16 * entries.length + 8 * (argvPtrs.length + envpPtrs.length + 3))
      (writeVectors debug entries envpPtrs argvPtrs argc) fun _ => True := by
  have hbytes : 16 * entries.length + 8 * (argvPtrs.length + envpPtrs.length + 3) =
      16 * entries.length + (8 + (8 * envpPtrs.length + (8 + (8 * argvPtrs.length + 8)))) := by
    omega
  rw [hbytes]
  exact (spends_auxv debug entries).bind fun _ _ => (spends_pushU64 debug 0).bind fun _ _ =>
    (spends_pushPointers debug envpPtrs).bind fun _ _ => (spends_pushU64 debug 0).bind fun _ _ =>
      (spends_pushPointers debug argvPtrs).bind fun _ _ => spends_pushU64 debug argc

/-! ## The four pages -/

/-- Rounding down at the two places costs no more than rounding the sum up does: with a
top that is a multiple of 16, the strings and then the vectors fit. -/
theorem stack_room {size block entries : Nat} (htop : stackTop % 16 = 0)
    (hroom : maxStackBytes ≤ stackTop) (hentries : entries ≤ 12)
    (hsize : (8 * size + 192 + block + 15) / 16 * 16 ≤ maxStackBytes) :
    block ≤ maxStackBytes ∧ stackTop - maxStackBytes + (16 * entries + 8 * size) ≤
        (stackTop - block) - (stackTop - block) % 8 := by
  unfold maxStackBytes at *
  omega

theorem align_ge {lo sp : Nat} (hlo : lo % 16 = 0) (h : lo ≤ sp) : lo ≤ sp - sp % 16 := by omega

theorem setupUserStack_ends {path : List Byte}
    (info : AuxInfo) (s : UserStack) (htop : stackTop % 4096 = 0) (hroom : maxStackBytes ≤ stackTop)
    (hsize : totalSize path argv envp ≤ maxStackBytes) :
    Ends (setupUserStack debug stackTop path argv envp info) s
      (fun sp s' => stackTop - maxStackBytes ≤ sp ∧ sp < stackTop ∧
        KeptOutside (stackTop - maxStackBytes) stackTop s.mem s'.mem)
      fun _ s' => KeptOutside (stackTop - maxStackBytes) stackTop s.mem s'.mem := by
  have hlow : (stackTop - maxStackBytes) % 16 = 0 := by
    unfold maxStackBytes at *
    omega
  have hfits : (8 * (argv.length + envp.length + 3) + 192 + blockBytes path argv envp + 15) /
      16 * 16 ≤ maxStackBytes := by
    unfold totalSize at hsize
    dsimp only at hsize
    omega
  unfold setupUserStack
  rw [if_neg (by omega), ends_bind, ends_modify, ends_bind]
  -- the strings
  refine (spends_writeStrings debug path argv envp { s with sp := stackTop }
    (by dsimp only; omega)).mono (fun r s1 ⟨hlen, hsp1, hkept1⟩ => ?_)
    fun _ s' hkept => hkept.mono (by dsimp only; omega) le_rfl
  obtain ⟨argvPtrs, envpPtrs, execfnPtr, randomPtr⟩ := r
  dsimp only at hlen hsp1 hkept1 ⊢
  unfold alignSp
  rw [ends_bind, ends_modify, ends_bind]
  -- the vectors, from the multiple of 8 below the strings
  have hvectors := (stack_room (by omega) hroom (length_auxv_le info execfnPtr randomPtr) hfits).2
  have hsp : s1.sp = stackTop - blockBytes path argv envp := by omega
  rw [← hsp, ← hlen.1, ← hlen.2] at hvectors
  refine (spends_writeVectors debug (auxv info execfnPtr randomPtr) envpPtrs argvPtrs argv.length
    { s1 with sp := s1.sp - s1.sp % 8 } (by dsimp only; omega)).mono
    (fun _ s2 ⟨_, hsp2, hkept2⟩ => ?_) fun _ s' hkept => ?_
  · dsimp only at hsp2 hkept2
    simp only [ends_bind, ends_modify, ends_get, ends_pure]
    have hend : stackTop - maxStackBytes ≤ s2.sp := by omega
    exact ⟨align_ge hlow hend, by omega, (hkept1.trans hkept2).mono (by omega) (by omega)⟩
  · dsimp only at hkept
    exact (hkept1.trans hkept).mono (by omega) (by omega)

/-- For every page-aligned `stack_top` with four pages below it, every path, arguments and
environment that pass the size check, and every memory: whether it returns or stops
with an error, `setup_user_stack` has changed these four pages only, and the stack
pointer it returns is not below them. Above the lowest pages it returns. -/
theorem setupUserStack_confined {stackTop : Nat} {path : List Byte} {argv envp : List (List Byte)}
    (info : AuxInfo) (s : UserStack) (htop : stackTop % 4096 = 0) (hroom : maxStackBytes ≤ stackTop)
    (hsize : totalSize path argv envp ≤ maxStackBytes) :
    (∀ sp s', Returns (setupUserStack debug stackTop path argv envp info) s sp s' →
        stackTop - maxStackBytes ≤ sp ∧ sp < stackTop ∧
          KeptOutside (stackTop - maxStackBytes) stackTop s.mem s'.mem) ∧
      (∀ e s', Throws (setupUserStack debug stackTop path argv envp info) s e s' →
        KeptOutside (stackTop - maxStackBytes) stackTop s.mem s'.mem) ∧
      (maxStackBytes < stackTop → stackTop < 2 ^ 64 →
        ∃ sp s', Returns (setupUserStack debug stackTop path argv envp info) s sp s') := by
  obtain ⟨hreturns, hthrows⟩ := ends_iff.mp (setupUserStack_ends debug info s htop hroom hsize)
  refine ⟨hreturns, hthrows, fun hlow htop' => ?_⟩
  have hpage : maxStackBytes + 16 ≤ stackTop := by
    unfold maxStackBytes at *
    omega
  obtain ⟨base, s', -, -, -, -, hrun, -⟩ := setupUserStack_returns debug info hpage htop' hsize
  exact ⟨_, s', hrun⟩

/-- One argument, on the four pages below 0x7FFFFFFFF000. -/
theorem setupUserStack_confined_one : totalSize [0x61] [[0x62]] [] ≤ maxStackBytes ∧
      ∃ sp s', Returns (setupUserStack true 0x7FFFFFFFF000 [0x61]
          [[0x62]] [] ⟨0x401000, 0, 0, 0, 0⟩) ⟨fun _ => 0, 0⟩ sp s' ∧
        0x7FFFFFFFF000 - maxStackBytes ≤ sp ∧
          KeptOutside (0x7FFFFFFFF000 - maxStackBytes) 0x7FFFFFFFF000 (fun _ => 0) s'.mem := by
  have hsize : totalSize [0x61] [[0x62]] [] ≤ maxStackBytes := by decide
  obtain ⟨hreturns, -, hexists⟩ :=
    setupUserStack_confined true ⟨0x401000, 0, 0, 0, 0⟩ ⟨fun _ => 0, 0⟩
    (show 0x7FFFFFFFF000 % 4096 = 0 by decide) (by decide) hsize
  obtain ⟨sp, s', hrun⟩ := hexists (by decide) (by decide)
  obtain ⟨hsp, -, hkept⟩ := hreturns sp s' hrun
  exact ⟨hsize, sp, s', hrun, hsp, hkept⟩

/-! ## What memory holds is unique -/

section

variable {load : Nat → Option Byte} {addr w w' : Nat}

theorem BytesAt.unique {bytes bytes' : List Byte} (hlen : bytes.length = bytes'.length)
    (h : BytesAt load addr bytes) (h' : BytesAt load addr bytes') : bytes = bytes' := by
  induction bytes generalizing addr bytes' with
  | nil => exact (List.length_eq_zero_iff.mp hlen.symm).symm
  | cons b bytes ih =>
    obtain ⟨b', rest, rfl⟩ : ∃ b' rest, bytes' = b' :: rest :=
      List.exists_cons_of_length_eq_add_one hlen.symm
    have hb : b = b' := Option.some.inj (h.1.symm.trans h'.1)
    rw [hb, ih (by simpa using hlen) h.2 h'.2]

theorem StringAt.unique {str' : List Byte} (h : StringAt false load addr str)
    (h' : StringAt false load addr str') : str = str' := by
  induction str generalizing addr str' with
  | nil =>
    cases str' with
    | nil => rfl
    | cons b' str' => exact absurd (Option.some.inj (h'.2.1.symm.trans h.2)) h'.2.2.1
  | cons b str ih =>
    cases str' with
    | nil => exact absurd (Option.some.inj (h.2.1.symm.trans h'.2)) h.2.2.1
    | cons b' str' =>
      have hb : b = b' := Option.some.inj (h.2.1.symm.trans h'.2.1)
      rw [hb, ih h.2.2.2 h'.2.2.2]

theorem UserWordAt.unique (h : UserWordAt false load addr w) (h' : UserWordAt false load addr w') :
    w = w' := by
  obtain ⟨-, bytes, hlen, hbytes, rfl⟩ := h
  obtain ⟨-, bytes', hlen', hbytes', rfl⟩ := h'
  rw [hbytes.unique (hlen.trans hlen'.symm) hbytes']

theorem ArrayAt.unique {ys : List (Nat × List Byte)} (h : ArrayAt false load addr xs)
    (h' : ArrayAt false load addr ys) : xs = ys := by
  induction xs generalizing addr ys with
  | nil =>
    cases ys with
    | nil => rfl
    | cons y ys => exact absurd (h'.2.1.unique h.2) h'.2.2.1
  | cons x xs ih =>
    obtain ⟨ptr, str⟩ := x
    cases ys with
    | nil => exact absurd (h.2.1.unique h'.2) h.2.2.1
    | cons y ys =>
      obtain ⟨ptr', str'⟩ := y
      obtain ⟨-, hword, -, hstr, hrest⟩ := h
      obtain ⟨-, hword', -, hstr', hrest'⟩ := h'
      obtain rfl := hword.unique hword'
      rw [hstr.unique hstr', ih hrest hrest']

/-! What a debug build accepts is there for a release build. -/

theorem StringAt.release {debug : Bool} (h : StringAt debug load addr str) :
    StringAt false load addr str := by
  induction str generalizing addr with
  | nil => exact ⟨nofun, h.2⟩
  | cons b str ih => exact ⟨nofun, h.2.1, h.2.2.1, ih h.2.2.2⟩

theorem ArrayAt.release {debug : Bool}
    (h : ArrayAt debug load addr xs) : ArrayAt false load addr xs := by
  induction xs generalizing addr with
  | nil => exact ⟨nofun, nofun, h.2.2⟩
  | cons x xs ih => exact ⟨nofun, ⟨nofun, h.2.1.2⟩, h.2.2.1, h.2.2.2.1.release, ih h.2.2.2.2⟩

end

/-! ## The limits -/

/-- Memory holds the strings in a null-terminated array; a null pointer stands for an
empty one. In a debug build the array is aligned, and nothing passes the top. -/
def VectorAt (debug : Bool) (load : Nat → Option Byte) (ptr : Nat) (strs : List (List Byte)) :
    Prop :=
  if ptr = 0 then strs = []
  else ∃ entries, entries.map (·.2) = strs ∧ ArrayAt debug load ptr entries

theorem VectorAt.unique {debug : Bool} {ptr : Nat}
    {strs' : List (List Byte)} (h : VectorAt false load ptr strs)
    (h' : VectorAt debug load ptr strs') : strs' = strs := by
  unfold VectorAt at h h'
  split at h
  · rename_i hnull
    rw [if_pos hnull] at h'
    rw [h, h']
  · rename_i hnull
    rw [if_neg hnull] at h'
    obtain ⟨entries, rfl, harr⟩ := h
    obtain ⟨entries', rfl, harr'⟩ := h'
    rw [harr.unique harr'.release]

/-- Below the limits as they are tested: fewer than `count` strings, each of fewer than
256 bytes. -/
def BelowLimits (count : Nat) (strs : List (List Byte)) : Prop :=
  strs.length < count ∧ ∀ str ∈ strs, str.length < maxStrlen

section

variable {s s' : AddressView} {ptr count : Nat} {strs : List (List Byte)}

/-- `parse_argv` and `parse_envp` return what memory holds, if that is below the limits. -/
theorem parseVector_exists (hpos : 0 < count) (hcount : count ≤ 64) :
    (∃ s', Returns (if ptr = 0 then pure [] else parseStrings debug ptr count [] 0) s strs s') ↔
      BelowLimits count strs ∧ VectorAt debug s.load ptr strs := by
  unfold VectorAt
  by_cases hnull : ptr = 0
  · simp only [if_pos hnull, returns_pure]
    constructor
    · rintro ⟨s', rfl, -⟩
      exact ⟨⟨hpos, by simp⟩, rfl⟩
    · rintro ⟨-, -, rfl⟩
      exact ⟨s, rfl, rfl⟩
  · simp only [if_neg hnull]
    have hspec : ∀ {s'}, Returns (parseStrings debug ptr count [] 0) s strs s' ↔ _ :=
      parseStrings_returns (Nat.zero_le _) (by simpa using hcount)
    simp only [hspec, List.nil_append, List.length_nil, Nat.zero_mul, Nat.add_zero]
    constructor
    · rintro ⟨s', entries, rfl, hlen, hshort, harr, -⟩
      exact ⟨⟨by simpa using hlen, List.forall_mem_map.mpr hshort⟩, entries, rfl, harr⟩
    · rintro ⟨⟨hlen, hshort⟩, entries, rfl, harr⟩
      exact ⟨_, entries, rfl, by simpa using hlen, List.forall_mem_map.mp hshort, harr, rfl⟩

theorem parseVector_load (hcount : count ≤ 64)
    (h : Returns (if ptr = 0 then pure [] else parseStrings debug ptr count [] 0) s strs s') :
    s'.load = s.load := by
  split at h
  · rw [(returns_pure.mp h).2]
  · obtain ⟨_, -, -, -, -, rfl⟩ :=
      (parseStrings_returns (Nat.zero_le _) (by simpa using hcount)).mp h
    rfl

end

theorem parseExecArgs_exists :
    (∃ s', Returns (parseExecArgs debug argvPtr envpPtr) s (argv, envp) s') ↔
      (BelowLimits maxArgc argv ∧ VectorAt debug s.load argvPtr argv) ∧
        (BelowLimits maxEnvc envp ∧ VectorAt debug s.load envpPtr envp) := by
  have hargv : (∃ s', Returns (parseArgv debug argvPtr) s argv s') ↔ _ :=
    parseVector_exists debug (by decide) (Nat.le_refl 64)
  have henvp : ∀ s, (∃ s', Returns (parseEnvp debug envpPtr) s envp s') ↔ _ := fun s =>
    parseVector_exists debug (by decide) (Nat.le_refl 64)
  rw [← hargv]
  constructor
  · rintro ⟨s', h⟩
    simp only [parseExecArgs, returns_bind, returns_pure] at h
    obtain ⟨_, s1, hrun, _, s2, hrun', heq, rfl⟩ := h
    obtain ⟨rfl, rfl⟩ := Prod.mk.inj heq
    have hload := parseVector_load debug (Nat.le_refl 64) hrun
    rw [← hload]
    exact ⟨⟨s1, hrun⟩, (henvp s1).mp ⟨s', hrun'⟩⟩
  · rintro ⟨⟨s1, hrun⟩, henv⟩
    rw [← parseVector_load debug (Nat.le_refl 64) hrun] at henv
    obtain ⟨s2, hrun'⟩ := (henvp s1).mpr henv
    exact ⟨s2, hrun.bind (hrun'.bind (pure_returns _ _))⟩

/-- The limits as they are documented. -/
structure WithinLimits (argv envp : List (List Byte)) : Prop where
  argc : argv.length ≤ maxArgc
  envc : envp.length ≤ maxEnvc
  strlen : ∀ str ∈ argv ++ envp, str.length ≤ maxStrlen
  total : stringBytes argv + stringBytes envp ≤ maxTotalBytes

theorem stringBytes_le (h : ∀ str ∈ strs, str.length < maxStrlen) :
    stringBytes strs ≤ strs.length * maxStrlen := by
  have hsum := List.sum_le_card_nsmul (strs.map fun str => str.length + 1) maxStrlen
    (List.forall_mem_map.mpr h)
  rwa [List.length_map, smul_eq_mul] at hsum

/-- Strings below the limits that are tested never reach the limit on the total. -/
theorem BelowLimits.within (h : BelowLimits maxArgc argv) (h' : BelowLimits maxEnvc envp) :
    WithinLimits argv envp where
  argc := Nat.le_of_lt h.1
  envc := Nat.le_of_lt h'.1
  strlen := by
    rw [List.forall_mem_append]
    exact ⟨fun str hs => Nat.le_of_lt (h.2 str hs), fun str hs => Nat.le_of_lt (h'.2 str hs)⟩
  total := by
    have := stringBytes_le h.2
    have := stringBytes_le h'.2
    have := h.1
    have := h'.1
    unfold maxArgc maxEnvc maxStrlen maxTotalBytes at *
    omega

/-- At none of the limits: not `count` strings, and none of 256 bytes. -/
def NotAtLimit (count : Nat) (strs : List (List Byte)) : Prop :=
  strs.length ≠ count ∧ ∀ str ∈ strs, str.length ≠ maxStrlen

theorem belowLimits_iff {count : Nat} (hcount : strs.length ≤ count)
    (hlen : ∀ str ∈ strs, str.length ≤ maxStrlen) : BelowLimits count strs ↔
      NotAtLimit count strs := by
  constructor
  · rintro ⟨hlt, hshort⟩
    exact ⟨hlt.ne, fun str hs => (hshort str hs).ne⟩
  · rintro ⟨hne, hshort⟩
    exact ⟨hcount.lt_of_ne hne, fun str hs => (hlen str hs).lt_of_ne (hshort str hs)⟩

/-- The two arrays are parsed exactly when they are within the limits, and to what they
hold. -/
def ParsedExactly (debug : Bool) (s : AddressView) (argvPtr envpPtr : Nat)
    (argv envp : List (List Byte)) : Prop :=
  ((∃ r s', Returns (parseExecArgs debug argvPtr envpPtr) s r s') ↔ WithinLimits argv envp) ∧
    ∀ r s', Returns (parseExecArgs debug argvPtr envpPtr) s r s' → r = (argv, envp)

theorem parseExecArgs_unique {s' : AddressView}
    {r : List (List Byte) × List (List Byte)} (hargv : VectorAt false s.load argvPtr argv)
    (henvp : VectorAt false s.load envpPtr envp)
    (h : Returns (parseExecArgs debug argvPtr envpPtr) s r s') : r = (argv, envp) := by
  obtain ⟨⟨-, hargv'⟩, -, henvp'⟩ := (parseExecArgs_exists debug).mp ⟨s', h⟩
  exact Prod.ext (hargv.unique hargv') (henvp.unique henvp')

/-- For every memory with two null-terminated arrays: they are parsed exactly within the
documented limits if, when they are within them, neither has 64 strings, no string
has 256 bytes, and in a debug build both arrays are aligned and end below the top. -/
theorem execArgs_iff {s : AddressView} {argvPtr envpPtr : Nat} {argv envp : List (List Byte)}
    (hargv : VectorAt false s.load argvPtr argv) (henvp : VectorAt false s.load envpPtr envp) :
    ParsedExactly debug s argvPtr envpPtr argv envp ↔
      (WithinLimits argv envp → NotAtLimit maxArgc argv ∧ NotAtLimit maxEnvc envp ∧
        (debug → VectorAt true s.load argvPtr argv ∧ VectorAt true s.load envpPtr envp)) := by
  have hunique : ∀ r s', Returns (parseExecArgs debug argvPtr envpPtr) s r s' → r = (argv, envp) :=
    fun r s' h => parseExecArgs_unique debug hargv henvp h
  have hsucceeds : (∃ r s', Returns (parseExecArgs debug argvPtr envpPtr) s r s') ↔
      ∃ s', Returns (parseExecArgs debug argvPtr envpPtr) s (argv, envp) s' :=
    ⟨fun ⟨r, s', h⟩ => ⟨s', hunique r s' h ▸ h⟩, fun ⟨s', h⟩ => ⟨_, s', h⟩⟩
  rw [ParsedExactly, and_iff_left hunique, hsucceeds, parseExecArgs_exists]
  have hbuild : ∀ {ptr strs}, VectorAt false s.load ptr strs →
      (VectorAt debug s.load ptr strs ↔ (debug → VectorAt true s.load ptr strs)) := by
    intro ptr strs h
    cases debug
    · exact iff_of_true h nofun
    · exact ⟨fun h _ => h, fun h => h rfl⟩
  rw [hbuild hargv, hbuild henvp]
  constructor
  · intro h hwithin
    obtain ⟨⟨hbelow, hvector⟩, hbelow', hvector'⟩ := h.mpr hwithin
    have hstrlen := List.forall_mem_append.mp hwithin.strlen
    exact ⟨(belowLimits_iff hwithin.argc hstrlen.1).mp hbelow,
      (belowLimits_iff hwithin.envc hstrlen.2).mp hbelow', fun hd => ⟨hvector hd, hvector' hd⟩⟩
  · intro h
    refine ⟨fun ⟨⟨hbelow, _⟩, hbelow', _⟩ => hbelow.within hbelow', fun hwithin => ?_⟩
    obtain ⟨hat, hat', hdebug⟩ := h hwithin
    have hstrlen := List.forall_mem_append.mp hwithin.strlen
    exact ⟨⟨(belowLimits_iff hwithin.argc hstrlen.1).mpr hat, fun hd => (hdebug hd).1⟩,
      (belowLimits_iff hwithin.envc hstrlen.2).mpr hat', fun hd => (hdebug hd).2⟩

/-! ## Exactly 64 arguments -/

/-- A memory with `n` words 0x0101010101010101 from 0x1000 on and zeros everywhere else:
an array of pointers to the empty string. -/
def wordsView (n : Nat) : AddressView :=
  ⟨fun a => some (if 0x1000 ≤ a ∧ a < 0x1000 + 8 * n then 1 else 0), fun _ => true, []⟩

theorem wordsView_inside (h : 0x1000 ≤ a ∧ a < 0x1000 + 8 * n) :
    (wordsView n).load a = some 1 := congrArg some (if_pos h)

theorem wordsView_outside (h : ¬(0x1000 ≤ a ∧ a < 0x1000 + 8 * n)) :
    (wordsView n).load a = some 0 := congrArg some (if_neg h)

theorem bytesAt_replicate {addr : Nat} {b : Byte}
    (h : ∀ i < n, load (wrapAddr (addr + i)) = some b) :
    BytesAt load addr (List.replicate n b) := by
  induction n generalizing addr with
  | zero => trivial
  | succ n ih =>
    refine ⟨h 0 (Nat.succ_pos n), ih fun i hi => ?_⟩
    rw [Nat.add_assoc, Nat.add_comm 1 i]
    exact h (i + 1) (by omega)

theorem wordsView_array {i : Nat} (hn : n ≤ 64) (hi : i ≤ n) :
    ArrayAt true (wordsView n).load (0x1000 + 8 * (n - i))
      (List.replicate i (0x0101010101010101, [])) := by
  induction i with
  | zero =>
    refine ⟨fun _ => by omega, fun _ => ?_, List.replicate 8 0,
      rfl, bytesAt_replicate fun j hj => ?_, rfl⟩
    · unfold wrapAddr
      omega
    · exact wordsView_outside (by unfold wrapAddr; omega)
  | succ i ih =>
    have hnext : 0x1000 + 8 * (n - (i + 1)) + 8 = 0x1000 + 8 * (n - i) := by omega
    refine ⟨fun _ => by omega, ⟨fun _ => ?_, List.replicate 8 1,
      rfl, bytesAt_replicate fun j hj => ?_, ?_⟩,
      by decide, ⟨fun _ => by decide, ?_⟩, ?_⟩
    · unfold wrapAddr
      omega
    · exact wordsView_inside (by unfold wrapAddr; omega)
    · decide
    · exact wordsView_outside (by unfold wrapAddr; omega)
    · rw [hnext]
      exact ih (by omega)

theorem wordsView_vector {debug : Bool} (hn : n ≤ 64) :
    VectorAt debug (wordsView n).load 0x1000 (List.replicate n []) := by
  have harray := wordsView_array hn (Nat.le_refl n)
  rw [Nat.sub_self] at harray
  unfold VectorAt
  rw [if_neg (by decide)]
  refine ⟨List.replicate n (0x0101010101010101, []), List.map_replicate, ?_⟩
  cases debug
  · exact harray.release
  · exact harray

theorem vectorAt_null {debug : Bool} : VectorAt debug load 0 [] := by
  unfold VectorAt
  rw [if_pos rfl]

theorem replicate_within (hn : n ≤ 64) : WithinLimits (List.replicate n []) [] where
  argc := by simpa [maxArgc] using hn
  envc := by decide
  strlen := by simp
  total := by
    simp only [stringBytes, List.map_replicate, List.sum_replicate, List.map_nil, List.sum_nil,
      maxTotalBytes, smul_eq_mul, List.length_nil]
    omega

/-- 63 arguments are parsed. -/
theorem execArgs_63 : VectorAt false (wordsView 63).load 0x1000 (List.replicate 63 []) ∧
      ParsedExactly true (wordsView 63) 0x1000 0 (List.replicate 63 []) [] := by
  refine ⟨wordsView_vector (by decide), (execArgs_iff true (wordsView_vector (by decide))
    vectorAt_null).mpr fun _ => ?_⟩
  exact ⟨by simp [NotAtLimit, maxArgc, maxStrlen], by simp [NotAtLimit, maxEnvc],
    fun _ => ⟨wordsView_vector (by decide), vectorAt_null⟩⟩

/-- Memory holds 64 arguments of no bytes each, which is within all limits, but they are
refused. -/
theorem execArgs_64_refused : VectorAt true (wordsView 64).load 0x1000 (List.replicate 64 []) ∧
      VectorAt true (wordsView 64).load 0 [] ∧ WithinLimits (List.replicate 64 []) [] ∧
        ¬∃ r s', Returns (parseExecArgs true 0x1000 0) (wordsView 64) r s' := by
  refine ⟨wordsView_vector (by decide), vectorAt_null, replicate_within (by decide), ?_⟩
  rintro ⟨r, s', hrun⟩
  obtain rfl := parseExecArgs_unique true (wordsView_vector (by decide)) vectorAt_null hrun
  obtain ⟨⟨hbelow, -⟩, -⟩ := (parseExecArgs_exists true).mp ⟨s', hrun⟩
  exact absurd hbelow.1 (by simp [maxArgc])

end PandaOS.Kernel
