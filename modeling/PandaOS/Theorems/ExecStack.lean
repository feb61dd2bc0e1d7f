import Mathlib.Tactic.FinCases
import PandaOS.Kernel.ExecStack
import PandaOS.Lib.Run

/-!
# The stack a new program finds

`setup_user_stack` lowers the stack pointer over everything it writes and
aligns it to 16 bytes only at the end. If the argument count ended up at an odd
multiple of 8, the pointer returned is 8 below it, and a program that reads the
stack from there finds a word that was never written where the count should be.
`stackLayout_iff` says exactly when this does not happen.
-/

namespace PandaOS.Kernel

open Lib

variable {s s' s1 s2 : UserStack} {n hi lo p : Nat} {ptrs : List Nat} {strs : List (List Byte)}
  {mem : Memory} {entries : List (AuxvType × Nat)}

/-! ## Writing downwards -/

/-- `s'` comes from `s` by writing `n` bytes below the stack pointer. -/
structure Pushed (s s' : UserStack) (n : Nat) : Prop where
  sp : s'.sp + n = s.sp
  keep : ∀ a, a < s'.sp ∨ s.sp ≤ a → s'.mem a = s.mem a

namespace Pushed

theorem trans {m : Nat} (h : Pushed s s1 n) (h' : Pushed s1 s2 m) : Pushed s s2 (n + m) := by
  have hsp := h.sp
  have hsp' := h'.sp
  refine ⟨by omega, fun a ha => ?_⟩
  rw [h'.keep a (by omega), h.keep a (by omega)]

theorem cString {str : List Byte} (h : Pushed s s' n)
    (hstr : CString s.mem p str) (hp : s.sp ≤ p) : CString s'.mem p str :=
  Holds.keep hstr fun a ha _ => h.keep a (by omega)

theorem holdsWords {words : List Nat} (h : Pushed s s' n)
    (hwords : HoldsWords s.mem p words) (hp : s.sp ≤ p) : HoldsWords s'.mem p words :=
  hwords.keep fun a ha _ => h.keep a (by omega)

end Pushed

variable (debug : Bool) {s : UserStack}

theorem lowerSp_returns (h : n ≤ s.sp) :
    Returns (lowerSp debug n) s () { s with sp := s.sp - n } := by
  simp [lowerSp, h]

theorem writeUserMemory_returns {addr : Nat} (h : addr ≠ 0) (data : List Byte) :
    Returns (writeUserMemory addr data) s () { s with mem := storeAt s.mem addr data } := by
  simp [writeUserMemory, h]

/-- Bytes stored right below the stack pointer. -/
theorem pushed_store {data : List Byte} (hn : n ≤ s.sp) (hlen : data.length = n) :
    Pushed s { s with sp := s.sp - n, mem := storeAt s.mem (s.sp - n) data } n := by
  refine ⟨Nat.sub_add_cancel hn, fun a ha => storeAt_outside ?_⟩
  simp only at ha
  omega

theorem pushString_returns (str : List Byte) (h : str.length + 1 < s.sp) :
    ∃ s', Returns (pushString debug str) s s'.sp s' ∧ Pushed s s' (str.length + 1) ∧
      CString s'.mem s'.sp str := by
  have hne : s.sp - (str.length + 1) ≠ 0 := by omega
  refine ⟨{ s with
      sp := s.sp - (str.length + 1)
      mem := storeAt s.mem (s.sp - (str.length + 1)) (str ++ [0]) }, ?_,
    pushed_store (by omega) (by simp), holds_storeAt _ _ _⟩
  refine (lowerSp_returns debug (by omega)).bind ((get_returns _).bind ?_)
  refine (writeUserMemory_returns hne str).bind
    ((writeUserMemory_returns (by simp; omega) [0]).bind ?_)
  simp [storeAt_append]

theorem stringBytes_cons (str : List Byte) (strs : List (List Byte)) :
    stringBytes (str :: strs) = str.length + 1 + stringBytes strs := by
  simp [stringBytes]

/-- What the loop over a list of strings leaves. -/
structure StringsAt (mem : Memory) (lo hi : Nat) (ptrs : List Nat) (strs : List (List Byte)) :
    Prop where
  length : ptrs.length = strs.length
  strings : ∀ i (h : i < strs.length), CString mem (ptrs.getD i 0) strs[i]
  between : ∀ p ∈ ptrs, lo ≤ p ∧ p < hi

theorem StringsAt.keep (h : StringsAt s.mem s.sp hi ptrs strs) (hpush : Pushed s s' n) :
    StringsAt s'.mem s'.sp hi ptrs strs := by
  have hsp := hpush.sp
  refine ⟨h.length, fun i hi => ?_, fun p hp => ?_⟩
  · have hmem : ptrs.getD i 0 ∈ ptrs := by
      rw [List.getD_eq_getElem _ _ (by rw [h.length]; exact hi)]
      exact List.getElem_mem _
    exact hpush.cString (h.strings i hi) (h.between _ hmem).1
  · have := h.between p hp
    omega

theorem pushStrings_returns (strs : List (List Byte)) (h : stringBytes strs < s.sp) :
    ∃ ptrs s', Returns (pushStrings debug strs) s ptrs s' ∧ Pushed s s' (stringBytes strs) ∧
      StringsAt s'.mem s'.sp s.sp ptrs strs := by
  induction strs with
  | nil => exact ⟨[], s, by simp [pushStrings], ⟨rfl, fun _ _ => rfl⟩, rfl, by simp, by simp⟩
  | cons str strs ih =>
    rw [stringBytes_cons] at h
    obtain ⟨ptrs, s1, hrun, hpush, hstrs⟩ := ih (by omega)
    have hsp := hpush.sp
    obtain ⟨s2, hrun', hpush', hstr⟩ :=
      pushString_returns debug (s := s1) str (by omega)
    have hsp' := hpush'.sp
    have hkept := hstrs.keep hpush'
    refine ⟨s2.sp :: ptrs, s2, ?_, ?_, ?_, ?_, ?_⟩
    · exact hrun.bind (hrun'.bind (pure_returns _ _))
    · rw [stringBytes_cons, Nat.add_comm]
      exact hpush.trans hpush'
    · simp [hstrs.length]
    · intro i hi
      cases i with
      | zero => exact hstr
      | succ i => exact hkept.strings i (by simpa using hi)
    · intro p hp
      rcases List.mem_cons.mp hp with rfl | hp
      · omega
      · exact hkept.between p hp

/-- `s'` comes from `s` by pushing words; the last one pushed comes first. -/
structure Block (s s' : UserStack) (words : List Nat) : Prop where
  pushed : Pushed s s' (8 * words.length)
  words : HoldsWords s'.mem s'.sp words

theorem Block.trans {ws vs : List Nat} (h : Block s s1 ws)
    (h' : Block s1 s2 vs) : Block s s2 (vs ++ ws) := by
  have hsp := h'.pushed.sp
  refine ⟨?_, h'.words.append ?_⟩
  · rw [List.length_append, Nat.mul_add, Nat.add_comm]
    exact h.pushed.trans h'.pushed
  · rw [hsp]
    exact h'.pushed.holdsWords h.words (Nat.le_refl _)

theorem Block.nil (s : UserStack) : Block s s [] := ⟨⟨rfl, fun _ _ => rfl⟩, fun i hi => by cases hi⟩

theorem pushU64_returns {w : Nat} (hw : w < 2 ^ 64) (h : 8 < s.sp) :
    ∃ s', Returns (pushU64 debug w) s () s' ∧ Block s s' [w] := by
  refine ⟨{ s with sp := s.sp - 8, mem := storeAt s.mem (s.sp - 8) (leBytes w) }, ?_,
    pushed_store (by omega) (length_leBytes w), ?_⟩
  · refine (lowerSp_returns debug (by omega)).bind ((get_returns _).bind ?_)
    exact writeUserMemory_returns (by simp; omega) (leBytes w)
  · intro i hi
    obtain rfl : i = 0 := by simpa using hi
    exact wordAt_storeAt hw _ _

theorem pushPointers_returns (ptrs : List Nat) (hptrs : ∀ p ∈ ptrs, p < 2 ^ 64)
    (h : 8 * ptrs.length < s.sp) :
    ∃ s', Returns (pushPointers debug ptrs) s () s' ∧ Block s s' ptrs := by
  induction ptrs with
  | nil => exact ⟨s, by simp [pushPointers], Block.nil s⟩
  | cons ptr ptrs ih =>
    rw [List.length_cons] at h
    obtain ⟨s1, hrun, hblock⟩ := ih (fun p hp => hptrs p (List.mem_cons_of_mem _ hp)) (by omega)
    have hsp := hblock.pushed.sp
    obtain ⟨s2, hrun', hblock'⟩ :=
      pushU64_returns debug (s := s1) (hptrs ptr List.mem_cons_self) (by omega)
    exact ⟨s2, hrun.bind hrun', hblock.trans hblock'⟩

theorem AuxvType.num_lt (t : AuxvType) : t.num < 2 ^ 64 := by
  cases t <;> decide

theorem pushAux_returns {entry : AuxvType × Nat} (hw : entry.2 < 2 ^ 64) (h : 16 < s.sp) :
    ∃ s', Returns (pushAux debug entry) s () s' ∧ Block s s' [entry.1.num, entry.2] := by
  let low := storeAt s.mem (s.sp - 16) (leBytes entry.1.num)
  let mem := storeAt low (s.sp - 16 + 8) (leBytes entry.2)
  have hmem : mem = storeAt s.mem (s.sp - 16) (leBytes entry.1.num ++ leBytes entry.2) := by
    rw [← storeAt_append, length_leBytes]
  refine ⟨{ s with sp := s.sp - 16, mem := mem }, ?_, ?_, ?_⟩
  · refine (lowerSp_returns debug (by omega)).bind ((get_returns _).bind ?_)
    exact (writeUserMemory_returns (by simp; omega) _).bind
      (writeUserMemory_returns (by simp) _)
  · rw [hmem]
    exact pushed_store (by omega) (by simp [length_leBytes])
  · intro i hi
    rcases i with _ | _ | i
    · have hlow : wordAt mem (s.sp - 16) = wordAt low (s.sp - 16) :=
        wordAt_keep fun a _ ha => storeAt_outside (by omega)
      exact hlow.trans (wordAt_storeAt entry.1.num_lt _ _)
    · exact wordAt_storeAt hw _ _
    · simp at hi

/-- An auxiliary vector as it lies in memory. -/
def auxWords (entries : List (AuxvType × Nat)) : List Nat :=
  entries.reverse.flatMap fun e => [e.1.num, e.2]

theorem length_auxWords (entries : List (AuxvType × Nat)) :
    (auxWords entries).length = 2 * entries.length := by
  simp [auxWords, Nat.mul_comm]

theorem pushAuxv_returns (entries : List (AuxvType × Nat)) (hw : ∀ e ∈ entries, e.2 < 2 ^ 64)
    (h : 16 * entries.length < s.sp) :
    ∃ s', Returns (entries.forM (pushAux debug)) s () s' ∧ Block s s' (auxWords entries) := by
  induction entries generalizing s with
  | nil => exact ⟨s, by simp, Block.nil s⟩
  | cons e es ih =>
    rw [List.length_cons] at h
    obtain ⟨s1, hrun, hblock⟩ := pushAux_returns debug (s := s) (hw e List.mem_cons_self) (by omega)
    have hsp := hblock.pushed.sp
    simp only [List.length_cons, List.length_nil] at hsp
    obtain ⟨s2, hrun', hblock'⟩ := ih (s := s1) (fun e he => hw e (List.mem_cons_of_mem _ he))
      (by omega)
    refine ⟨s2, ?_, ?_⟩
    · exact hrun.bind hrun'
    · have htrans := hblock.trans hblock'
      simpa [auxWords] using htrans

/-! ## The whole stack -/

/-- What the first half of `setup_user_stack` leaves. -/
structure StringsWritten (s s' : UserStack) (path : List Byte) (argv envp : List (List Byte))
    (argvPtrs envpPtrs : List Nat) (execfnPtr : Nat) : Prop where
  pushed : Pushed s s' (blockBytes path argv envp)
  args : StringsAt s'.mem s'.sp s.sp argvPtrs argv
  envs : StringsAt s'.mem s'.sp s.sp envpPtrs envp
  execfn : CString s'.mem execfnPtr path
  execfn_between : s'.sp ≤ execfnPtr ∧ execfnPtr < s.sp

theorem StringsAt.mono {hi' : Nat} (h : StringsAt mem lo hi ptrs strs)
    (hle : hi ≤ hi') : StringsAt mem lo hi' ptrs strs :=
  ⟨h.length, h.strings, fun p hp => ⟨(h.between p hp).1, Nat.lt_of_lt_of_le (h.between p hp).2 hle⟩⟩

theorem writeStrings_returns (path : List Byte) (argv envp : List (List Byte))
    (h : blockBytes path argv envp < s.sp) : ∃ argvPtrs envpPtrs execfnPtr s',
      Returns (writeStrings debug path argv envp) s (argvPtrs, envpPtrs, execfnPtr, s'.sp) s' ∧
        StringsWritten s s' path argv envp argvPtrs envpPtrs execfnPtr := by
  unfold blockBytes at h
  obtain ⟨argvPtrs, s1, hrun1, hpush1, hargs⟩ := pushStrings_returns debug (s := s) argv (by omega)
  have hsp1 := hpush1.sp
  obtain ⟨envpPtrs, s2, hrun2, hpush2, henvs⟩ := pushStrings_returns debug (s := s1) envp (by omega)
  have hsp2 := hpush2.sp
  obtain ⟨s3, hrun3, hpush3, hpath⟩ := pushString_returns debug (s := s2) path (by omega)
  have hsp3 := hpush3.sp
  let s4 : UserStack := { s3 with sp := s3.sp - 16, mem := storeAt s3.mem (s3.sp - 16) randomBytes }
  have hpush4 : Pushed s3 s4 16 := pushed_store (by omega) rfl
  have hsp4 := hpush4.sp
  refine ⟨argvPtrs, envpPtrs, s3.sp, s4, ?_, ?_, ?_, ?_, ?_, ?_⟩
  · refine hrun1.bind (hrun2.bind (hrun3.bind ((lowerSp_returns debug (by omega)).bind ?_)))
    refine (get_returns _).bind ?_
    exact (writeUserMemory_returns (by simp; omega) _).bind (pure_returns _ _)
  · exact ((hpush1.trans hpush2).trans hpush3).trans hpush4
  · exact ((hargs.keep hpush2).keep hpush3).keep hpush4
  · exact ((henvs.keep hpush3).keep hpush4).mono (by omega)
  · exact hpush4.cString hpath (Nat.le_refl _)
  · omega

/-- The words from the argument count up. -/
def stackWords (argvPtrs envpPtrs : List Nat) (entries : List (AuxvType × Nat)) (argc : Nat) :
    List Nat :=
  argc :: (argvPtrs ++ 0 :: (envpPtrs ++ 0 :: auxWords entries))

theorem writeVectors_returns {envpPtrs argvPtrs : List Nat}
    (argc : Nat) (hentries : ∀ e ∈ entries, e.2 < 2 ^ 64) (henvs : ∀ p ∈ envpPtrs, p < 2 ^ 64)
    (hargs : ∀ p ∈ argvPtrs, p < 2 ^ 64) (hargc : argc < 2 ^ 64)
    (h : 16 * entries.length + 8 * (argvPtrs.length + envpPtrs.length + 3) < s.sp) :
    ∃ s', Returns (writeVectors debug entries envpPtrs argvPtrs argc) s () s' ∧
      Block s s' (stackWords argvPtrs envpPtrs entries argc) := by
  obtain ⟨s1, hrun1, hblock1⟩ := pushAuxv_returns debug (s := s) entries hentries (by omega)
  have hsp1 := hblock1.pushed.sp
  rw [length_auxWords] at hsp1
  obtain ⟨s2, hrun2, hblock2⟩ := pushU64_returns debug (s := s1) (w := 0) (by decide) (by omega)
  have hsp2 := hblock2.pushed.sp
  simp only [List.length_cons, List.length_nil] at hsp2
  obtain ⟨s3, hrun3, hblock3⟩ := pushPointers_returns debug (s := s2) envpPtrs henvs (by omega)
  have hsp3 := hblock3.pushed.sp
  obtain ⟨s4, hrun4, hblock4⟩ := pushU64_returns debug (s := s3) (w := 0) (by decide) (by omega)
  have hsp4 := hblock4.pushed.sp
  simp only [List.length_cons, List.length_nil] at hsp4
  obtain ⟨s5, hrun5, hblock5⟩ := pushPointers_returns debug (s := s4) argvPtrs hargs (by omega)
  have hsp5 := hblock5.pushed.sp
  obtain ⟨s6, hrun6, hblock6⟩ := pushU64_returns debug (s := s5) hargc (by omega)
  refine ⟨s6, hrun1.bind (hrun2.bind (hrun3.bind (hrun4.bind (hrun5.bind hrun6)))), ?_⟩
  have hblock :=
    ((((hblock1.trans hblock2).trans hblock3).trans hblock4).trans hblock5).trans hblock6
  simpa [stackWords] using hblock

theorem length_stackWords (argvPtrs envpPtrs : List Nat) (entries : List (AuxvType × Nat))
    (argc : Nat) : (stackWords argvPtrs envpPtrs entries argc).length =
      argvPtrs.length + envpPtrs.length + 3 + 2 * entries.length := by
  simp only [stackWords, List.length_cons, List.length_append, length_auxWords]
  omega

/-- What `setup_user_stack` leaves, with the argument count at `base`. -/
structure Built (stackTop : Nat) (path : List Byte) (argv envp : List (List Byte)) (info : AuxInfo)
    (mem : Memory) (base : Nat) (argvPtrs envpPtrs : List Nat) (execfnPtr randomPtr : Nat) :
    Prop where
  words : HoldsWords mem base
    (stackWords argvPtrs envpPtrs (auxv info execfnPtr randomPtr) argv.length)
  args : StringsAt mem 1 stackTop argvPtrs argv
  envs : StringsAt mem 1 stackTop envpPtrs envp
  execfn : CString mem execfnPtr path
  place : base + 8 * (argv.length + envp.length + 3) + 16 * (auxv info execfnPtr randomPtr).length =
    (stackTop - blockBytes path argv envp) / 8 * 8

theorem length_auxv_le (info : AuxInfo) (execfnPtr randomPtr : Nat) :
    (auxv info execfnPtr randomPtr).length ≤ 12 := by
  unfold auxv
  split <;> simp

theorem auxv_lt {info : AuxInfo} {execfnPtr randomPtr : Nat} (hexecfn : execfnPtr < 2 ^ 64)
    (hrandom : randomPtr < 2 ^ 64) : ∀ e ∈ auxv info execfnPtr randomPtr, e.2 < 2 ^ 64 := by
  have hphdr := info.phdr.isLt
  intro e he
  simp only [auxv, List.mem_append, List.mem_cons, List.not_mem_nil, or_false] at he
  rcases he with (he | he) | he
  · rcases he with rfl | rfl | rfl | rfl | rfl | rfl | rfl | rfl | rfl | rfl <;> simp only <;> omega
  · split at he
    · obtain rfl := List.mem_singleton.mp he
      exact hphdr
    · cases he
  · subst he
    simp

theorem pushed_align : Pushed s { s with sp := s.sp - s.sp % n } (s.sp % n) :=
  ⟨Nat.sub_add_cancel (Nat.mod_le _ _), fun _ _ => rfl⟩

theorem StringsAt.lower {lo' : Nat} (h : StringsAt mem lo hi ptrs strs)
    (hle : lo' ≤ lo) : StringsAt mem lo' hi ptrs strs :=
  ⟨h.length, h.strings, fun p hp => ⟨Nat.le_trans hle (h.between p hp).1, (h.between p hp).2⟩⟩

theorem setupUserStack_returns {stackTop : Nat} {path : List Byte} {argv envp : List (List Byte)}
    (info : AuxInfo) (htop : maxStackBytes + 16 ≤ stackTop) (htop' : stackTop < 2 ^ 64)
    (hsize : totalSize path argv envp ≤ maxStackBytes) :
    ∃ base s' argvPtrs envpPtrs execfnPtr randomPtr,
      Returns (setupUserStack debug stackTop path argv envp info) s (base - base % 16) s' ∧
        Built stackTop path argv envp info s'.mem base argvPtrs envpPtrs execfnPtr randomPtr := by
  -- everything written fits below the top of the stack
  have hfits : 8 * (argv.length + envp.length + 3) + 192 + blockBytes path argv envp ≤
      maxStackBytes := by
    unfold totalSize at hsize
    simp only at hsize
    omega
  let s0 : UserStack := { s with sp := stackTop }
  have hsp0 : s0.sp = stackTop := rfl
  obtain ⟨argvPtrs, envpPtrs, execfnPtr, s1, hrun1, hstrings⟩ :=
    writeStrings_returns debug (s := s0) path argv envp (by omega)
  have hsp1 := hstrings.pushed.sp
  let s2 : UserStack := { s1 with sp := s1.sp - s1.sp % 8 }
  have halign : Pushed s1 s2 (s1.sp % 8) := pushed_align
  have hsp2 := halign.sp
  have hexecfn := hstrings.execfn_between
  have hlen := length_auxv_le info execfnPtr s1.sp
  have hargs := hstrings.args.keep halign
  have henvs := hstrings.envs.keep halign
  have hroom : 16 * (auxv info execfnPtr s1.sp).length + 8 *
      (argvPtrs.length + envpPtrs.length + 3) < s2.sp := by
    rw [hargs.length, henvs.length]
    omega
  obtain ⟨s3, hrun3, hblock⟩ := writeVectors_returns debug argv.length
    (auxv_lt (by omega) (by omega) : ∀ e ∈ auxv info execfnPtr s1.sp, e.2 < 2 ^ 64)
    (fun p hp => Nat.lt_trans (henvs.between p hp).2 (by omega))
    (fun p hp => Nat.lt_trans (hargs.between p hp).2 (by omega)) (by omega) hroom
  have hsp3 := hblock.pushed.sp
  rw [length_stackWords, hargs.length, henvs.length] at hsp3
  refine ⟨s3.sp, { s3 with sp := s3.sp - s3.sp % 16 }, argvPtrs, envpPtrs, execfnPtr, s1.sp, ?_, ?_⟩
  · unfold setupUserStack
    rw [if_neg (by omega)]
    refine (modify_returns _ s).bind (hrun1.bind ?_)
    refine (modify_returns _ s1).bind (hrun3.bind ((modify_returns _ s3).bind ?_))
    exact (get_returns _).bind (pure_returns _ _)
  · refine ⟨hblock.words, (hargs.keep hblock.pushed).lower (by omega),
      (henvs.keep hblock.pushed).lower (by omega), ?_, by omega⟩
    exact hblock.pushed.cString (halign.cString hstrings.execfn hexecfn.1) (by omega)

/-! ## Reading it back -/

section

variable {stackTop base : Nat} {path : List Byte} {argv envp : List (List Byte)} {info : AuxInfo}
  {mem : Memory} {argvPtrs envpPtrs : List Nat} {execfnPtr randomPtr : Nat}

/-- The last pointer of a list that is not empty is not null. -/
theorem StringsAt.last_ne_zero (h : StringsAt mem (lo + 1) hi ptrs strs)
    (hn : strs.length = n + 1) : ptrs.getD n 0 ≠ 0 := by
  have hlt : n < ptrs.length := by rw [h.length]; omega
  rw [List.getD_eq_getElem _ _ hlt]
  have := h.between _ (List.getElem_mem hlt)
  omega

/-- The parts of the pointer block. -/
theorem Built.parts
    (h : Built stackTop path argv envp info mem base argvPtrs envpPtrs execfnPtr randomPtr) :
    wordAt mem base = argv.length ∧ HoldsWords mem (base + 8) argvPtrs ∧ wordAt mem
      (base + 8 + 8 * argv.length) = 0 ∧ HoldsWords mem (base + 16 + 8 * argv.length) envpPtrs ∧
      wordAt mem (base + 16 + 8 * argv.length + 8 * envp.length) = 0 ∧
      HoldsWords mem (base + 24 + 8 * argv.length + 8 * envp.length)
        (auxWords (auxv info execfnPtr randomPtr)) := by
  have hwords := h.words
  unfold stackWords at hwords
  have hargs := hwords.tail.left
  have hrest := hwords.tail.right
  rw [h.args.length] at hrest
  have hrest' := hrest.tail
  rw [show base + 8 + 8 * argv.length + 8 = base + 16 + 8 * argv.length by omega] at hrest'
  have hlast := hrest'.right
  rw [h.envs.length] at hlast
  refine ⟨hwords.head, hargs, hrest.head, hrest'.left, hlast.head, ?_⟩
  have haux := hlast.tail
  rw [show base + 16 + 8 * argv.length + 8 * envp.length + 8 =
    base + 24 + 8 * argv.length + 8 * envp.length by omega] at haux
  exact haux

theorem getD_flatMap_pair (l : List (AuxvType × Nat)) {j : Nat} (h : j < l.length) :
    (l.flatMap fun e => [e.1.num, e.2]).getD (2 * j) 0 = l[j].1.num ∧
      (l.flatMap fun e => [e.1.num, e.2]).getD (2 * j + 1) 0 = l[j].2 := by
  induction l generalizing j with
  | nil => simp at h
  | cons e l ih =>
    cases j with
    | zero => exact ⟨rfl, rfl⟩
    | succ j => exact ih (by simpa using h)

/-- The entries of a vector, read from memory. -/
theorem aux_read {addr j : Nat}
    (h : HoldsWords mem addr (auxWords entries)) (hj : j < entries.reverse.length) :
    auxType mem addr j = entries.reverse[j].1.num ∧ auxValue mem addr j = entries.reverse[j].2 := by
  obtain ⟨htype, hvalue⟩ := getD_flatMap_pair entries.reverse hj
  rw [List.length_reverse] at hj
  have hlen := length_auxWords entries
  have hword := h (2 * j) (by omega)
  have hword' := h (2 * j + 1) (by omega)
  rw [show addr + 8 * (2 * j) = addr + 16 * j by omega] at hword
  rw [show addr + 8 * (2 * j + 1) = addr + 16 * j + 8 by omega] at hword'
  exact ⟨hword.trans htype, hword'.trans hvalue⟩

/-- The vector ends with the null entry, the one for the file name before it. -/
theorem auxv_reverse (info : AuxInfo) (execfnPtr randomPtr : Nat) :
    ∃ front, (auxv info execfnPtr randomPtr).reverse =
      front ++ [(.execfn, execfnPtr), (.null, 0)] ∧ ∀ e ∈ front, e.1 ≠ AuxvType.null := by
  refine ⟨(((auxv info execfnPtr randomPtr).drop 2).reverse), by simp [auxv], ?_⟩
  intro e he
  simp only [auxv, List.mem_reverse] at he
  split at he <;> fin_cases he <;> simp

/-- A block whose count is where the stack pointer is, is read back. -/
theorem Built.layout
    (h : Built stackTop path argv envp info mem base argvPtrs envpPtrs execfnPtr randomPtr)
    (haligned : base % 16 = 0) : StackLayout mem base path argv envp := by
  obtain ⟨hargc, hargs, hnull, henvs, hnull', haux⟩ := h.parts
  refine ⟨haligned, hargc, fun i hi => ?_, hnull, fun i hi => ?_, hnull', ?_⟩
  · rw [hargs i (by rw [h.args.length]; exact hi)]
    exact h.args.strings i hi
  · rw [henvs i (by rw [h.envs.length]; exact hi)]
    exact h.envs.strings i hi
  · obtain ⟨front, hrev, hfront⟩ := auxv_reverse info execfnPtr randomPtr
    have hlen : (auxv info execfnPtr randomPtr).reverse.length = front.length + 2 := by simp [hrev]
    refine ⟨front.length + 1, fun j hj => ?_, ?_, front.length, by omega, ?_, ?_⟩
    · rw [(aux_read haux (by omega)).1]
      simp only [hrev]
      by_cases hlt : j < front.length
      · rw [List.getElem_append_left hlt]
        have hne := hfront _ (List.getElem_mem hlt)
        generalize front[j].1 = t at hne
        cases t <;> first | decide | exact absurd rfl hne
      · obtain rfl : j = front.length := by omega
        simp [AuxvType.num]
    · rw [(aux_read haux (by omega)).1]
      simp [hrev]
    · rw [(aux_read haux (by omega)).1]
      simp [hrev]
    · rw [(aux_read haux (by omega)).2]
      simpa [hrev] using h.execfn

/-- A block whose count is 8 above the stack pointer is not. -/
theorem Built.not_layout (h : Built stackTop path argv envp info mem
    (base + 8) argvPtrs envpPtrs execfnPtr randomPtr) : ¬StackLayout mem base path argv envp := by
  intro hl
  obtain ⟨hargc, hargs, hnull, henvs, hnull', haux⟩ := h.parts
  have hargs_null := hl.args_null
  have henvs_null := hl.envs_null
  cases hn : argv.length with
  | succ n =>
    -- the null after the arguments is read where the last pointer is
    have hlast := hargs n (by rw [h.args.length]; omega)
    rw [hn, show base + 8 + 8 * (n + 1) = base + 8 + 8 + 8 * n by omega, hlast] at hargs_null
    exact h.args.last_ne_zero hn hargs_null
  | zero =>
    cases hm : envp.length with
    | succ m =>
      have hlast := henvs m (by rw [h.envs.length]; omega)
      rw [hn] at hlast
      rw [hn, hm, show base + 16 + 8 * 0 + 8 * (m + 1) =
        base + 8 + 16 + 8 * 0 + 8 * m by omega, hlast] at henvs_null
      exact h.envs.last_ne_zero hm henvs_null
    | zero =>
      -- the null after the environment is read as the end of the vector
      obtain ⟨k, hbefore, -, j, hj, -⟩ := hl.aux
      apply hbefore 0 (by omega)
      rw [hn, hm] at hnull' ⊢
      exact hnull'

end

/-- The stack pointer is a multiple of 16. A program finds the layout at it
exactly when the words from the count up to the strings are an even number. -/
theorem stackLayout_iff {debug : Bool} {s s' : UserStack} {stackTop sp : Nat} {path : List Byte}
    {argv envp : List (List Byte)} {info : AuxInfo} (htop : maxStackBytes + 16 ≤ stackTop)
    (htop' : stackTop < 2 ^ 64)
    (h : Returns (setupUserStack debug stackTop path argv envp info) s sp s') :
    sp % 16 = 0 ∧ (StackLayout s'.mem sp path argv envp ↔
      ((stackTop - blockBytes path argv envp) / 8 + argv.length + envp.length) % 2 = 1) := by
  have hsize : totalSize path argv envp ≤ maxStackBytes := by
    by_contra hbig
    unfold setupUserStack at h
    rw [if_pos (by omega)] at h
    exact not_returns_throw h
  obtain ⟨base, s₁, argvPtrs, envpPtrs, execfnPtr, randomPtr, hrun, hbuilt⟩ :=
    setupUserStack_returns debug (s := s) info htop htop' hsize
  obtain ⟨rfl, rfl⟩ := h.unique hrun
  have hplace := hbuilt.place
  refine ⟨by omega, ?_⟩
  by_cases haligned : base % 16 = 0
  · rw [haligned, Nat.sub_zero]
    exact iff_of_true (hbuilt.layout haligned) (by omega)
  · have hbase : base = base - base % 16 + 8 := by omega
    rw [hbase] at hbuilt
    exact iff_of_false hbuilt.not_layout (by omega)

/-- `execve` of `/a` with the argument `a` and the environment `H=`. -/
theorem stackLayout_one_variable :
    ∃ sp s', Returns (setupUserStack true 0x7FFFFFFFF000 [0x2f, 0x61] [[0x61]] [[0x48, 0x3d]]
        ⟨0x400000, 0, 0, 0, 0⟩) ⟨fun _ => 0, 0⟩ sp s' ∧
      StackLayout s'.mem sp [0x2f, 0x61] [[0x61]] [[0x48, 0x3d]] := by
  obtain ⟨sp, s', hrun⟩ := returns_of_succeeds (show succeeds
    (setupUserStack true 0x7FFFFFFFF000 [0x2f, 0x61] [[0x61]] [[0x48, 0x3d]] ⟨0x400000, 0, 0, 0, 0⟩)
    ⟨fun _ => 0, 0⟩ = true by decide +kernel)
  exact ⟨sp, s', hrun, (stackLayout_iff (by decide) (by decide) hrun).2.mpr (by decide)⟩

/-- The words at a stack pointer and 8 above it. -/
def firstWords (run : EStateM.Result ExecFault UserStack Nat) : Option (Nat × Nat) :=
  match run with
  | .ok sp s' => some (wordAt s'.mem sp, wordAt s'.mem (sp + 8))
  | .error _ _ => none

/-- A program started as `/a` with the one argument `a` finds 0 at the stack
pointer; the count is 8 above it. -/
theorem one_argument_misread : ∃ sp s', Returns
        (setupUserStack true 0x7FFFFFFFF000 [0x2f, 0x61] [[0x61]] [] ⟨0x400000, 0, 0, 0, 0⟩)
        ⟨fun _ => 0, 0⟩ sp s' ∧ wordAt s'.mem sp = 0 ∧ wordAt s'.mem (sp + 8) = 1 ∧
      ¬StackLayout s'.mem sp [0x2f, 0x61] [[0x61]] [] := by
  have hwords : firstWords
      ((setupUserStack true 0x7FFFFFFFF000 [0x2f, 0x61] [[0x61]] [] ⟨0x400000, 0, 0, 0, 0⟩).run
        ⟨fun _ => 0, 0⟩) = some (0, 1) := by decide +kernel
  unfold firstWords at hwords
  split at hwords
  · next sp s' hrun =>
    simp only [Option.some.injEq, Prod.mk.injEq] at hwords
    refine ⟨sp, s', hrun, hwords.1, hwords.2, fun hl => ?_⟩
    have hargc := hl.argc
    rw [hwords.1] at hargc
    cases hargc
  · cases hwords

end PandaOS.Kernel
