import PandaOS.Kernel.Exec
import PandaOS.Logic.Untouched
import PandaOS.Theorems.ElfLoad
import PandaOS.Theorems.ExecStack
import PandaOS.Theorems.ForkStack
import PandaOS.Theorems.SyscallReturn

/-!
# execve after a failure

A failed `execve` should leave the process as it was. While `replace_image` builds the
new image it does: the image lies in frames that were free, and they are freed again if
something fails. But the size of the arguments is checked by `setup_user_stack`, after the
old image is gone. Then `execve` returns `E2BIG` to a process that has lost its program and
its environment.

In a release build a segment may also wrap around at the end of the address space. The bytes
of a page behind the end are copied to frames before its own, which may be the caller's.
-/

namespace PandaOS.Kernel

open Hal Lib

variable {files : ExecFiles} {sel : Selectors} {path data resolved : List Byte}
  {argv envp : List (List Byte)} {st st' : ExecState} {s s' : KMem} {pt : Nat} {p : Process}

/-! ## Building and installing the image -/

/-- The frames of the user half keep their contents. -/
def KeepsUser (s : KMem) (pt : Nat) (s' : KMem) : Prop :=
  ∀ f ∈ userFrames s.mem pt, s'.mem f = s.mem f

theorem Within.keepsUser {c n : Nat} (h : Within (userFrames s.mem pt) s n c s') :
    KeepsUser s pt s' := by
  obtain ⟨T, -, hb⟩ := h
  exact hb.walk.kept

variable {info : ElfInfo}

/-- The first part of `replace_image` leaves the old image alone while the copies stay in
the new one. -/
theorem newImage_keeps (h : Intact s p.pageTablePhys)
    (hstays : ∀ seg ∈ info.loadSegments, SegmentStays s.debug (spare s - 1) seg) :
    Ends (p.newImage sel info data) s (fun _ s' => KeepsUser s p.pageTablePhys s')
      (fun _ s' => KeepsUser s p.pageTablePhys s') := by
  simp only [Process.newImage, ends_bind]
  refine createUserPageTable_spare.mono ?_ fun _ _ hout => hout.2.2 ▸ fun _ _ => rfl
  rintro c s1 ⟨new, hone⟩
  rw [show spare s - 1 = spare s1 by omega] at hstays
  rw [ends_tryCatch]
  refine (buildImage_within (h.within new) hstays).mono (fun _ _ h' => h'.1.keepsUser)
    fun e s2 hfail => ?_
  cases e with
  | panic msg => exact hfail.keepsUser
  | err msg =>
    obtain ⟨T, hc, hb⟩ := hfail
    simp only [ends_bind]
    exact (freeProcessAddressSpace_confined hb.walk (by omega) hc).mono (fun _ _ h' => h'.kept)
      fun _ _ h' => h'.kept

/-- A new image has its table in a frame that was free, wherever its bytes have gone. -/
theorem newImage_table {p' : Process} (h : Returns (p.newImage sel info data) s p' s') :
    Fresh s.frames p'.pageTablePhys ∧ p'.userStackPtr = BitVec.ofNat 64 userStackTop := by
  obtain ⟨c, s1, hnew, htry⟩ := returns_bind.mp h
  have hfresh := (hnew.of_ends (createUserPageTable_ends s)).1.fresh
  rcases returns_tryCatch.mp htry with hbuild | ⟨e, s2, -, hundo⟩
  · simp only [buildImage, returns_bind, returns_pure] at hbuild
    obtain ⟨-, -, -, -, -, -, -, -, -, -, -, -, rfl, -⟩ := hbuild
    exact ⟨hfresh, rfl⟩
  · cases e <;> simp [throwErr, throwPanic] at hundo

theorem KeepsUser.unchanged (h : KeepsUser st.mem st.proc.pageTablePhys s') :
    Unchanged st { st with mem := s' } where
  proc := rfl
  mapped _ hva := (translate_kept h hva).1
  contents _ hva t ht := h _ ((translate_kept h hva).2 t ht)

theorem Unchanged.refl (st : ExecState) : Unchanged st st :=
  ⟨rfl, fun _ _ => rfl, fun _ _ _ _ => rfl⟩

/-- A call into paging, outcome by outcome. -/
theorem ends_onMemory {α : Type} {code : ErrorCode} {x : KM α} {Q : α → ExecState → Prop}
    {E : ExecFault → ExecState → Prop}
    (h : Ends x st.mem (fun a mem => Q a { st with mem := mem }) fun fault mem =>
      match fault with
      | .err _ => E (.err code) { st with mem := mem }
      | .panic _ => E .panic { st with mem := mem }) :
    Ends (onMemory code x) st Q E := by
  revert h
  unfold Ends onMemory EStateM.run
  beta_reduce
  cases x st.mem with
  | ok a mem => exact id
  | error e mem => cases e <;> exact id

/-- `replace_image` returns an error only before it has changed the process. -/
theorem replaceImage_spares (h : Intact st.mem st.proc.pageTablePhys)
    (hstays : ∀ seg ∈ info.loadSegments, SegmentStays st.mem.debug (spare st.mem - 1) seg) :
    Ends (replaceImage sel info data) st (fun _ _ => True)
      (fun fault st' => ∀ e, fault = .err e → Unchanged st st') := by
  simp only [replaceImage, ends_bind, ends_get, ends_modify]
  refine ends_onMemory ((newImage_keeps h hstays).mono (fun image s' hkept => ?_)
    fun e s' hkept => ?_)
  · refine ends_onMemory ((freeProcessAddressSpace_panics (h.small hkept) rfl).mono
      (fun _ _ _ => trivial) ?_)
    rintro e t ⟨msg, rfl⟩ code hcode
    cases hcode
  · cases e with
    | err msg => exact fun _ _ => hkept.unchanged
    | panic msg =>
      intro code hcode
      cases hcode

theorem replaceImage_table (h : Returns (replaceImage sel info data) st () st') :
    Fresh st.mem.frames st'.proc.pageTablePhys ∧
      st'.proc.userStackPtr = BitVec.ofNat 64 userStackTop := by
  have hends : Ends (replaceImage sel info data) st
      (fun _ st' => Fresh st.mem.frames st'.proc.pageTablePhys ∧
      st'.proc.userStackPtr = BitVec.ofNat 64 userStackTop) fun _ _ => True := by
    simp only [replaceImage, ends_bind, ends_get, ends_modify]
    refine ends_onMemory
      (ends_iff.mpr ⟨fun image s' himage => ?_, fun e _ _ => by cases e <;> trivial⟩)
    exact ends_onMemory (ends_iff.mpr ⟨fun _ _ _ => newImage_table himage,
      fun e _ _ => by cases e <;> trivial⟩)
  exact h.of_ends hends

/-! ## The whole call -/

/-- With arguments that fit, `setup_user_stack` completes. -/
theorem setupStack_returns (info : ElfInfo) (st : ExecState)
    (hstack : st.proc.userStackPtr = BitVec.ofNat 64 userStackTop)
    (hsize : totalSize resolved argv envp ≤ maxStackBytes) :
    ∃ r, Returns (setupStack resolved argv envp info) st r st := by
  have htop : st.proc.userStackPtr.toNat = userStackTop := by
    rw [hstack]
    decide
  have hsetup : ∀ aux, ∃ sp stack, Returns (setupUserStack st.mem.debug userStackTop resolved argv
      envp aux) ⟨userByte st.mem, 0⟩ sp stack := by
    intro aux
    obtain ⟨_, stack, _, _, _, _, hret, -⟩ := setupUserStack_returns st.mem.debug aux
      (show maxStackBytes + 16 ≤ userStackTop by decide) (by decide) hsize
    exact ⟨_, stack, hret⟩
  obtain ⟨sp, stack, hret⟩ := hsetup
    { entryPoint := BitVec.ofNat 64 info.entryPoint
      phdr := BitVec.ofNat 64 info.phdrAddr
      phnum := BitVec.ofNat 16 info.phnum
      uid := st.proc.uid
      gid := st.proc.gid }
  refine ⟨(sp, stack), ?_⟩
  simp only [setupStack, returns_bind, returns_get, and_assoc,
    exists_and_left, exists_eq_left, htop, hret.run_eq]
  exact pure_returns _ _

theorem setupStack_throws (info : ElfInfo) (st : ExecState)
    (hsize : maxStackBytes < totalSize resolved argv envp) :
    Throws (setupStack resolved argv envp info) st (.err .e2big) st := by
  have hrun : ∀ s aux, (setupUserStack st.mem.debug st.proc.userStackPtr.toNat resolved argv envp
      aux).run s = .error (.err .e2big) s := by
    intro s aux
    unfold setupUserStack
    rw [if_pos hsize]
    rfl
  simp only [setupStack, throws_bind, not_throws_get, false_or, returns_get, and_assoc,
    exists_and_left, exists_eq_left, hrun, throws_throw, and_self]

/-- If the arguments are too large, the call fails when the image is already replaced. -/
theorem startProgram_throws {st1 : ExecState}
    (hreplace : Returns (replaceImage sel info data) st () st1)
    (hsize : maxStackBytes < totalSize resolved argv envp) :
    ∃ st', Throws (startProgram sel argv envp resolved data info) st (.err .e2big) st' ∧
      st'.proc.pageTablePhys = st1.proc.pageTablePhys := by
  refine ⟨{
    mem := { st1.mem with cr3 := st1.proc.pageTablePhys }
    proc := { st1.proc with environ := envp.foldl Environ.insert fun _ => none } }, ?_, rfl⟩
  refine throws_bind.mpr (.inr ⟨(), st1, hreplace, ?_⟩)
  refine throws_bind.mpr (.inr ⟨⟨⟩, _, modify_returns _ _, ?_⟩)
  refine throws_bind.mpr (.inr ⟨⟨⟩, _, modify_returns _ _, ?_⟩)
  exact throws_bind.mpr (.inl (setupStack_throws info _ hsize))

/-- If they fit, the call fails only where replacing the image does. -/
theorem startProgram_fails {fault : ExecFault}
    (hsize : succeeds (replaceImage sel info data) st = true →
      totalSize resolved argv envp ≤ maxStackBytes)
    (h : Throws (startProgram sel argv envp resolved data info) st fault st') :
    Throws (replaceImage sel info data) st fault st' := by
  rcases throws_bind.mp h with hreplace | ⟨_, st1, hreplace, hrest⟩
  · exact hreplace
  · refine (hrest.of_ends (Q := fun _ _ => True) (E := fun _ _ => False) ?_).elim
    simp only [ends_bind, ends_modify]
    obtain ⟨r, hret⟩ := setupStack_returns info
      { mem := { st1.mem with cr3 := st1.proc.pageTablePhys }
        proc := { st1.proc with environ := envp.foldl Environ.insert fun _ => none } }
      (replaceImage_table hreplace).2 (hsize hreplace.succeeds)
    exact hret.ends trivial

/-- Every path is this file, which everyone may run. -/
def oneFile (data : List Byte) : ExecFiles where
  statPath _ := .ok ⟨false, 0o755, 0, 0⟩
  readFileToVec _ := .ok data

/-- A file with one executable page below the user stack and nothing to copy. -/
def belowStack : List Byte := elfBytes [⟨0x7FFF_FFF0_0000, 0, 0, 0x1000, 5⟩] []

/-- A process with the root's credentials and an empty environment. -/
def asRoot (p : Process) : ExecProcess :=
  { p with uid := 0, gid := 0, cwd := [slash], pathEnv := [], environ := fun _ => none }

/-- Three tables and a page below the table in frame 1. -/
def firstEntry : Nat → Word
  | 1 => Pte.make 0x2000 7
  | 2 => Pte.make 0x3000 7
  | 3 => Pte.make 0x4000 7
  | 4 => Pte.make 0x14000 7
  | _ => 0

theorem firstEntry_cases (t : Nat) :
    (Pte.isPresent (firstEntry t) = true → Pte.frame (firstEntry t) ∈ [1, 2, 3, 4, 20]) ∧
      Pte.has (Pte.flags (firstEntry t)) Pte.HUGE_PAGE = false := by
  unfold firstEntry
  split <;> decide

/-- A process with one page, in frame 20 at address 0, with its tables in frames 1 to 4. The
frames of `free` are left. -/
def pageAtZero (debug : Bool) (free : List Nat) : ExecState where
  mem :=
    { mem := fun t i => if i = 0 then firstEntry t else 0
      frames := { FrameAllocator.new 1 64 with
        allocated := fun f => !free.contains f, refcounts := some fun _ => 0 }
      tracker := none
      cr3 := 1
      debug := debug }
  proc := asRoot { plainInit with pageTablePhys := 1 }

theorem pageAtZero_intact {debug : Bool} {free : List Nat}
    (hfree : ∀ f ∈ [1, 2, 3, 4, 20], free.contains f = false) :
    Intact (pageAtZero debug free).mem 1 := by
  -- a table of this machine holds nothing outside its slot 0
  have hat : ∀ t i c, tableAt (pageAtZero debug free).mem.mem t i = some c →
      i = 0 ∧ c ∈ [1, 2, 3, 4, 20] := by
    intro t i c hc
    obtain ⟨hp, rfl⟩ := tableAt_some hc
    by_cases hi : i = 0
    · subst hi
      exact ⟨rfl, (firstEntry_cases t).1 hp⟩
    · rw [show (pageAtZero debug free).mem.mem t i = 0 from if_neg hi] at hp
      cases hp
  have huser : ∀ d, ∀ f ∈ tablesBelow (pageAtZero debug free).mem.mem
      (topTables (pageAtZero debug free).mem.mem 1 0 256) d, f ∈ [1, 2, 3, 4, 20] := by
    rintro (_ | d) f hf
    · obtain ⟨i, -, -, hc⟩ := hf
      exact (hat 1 i f hc).2
    · obtain ⟨t, -, i, -, hc⟩ := hf
      exact (hat t i f hc).2
  have hkernel : ∀ d, kernelTables (pageAtZero debug free).mem.mem 1 d = ∅ := by
    intro d
    induction d with
    | zero =>
      refine Set.eq_empty_of_forall_notMem ?_
      rintro c ⟨i, hi, -, hc⟩
      have := (hat 1 i c hc).1
      omega
    | succ d ih =>
      refine Set.eq_empty_of_forall_notMem ?_
      rintro c ⟨t, ht, -⟩
      exact Set.notMem_empty t (ih ▸ ht)
  have hheld : ∀ f ∈ [1, 2, 3, 4, 20], ¬Fresh (pageAtZero debug free).mem.frames f := by
    intro f hf hfresh
    have hall : (!free.contains f) = false := hfresh.2.2.2
    rw [hfree f hf] at hall
    cases hall
  constructor
  case active => rfl
  case user_held =>
    rintro f (rfl | ⟨d, -, hf⟩)
    · exact hheld 1 (by decide)
    · exact hheld f (huser d f hf)
  case kernel_held => exact fun d _ f hf => absurd (hkernel d ▸ hf) (Set.notMem_empty f)
  case kernel_apart => exact fun d _ f hf => absurd (hkernel d ▸ hf) (Set.notMem_empty f)
  case kernel_levels => exact fun d _ _ _ _ f hf => absurd (hkernel d ▸ hf) (Set.notMem_empty f)
  case no_huge =>
    intro t _ i _
    by_cases hi : i = 0
    · subst hi
      exact (firstEntry_cases t).2
    · rw [show (pageAtZero debug free).mem.mem t i = 0 from if_neg hi]
      decide
  case bound => exact (by decide : 64 ≤ 2 ^ 40)

/-- The error of a failed call, the page table it leaves and the start of frame 20. -/
def failure (r : EStateM.Result ExecFault ExecState UserStack) : Option (ErrorCode × Nat × Word) :=
  match r with
  | .error (.err e) st' => some (e, st'.proc.pageTablePhys, st'.mem.mem 20 0)
  | _ => none

theorem throws_of_failure {x : ExecM UserStack} {e : ErrorCode} {w : Word}
    (h : failure (x.run st) = some (e, pt, w)) :
    ∃ st', Throws x st (.err e) st' ∧ st'.proc.pageTablePhys = pt ∧ st'.mem.mem 20 0 = w := by
  unfold failure at h
  split at h
  · rename_i e' st' hrun
    cases h
    exact ⟨st', hrun, rfl, rfl⟩
  · cases h

/-- 63 arguments of 255 bytes, as many and as long as `parse_argv` lets through. -/
def longArguments : List (List Byte) := List.replicate 63 (List.replicate 255 0x61)

/-- A file whose segment goes on behind the end of the address space. -/
def wrapping : List Byte := elfBytes [⟨2 ^ 64 - 4096, 0, 1, 0x2000, 5⟩] []

end PandaOS.Kernel
