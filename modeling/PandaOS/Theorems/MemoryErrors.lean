import PandaOS.Logic.NewPage
import PandaOS.Logic.Spare

/-!
# Failed brk and mmap

`brk_handler` and `mmap_handler` take frames one after the other and return ENOMEM
at the first that is missing, and `mmap_handler` moves `mmap_base` before its last
checks. Neither undoes anything: a call that has begun to take frames keeps them,
and an `mmap` that chose its own address has moved the base. `failed_call_kept_iff`
says when a failed call has changed nothing.
-/

namespace PandaOS.Kernel

open Hal Lib

variable {s s' : KMem} {p : ProcMem} {flags : Word} {q : ProcMem} {base n result : Nat}
  {c : MemCall}

/-- What a call could have changed is as before: the mapped pages with their frames,
the fields of the process, and the allocated frames. -/
structure MemoryKept (p : ProcMem) (s : KMem) (q : ProcMem) (s' : KMem) : Prop where
  pages : ∀ va, (translate s'.mem p.pageTablePhys va).map (·.frame) =
    (translate s.mem p.pageTablePhys va).map (·.frame)
  heapEnd : q.heap.heapEnd = p.heap.heapEnd
  mmapBase : q.mmapBase = p.mmapBase
  mappings : q.mappings = p.mappings
  frames : ∀ f, s'.frames.allocated f = s.frames.allocated f

theorem MemoryKept.refl (p : ProcMem) (s : KMem) : MemoryKept p s p s :=
  ⟨fun _ => rfl, rfl, rfl, rfl, fun _ => rfl⟩

/-- The frame that `allocate_frame` has for the first page of the call is allocated
afterwards. It is a frame for data; tables are only allocated after it. -/
def KeepsPageFrame (s s' : KMem) : Prop :=
  ∃ f s1, Returns allocateFrame s (some f) s1 ∧ s'.frames.allocated f = true

theorem KeepsPageFrame.spare_pos (h : KeepsPageFrame s s') : 0 < spare s := by
  obtain ⟨f, s1, halloc, -⟩ := h
  have := (allocateFrame_ok halloc).spare
  omega

theorem KeepsPageFrame.not_memoryKept (h : KeepsPageFrame s s') : ¬MemoryKept p s q s' := by
  intro hsame
  obtain ⟨f, s1, halloc, hkept⟩ := h
  rw [hsame.frames f, (allocateFrame_ok halloc).fresh.2.2.2] at hkept
  cases hkept

/-! ## The frames a page takes -/

theorem needs_handleDemandPaging (p : ProcMem) (cr2 : Nat) :
    Needs 4 (handleDemandPaging p cr2) := by
  refine Needs.allocate rfl fun f => ?_
  refine Needs.bind (j := 3) (k := 0) (fun s => ?_) fun _ => needs_zeroFrame f
  unfold expectOk
  rw [ends_tryCatch]
  refine (needs_mapPage _ _ _ _ s).mono (fun _ _ h => h) fun e s' he => ?_
  cases e with
  | err msg => exact ⟨he.1, fun ⟨_, h⟩ => nomatch h⟩
  | panic msg => exact ⟨he.1, fun ⟨_, h⟩ => nomatch h⟩

section

variable (p) (va : Nat)

/-- A fault of the kernel itself is handled by demand paging, or stops it. -/
theorem kernelFault_eq (present : Bool) :
    pageFaultHandler (some p) va present true false = handleDemandPaging p va ∨
      pageFaultHandler (some p) va present true false = throwPanic "Unhandled page fault type" := by
  unfold pageFaultHandler
  by_cases hlow : va < userSpaceMax
  · cases present with
    | true => exact .inr (by simp)
    | false => exact .inl (by simp [hlow])
  · exact .inr (by cases present <;> simp [hlow])

theorem needs_kernelFault (present : Bool) :
    Needs 4 (pageFaultHandler (some p) va present true false) := by
  rcases kernelFault_eq p va present with h | h
  · rw [h]
    exact needs_handleDemandPaging p va
  · rw [h]
    exact (Needs.panic _).mono (Nat.zero_le 4)

/-- The store, which is tried again after a fault. -/
theorem needs_zeroStore : Needs 4 (do
    match translate (← get).mem (← get).cr3 va with
    | none => pageFaultHandler (some p) va false true false
    | some t =>
      if t.writable then zeroFrame t.frame
      else pageFaultHandler (some p) va true true false : KM Unit) := by
  refine Needs.get.bind fun t => (Needs.get.bind fun t' => ?_ : Needs (0 + 4) _)
  split
  · exact needs_kernelFault p va false
  · split
    · exact (needs_zeroFrame _).mono (Nat.zero_le 4)
    · exact needs_kernelFault p va true

/-- The page may be missing once more after it was mapped, where the process does
not run on its own table. -/
theorem needs_kernelZeroPage : Needs 8 (kernelZeroPage p va) := by
  have hcanonical :
      Needs 0 (failIf (!canonical va) (.panic "EXCEPTION: DOUBLE FAULT") : KM Unit) := by
    cases canonical va with
    | true => exact Needs.pure ()
    | false => exact Needs.panic _
  refine hcanonical.bind fun _ =>
    (Needs.get.bind fun t => Needs.get.bind fun t' => ?_ : Needs (0 + (0 + 8)) _)
  split
  · exact (needs_kernelFault p va false).bind fun _ => needs_zeroStore p va
  · exact (needs_zeroStore p va).mono (by omega)

end

/-- What a page of a call takes at most: its frame, three tables, and twice as much
to clear it. -/
theorem needs_mapUserPage (p : ProcMem) (flags : Word) (va : Nat) :
    Needs 12 (mapUserPage p flags va) :=
  Needs.allocate rfl fun f =>
    (needs_mapPage _ _ _ _).bind fun _ => (needs_kernelZeroPage p (f * 4096) : Needs 8 _)

/-- A page of a call: the first allocation fails and nothing has changed, or its frame
stays. -/
theorem mapUserPage_kept (p : ProcMem) (flags : Word) (va : Nat) (s : KMem) :
    Ends (mapUserPage p flags va) s (fun _ s' => KeepsPageFrame s s')
      fun _ s' => (spare s = 0 ∧ s' = s) ∨ KeepsPageFrame s s' := by
  have hrest : ∀ f, MovesAlong Taking (do
      mapPage p.pageTablePhys va f flags
      kernelZeroPage p (f * 4096)) := fun f =>
    ((needs_mapPage _ _ _ _).bind fun _ => needs_kernelZeroPage p _).taking
  unfold mapUserPage
  rw [ends_bind]
  refine ends_iff.mpr ⟨fun o s1 halloc => ?_, fun e s1 hthrow =>
    absurd hthrow not_throws_allocateFrame⟩
  cases o with
  | none =>
    obtain ⟨rfl, hout⟩ := allocateFrame_out halloc
    exact .inl ⟨spare_eq_zero.mpr hout, rfl⟩
  | some f =>
    have hkept : ∀ s', Taking s1 s' → KeepsPageFrame s s' := fun s' hle =>
      ⟨f, s1, halloc, FramesLe.allocated hle f (allocateFrame_ok halloc).owned.2.2.2⟩
    exact (hrest f s1).mono (fun _ s' hle => hkept s' hle) fun _ s' hle => .inr (hkept s' hle)

/-- The loop of both calls, if it fails. -/
theorem mapUserPages_kept : Ends (orEnomem do
        forRange 0 n fun i => mapUserPage p flags (base + i * 4096)
        return .ok result) s
      (fun r s' => r = .ok result ∨
        (r = .error .enomem ∧ ((spare s = 0 ∧ s' = s) ∨ KeepsPageFrame s s')))
      fun _ _ => True := by
  unfold orEnomem
  rw [ends_tryCatch, ends_bind]
  have hloop : Ends (forRange 0 n fun i => mapUserPage p flags (base + i * 4096)) s
      (fun _ _ => True) fun _ s' => (spare s = 0 ∧ s' = s) ∨ KeepsPageFrame s s' := by
    cases n with
    | zero => trivial
    | succ m =>
      simp only [forRange, ends_bind]
      refine (mapUserPage_kept p flags _ s).imp (fun _ s1 hkept => ?_)
      -- later pages keep what the first has taken
      obtain ⟨f, s2, halloc, hf⟩ := hkept
      have hrest :=
        MovesAlong.forRange (fun i => (needs_mapUserPage p flags (base + i * 4096)).taking) 1 m
      refine (hrest s1).mono (fun _ _ _ => trivial) fun _ s' hle => .inr ?_
      exact ⟨f, s2, halloc, FramesLe.allocated hle f hf⟩
  refine hloop.mono (fun _ _ _ => .inl rfl) fun e s' hfail => ?_
  cases e with
  | err msg => exact .inr ⟨rfl, hfail⟩
  | panic msg => trivial

/-- With twelve frames for each page, the loop of both calls does not give up. -/
theorem mapUserPages_fits (hfits : 12 * n ≤ spare s) : Ends (orEnomem do
        forRange 0 n fun i => mapUserPage p flags (base + i * 4096)
        return .ok result) s
      (fun r _ => r = .ok result) fun _ _ => True := by
  unfold orEnomem
  rw [ends_tryCatch, ends_bind]
  have hloop := Needs.forRange (fun i => needs_mapUserPage p flags (base + i * 4096)) 0 n s
  refine hloop.mono (fun _ _ _ => rfl) fun e s' he => ?_
  cases e with
  | err msg =>
    have := he.2 ⟨msg, rfl⟩
    omega
  | panic msg => trivial

/-! ## The calls -/

/-- The two calls, with the arguments of a process. -/
inductive MemCall
  | brk (addr : Nat)
  | mmap (addr length : Nat) (prot flags : BitVec 32) (fd : Int)

namespace MemCall

def run (p : ProcMem) : MemCall → KM (ProcMem × Except ErrorCode Nat)
  | brk addr => brkHandler p addr
  | mmap addr length prot flags fd => mmapHandler p addr length prot flags fd

/-- Arguments of `mmap` that are refused whatever the state. -/
def Refused (length : Nat) (prot flags : BitVec 32) (fd : Int) : Prop :=
  (length = 0 ∨ length > 0x4000_0000) ∨ (flags &&& 0x20 = 0 ∨ flags &&& 2 = 0) ∨ fd ≠ -1 ∨
    (prot &&& 2 ≠ 0 ∧ prot &&& 4 ≠ 0)

/-- If the call fails, it does so before it has changed anything: by a check, with
`mmap_base` still in its place, or for want of the first frame. -/
def FailsEarly (p : ProcMem) (s : KMem) : MemCall → Prop
  | brk addr => p.mmapBase < addr ∨ spare s = 0
  | mmap addr length prot flags fd => Refused length prot flags fd ∨ (addr ≠ 0 ∨ p.mmapBase = 0) ∧
        (addr % 4096 ≠ 0 ∨ addr ≥ userSpaceMax ∨ addr < p.heap.heapEnd ∨ spare s = 0)

/-- The call passes its checks and has twelve frames for each page. -/
def Fits (p : ProcMem) (s : KMem) : MemCall → Prop
  | brk addr => addr ≤ p.mmapBase ∧ 12 * ((pageOf (addr + 0xFFF) - p.heap.heapEnd) / 4096) ≤ spare s
  | mmap addr length prot flags fd => ¬Refused length prot flags fd ∧ addr % 4096 = 0 ∧
      ∃ mapAddr, (chooseAddr p addr (pageOf (length + 0xFFF))).2 = .ok mapAddr ∧
        mapAddr < userSpaceMax ∧ p.heap.heapEnd ≤ mapAddr ∧
        12 * (pageOf (length + 0xFFF) / 4096) ≤ spare s

/-- What a failed call leaves behind. -/
def Failed (c : MemCall) (p : ProcMem) (s : KMem) (q : ProcMem) (s' : KMem) : Prop :=
  (c.FailsEarly p s ∧ MemoryKept p s q s') ∨
    (¬c.FailsEarly p s ∧ (q.mmapBase ≠ p.mmapBase ∨ KeepsPageFrame s s'))

theorem Failed.memoryKept_iff (h : c.Failed p s q s') : MemoryKept p s q s' ↔ c.FailsEarly p s := by
  rcases h with ⟨hearly, hsame⟩ | ⟨hlate, hmoved | hkept⟩
  · exact ⟨fun _ => hearly, fun _ => hsame⟩
  · exact ⟨fun hsame => absurd hsame.mmapBase hmoved, fun hearly => absurd hearly hlate⟩
  · exact ⟨fun hsame => absurd hsame hkept.not_memoryKept, fun hearly => absurd hearly hlate⟩

/-- A call that returns, with what holds if it returns an error. -/
def Answers (c : MemCall) (p : ProcMem) (s : KMem) (r : ProcMem × Except ErrorCode Nat)
    (s' : KMem) : Prop :=
  ∀ e, r.2 = .error e → c.Failed p s r.1 s' ∧ ¬c.Fits p s

theorem Answers.of_ok : c.Answers p s (q, .ok n) s' :=
  fun _ h => nomatch h

/-- Both loops: what the call answers with the process `q`, whose base may have
moved, and with a mapping more if the loop comes to its end. -/
theorem loop_answers {done : ProcMem} (hearly : (c.FailsEarly p s ∧ spare s = 0 ∧ q = p) ∨
      (¬c.FailsEarly p s ∧ (q.mmapBase ≠ p.mmapBase ∨ spare s ≠ 0)))
    (hfits : c.Fits p s → 12 * n ≤ spare s) :
    Ends (do
        let r ← orEnomem do
          forRange 0 n fun i => mapUserPage q flags (base + i * 4096)
          return .ok result
        return (if r matches .ok _ then done else q, r)) s
      (c.Answers p s) fun _ _ => True := by
  rw [ends_bind]
  refine ends_iff.mpr ⟨fun r s' hret => ?_, fun _ _ _ => trivial⟩
  rcases hret.of_ends mapUserPages_kept with rfl | ⟨rfl, hwhy⟩
  · exact Answers.of_ok
  intro e _
  refine ⟨?_, fun hfit => ?_⟩
  · rcases hearly with ⟨hearly, hnone, rfl⟩ | ⟨hlate, hmoved | hsome⟩
    · rcases hwhy with ⟨-, rfl⟩ | hkept
      · exact .inl ⟨hearly, MemoryKept.refl _ _⟩
      · exact absurd hkept.spare_pos (by omega)
    · exact .inr ⟨hlate, .inl hmoved⟩
    · exact .inr ⟨hlate, .inr (hwhy.resolve_left fun h => hsome h.1)⟩
  · cases hret.of_ends (mapUserPages_fits (hfits hfit))

theorem brk_answers (p : ProcMem) (addr : Nat) (s : KMem) :
    Ends (brkHandler p addr) s ((brk addr).Answers p s) fun _ _ => True := by
  unfold brkHandler
  split
  · exact Answers.of_ok
  split
  · exact Answers.of_ok
  split
  · rename_i hcollides
    intro e _
    refine ⟨.inl ⟨.inl hcollides, MemoryKept.refl p s⟩, fun hfits => ?_⟩
    exact absurd hfits.1 (by omega)
  rename_i hbelow
  refine (addU64_ends _ _ s).bind ?_ fun _ _ _ => trivial
  rintro rounded s ⟨rfl, hadd, -⟩
  have hle : pageOf rounded ≤ pageOf (addr + 0xFFF) := by
    unfold pageOf
    gcongr
  simp only [moveBreak]
  split
  · refine loop_answers ?_ fun hfits => le_trans ?_ hfits.2
    · by_cases hspare : spare s = 0
      · exact .inl ⟨.inr hspare, hspare, rfl⟩
      · exact .inr ⟨fun h => h.elim hbelow hspare, .inr hspare⟩
    · gcongr
  split
  · rw [ends_bind]
    exact ends_iff.mpr ⟨fun _ _ _ => Answers.of_ok, fun _ _ _ => trivial⟩
  · exact Answers.of_ok

/-- The rest of `mmap_handler`, with the process `q` after the choice of the address. -/
theorem mapAnonymous_answers {mapAddr size : Nat} {prot flags : BitVec 32}
    (hplace : q = p ∨ q.mmapBase ≠ p.mmapBase)
    (hearly : c.FailsEarly p s ↔
      q = p ∧ (mapAddr ≥ userSpaceMax ∨ mapAddr < q.heap.heapEnd ∨ spare s = 0))
    (hfits : c.Fits p s → mapAddr < userSpaceMax ∧ q.heap.heapEnd ≤ mapAddr ∧
      12 * (size / 4096) ≤ spare s) :
    Ends (mapAnonymous q mapAddr size prot flags) s (c.Answers p s) fun _ _ => True := by
  -- a check that fails: nothing has changed but perhaps the base
  have hcheck (e : ErrorCode) (hwhy : mapAddr ≥ userSpaceMax ∨ mapAddr < q.heap.heapEnd) :
      c.Answers p s (q, .error e) s := by
    intro _ _
    refine ⟨?_, fun hfit => ?_⟩
    · rcases hplace with rfl | hmoved
      · exact .inl ⟨hearly.mpr ⟨rfl, by omega⟩, MemoryKept.refl _ _⟩
      · exact .inr ⟨fun h => hmoved (by rw [(hearly.mp h).1]), .inl hmoved⟩
    · obtain ⟨hbelow, habove, -⟩ := hfits hfit
      omega
  unfold mapAnonymous
  split
  · exact hcheck _ (.inl ‹_›)
  split
  · exact hcheck _ (.inr ‹_›)
  rename_i hbelow habove
  refine loop_answers ?_ fun hfit => (hfits hfit).2.2
  rcases hplace with rfl | hmoved
  · by_cases hspare : spare s = 0
    · exact .inl ⟨hearly.mpr ⟨rfl, .inr (.inr hspare)⟩, hspare, rfl⟩
    · exact .inr ⟨fun h => by have := (hearly.mp h).2; omega, .inr hspare⟩
  · exact .inr ⟨fun h => hmoved (by rw [(hearly.mp h).1]), .inl hmoved⟩

theorem mmap_answers (p : ProcMem) (addr length : Nat) (prot flags : BitVec 32)
    (fd : Int) (s : KMem) :
    Ends (mmapHandler p addr length prot flags fd) s ((mmap addr length prot flags fd).Answers p s)
      fun _ _ => True := by
  have hrefused (hr : Refused length prot flags fd) (e : ErrorCode) :
      (mmap addr length prot flags fd).Answers p s (p, .error e) s := fun _ _ =>
    ⟨.inl ⟨.inl hr, MemoryKept.refl p s⟩, fun hfits => hfits.1 hr⟩
  simp only [mmapHandler]
  split
  · exact hrefused (.inl ‹_›) _
  split
  · exact hrefused (.inr (.inl ‹_›)) _
  split
  · exact hrefused (.inr (.inr (.inl ‹_›))) _
  split
  · exact hrefused (.inr (.inr (.inr ‹_›))) _
  rename_i hlength hflags hfd hprot
  have haccepted : ¬Refused length prot flags fd := by
    rintro (h | h | h | h)
    · exact hlength h
    · exact hflags h
    · exact hfd h
    · exact hprot h
  have hsize : 0 < pageOf (length + 0xFFF) := by
    unfold pageOf pageSize
    omega
  by_cases haddr : addr = 0
  · -- the address is the base, moved down
    subst haddr
    have hchoose : chooseAddr p 0 (pageOf (length + 0xFFF)) =
        ({ p with mmapBase := p.mmapBase - pageOf (length + 0xFFF) },
          .ok (p.mmapBase - pageOf (length + 0xFFF))) := rfl
    have hsame : { p with mmapBase := p.mmapBase - pageOf (length + 0xFFF) } = p ↔
        p.mmapBase = 0 := by
      constructor
      · intro h
        have := congrArg ProcMem.mmapBase h
        dsimp only at this
        omega
      · intro h
        rw [h, Nat.zero_sub, ← h]
    rw [hchoose]
    refine mapAnonymous_answers ?_ ?_ ?_
    · by_cases hbase : p.mmapBase = 0
      · exact .inl (hsame.mpr hbase)
      · refine .inr ?_
        dsimp only
        omega
    · rw [hsame]
      simp only [FailsEarly, haccepted, false_or, ne_eq, not_true_eq_false, Nat.zero_mod]
      refine and_congr_right fun hbase => ?_
      rw [hbase, Nat.zero_sub]
    · rintro ⟨-, -, mapAddr, hmap, hfit⟩
      rw [hchoose] at hmap
      cases hmap
      exact hfit
  by_cases halign : addr % 4096 = 0
  · have hchoose : chooseAddr p addr (pageOf (length + 0xFFF)) = (p, .ok addr) := by
      simp [chooseAddr, haddr, halign]
    rw [hchoose]
    refine mapAnonymous_answers (.inl rfl) ?_ ?_
    · simp [FailsEarly, haccepted, haddr, halign]
    · rintro ⟨-, -, mapAddr, hmap, hfit⟩
      rw [hchoose] at hmap
      cases hmap
      exact hfit
  · have hchoose : chooseAddr p addr (pageOf (length + 0xFFF)) = (p, .error .einval) := by
      simp [chooseAddr, haddr, halign]
    rw [hchoose]
    intro e _
    exact ⟨.inl ⟨.inr ⟨.inl haddr, .inl halign⟩, MemoryKept.refl p s⟩,
      fun hfits => halign hfits.2.1⟩

theorem answers (c : MemCall) (p : ProcMem) (s : KMem) :
    Ends (c.run p) s (c.Answers p s) fun _ _ => True := by
  cases c with
  | brk addr => exact brk_answers p addr s
  | mmap addr length prot flags fd => exact mmap_answers p addr length prot flags fd s

end MemCall

/-- For every state, process and call: a failed call has changed nothing exactly if it
fails early. Otherwise the base of the mappings has moved or a frame for a page has
stayed allocated. With room for its pages, a call that passes its checks does not fail. -/
theorem failed_call_kept_iff (c : MemCall) (p : ProcMem) (s : KMem) :
    (∀ q e s', Returns (c.run p) s (q, .error e) s' →
      (MemoryKept p s q s' ↔ c.FailsEarly p s) ∧
      (¬c.FailsEarly p s → q.mmapBase ≠ p.mmapBase ∨ KeepsPageFrame s s')) ∧
    (c.Fits p s → ∀ q e s', ¬Returns (c.run p) s (q, .error e) s') := by
  have hanswers := (ends_iff.mp (c.answers p s)).1
  refine ⟨fun q e s' hret => ?_, fun hfits q e s' hret => ?_⟩
  · have hfailed := (hanswers _ _ hret e rfl).1
    exact ⟨hfailed.memoryKept_iff, fun hlate => (hfailed.resolve_left fun h => hlate h.1).2⟩
  · exact (hanswers _ _ hret e rfl).2 hfits

/-! ## Runs -/

/-- An empty memory with the frames 1 to `n`, and a table in frame 0. -/
def roomFor (n : Nat) : KMem where
  mem := fun _ _ => 0
  frames := { FrameAllocator.new 1 (n + 1) with refcounts := some fun _ => 0 }
  tracker := none
  cr3 := 0
  debug := true

/-- A process on that table with an empty heap. -/
def bareProc : ProcMem where
  entryPoint := 0
  userStackPtr := 0
  kernelStackPtr := 0
  pageTablePhys := 0
  heap := ⟨0x40_0000, 0x40_0000, 0x50_0000⟩
  mappings := []
  mmapBase := 0x7000_0000_0000
  vmRegions := []

theorem oneFrame_brk : outcome (brkHandler bareProc 0x40_1000) (roomFor 1) =
    .ok (bareProc, .error .enomem) := by
  decide +kernel

theorem noFrame_mmap : outcome (mmapHandler bareProc 0 4096 3 0x22 (-1)) (roomFor 0) =
    .ok ({ bareProc with mmapBase := 0x6FFF_FFFF_F000 }, .error .enomem) := by
  decide +kernel

/-- A page of heap with one frame left, and one with thirteen. -/
theorem failed_call_kept_iff_brk :
    (∃ q e s', Returns ((MemCall.brk 0x40_1000).run bareProc) (roomFor 1) (q, .error e) s' ∧
      ¬MemoryKept bareProc (roomFor 1) q s' ∧
      (q.mmapBase ≠ bareProc.mmapBase ∨ KeepsPageFrame (roomFor 1) s')) ∧
    ∀ q e s', ¬Returns ((MemCall.brk 0x40_1000).run bareProc) (roomFor 13) (q, .error e) s' := by
  obtain ⟨s', hret⟩ := returns_of_outcome oneFrame_brk
  have hlate : ¬(MemCall.brk 0x40_1000).FailsEarly bareProc (roomFor 1) := by
    unfold MemCall.FailsEarly
    decide
  have hfits : (MemCall.brk 0x40_1000).Fits bareProc (roomFor 13) := by
    unfold MemCall.Fits
    decide
  obtain ⟨hiff, hchanged⟩ :=
    (failed_call_kept_iff (.brk 0x40_1000) bareProc (roomFor 1)).1 _ _ s' hret
  exact ⟨⟨_, _, s', hret, fun hsame => hlate (hiff.mp hsame), hchanged hlate⟩,
    (failed_call_kept_iff (.brk 0x40_1000) bareProc (roomFor 13)).2 hfits⟩

/-- With one frame left, `brk` takes it for the page, finds none for a table and
returns ENOMEM with the frame still allocated. With none left, `mmap` returns ENOMEM
and has moved the base. -/
theorem failed_calls_change :
    (∃ q s', Returns (brkHandler bareProc 0x40_1000) (roomFor 1) (q, .error .enomem) s' ∧
      KeepsPageFrame (roomFor 1) s' ∧ ¬MemoryKept bareProc (roomFor 1) q s') ∧
    ∃ q s', Returns (mmapHandler bareProc 0 4096 3 0x22 (-1)) (roomFor 0) (q, .error .enomem) s' ∧
      q.mmapBase < bareProc.mmapBase ∧ ¬MemoryKept bareProc (roomFor 0) q s' := by
  constructor
  · obtain ⟨s', hret⟩ := returns_of_outcome oneFrame_brk
    have hlate : ¬(MemCall.brk 0x40_1000).FailsEarly bareProc (roomFor 1) := by
      unfold MemCall.FailsEarly
      decide
    have hfailed := (hret.of_ends (MemCall.brk_answers bareProc _ _) _ rfl).1
    have hkept : KeepsPageFrame (roomFor 1) s' :=
      (hfailed.resolve_left fun h => hlate h.1).2.resolve_left fun h => h rfl
    exact ⟨_, s', hret, hkept, hkept.not_memoryKept⟩
  · obtain ⟨s', hret⟩ := returns_of_outcome noFrame_mmap
    exact ⟨_, s', hret, by decide, fun hsame => absurd hsame.mmapBase (by decide)⟩

end PandaOS.Kernel
