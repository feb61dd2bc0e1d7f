import PandaOS.Kernel.Elf
import PandaOS.Lib.Bytes

/-!
# What parse_elf accepts

`parse_elf` is to be safe on every byte string: no addition wraps, no header is
read outside the file, and the segments of a file it accepts lie in the file and
in the address space. It checks the end of a segment in the file with
`checked_add`, but the end of a program header with a plain addition, and the
end of a segment in memory not at all.

`parseElf_safe_iff` says for which files this does no harm.
-/

namespace PandaOS.Kernel

open Lib

/-- What a segment of an accepted file has to satisfy. -/
def LoadSegment.Fits (seg : LoadSegment) (fileLength : Nat) : Prop :=
  seg.fileOffset + seg.fileSize ≤ fileLength ∧ seg.fileSize ≤ seg.memSize ∧
    seg.vaddr + seg.memSize + 4095 ≤ 2 ^ 64 - 1

/-- `parse_elf` is safe on a file: no addition overflows, which a debug build would
show by a panic, every header is read inside the file, and the segments of an
accepted file fit. -/
structure ParsesSafely (data : List Byte) : Prop where
  noWrap : ∀ msg, parseElf true data ≠ .error (.panic msg)
  inside : ∀ debug, parseElf debug data ≠ .error .wild
  fits : ∀ debug info, parseElf debug data = .ok info →
    ∀ seg ∈ info.loadSegments, seg.Fits data.length

/-! ## The program headers of a file -/

/-- Where program header `i` starts. -/
def phdrOffset (h : Ehdr) (i : Nat) : Nat := h.ePhoff + i * phdrSize

/-- The segment of a loadable program header. -/
def segmentOf (p : Phdr) : Option LoadSegment :=
  if p.pType = 1 then some ⟨p.pVaddr, p.pOffset, p.pFilesz, p.pMemsz, p.pFlags⟩ else none

/-- Program header `i` of the file. -/
def phdrAt (data : List Byte) (i : Nat) : Phdr := readPhdr data (phdrOffset (readEhdr data) i)

/-- The segment of a loadable header lies in the file. -/
def PhdrFits (data : List Byte) (p : Phdr) : Prop :=
  ∀ seg, segmentOf p = some seg → seg.fileSize ≤ seg.memSize ∧
    seg.fileOffset + seg.fileSize ≤ data.length

/-- The first `n` program headers lie in the file, and so do their segments. -/
def HeadersFit (data : List Byte) (n : Nat) : Prop :=
  ∀ i < n, phdrOffset (readEhdr data) i + phdrSize ≤ data.length ∧ PhdrFits data (phdrAt data i)

/-- The segments of the first `n` program headers. -/
def segmentsOf (data : List Byte) (n : Nat) : List LoadSegment :=
  (List.range n).filterMap fun i => segmentOf (phdrAt data i)

/-- The file header passes its checks. -/
def EhdrOk (data : List Byte) : Prop :=
  ehdrSize ≤ data.length ∧ checkEhdr (readEhdr data) = .ok ()

/-- A file on which nothing wraps: if the file header passes, the end of the first
program header is a 64-bit number, and if all program headers pass as well, so is
the end of every segment in memory, rounded up to a page. -/
def NothingWraps (data : List Byte) : Prop :=
  EhdrOk data → ((readEhdr data).ePhnum = 0 ∨ (readEhdr data).ePhoff + phdrSize < 2 ^ 64) ∧
    (HeadersFit data (readEhdr data).ePhnum →
      ∀ seg ∈ segmentsOf data (readEhdr data).ePhnum, seg.vaddr + seg.memSize + 4095 ≤ 2 ^ 64 - 1)

section

variable {data : List Byte} (debug : Bool) {a b n : Nat} {h : Ehdr}

theorem elfAdd_ok (h : a + b < 2 ^ 64) : elfAdd debug a b = .ok (a + b) :=
  if_pos h

theorem elfAdd_debug (h : 2 ^ 64 ≤ a + b) :
    elfAdd true a b = .error (.panic "attempt to add with overflow") := by
  unfold elfAdd
  rw [if_neg (Nat.not_lt.mpr h), if_pos rfl]

theorem checkEhdr_ok (hok : checkEhdr h = .ok ()) : h.ePhentsize = phdrSize ∧ h.ePhnum ≤ 8 := by
  unfold checkEhdr at hok
  repeat' split at hok
  all_goals first | cases hok; done | skip
  rename_i hsize hnum
  exact ⟨not_not.mp hsize, Nat.not_lt.mp hnum⟩

theorem checkEhdr_error {stop : ElfStop} (hstop : checkEhdr h = .error stop) :
    ∃ e, stop = .error e := by
  unfold checkEhdr at hstop
  repeat' split at hstop
  all_goals cases hstop
  all_goals exact ⟨_, rfl⟩

/-! ## The loop over the headers -/

/-- A loadable header adds its segment or is refused. -/
theorem addPhdr_run (segments : List LoadSegment) (p : Phdr) (hlen : data.length < 2 ^ 63) :
    (PhdrFits data p ∧ addPhdr data segments p = .ok (segments ++ (segmentOf p).toList)) ∨
    (¬ PhdrFits data p ∧ ∃ e, addPhdr data segments p = .error (.error e)) := by
  unfold addPhdr PhdrFits segmentOf
  by_cases htype : p.pType = 1
  · simp only [htype, ne_eq, not_true_eq_false, if_false, if_true,
      Option.some.injEq, forall_eq', Option.toList_some]
    split
    · exact .inr ⟨by omega, _, rfl⟩
    · split
      · exact .inr ⟨by omega, _, rfl⟩
      · split
        · exact .inr ⟨by omega, _, rfl⟩
        · exact .inl ⟨by omega, rfl⟩
  · simp [htype]

/-- One turn of the loop, where the header's end does not wrap. -/
theorem parsePhdr_run (segments : List LoadSegment) (i : Nat) (hlen : data.length < 2 ^ 63)
    (hsize : (readEhdr data).ePhentsize = phdrSize)
    (hend : phdrOffset (readEhdr data) i + phdrSize < 2 ^ 64) :
    ((phdrOffset (readEhdr data) i + phdrSize ≤ data.length ∧ PhdrFits data (phdrAt data i)) ∧
      parsePhdr debug data (readEhdr data) segments i =
        .ok (segments ++ (segmentOf (phdrAt data i)).toList)) ∨
    (¬ (phdrOffset (readEhdr data) i + phdrSize ≤ data.length ∧ PhdrFits data (phdrAt data i)) ∧
      ∃ e, parsePhdr debug data (readEhdr data) segments i = .error (.error e)) := by
  have hoff : elfAdd debug (readEhdr data).ePhoff (i * (readEhdr data).ePhentsize) =
      .ok (phdrOffset (readEhdr data) i) := by
    rw [hsize]
    exact elfAdd_ok debug (Nat.lt_of_le_of_lt (Nat.le_add_right _ _) hend)
  have hstop : elfAdd debug (phdrOffset (readEhdr data) i) phdrSize =
      .ok (phdrOffset (readEhdr data) i + phdrSize) := elfAdd_ok debug hend
  have hrun : parsePhdr debug data (readEhdr data) segments i =
      if phdrOffset (readEhdr data) i + phdrSize > data.length then
        .error (.error .invalidPhdrOffset)
      else addPhdr data segments (phdrAt data i) := by
    unfold parsePhdr
    rw [hoff]
    show (elfAdd debug (phdrOffset (readEhdr data) i) phdrSize >>= _) = _
    rw [hstop]
    show (if phdrOffset (readEhdr data) i + phdrSize > data.length then _ else _) = _
    split <;> rfl
  rw [hrun]
  by_cases hin : phdrOffset (readEhdr data) i + phdrSize > data.length
  · rw [if_pos hin]
    exact .inr ⟨fun h => absurd h.1 (Nat.not_le.mpr hin), _, rfl⟩
  · rw [if_neg hin]
    rcases addPhdr_run segments (phdrAt data i) hlen with ⟨hseg, hok⟩ | ⟨hseg, herr⟩
    · exact .inl ⟨⟨Nat.not_lt.mp hin, hseg⟩, hok⟩
    · exact .inr ⟨fun h => hseg h.2, herr⟩

theorem headersFit_succ : HeadersFit data (n + 1) ↔ HeadersFit data n ∧
    phdrOffset (readEhdr data) n + phdrSize ≤ data.length ∧ PhdrFits data (phdrAt data n) := by
  constructor
  · intro h
    exact ⟨fun i hi => h i (Nat.lt_succ_of_lt hi), h n (Nat.lt_succ_self n)⟩
  · intro h i hi
    rcases Nat.lt_succ_iff_lt_or_eq.mp hi with hi | rfl
    · exact h.1 i hi
    · exact h.2

/-- No header's end wraps if the first one's does not: a later one is looked at only
if the first one lies in the file. -/
theorem phdr_end_lt (hlen : data.length < 2 ^ 63) (hn : n < 8)
    (hfirst : (readEhdr data).ePhoff + phdrSize < 2 ^ 64) (hfit : HeadersFit data n) :
    phdrOffset (readEhdr data) n + phdrSize < 2 ^ 64 := by
  cases n with
  | zero => simpa [phdrOffset] using hfirst
  | succ n =>
    have h0 := (hfit 0 (Nat.succ_pos n)).1
    simp only [phdrOffset, phdrSize] at h0 ⊢
    omega

/-- The whole loop: it collects the segments, or stops at a header that does not
pass. -/
theorem parsePhdrs_run (n : Nat) (hn : n ≤ 8) (hlen : data.length < 2 ^ 63)
    (hsize : (readEhdr data).ePhentsize = phdrSize)
    (hfirst : n = 0 ∨ (readEhdr data).ePhoff + phdrSize < 2 ^ 64) :
    (HeadersFit data n ∧ (List.range n).foldlM (parsePhdr debug data (readEhdr data)) [] =
      .ok (segmentsOf data n)) ∨
    (¬ HeadersFit data n ∧ ∃ e, (List.range n).foldlM (parsePhdr debug data (readEhdr data)) [] =
        .error (.error e)) := by
  induction n with
  | zero => exact .inl ⟨fun i hi => absurd hi (Nat.not_lt_zero i), rfl⟩
  | succ n ih =>
    have hfirst' := hfirst.resolve_left (Nat.succ_ne_zero n)
    rw [List.range_succ, List.foldlM_append, headersFit_succ]
    rcases ih (by omega) (.inr hfirst') with ⟨hfit, hrun⟩ | ⟨hfit, e, hrun⟩
    · have hend := phdr_end_lt hlen (by omega) hfirst' hfit
      have hsegs : segmentsOf data (n + 1) = segmentsOf data n ++
          (segmentOf (phdrAt data n)).toList := by
        unfold segmentsOf
        rw [List.range_succ, List.filterMap_append, List.filterMap_cons, List.filterMap_nil]
        cases segmentOf (phdrAt data n) <;> rfl
      rw [hrun, hsegs]
      show _ ∧ [n].foldlM (parsePhdr debug data (readEhdr data)) (segmentsOf data n) = _ ∨
        _ ∧ ∃ e, [n].foldlM (parsePhdr debug data (readEhdr data)) (segmentsOf data n) = _
      rw [List.foldlM_cons]
      rcases parsePhdr_run debug (segmentsOf data n) n hlen hsize hend with
        ⟨hnow, hturn⟩ | ⟨hnow, e, hturn⟩
      · exact .inl ⟨⟨hfit, hnow⟩, by rw [hturn]; rfl⟩
      · exact .inr ⟨fun h => hnow h.2, e, by rw [hturn]; rfl⟩
    · exact .inr ⟨fun h => hfit h.1, e, by rw [hrun]; rfl⟩

/-! ## The whole file -/

/-- A file whose header does not pass is refused. -/
theorem parseElf_refused (hehdr : ¬ EhdrOk data) :
    ∃ e, parseElf debug data = .error (.error e) := by
  unfold parseElf
  split
  · exact ⟨_, rfl⟩
  · rename_i hsize
    cases hcheck : checkEhdr (readEhdr data) with
    | ok u => exact absurd ⟨Nat.not_lt.mp hsize, hcheck⟩ hehdr
    | error stop =>
      obtain ⟨e, rfl⟩ := checkEhdr_error hcheck
      exact ⟨e, by simp only [hcheck]; rfl⟩

/-- What is left to do once the file header has passed. -/
theorem parseElf_headers (hehdr : EhdrOk data) : parseElf debug data =
      (List.range (readEhdr data).ePhnum).foldlM (parsePhdr debug data (readEhdr data)) [] >>=
        fun segments => phdrAddrOf debug (readEhdr data) segments >>= fun phdrAddr =>
          .ok ⟨(readEhdr data).eEntry, segments, phdrAddr, (readEhdr data).ePhnum⟩ := by
  unfold parseElf
  rw [if_neg (Nat.not_lt.mpr hehdr.1)]
  simp only [hehdr.2]
  rfl

/-- The first header's end wraps: a debug build panics. -/
theorem parseElf_wraps (hehdr : EhdrOk data) (hnum : (readEhdr data).ePhnum ≠ 0)
    (hwrap : 2 ^ 64 ≤ (readEhdr data).ePhoff + phdrSize) :
    ∃ msg, parseElf true data = .error (.panic msg) := by
  obtain ⟨n, hn⟩ := Nat.exists_eq_succ_of_ne_zero hnum
  have hturn : parsePhdr true data (readEhdr data) [] 0 =
      .error (.panic "attempt to add with overflow") := by
    unfold parsePhdr
    rw [Nat.zero_mul]
    by_cases hoff : (readEhdr data).ePhoff + 0 < 2 ^ 64
    · simp only [elfAdd_ok true hoff, elfAdd_debug hwrap, bind, Except.bind, Nat.add_zero]
    · simp only [elfAdd_debug (Nat.not_lt.mp hoff), bind, Except.bind]
  refine ⟨"attempt to add with overflow", ?_⟩
  rw [parseElf_headers true hehdr, hn, List.range_succ_eq_map, List.foldlM_cons, hturn]
  rfl

/-- The address of the program headers is computed without overflow, or a debug
build panics. -/
theorem phdrAddrOf_run (h : Ehdr) (segments : List LoadSegment) :
    (∃ addr, phdrAddrOf debug h segments = .ok addr) ∨
      ∃ msg, phdrAddrOf debug h segments = .error (.panic msg) := by
  unfold phdrAddrOf elfAdd
  split
  · split
    · split
      · exact .inl ⟨_, rfl⟩
      · split
        · exact .inr ⟨_, rfl⟩
        · exact .inl ⟨_, rfl⟩
    · exact .inl ⟨_, rfl⟩
  · exact .inl ⟨_, rfl⟩

theorem phdrAddrOf_ok (h : Ehdr) {segments : List LoadSegment}
    (hfits : ∀ seg ∈ segments, seg.vaddr + seg.memSize + 4095 ≤ 2 ^ 64 - 1) :
    ∃ addr, phdrAddrOf debug h segments = .ok addr := by
  unfold phdrAddrOf
  cases segments with
  | nil => exact ⟨0, rfl⟩
  | cons seg rest =>
    have hseg := hfits seg List.mem_cons_self
    dsimp only
    split
    · exact ⟨_, elfAdd_ok debug (by omega)⟩
    · exact ⟨0, rfl⟩

theorem mem_segmentsOf {seg : LoadSegment} (hfit : HeadersFit data n)
    (hseg : seg ∈ segmentsOf data n) :
    seg.fileSize ≤ seg.memSize ∧ seg.fileOffset + seg.fileSize ≤ data.length := by
  obtain ⟨i, hi, hsome⟩ := List.mem_filterMap.mp hseg
  exact (hfit i (List.mem_range.mp hi)).2 seg hsome

/-- A file on which nothing wraps is accepted with segments that fit, or refused. -/
theorem parseElf_of_nothingWraps (hlen : data.length < 2 ^ 63) (h : NothingWraps data) :
    (∃ e, parseElf debug data = .error (.error e)) ∨
      ∃ info, parseElf debug data = .ok info ∧ ∀ seg ∈ info.loadSegments, seg.Fits data.length := by
  by_cases hehdr : EhdrOk data
  · obtain ⟨hfirst, hmem⟩ := h hehdr
    obtain ⟨hsize, hnum⟩ := checkEhdr_ok hehdr.2
    rw [parseElf_headers debug hehdr]
    rcases parsePhdrs_run debug _ hnum hlen hsize hfirst with ⟨hfit, hrun⟩ | ⟨-, e, hrun⟩
    · obtain ⟨addr, haddr⟩ := phdrAddrOf_ok debug (readEhdr data) (hmem hfit)
      refine .inr ⟨_, by rw [hrun]; show (phdrAddrOf _ _ _ >>= _) = _; rw [haddr]; rfl, ?_⟩
      intro seg hseg
      obtain ⟨hfile, hend⟩ := mem_segmentsOf hfit hseg
      exact ⟨hend, hfile, hmem hfit seg hseg⟩
    · exact .inl ⟨e, by rw [hrun]; rfl⟩
  · exact .inl (parseElf_refused debug hehdr)

end

/-- **Safety of parse_elf.** On a slice, which holds less than 2^63 bytes, `parse_elf`
is safe if and only if neither the end of the first program header nor, once all
headers pass, the page after a segment wraps around. -/
theorem parseElf_safe_iff (data : List Byte) (hlen : data.length < 2 ^ 63) :
    ParsesSafely data ↔ NothingWraps data := by
  constructor
  · intro hsafe hehdr
    obtain ⟨hsize, hnum⟩ := checkEhdr_ok hehdr.2
    have hfirst : (readEhdr data).ePhnum = 0 ∨ (readEhdr data).ePhoff + phdrSize < 2 ^ 64 := by
      by_contra hnot
      obtain ⟨hpos, hwrap⟩ := not_or.mp hnot
      obtain ⟨msg, hpanic⟩ := parseElf_wraps hehdr hpos (Nat.not_lt.mp hwrap)
      exact hsafe.noWrap msg hpanic
    refine ⟨hfirst, fun hfit seg hseg => ?_⟩
    rcases parsePhdrs_run true _ hnum hlen hsize hfirst with ⟨-, hrun⟩ | ⟨hnot, -⟩
    · have hparse := parseElf_headers true hehdr
      rw [hrun] at hparse
      -- a segment that wraps is either seen by a debug build or accepted
      rcases phdrAddrOf_run true (readEhdr data) (segmentsOf data (readEhdr data).ePhnum) with
        ⟨addr, haddr⟩ | ⟨msg, hpanic⟩
      · have hok : parseElf true data = .ok ⟨(readEhdr data).eEntry,
            segmentsOf data (readEhdr data).ePhnum, addr, (readEhdr data).ePhnum⟩ := by
          rw [hparse]
          show (phdrAddrOf _ _ _ >>= _) = _
          rw [haddr]
          rfl
        exact (hsafe.fits true _ hok seg hseg).2.2
      · refine absurd ?_ (hsafe.noWrap msg)
        rw [hparse]
        show (phdrAddrOf _ _ _ >>= _) = _
        rw [hpanic]
        rfl
    · exact absurd hfit hnot
  · intro hwraps
    refine ⟨?_, ?_, ?_⟩
    · intro msg hpanic
      rcases parseElf_of_nothingWraps true hlen hwraps with ⟨e, herr⟩ | ⟨info, hok, -⟩
      · rw [herr] at hpanic
        cases hpanic
      · rw [hok] at hpanic
        cases hpanic
    · intro debug hwild
      rcases parseElf_of_nothingWraps debug hlen hwraps with ⟨e, herr⟩ | ⟨info, hok, -⟩
      · rw [herr] at hwild
        cases hwild
      · rw [hok] at hwild
        cases hwild
    · intro debug info hparse seg hseg
      rcases parseElf_of_nothingWraps debug hlen hwraps with ⟨e, herr⟩ | ⟨info', hok, hfits⟩
      · rw [herr] at hparse
        cases hparse
      · rw [hok] at hparse
        cases hparse
        exact hfits seg hseg

/-! ## Files -/

/-- A file header with one program header at `phoff`. -/
def ehdrBytes (phoff : Nat) : List Byte :=
  [0x7f, 0x45, 0x4c, 0x46, 2, 1, 1] ++ List.replicate 9 0 ++
    fieldBytes 2 2 ++ fieldBytes 2 62 ++ fieldBytes 4 1 ++ fieldBytes 8 0x400000 ++
    fieldBytes 8 phoff ++ List.replicate 14 0 ++ fieldBytes 2 56 ++ fieldBytes 2 1 ++
    List.replicate 6 0

/-- A program header. -/
def phdrBytes (seg : LoadSegment) : List Byte :=
  fieldBytes 4 1 ++ fieldBytes 4 seg.flags ++ fieldBytes 8 seg.fileOffset ++
    fieldBytes 8 seg.vaddr ++
    fieldBytes 8 0 ++ fieldBytes 8 seg.fileSize ++ fieldBytes 8 seg.memSize ++ fieldBytes 8 4096

/-- A file with some segments. -/
def elfBytes (segs : List LoadSegment) (body : List Byte) : List Byte :=
  (ehdrBytes 64).set 56 (BitVec.ofNat 8 segs.length) ++ segs.flatMap phdrBytes ++ body

/-- Four bytes of the file over a page boundary, and two bytes more. -/
def acrossPages : LoadSegment := ⟨0x400ffe, 120, 4, 6, 5⟩

/-- What `parse_elf` reads of the file with this segment. -/
def acrossPagesInfo : ElfInfo := ⟨0x400000, [acrossPages], 0x40103e, 1⟩

def acrossPagesFile : List Byte := elfBytes [acrossPages] [1, 2, 3, 4]

theorem acrossPages_parsed : parseElf true acrossPagesFile = .ok acrossPagesInfo := by
  decide +kernel

theorem parseElf_safe_acrossPages :
    parseElf true acrossPagesFile = .ok acrossPagesInfo ∧ ParsesSafely acrossPagesFile := by
  refine ⟨acrossPages_parsed, (parseElf_safe_iff acrossPagesFile (by decide +kernel)).mpr ?_⟩
  intro _
  exact ⟨.inr (by decide +kernel), fun _ => by decide +kernel⟩

/-- The bounds check of a program header at 2^64 - 8 wraps: a release build reads
the header before the file, a debug build panics. -/
theorem header_read_outside : parseElf false (ehdrBytes (2 ^ 64 - 8)) = .error .wild ∧
      parseElf true (ehdrBytes (2 ^ 64 - 8)) = .error (.panic "attempt to add with overflow") ∧
      ¬ ParsesSafely (ehdrBytes (2 ^ 64 - 8)) := by
  have hwild : parseElf false (ehdrBytes (2 ^ 64 - 8)) = .error .wild := by decide +kernel
  refine ⟨hwild, by decide +kernel, ?_⟩
  intro hsafe
  exact hsafe.inside false hwild

end PandaOS.Kernel
