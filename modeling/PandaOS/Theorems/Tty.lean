import PandaOS.Kernel.Tty

/-!
# The line discipline

What a reader gets, however its reads fall between the inputs, is the stream of
committed lines. The terminal's state is described by what was typed and what was
read alone: the line being edited is the edited tail after the last newline, and
the queue holds the committed bytes that are still to be read.
-/

namespace PandaOS.Kernel

variable {b : Byte} {line : List Byte} {len : Nat} {s : TtySession}

/-! ## Editing -/

/-- The bytes typed since the last newline, edited. -/
def openLine (typed : List Byte) : List Byte :=
  ((typed.splitOnP isNewline).getLastD []).foldl editLine []

section

variable (typed : List Byte)
include typed

/-- A newline closes the line and opens an empty one. -/
theorem splitOnP_newline (hb : isNewline b = true) :
    (typed ++ [b]).splitOnP isNewline = typed.splitOnP isNewline ++ [[]] := by
  rw [List.splitOnP_append_cons typed [] hb]
  rfl

/-- Any other byte goes to the open line. -/
theorem splitOnP_other (hb : isNewline b = false) :
    ∃ front last, typed.splitOnP isNewline = front ++ [last] ∧
      (typed ++ [b]).splitOnP isNewline = front ++ [last ++ [b]] := by
  induction typed with
  | nil => exact ⟨[], [], rfl, by simp [List.splitOnP_cons_eq_if_modifyHead, hb]⟩
  | cons a typed ih =>
    obtain ⟨front, last, hbefore, hafter⟩ := ih
    rw [List.cons_append, List.splitOnP_cons_eq_if_modifyHead,
      List.splitOnP_cons_eq_if_modifyHead, hbefore, hafter]
    cases isNewline a with
    | true => exact ⟨[] :: front, last, rfl, rfl⟩
    | false =>
      cases front with
      | nil => exact ⟨[], a :: last, rfl, rfl⟩
      | cons first front => exact ⟨(a :: first) :: front, last, rfl, rfl⟩

theorem openLine_newline (hb : isNewline b = true) : openLine (typed ++ [b]) = [] := by
  unfold openLine
  rw [splitOnP_newline typed hb]
  simp

theorem openLine_other (hb : isNewline b = false) :
    openLine (typed ++ [b]) = editLine (openLine typed) b := by
  obtain ⟨front, last, hbefore, hafter⟩ := splitOnP_other typed hb
  unfold openLine
  rw [hbefore, hafter]
  simp

theorem committedLines_newline (hb : isNewline b = true) :
    committedLines (typed ++ [b]) = committedLines typed ++ [openLine typed ++ [lineFeed]] := by
  obtain ⟨front, last, hlines⟩ :=
    List.eq_nil_or_concat (typed.splitOnP isNewline) |>.resolve_left (List.splitOnP_ne_nil _ _)
  rw [List.concat_eq_append] at hlines
  unfold committedLines openLine
  rw [splitOnP_newline typed hb, hlines]
  simp

theorem committedLines_other (hb : isNewline b = false) :
    committedLines (typed ++ [b]) = committedLines typed := by
  obtain ⟨front, last, hbefore, hafter⟩ := splitOnP_other typed hb
  unfold committedLines
  rw [hbefore, hafter]
  simp

end

/-- Only printable bytes enter a line. -/
theorem lineFeed_notMem_editLine (hline : lineFeed ∉ line) (b : Byte) :
    lineFeed ∉ editLine line b := by
  unfold editLine
  split
  · simp
  · split
    · exact fun hmem => hline (List.mem_of_mem_dropLast hmem)
    · split
      · rename_i hprint
        intro hmem
        rcases List.mem_append.mp hmem with hmem | hmem
        · exact hline hmem
        · obtain rfl := List.mem_singleton.mp hmem
          exact absurd hprint.1 (by decide)
      · exact hline

/-! ## One step -/

namespace Tty

/-- A byte that is no newline is edited into the line. -/
theorem inputByte_other (t : Tty) (hb : isNewline b = false) :
    (t.inputByte b).1 = { t with currentLine := editLine t.currentLine b } := by
  unfold inputByte editLine
  by_cases hc : b = 0x03
  · rw [if_pos hc, if_pos (Or.inl hc)]
  · by_cases hz : b = 0x1A
    · rw [if_neg hc, if_pos hz, if_pos (Or.inr hz)]
    · rw [if_neg hc, if_neg hz, if_neg (not_or.mpr ⟨hc, hz⟩)]
      by_cases he : isErase b = true
      · rw [if_pos he, if_pos he]
        cases hline : t.currentLine with
        | nil =>
          show t = { t with currentLine := [] }
          rw [← hline]
        | cons a line => rfl
      · rw [if_neg he, if_neg he, hb]
        by_cases hp : isPrintable b = true ∧ t.currentLine.length < maxLineLen
        · rw [if_pos hp]
          simp [hp]
        · rw [if_neg hp]
          simp [hp]

/-- A newline commits the line. -/
theorem inputByte_newline (t : Tty) (hb : isNewline b = true) : (t.inputByte b).1 = { t with
        currentLine := []
        completedLines := t.completedLines ++ [t.currentLine ++ [lineFeed]] } := by
  have hbyte : b = 0x0A ∨ b = 0x0D := by simpa [isNewline] using hb
  rcases hbyte with rfl | rfl
  · rfl
  · rfl

/-- What is left of a committed line: its newline is its last byte and the only one. -/
def IsRest (line : List Byte) : Prop := ∃ body, line = body ++ [lineFeed] ∧ lineFeed ∉ body

theorem IsRest.ne_nil (h : IsRest line) : line ≠ [] := by
  obtain ⟨body, rfl, -⟩ := h
  simp

/-- A reader with room for the line takes the line and no more. -/
theorem readLoop_whole (h : IsRest line) (rest : List (List Byte)) (hlen : line.length ≤ len) :
    readLoop len (line :: rest) [] = (line, rest) := by
  obtain ⟨body, rfl, -⟩ := h
  have hroom : ¬len ≤ ([] : List Byte).length := by
    simp only [List.length_append, List.length_singleton] at hlen
    simp only [List.length_nil]
    omega
  have hcopy : min (len - ([] : List Byte).length) (body ++ [lineFeed]).length =
      (body ++ [lineFeed]).length := by
    simpa using hlen
  unfold readLoop
  simp only [if_neg hroom, hcopy, List.take_length, List.drop_length, List.nil_append]
  simp

/-- A reader with less room fills its buffer from the line, and leaves the rest. -/
theorem readLoop_part (rest : List (List Byte)) (hpos : 0 < len) (hlen : len < line.length) :
    readLoop len (line :: rest) [] = (line.take len, line.drop len :: rest) := by
  have hroom : ¬len ≤ ([] : List Byte).length := by
    simp only [List.length_nil]
    omega
  have hcopy : min (len - ([] : List Byte).length) line.length = len := by
    simp only [List.length_nil, Nat.sub_zero]
    omega
  have hleft : (line.drop len).isEmpty = false := by
    simpa using hlen
  unfold readLoop
  simp only [if_neg hroom, hcopy, List.nil_append, hleft]
  simp

/-- A part of a line that leaves some of it has no newline. -/
theorem IsRest.split (h : IsRest line) (hlen : len < line.length) :
    lineFeed ∉ line.take len ∧ IsRest (line.drop len) := by
  obtain ⟨body, rfl, hbody⟩ := h
  simp only [List.length_append, List.length_singleton] at hlen
  rw [List.take_append_of_le_length (by omega), List.drop_append_of_le_length (by omega)]
  refine ⟨fun hmem => hbody (List.mem_of_mem_take hmem), body.drop len, rfl, ?_⟩
  exact fun hmem => hbody (List.mem_of_mem_drop hmem)

/-- What one read does to a queue of committed lines. -/
structure Reads (lines : List (List Byte)) (len : Nat) (bytes : List Byte)
    (left : List (List Byte)) : Prop where
  split : bytes ++ left.flatten = lines.flatten
  short : bytes.length ≤ len
  one_line : lineFeed ∉ bytes.dropLast
  rests : ∀ line ∈ left, IsRest line
  empty_iff : bytes = [] ↔ lines.flatten = []

theorem reads_readLoop {lines : List (List Byte)} (hlines : ∀ line ∈ lines, IsRest line)
    (hpos : 0 < len) : Reads lines len (readLoop len lines []).1 (readLoop len lines []).2 := by
  cases lines with
  | nil => exact ⟨rfl, Nat.zero_le _, by simp [readLoop], by simp [readLoop], by simp [readLoop]⟩
  | cons line rest =>
    have hline := hlines line (by simp)
    have hrest : ∀ l ∈ rest, IsRest l := fun l hl => hlines l (by simp [hl])
    have hne := hline.ne_nil
    by_cases hlen : line.length ≤ len
    · rw [readLoop_whole hline rest hlen]
      refine ⟨rfl, hlen, ?_, hrest, by simp [hne]⟩
      obtain ⟨body, rfl, hbody⟩ := hline
      simpa using hbody
    · have hlt : len < line.length := by omega
      obtain ⟨hpart, hleft⟩ := hline.split hlt
      rw [readLoop_part rest hpos hlt]
      refine ⟨?_, ?_, ?_, ?_, ?_⟩
      · rw [List.flatten_cons, List.flatten_cons, ← List.append_assoc, List.take_append_drop]
      · rw [List.length_take]
        omega
      · exact fun hmem => hpart (List.mem_of_mem_dropLast hmem)
      · intro l hl
        rcases List.mem_cons.mp hl with rfl | hl
        · exact hleft
        · exact hrest l hl
      · simp [hne, Nat.pos_iff_ne_zero.mp hpos]

end Tty

/-! ## Runs -/

namespace TtySession

/-- The terminal as its history determines it. -/
structure InStep (s : TtySession) : Prop where
  current : s.tty.currentLine = openLine s.typed
  clean : lineFeed ∉ s.tty.currentLine
  pending : s.returned ++ s.tty.completedLines.flatten = s.committed
  rests : ∀ line ∈ s.tty.completedLines, Tty.IsRest line

theorem InStep.input (h : InStep s) (b : Byte) : InStep (s.step (.input b)) := by
  cases hb : isNewline b with
  | true =>
    have htty := Tty.inputByte_newline s.tty hb
    refine ⟨?_, ?_, ?_, ?_⟩
    · show (s.tty.inputByte b).1.currentLine = openLine (s.typed ++ [b])
      rw [htty, openLine_newline s.typed hb]
    · show lineFeed ∉ (s.tty.inputByte b).1.currentLine
      rw [htty]
      simp
    · show s.returned ++ (s.tty.inputByte b).1.completedLines.flatten =
          (committedLines (s.typed ++ [b])).flatten
      rw [htty, committedLines_newline s.typed hb, ← h.current, List.flatten_append,
        List.flatten_append, ← List.append_assoc, h.pending]
      rfl
    · show ∀ line ∈ (s.tty.inputByte b).1.completedLines, Tty.IsRest line
      rw [htty]
      intro line hline
      rcases List.mem_append.mp hline with hline | hline
      · exact h.rests line hline
      · obtain rfl := List.mem_singleton.mp hline
        exact ⟨s.tty.currentLine, rfl, h.clean⟩
  | false =>
    have htty := Tty.inputByte_other s.tty hb
    refine ⟨?_, ?_, ?_, ?_⟩
    · show (s.tty.inputByte b).1.currentLine = openLine (s.typed ++ [b])
      rw [htty, openLine_other s.typed hb, h.current]
    · show lineFeed ∉ (s.tty.inputByte b).1.currentLine
      rw [htty]
      exact lineFeed_notMem_editLine h.clean b
    · show s.returned ++ (s.tty.inputByte b).1.completedLines.flatten =
          (committedLines (s.typed ++ [b])).flatten
      rw [htty, committedLines_other s.typed hb]
      exact h.pending
    · show ∀ line ∈ (s.tty.inputByte b).1.completedLines, Tty.IsRest line
      rw [htty]
      exact h.rests

/-- One read returns bytes that the queue held. -/
theorem InStep.reads (h : InStep s) (hpos : 0 < len) :
    Tty.Reads s.tty.completedLines len ((s.tty.read len).1.getD [])
      (s.tty.read len).2.completedLines := by
  have hreads := Tty.reads_readLoop h.rests hpos
  unfold Tty.read
  rw [if_neg (by omega)]
  cases hbytes : (Tty.readLoop len s.tty.completedLines []).1 with
  | nil => simpa [hbytes] using hreads
  | cons b bytes => simpa [hbytes] using hreads

theorem InStep.read (h : InStep s) (len : Nat) : InStep (s.step (.read len)) := by
  cases len with
  | zero => exact { h with pending := by simpa [step, Tty.read] using h.pending }
  | succ len =>
    have hreads := h.reads (Nat.succ_pos len)
    have hcurrent : (s.tty.read (len + 1)).2.currentLine = s.tty.currentLine := rfl
    refine ⟨?_, ?_, ?_, hreads.rests⟩
    · show (s.tty.read (len + 1)).2.currentLine = openLine s.typed
      rw [hcurrent, h.current]
    · show lineFeed ∉ (s.tty.read (len + 1)).2.currentLine
      rw [hcurrent]
      exact h.clean
    · show s.returned ++ (s.tty.read (len + 1)).1.getD [] ++
        (s.tty.read (len + 1)).2.completedLines.flatten = (committedLines s.typed).flatten
      rw [List.append_assoc, hreads.split]
      exact h.pending

theorem inStep_run (events : List Event) : InStep (run events) := by
  suffices hfrom : ∀ s, InStep s → InStep (events.foldl step s) from
    hfrom start ⟨rfl, by simp [start, Tty.new], rfl, by simp [start, Tty.new]⟩
  induction events with
  | nil => exact fun s h => h
  | cons event rest ih =>
    intro s h
    apply ih
    cases event with
    | input b => exact h.input b
    | read len => exact h.read len

/-- For every sequence of input bytes and reads. -/
theorem tty_line_discipline (events : List Event) : Disciplined (run events) := by
  have h := inStep_run events
  have hsplit : (run events).returned <+: (run events).committed := ⟨_, h.pending⟩
  refine ⟨hsplit, ?_, ?_⟩
  · intro len bytes hread
    cases len with
    | zero =>
      obtain rfl : [] = bytes := by simpa [Tty.read] using hread
      exact ⟨by simpa using hsplit, Nat.le_refl _, by simp⟩
    | succ len =>
      have hreads := h.reads (Nat.succ_pos len)
      rw [hread, Option.getD_some] at hreads
      refine ⟨⟨((run events).tty.read (len + 1)).2.completedLines.flatten, ?_⟩,
        hreads.short, hreads.one_line⟩
      rw [List.append_assoc, hreads.split]
      exact h.pending
  · intro len hpos
    have hreads := h.reads hpos
    have hpending := h.pending
    have hnone : ((run events).tty.read len).1 = none ↔
        (run events).tty.completedLines.flatten = [] := by
      rw [← hreads.empty_iff]
      unfold Tty.read
      rw [if_neg (by omega)]
      by_cases hbytes : (Tty.readLoop len (run events).tty.completedLines []).1 = []
      · simp [hbytes]
      · simp [hbytes]
    rw [hnone, ← hpending]
    simp

example :
    (run [.input 0x68, .input 0x69, .input 0x08, .input 0x61, .input 0x0D, .read 2, .input 0x62,
    .read 9]).returned = [0x68, 0x61, 0x0A] := by decide

end TtySession

end PandaOS.Kernel
