import PandaOS.Kernel.Process

/-!
# The terminal

`tty.rs`: the line editor between the serial device and `read` on the standard
input. Bytes are edited into the current line; a newline commits it. Readers
drain the committed lines, and a line that does not fit a reader's buffer stays
at the front of the queue without the bytes already read.
-/

namespace PandaOS.Kernel

/-- `MAX_LINE_LEN`. -/
def maxLineLen : Nat := 256

structure Tty where
  /-- The line being edited. -/
  currentLine : List Byte
  /-- The committed lines, or what is left of them, oldest first. -/
  completedLines : List (List Byte)
  echo : Bool
  deriving DecidableEq, Repr

inductive TtyAction
  | none | lineReady | sendSignal | sendStopSignal
  deriving DecidableEq, Repr

/-- `b'\n'`. -/
def lineFeed : Byte := 0x0A

/-- LF or CR. -/
def isNewline (b : Byte) : Bool := b = 0x0A || b = 0x0D

/-- BS or DEL. -/
def isErase (b : Byte) : Bool := b = 0x08 || b = 0x7F

/-- Printable ASCII. -/
def isPrintable (b : Byte) : Bool := 0x20 ≤ b.toNat && b.toNat ≤ 0x7E

namespace Tty

def new : Tty := ⟨[], [], true⟩

/-- Bytes that go to the serial device if echo is on. -/
def echoed (t : Tty) (bytes : List Byte) : List Byte := if t.echo then bytes else []

/-- `input_byte`: the terminal after it, the bytes echoed and the action. -/
def inputByte (t : Tty) (b : Byte) : Tty × List Byte × TtyAction :=
  if b = 0x03 then
    ({ t with currentLine := [] }, t.echoed [0x5E, 0x43, 0x0D, 0x0A], .sendSignal)
  else if b = 0x1A then
    ({ t with currentLine := [] }, t.echoed [0x5E, 0x5A, 0x0D, 0x0A], .sendStopSignal)
  else if isErase b then
    if t.currentLine.isEmpty then (t, [], .none)
    else ({ t with currentLine := t.currentLine.dropLast }, t.echoed [0x08, 0x20, 0x08], .none)
  else if isNewline b then
    ({ t with
        currentLine := []
        completedLines := t.completedLines ++ [t.currentLine ++ [lineFeed]] },
      t.echoed [0x0D, 0x0A], .lineReady)
  else if isPrintable b && decide (t.currentLine.length < maxLineLen) then
    ({ t with currentLine := t.currentLine ++ [b] }, t.echoed [b], .none)
  else (t, [], .none)

/-- The loop of `read` into a buffer of `len` bytes, of which `done` are filled:
the bytes read and the lines left. -/
def readLoop (len : Nat) : List (List Byte) → List Byte → List Byte × List (List Byte)
  | [], done => (done, [])
  | line :: rest, done =>
    if len ≤ done.length then (done, line :: rest)
    else
      let toCopy := min (len - done.length) line.length
      let done := done ++ line.take toCopy
      let left := line.drop toCopy
      if done.getLast? = some lineFeed then (done, if left.isEmpty then rest else left :: rest)
      else if left.isEmpty then readLoop len rest done
      -- part of the line is left, so the buffer is full and the loop ends
      else (done, left :: rest)

/-- `read` into a buffer of `len` bytes: the bytes read, or `none` if there are
none, and the terminal after it. -/
def read (t : Tty) (len : Nat) : Option (List Byte) × Tty :=
  if len = 0 then (some [], t)
  else
    let r := readLoop len t.completedLines []
    (if r.1.isEmpty then none else some r.1, { t with completedLines := r.2 })

end Tty

/-! ## What the line discipline promises -/

/-- One byte edited into a line. -/
def editLine (line : List Byte) (b : Byte) : List Byte :=
  if b = 0x03 ∨ b = 0x1A then []
  else if isErase b then line.dropLast
  else if isPrintable b ∧ line.length < maxLineLen then line ++ [b]
  else line

/-- The lines committed by what was typed: the bytes before each newline, edited
in order, and a newline. What follows the last newline is not committed. -/
def committedLines (typed : List Byte) : List (List Byte) :=
  (typed.splitOnP isNewline).dropLast.map fun bytes => bytes.foldl editLine [] ++ [lineFeed]

/-- The terminal with a history of its inputs and of the bytes read from it. -/
structure TtySession where
  tty : Tty
  typed : List Byte
  returned : List Byte
  deriving DecidableEq, Repr

namespace TtySession

inductive Event
  | input (b : Byte)
  | read (len : Nat)
  deriving DecidableEq, Repr

def start : TtySession := ⟨Tty.new, [], []⟩

def step (s : TtySession) : Event → TtySession
  | .input b => { s with tty := (s.tty.inputByte b).1, typed := s.typed ++ [b] }
  | .read len =>
    { s with tty := (s.tty.read len).2, returned := s.returned ++ (s.tty.read len).1.getD [] }

def run (events : List Event) : TtySession := events.foldl step start

/-- The bytes committed so far, in order. -/
def committed (s : TtySession) : List Byte := (committedLines s.typed).flatten

/-- What readers see of the line discipline. -/
structure Disciplined (s : TtySession) : Prop where
  /-- The bytes read so far are the first of the committed bytes. -/
  prefix_committed : s.returned <+: s.committed
  /-- So are the next bytes read, which are not more than the buffer holds and go
  no further than the first newline. -/
  next_read : ∀ len bytes, (s.tty.read len).1 = some bytes →
    s.returned ++ bytes <+: s.committed ∧ bytes.length ≤ len ∧ lineFeed ∉ bytes.dropLast
  /-- There is nothing to read exactly if every committed byte was read. -/
  none_iff : ∀ len, 0 < len → ((s.tty.read len).1 = none ↔ s.returned = s.committed)

end TtySession

end PandaOS.Kernel
