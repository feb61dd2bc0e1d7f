import PandaOS.Kernel.Syscall
import PandaOS.Lib.Ring
import PandaOS.Lib.TSys

/-!
# Pipes

`pipe.rs`: a pipe is a ring of 4096 bytes with a count of open read ends and of
open write ends, and the pool has sixteen of them. A slot is in use while one
of its counts is not zero; nothing is reset when it is taken again.

Methods that take `&mut self` and return a `Result` are state programs over the
record they change.
-/

namespace PandaOS.Kernel

open Lib

/-- `PIPE_BUFFER_SIZE`. -/
def pipeBufferSize : Nat := 4096

/-- `MAX_PIPES`. -/
def maxPipes : Nat := 16

/-- `usize::MAX`, where `saturating_add` stops. -/
def usizeMax : Nat := 2 ^ 64 - 1

def saturatingSucc (n : Nat) : Nat := min (n + 1) usizeMax

/-- One pipe (`Pipe`). -/
structure Pipe where
  buffer : Nat → Byte
  readPos : Nat
  writePos : Nat
  count : Nat
  readRefcount : Nat
  writeRefcount : Nat

namespace Pipe

def new : Pipe where
  buffer _ := 0
  readPos := 0
  writePos := 0
  count := 0
  readRefcount := 0
  writeRefcount := 0

def isAllocated (p : Pipe) : Bool := 0 < p.readRefcount || 0 < p.writeRefcount

def isEmpty (p : Pipe) : Bool := p.count == 0

def isFull (p : Pipe) : Bool := p.count == pipeBufferSize

def openRead (p : Pipe) : Pipe := { p with readRefcount := saturatingSucc p.readRefcount }

def openWrite (p : Pipe) : Pipe := { p with writeRefcount := saturatingSucc p.writeRefcount }

def closeRead (p : Pipe) : Pipe := { p with readRefcount := p.readRefcount - 1 }

def closeWrite (p : Pipe) : Pipe := { p with writeRefcount := p.writeRefcount - 1 }

/-- `Pipe::write`: the number of bytes taken from `data`. -/
def write (data : List Byte) : EStateM ErrorCode Pipe Nat := do
  let p ← get
  if p.readRefcount = 0 then throw .epipe
  else if p.isFull then throw .eagain
  else
    let toWrite := min data.length (pipeBufferSize - p.count)
    let stored := Ring.putAll pipeBufferSize p.buffer p.writePos (data.take toWrite)
    set { p with buffer := stored.1, writePos := stored.2, count := p.count + toWrite }
    return toWrite

/-- `Pipe::read`: the number of bytes read and the caller's buffer afterwards. -/
def read (buf : List Byte) : EStateM ErrorCode Pipe (Nat × List Byte) := do
  let p ← get
  if p.writeRefcount = 0 ∧ p.isEmpty then return (0, buf)
  else if p.isEmpty then throw .eagain
  else
    let toRead := min buf.length p.count
    let loaded := Ring.takeAll pipeBufferSize p.buffer toRead p.readPos
    set { p with readPos := loaded.2, count := p.count - toRead }
    return (toRead, loaded.1 ++ buf.drop toRead)

end Pipe

/-- An index into the pool (`PipeId`). -/
abbrev PipeId := Nat

/-- The pool (`PipePool`); only the first sixteen slots exist. -/
structure PipePool where
  pipes : PipeId → Pipe

namespace PipePool

def new : PipePool := ⟨fun _ => Pipe.new⟩

/-- Store the pipe of one slot. -/
def setPipe (pool : PipePool) (id : PipeId) (p : Pipe) : PipePool :=
  ⟨fun i => if i = id then p else pool.pipes i⟩

/-- The first slot that is not allocated. -/
def firstFree (pool : PipePool) : Option PipeId :=
  (List.range maxPipes).find? fun i => !(pool.pipes i).isAllocated

/-- `allocate`: open both ends of the first free slot. -/
def allocate : EStateM ErrorCode PipePool PipeId := do
  let pool ← get
  match pool.firstFree with
  | some i =>
    set (pool.setPipe i (pool.pipes i).openRead.openWrite)
    return i
  | none => throw .emfile

/-- `get`. -/
def get? (pool : PipePool) (id : PipeId) : Option Pipe :=
  if id < maxPipes ∧ (pool.pipes id).isAllocated then some (pool.pipes id) else none

/-- Run a method of the pipe `get` finds, or fail with `EBADF`. -/
def withPipe (id : PipeId) (x : EStateM ErrorCode Pipe α) : EStateM ErrorCode PipePool α :=
  fun pool =>
    match pool.get? id with
    | none => .error .ebadf pool
    | some p =>
      match x.run p with
      | .ok a p' => .ok a (pool.setPipe id p')
      | .error e p' => .error e (pool.setPipe id p')

def openReadEnd (id : PipeId) : EStateM ErrorCode PipePool Unit :=
  withPipe id (modify Pipe.openRead)

def openWriteEnd (id : PipeId) : EStateM ErrorCode PipePool Unit :=
  withPipe id (modify Pipe.openWrite)

def closeReadEnd (id : PipeId) : EStateM ErrorCode PipePool Unit :=
  withPipe id (modify Pipe.closeRead)

def closeWriteEnd (id : PipeId) : EStateM ErrorCode PipePool Unit :=
  withPipe id (modify Pipe.closeWrite)

def write (id : PipeId) (data : List Byte) : EStateM ErrorCode PipePool Nat :=
  withPipe id (Pipe.write data)

def read (id : PipeId) (buf : List Byte) : EStateM ErrorCode PipePool (Nat × List Byte) :=
  withPipe id (Pipe.read buf)

/-- `pipe_create`: the read end and the write end. -/
def pipeCreate : EStateM ErrorCode PipePool (PipeId × PipeId) := do
  let id ← allocate
  return (id, id)

end PipePool

/-! ## Histories

Runs of one pipe and of the pool, with the bytes that went in and out kept
beside them. Nothing the code does reads these.
-/

/-- The calls on one pipe. -/
inductive PipeOp
  | openRead
  | openWrite
  | closeRead
  | closeWrite
  | write (data : List Byte)
  | read (buf : List Byte)

/-- A pipe, the bytes its writes accepted and the bytes its reads returned. -/
structure PipeLog where
  pipe : Pipe
  accepted : List Byte
  delivered : List Byte

namespace PipeLog

def start : PipeLog := ⟨Pipe.new, [], []⟩

def step (l : PipeLog) : PipeOp → PipeLog
  | .openRead => { l with pipe := l.pipe.openRead }
  | .openWrite => { l with pipe := l.pipe.openWrite }
  | .closeRead => { l with pipe := l.pipe.closeRead }
  | .closeWrite => { l with pipe := l.pipe.closeWrite }
  | .write data =>
    match (Pipe.write data).run l.pipe with
    | .ok n p => { l with pipe := p, accepted := l.accepted ++ data.take n }
    | .error _ p => { l with pipe := p }
  | .read buf =>
    match (Pipe.read buf).run l.pipe with
    | .ok (n, buf') p => { l with pipe := p, delivered := l.delivered ++ buf'.take n }
    | .error _ p => { l with pipe := p }

def run (ops : List PipeOp) : PipeLog := ops.foldl step start

end PipeLog

/-- The calls on the pool. -/
inductive PoolOp
  | create
  | openRead (id : PipeId)
  | openWrite (id : PipeId)
  | closeRead (id : PipeId)
  | closeWrite (id : PipeId)
  | write (id : PipeId) (data : List Byte)
  | read (id : PipeId) (buf : List Byte)

/-- The pool, and for every slot the bytes accepted and returned since the last
`pipe_create` that returned it. -/
structure PoolLog where
  pool : PipePool
  accepted : PipeId → List Byte
  delivered : PipeId → List Byte

namespace PoolLog

def start : PoolLog := ⟨PipePool.new, fun _ => [], fun _ => []⟩

/-- `f` with the list at `id` replaced. -/
def setAt (f : PipeId → List Byte) (id : PipeId) (bytes : List Byte) : PipeId → List Byte :=
  fun i => if i = id then bytes else f i

/-- The pool a call leaves, whatever its outcome. -/
def after (x : EStateM ErrorCode PipePool α) (pool : PipePool) : PipePool :=
  match x.run pool with
  | .ok _ pool' => pool'
  | .error _ pool' => pool'

def step (l : PoolLog) : PoolOp → PoolLog
  | .create =>
    match PipePool.pipeCreate.run l.pool with
    | .ok (id, _) pool =>
      { pool := pool, accepted := setAt l.accepted id [], delivered := setAt l.delivered id [] }
    | .error _ pool => { l with pool := pool }
  | .openRead id => { l with pool := after (PipePool.openReadEnd id) l.pool }
  | .openWrite id => { l with pool := after (PipePool.openWriteEnd id) l.pool }
  | .closeRead id => { l with pool := after (PipePool.closeReadEnd id) l.pool }
  | .closeWrite id => { l with pool := after (PipePool.closeWriteEnd id) l.pool }
  | .write id data =>
    match (PipePool.write id data).run l.pool with
    | .ok n pool =>
      { l with pool := pool, accepted := setAt l.accepted id (l.accepted id ++ data.take n) }
    | .error _ pool => { l with pool := pool }
  | .read id buf =>
    match (PipePool.read id buf).run l.pool with
    | .ok (n, buf') pool =>
      { l with pool := pool, delivered := setAt l.delivered id (l.delivered id ++ buf'.take n) }
    | .error _ pool => { l with pool := pool }

/-- What reads returned was written, in this order, to the pipe as it was last
created. -/
def Isolated (l : PoolLog) : Prop := ∀ id, l.delivered id <+: l.accepted id

/-- A `pipe_create` that succeeds takes a slot with nothing left in it. -/
def TakesEmpty (l : PoolLog) : PoolOp → Prop
  | .create => ∀ id, l.pool.firstFree = some id → (l.pool.pipes id).count = 0
  | _ => True

/-- Runs of the pool whose calls all satisfy `P`. -/
def runs (P : PoolLog → PoolOp → Prop) : TSys PoolLog where
  init l := l = start
  step l l' := ∃ op, P l op ∧ l' = l.step op

end PoolLog

end PandaOS.Kernel
