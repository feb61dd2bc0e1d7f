import PandaOS.Kernel.Pipe
import PandaOS.Lib.Run

/-!
# Pipes as queues

The bytes of a pipe in order (`contents`) are the window of its ring from the
read position on. A write appends to them and a read takes from their front,
so one pipe is a bounded queue (`pipe_bounded_fifo`).

The pool recycles its slots without clearing them. Bytes left by the last user
of a slot are delivered to the next one (`recycled_slot_delivers`); as long as
slots are empty when they are taken again, every pipe is a queue of its own
(`pipes_isolated`).
-/

namespace PandaOS.Kernel

open Lib Ring

namespace Pipe

variable {p : Pipe}

/-- The bytes in the pipe, oldest first. -/
def contents (p : Pipe) : List Byte := window pipeBufferSize p.buffer p.readPos p.count

/-- The positions and the count fit together. -/
structure Ok (p : Pipe) : Prop where
  readPos_lt : p.readPos < pipeBufferSize
  count_le : p.count ≤ pipeBufferSize
  writePos_eq : p.writePos = (p.readPos + p.count) % pipeBufferSize

theorem new_ok : new.Ok := by
  constructor <;> decide

@[simp] theorem length_contents (p : Pipe) : p.contents.length = p.count := length_window _ _ _

section

variable (h : p.Ok)
include h

/-- What a write does: fail without a reader, fail when full, or append what
fits. -/
theorem write_cases (data : List Byte) : (p.readRefcount = 0 ∧ Throws (write data) p .epipe p) ∨
      (p.readRefcount ≠ 0 ∧ p.count = pipeBufferSize ∧ Throws (write data) p .eagain p) ∨
        (p.readRefcount ≠ 0 ∧ p.count ≠ pipeBufferSize ∧
          ∃ p', Returns (write data) p (min data.length (pipeBufferSize - p.count)) p' ∧
            p'.Ok ∧ p'.contents =
              p.contents ++ data.take (min data.length (pipeBufferSize - p.count))) := by
  have hcount := h.count_le
  by_cases hreaders : p.readRefcount = 0
  · exact .inl ⟨hreaders, by simp [write, hreaders]⟩
  by_cases hfull : p.count = pipeBufferSize
  · exact .inr (.inl ⟨hreaders, hfull, by simp [write, hreaders, isFull, hfull]⟩)
  refine .inr (.inr ⟨hreaders, hfull, ?_⟩)
  generalize hn : min data.length (pipeBufferSize - p.count) = n
  have hlen : (data.take n).length = n := by rw [List.length_take]; omega
  obtain ⟨hwin, hpos⟩ := window_putAll (n := pipeBufferSize) (data.take n) p.buffer
    (r := p.readPos) (k := p.count) (by omega)
  rw [← h.writePos_eq, hlen] at hwin hpos
  let stored := putAll pipeBufferSize p.buffer p.writePos (data.take n)
  refine ⟨{ p with buffer := stored.1, writePos := stored.2, count := p.count + n },
    by simp [write, hreaders, isFull, hfull, hn, stored], ⟨h.readPos_lt, ?_, hpos⟩, hwin⟩
  show p.count + n ≤ pipeBufferSize
  omega

/-- What a read into a buffer of `len` bytes does: report the end of the data,
fail when empty, or take from the front. -/
theorem read_cases (buf : List Byte) :
    (p.count = 0 ∧ p.writeRefcount = 0 ∧ Returns (read buf) p (0, buf) p) ∨
      (p.count = 0 ∧ p.writeRefcount ≠ 0 ∧ Throws (read buf) p .eagain p) ∨
        (p.count ≠ 0 ∧ ∃ bytes p', Returns (read buf) p
            (min buf.length p.count, bytes ++ buf.drop (min buf.length p.count)) p' ∧ p'.Ok ∧
          bytes.length = min buf.length p.count ∧ p.contents = bytes ++ p'.contents) := by
  by_cases hempty : p.count = 0
  · by_cases hwriters : p.writeRefcount = 0
    · exact .inl ⟨hempty, hwriters, by simp [read, isEmpty, hempty, hwriters]⟩
    · exact .inr (.inl ⟨hempty, hwriters, by simp [read, isEmpty, hempty, hwriters]⟩)
  refine .inr (.inr ⟨hempty, ?_⟩)
  generalize hn : min buf.length p.count = n
  have hcount := h.count_le
  have hload := takeAll_eq p.buffer n h.readPos_lt
  refine ⟨window pipeBufferSize p.buffer p.readPos n,
    { p with readPos := (p.readPos + n) % pipeBufferSize, count := p.count - n },
    by simp [read, isEmpty, hempty, hn, hload], ⟨?_, ?_, ?_⟩, length_window _ _ _, ?_⟩
  · exact Nat.mod_lt _ (by decide)
  · show p.count - n ≤ pipeBufferSize
    omega
  · show p.writePos = ((p.readPos + n) % pipeBufferSize + (p.count - n)) % pipeBufferSize
    rw [Nat.mod_add_mod, h.writePos_eq]
    congr 1
    omega
  · have hsplit : p.count = n + (p.count - n) := by omega
    unfold contents
    nth_rewrite 1 [hsplit]
    exact window_add _ _ _ _

/-- A read into a buffer that is not empty returns 0 at the end of the data only. -/
theorem read_zero (b : Byte) (buf : List Byte) :
    (∃ buf' p', Returns (read (b :: buf)) p (0, buf') p') ↔ p.count = 0 ∧ p.writeRefcount = 0 := by
  rcases read_cases h (b :: buf) with ⟨hc, hw, hr⟩ | ⟨hc, hw, hr⟩ | ⟨hc, bytes, p', hr, -⟩
  · exact iff_of_true ⟨b :: buf, p, hr⟩ ⟨hc, hw⟩
  · exact iff_of_false (fun ⟨_, _, hr'⟩ => not_returns_of_throws hr hr') fun hcw => hw hcw.2
  · refine iff_of_false ?_ fun hcw => hc hcw.1
    rintro ⟨buf', q, hr'⟩
    have hzero := (Prod.mk.inj (hr.unique hr').1).1
    rw [List.length_cons] at hzero
    omega

theorem read_eagain (buf : List Byte) :
    (∃ p', Throws (read buf) p .eagain p') ↔ p.count = 0 ∧ p.writeRefcount ≠ 0 := by
  rcases read_cases h buf with ⟨hc, hw, hr⟩ | ⟨hc, hw, hr⟩ | ⟨hc, bytes, p', hr, -⟩
  · exact iff_of_false (fun ⟨_, ht⟩ => not_returns_of_throws ht hr) fun hcw => hcw.2 hw
  · exact iff_of_true ⟨p, hr⟩ ⟨hc, hw⟩
  · exact iff_of_false (fun ⟨_, ht⟩ => not_returns_of_throws ht hr) fun hcw => hc hcw.1

theorem write_epipe (data : List Byte) : (∃ p', Throws (write data) p .epipe p') ↔
    p.readRefcount = 0 := by
  rcases write_cases h data with ⟨hr, hw⟩ | ⟨hr, hc, hw⟩ | ⟨hr, hc, p', hw, -⟩
  · exact iff_of_true ⟨p, hw⟩ hr
  · refine iff_of_false ?_ hr
    rintro ⟨q, hw'⟩
    cases (hw.unique hw').1
  · exact iff_of_false (fun ⟨_, ht⟩ => not_returns_of_throws ht hw) hr

theorem write_eagain (data : List Byte) :
    (∃ p', Throws (write data) p .eagain p') ↔ p.readRefcount ≠ 0 ∧ p.count = pipeBufferSize := by
  rcases write_cases h data with ⟨hr, hw⟩ | ⟨hr, hc, hw⟩ | ⟨hr, hc, p', hw, -⟩
  · refine iff_of_false ?_ fun hrc => hrc.1 hr
    rintro ⟨q, hw'⟩
    cases (hw.unique hw').1
  · exact iff_of_true ⟨p, hw⟩ ⟨hr, hc⟩
  · exact iff_of_false (fun ⟨_, ht⟩ => not_returns_of_throws ht hw) fun hrc => hc hrc.2

theorem write_ok (data : List Byte) (n : Nat) :
    (∃ p', Returns (write data) p n p') ↔ p.readRefcount ≠ 0 ∧ p.count ≠ pipeBufferSize ∧
      n = min data.length (pipeBufferSize - p.count) := by
  rcases write_cases h data with ⟨hr, hw⟩ | ⟨hr, hc, hw⟩ | ⟨hr, hc, p', hw, -⟩
  · exact iff_of_false (fun ⟨_, ht⟩ => not_returns_of_throws hw ht) fun hrc => hrc.1 hr
  · exact iff_of_false (fun ⟨_, ht⟩ => not_returns_of_throws hw ht) fun hrc => hrc.2.1 hc
  · constructor
    · rintro ⟨q, hw'⟩
      exact ⟨hr, hc, (hw'.unique hw).1⟩
    · rintro ⟨-, -, rfl⟩
      exact ⟨p', hw⟩

/-- Opening and closing ends changes nothing but the counts of ends. -/
theorem Ok.ends {q : Pipe} (hbuf : q.buffer = p.buffer) (hr : q.readPos = p.readPos)
    (hw : q.writePos = p.writePos) (hc : q.count = p.count) : q.Ok ∧ q.contents = p.contents := by
  refine ⟨⟨hr ▸ h.readPos_lt, hc ▸ h.count_le, ?_⟩, ?_⟩
  · rw [hw, hr, hc, h.writePos_eq]
  · rw [contents, hbuf, hr, hc, contents]

end

end Pipe

/-! ## One pipe -/

namespace PipeLog

/-- What was returned, then what is still in the pipe, is what was accepted. -/
structure Queue (l : PipeLog) : Prop where
  ok : l.pipe.Ok
  bytes : l.delivered ++ l.pipe.contents = l.accepted

theorem start_queue : Queue start := ⟨Pipe.new_ok, rfl⟩

theorem Queue.ends {l : PipeLog} (h : Queue l) {q : Pipe} (hbuf : q.buffer = l.pipe.buffer)
    (hr : q.readPos = l.pipe.readPos) (hw : q.writePos = l.pipe.writePos)
    (hc : q.count = l.pipe.count) : Queue { l with pipe := q } := by
  obtain ⟨hok, hcontents⟩ := h.ok.ends hbuf hr hw hc
  exact ⟨hok, by rw [hcontents]; exact h.bytes⟩

theorem Queue.step {l : PipeLog} (h : Queue l) (op : PipeOp) : Queue (l.step op) := by
  cases op with
  | openRead => exact h.ends rfl rfl rfl rfl
  | openWrite => exact h.ends rfl rfl rfl rfl
  | closeRead => exact h.ends rfl rfl rfl rfl
  | closeWrite => exact h.ends rfl rfl rfl rfl
  | write data =>
    simp only [PipeLog.step]
    rcases Pipe.write_cases h.ok data with ⟨-, hw⟩ | ⟨-, -, hw⟩ | ⟨-, -, p', hw, hok, hcontents⟩
    · rw [hw.run_eq]
      exact h
    · rw [hw.run_eq]
      exact h
    · rw [hw.run_eq]
      refine ⟨hok, ?_⟩
      rw [hcontents, ← List.append_assoc, h.bytes]
  | read buf =>
    simp only [PipeLog.step]
    rcases Pipe.read_cases h.ok buf with ⟨-, -, hr⟩ | ⟨-, -, hr⟩ |
      ⟨-, bytes, p', hr, hok, hlen, hcontents⟩
    · rw [hr.run_eq]
      refine ⟨h.ok, ?_⟩
      simpa using h.bytes
    · rw [hr.run_eq]
      exact h
    · rw [hr.run_eq]
      refine ⟨hok, ?_⟩
      show l.delivered ++ (bytes ++ _).take (min buf.length l.pipe.count) ++
          p'.contents = l.accepted
      rw [List.take_left' hlen, List.append_assoc, ← hcontents, h.bytes]

/-- A read from a pipe with data returns the oldest bytes that were accepted and
not yet delivered, as many as there are or as the buffer takes. -/
theorem Queue.read {l : PipeLog} (h : Queue l) (hdata : l.pipe.count ≠ 0) (buf : List Byte) :
    ∃ p', Returns (Pipe.read buf) l.pipe (min buf.length l.pipe.count,
      (l.accepted.drop l.delivered.length).take (min buf.length l.pipe.count) ++
        buf.drop (min buf.length l.pipe.count)) p' := by
  have hqueued : l.accepted.drop l.delivered.length = l.pipe.contents := by
    rw [← h.bytes, List.drop_left]
  rcases Pipe.read_cases h.ok buf with ⟨hc, -⟩ | ⟨hc, -⟩ | ⟨-, bytes, p', hr, -, hlen, hcontents⟩
  · exact absurd hc hdata
  · exact absurd hc hdata
  · rw [hqueued, hcontents, List.take_left' hlen]
    exact ⟨p', hr⟩

theorem queue_run (ops : List PipeOp) : Queue (run ops) := by
  unfold run
  generalize hl : start = l
  have h : Queue l := hl ▸ start_queue
  clear hl
  induction ops generalizing l with
  | nil => exact h
  | cons op ops ih => exact ih _ (h.step op)

/-- A freshly made pipe is a bounded queue, whatever is called on it: reads
return a prefix of what writes accepted, the rest is in the pipe, a read of a
pipe with data returns the front of that rest, and the outcome of the next call
is the one its emptiness, fullness and open ends demand. -/
theorem pipe_bounded_fifo (ops : List PipeOp) : (run ops).delivered <+: (run ops).accepted ∧
      (run ops).accepted.length - (run ops).delivered.length = (run ops).pipe.count ∧
      (run ops).pipe.count ≤ 4096 ∧
      (∀ b buf,
        ((∃ buf' p', Returns (Pipe.read (b :: buf)) (run ops).pipe (0, buf') p') ↔
          (run ops).pipe.count = 0 ∧ (run ops).pipe.writeRefcount = 0) ∧
        ((∃ p', Throws (Pipe.read (b :: buf)) (run ops).pipe .eagain p') ↔
          (run ops).pipe.count = 0 ∧ (run ops).pipe.writeRefcount ≠ 0)) ∧
      ((run ops).pipe.count ≠ 0 → ∀ buf, ∃ p', Returns (Pipe.read buf) (run ops).pipe
        (min buf.length (run ops).pipe.count,
          ((run ops).accepted.drop (run ops).delivered.length).take
              (min buf.length (run ops).pipe.count) ++
            buf.drop (min buf.length (run ops).pipe.count)) p') ∧
      ∀ data,
        ((∃ p', Throws (Pipe.write data) (run ops).pipe .epipe p') ↔
          (run ops).pipe.readRefcount = 0) ∧
        ((∃ p', Throws (Pipe.write data) (run ops).pipe .eagain p') ↔
          (run ops).pipe.readRefcount ≠ 0 ∧ (run ops).pipe.count = 4096) ∧
        ∀ n, (∃ p', Returns (Pipe.write data) (run ops).pipe n p') ↔
          (run ops).pipe.readRefcount ≠ 0 ∧ (run ops).pipe.count ≠ 4096 ∧
            n = min data.length (4096 - (run ops).pipe.count) := by
  have h := queue_run ops
  generalize run ops = l at h
  have hlen : l.delivered.length + l.pipe.count = l.accepted.length := by
    rw [← h.bytes, List.length_append, Pipe.length_contents]
  refine ⟨⟨_, h.bytes⟩, by omega, h.ok.count_le, ?_, h.read, ?_⟩
  · intro b buf
    exact ⟨Pipe.read_zero h.ok b buf, Pipe.read_eagain h.ok (b :: buf)⟩
  · intro data
    exact ⟨Pipe.write_epipe h.ok data, Pipe.write_eagain h.ok data, Pipe.write_ok h.ok data⟩

end PipeLog

/-! ## The pool -/

namespace PipePool

@[simp] theorem setPipe_self (pool : PipePool) (id : PipeId) (p : Pipe) :
    (pool.setPipe id p).pipes id = p := if_pos rfl

theorem setPipe_ne (pool : PipePool) {id i : PipeId} (h : i ≠ id) (p : Pipe) :
    (pool.setPipe id p).pipes i = pool.pipes i := if_neg h

theorem pipeCreate_throws (h : pool.firstFree = none) : Throws pipeCreate pool .emfile pool := by
  simp [pipeCreate, allocate, h]

theorem pipeCreate_returns {id : PipeId} (h : pool.firstFree = some id) :
    Returns pipeCreate pool (id, id) (pool.setPipe id (pool.pipes id).openRead.openWrite) := by
  simp [pipeCreate, allocate, h]

/-- A call on a pipe that is not allocated changes nothing. -/
theorem withPipe_none {id : PipeId} (h : pool.get? id = none) (x : EStateM ErrorCode Pipe α) :
    (withPipe id x).run pool = .error .ebadf pool := by
  simp only [withPipe, EStateM.run, h]

/-- A call on a pipe that is allocated is the call on its slot. -/
theorem withPipe_some {id : PipeId} (h : pool.get? id = some p) (x : EStateM ErrorCode Pipe α) :
    p = pool.pipes id ∧ (withPipe id x).run pool =
      match x.run (pool.pipes id) with
      | .ok a p' => .ok a (pool.setPipe id p')
      | .error e p' => .error e (pool.setPipe id p') := by
  have hp : p = pool.pipes id := by
    unfold get? at h
    split at h
    · exact (Option.some.inj h).symm
    · cases h
  refine ⟨hp, ?_⟩
  subst hp
  show withPipe id x pool = _
  cases hx : x.run (pool.pipes id) with
  | ok a p' => simp only [withPipe, h, hx]
  | error e p' => simp only [withPipe, h, hx]

end PipePool

namespace PoolLog

open PipePool

/-- One slot with its own history. -/
def slot (l : PoolLog) (id : PipeId) : PipeLog := ⟨l.pool.pipes id, l.accepted id, l.delivered id⟩

/-- Opening or closing an end of `id`, as one slot sees it. -/
theorem slot_ends (l : PoolLog) (id i : PipeId) (f : Pipe → Pipe) :
    slot { l with pool := after (withPipe id (modify f)) l.pool } i = slot l i ∨
      slot { l with pool := after (withPipe id (modify f)) l.pool } i =
        { slot l i with pipe := f (l.pool.pipes i) } := by
  unfold after
  cases h : l.pool.get? id with
  | none =>
    rw [withPipe_none h]
    exact .inl rfl
  | some p =>
    rw [(withPipe_some h _).2]
    by_cases hi : i = id
    · subst hi
      exact .inr (congrArg (PipeLog.mk · _ _) (setPipe_self _ _ _))
    · exact .inl (congrArg (PipeLog.mk · _ _) (setPipe_ne _ hi _))

@[simp] theorem setAt_self (f : PipeId → List Byte) (id : PipeId) (bytes : List Byte) :
    setAt f id bytes id = bytes := if_pos rfl

theorem setAt_ne (f : PipeId → List Byte) {id i : PipeId} (h : i ≠ id) (bytes : List Byte) :
    setAt f id bytes i = f i := if_neg h

variable {l : PoolLog}

theorem step_create_none (h : l.pool.firstFree = none) : l.step .create = l := by
  simp only [step, (pipeCreate_throws h).run_eq]

theorem step_create_some {id : PipeId} (h : l.pool.firstFree = some id) : l.step .create =
      { pool := l.pool.setPipe id (l.pool.pipes id).openRead.openWrite
        accepted := setAt l.accepted id []
        delivered := setAt l.delivered id [] } := by
  simp only [step, (pipeCreate_returns h).run_eq]

/-- A call on the pool is a call on one of its slots, or none, or it takes a
slot anew. -/
theorem slot_step (l : PoolLog) (op : PoolOp) (i : PipeId) :
    slot (l.step op) i = slot l i ∨ (∃ op', slot (l.step op) i = (slot l i).step op') ∨
      (op = .create ∧ l.pool.firstFree = some i ∧
        slot (l.step op) i = ⟨(l.pool.pipes i).openRead.openWrite, [], []⟩) := by
  cases op with
  | openRead id => exact (slot_ends l id i _).imp_right fun h => .inl ⟨.openRead, h⟩
  | openWrite id => exact (slot_ends l id i _).imp_right fun h => .inl ⟨.openWrite, h⟩
  | closeRead id => exact (slot_ends l id i _).imp_right fun h => .inl ⟨.closeRead, h⟩
  | closeWrite id => exact (slot_ends l id i _).imp_right fun h => .inl ⟨.closeWrite, h⟩
  | create =>
    cases hfree : l.pool.firstFree with
    | none =>
      refine .inl ?_
      rw [step_create_none hfree]
    | some id =>
      rw [step_create_some hfree]
      by_cases hi : i = id
      · subst hi
        exact .inr (.inr ⟨rfl, rfl, by simp [slot]⟩)
      · exact .inl (by simp [slot, setPipe_ne _ hi, setAt_ne _ hi])
  | write id data =>
    simp only [step, PipePool.write]
    cases h : l.pool.get? id with
    | none =>
      rw [withPipe_none h]
      exact .inl rfl
    | some p =>
      rw [(withPipe_some h _).2]
      by_cases hi : i = id
      · subst hi
        refine .inr (.inl ⟨.write data, ?_⟩)
        simp only [PipeLog.step, slot]
        cases (Pipe.write data).run (l.pool.pipes i) <;> simp
      · refine .inl ?_
        cases (Pipe.write data).run (l.pool.pipes id) <;>
          simp [slot, setPipe_ne _ hi, setAt_ne _ hi]
  | read id buf =>
    simp only [step, PipePool.read]
    cases h : l.pool.get? id with
    | none =>
      rw [withPipe_none h]
      exact .inl rfl
    | some p =>
      rw [(withPipe_some h _).2]
      by_cases hi : i = id
      · subst hi
        refine .inr (.inl ⟨.read buf, ?_⟩)
        simp only [PipeLog.step, slot]
        cases (Pipe.read buf).run (l.pool.pipes i) <;> simp
      · refine .inl ?_
        cases (Pipe.read buf).run (l.pool.pipes id) <;>
          simp [slot, setPipe_ne _ hi, setAt_ne _ hi]

/-- Every slot is a queue of its own. -/
def Queues (l : PoolLog) : Prop := ∀ i, (slot l i).Queue

theorem Queues.isolated (h : Queues l) : Isolated l := fun i => ⟨_, (h i).bytes⟩

theorem Queues.step (h : Queues l) {op : PoolOp} (hop : TakesEmpty l op) : Queues (l.step op) := by
  intro i
  rcases slot_step l op i with hsame | ⟨op', hop'⟩ | ⟨rfl, hfree, hnew⟩
  · exact hsame ▸ h i
  · exact hop' ▸ (h i).step op'
  · rw [hnew]
    have hempty : (l.pool.pipes i).count = 0 := hop i hfree
    obtain ⟨hok, hcontents⟩ :=
      (h i).ok.ends (q := (l.pool.pipes i).openRead.openWrite) rfl rfl rfl rfl
    refine ⟨hok, ?_⟩
    apply List.eq_nil_of_length_eq_zero
    rw [List.nil_append, hcontents, Pipe.length_contents]
    exact hempty

/-- While `pipe_create` takes empty slots only, no read returns a byte that was
not written to the pipe since it was created. -/
theorem pipes_isolated {l : PoolLog} (h : (runs TakesEmpty).Reachable l) : Isolated l := by
  have hqueues : (runs TakesEmpty).Inductive Queues :=
    { init := by
        rintro l rfl i
        exact PipeLog.start_queue
      step := by
        rintro l l' h ⟨op, hop, rfl⟩
        exact h.step hop }
  exact (hqueues.invariant l h).isolated

/-- The first pipe delivers what is written to it. -/
theorem pipes_isolated_first_use :
    ∃ l, (runs TakesEmpty).Reachable l ∧ l.delivered 0 = [120] ∧ Isolated l := by
  let l := ((start.step .create).step (.write 0 [120])).step (.read 0 [0])
  have hcreate : (runs TakesEmpty).Reachable (start.step .create) :=
    .step (.init rfl) ⟨.create, fun _ _ => rfl, rfl⟩
  have hreach : (runs TakesEmpty).Reachable l :=
    .step (.step hcreate ⟨.write 0 [120], trivial, rfl⟩) ⟨.read 0 [0], trivial, rfl⟩
  exact ⟨l, hreach, by decide +kernel, pipes_isolated hreach⟩

/-- The log after some calls. -/
def exec (ops : List PoolOp) : PoolLog := ops.foldl step start

theorem reachable_exec (ops : List PoolOp) : (runs fun _ _ => True).Reachable (exec ops) := by
  unfold exec
  suffices h : ∀ l, (runs fun _ _ => True).Reachable l →
      (runs fun _ _ => True).Reachable (ops.foldl step l) from h start (.init rfl)
  induction ops with
  | nil => exact fun _ h => h
  | cons op ops ih => exact fun l h => ih _ (.step h ⟨op, trivial, rfl⟩)

/-- A byte is written to a pipe, both ends are closed, and the next
`pipe_create` takes the same slot: the first read of the new pipe returns the
byte, though nothing was written to it. -/
theorem recycled_slot_delivers :
    ∃ l, (runs fun _ _ => True).Reachable l ∧ l.accepted 0 = [] ∧ l.delivered 0 = [120] ∧
      ¬Isolated l := by
  let l := exec [.create, .write 0 [120], .closeRead 0, .closeWrite 0, .create, .read 0 [0]]
  have haccepted : l.accepted 0 = [] := by decide +kernel
  have hdelivered : l.delivered 0 = [120] := by decide +kernel
  refine ⟨l, reachable_exec _, haccepted, hdelivered, ?_⟩
  intro hisolated
  have hprefix := hisolated 0
  rw [haccepted, hdelivered] at hprefix
  simp at hprefix

end PoolLog

end PandaOS.Kernel
