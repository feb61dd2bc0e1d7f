import PandaOS.Logic.FileCalls

/-!
# File contents

A write replaces the bytes from its offset on and fills a gap before it with zeros; what
it does to the bytes one by one is `replaced`. The files of the tmpfs follow this as long
as the kernel heap has room for them. In the memory file system a file of the table that was never
written to counts as empty for a write, so the first write to it loses its contents.
-/

namespace PandaOS.Kernel

open Lib

/-- The bytes of a file after a write: those of `data` from `offset` on, and the old ones
or zeros around them. -/
def replaced (old : List Byte) (offset : Nat) (data : List Byte) (i : Nat) : Option Byte :=
  if i < max old.length (offset + data.length) then
    some (if offset ≤ i ∧ i < offset + data.length then data.getD (i - offset) 0 else old.getD i 0)
  else none

/-- No heap takes a file beyond its own size. -/
theorem HeapRoom.holds_eq_false (heap : HeapRoom) {len offset count : Nat} (hlen : len ≤ heapSize)
    (hlong : heapSize < offset + count) : heap.holds len offset count = false := by
  by_contra hholds
  obtain ⟨hgap, hend⟩ := Bool.and_eq_true_iff.mp (Bool.not_eq_false _ ▸ hholds)
  rcases Bool.or_eq_true_iff.mp hend with hfits | hgrows
  · rcases Bool.or_eq_true_iff.mp hgap with hbefore | hgrows
    · have := of_decide_eq_true hfits
      have := of_decide_eq_true hbefore
      omega
    · have := of_decide_eq_true hfits
      have := heap.grows_le _ hgrows
      omega
  · have := heap.grows_le _ hgrows
    omega

namespace TmpFs

/-! ## Writes -/

section

variable (old : List Byte) (offset : Nat) (data : List Byte)
include old offset data

theorem overwrite_eq : overwrite old offset data =
      (old ++ List.replicate (offset - old.length) 0).take offset ++ data ++ old.drop
        (offset + data.length) := by
  unfold overwrite resize
  rcases Nat.lt_trichotomy offset old.length with hlt | rfl | hgt
  · simp only [show ¬offset > old.length by omega, if_false, show offset ≠ old.length by omega]
    by_cases hend : old.length < offset + data.length
    · simp [hend, List.take_append_of_le_length hlt.le, List.drop_eq_nil_iff.mpr hend.le,
        List.drop_append]
    · simp [hend, List.take_append_of_le_length hlt.le]
  · simp
  · have hlen : (old ++ List.replicate (offset - old.length) (0 : Byte)).length = offset := by
      simp; omega
    simp only [hgt, if_true, hlen, List.take_of_length_le hlen.le]
    rw [List.drop_eq_nil_of_le (by omega), List.append_nil]

theorem getElem?_overwrite (i : Nat) :
    (overwrite old offset data)[i]? = replaced old offset data i := by
  have hlen : ((old ++ List.replicate (offset - old.length) (0 : Byte)).take offset).length =
      offset := by
    simp
    omega
  rw [overwrite_eq, List.append_assoc, List.getElem?_append, hlen]
  unfold replaced
  split
  · rename_i hlow
    rw [if_pos (by omega), if_neg (by omega), List.getElem?_take_of_lt hlow,
      List.getElem?_append, List.getD_eq_getElem?_getD]
    split
    · rename_i hold
      simp [hold]
    · rename_i hold
      rw [List.getElem?_replicate_of_lt (by omega), List.getElem?_eq_none (by omega)]
      rfl
  · rename_i hhigh
    rw [List.getElem?_append]
    split
    · rename_i hdata
      rw [if_pos (by omega), if_pos (by omega), List.getElem?_eq_getElem hdata,
        List.getD_eq_getElem _ _ hdata]
    · rename_i hdata
      rw [List.getElem?_drop, show offset + data.length + (i - offset - data.length) = i by omega,
        if_neg (by omega : ¬(offset ≤ i ∧ i < offset + data.length)), List.getD_eq_getElem?_getD]
      split
      · rename_i hold
        rw [List.getElem?_eq_getElem (by omega)]
        rfl
      · exact List.getElem?_eq_none (by omega)

end

/-- The contents of one file are replaced, and nothing else is. -/
structure OnlyFile (inode : Inode) (data : List Byte) (fs fs' : TmpFs) : Prop where
  contents : fs'.nodes inode = some (.file data)
  nodes : ∀ i, i ≠ inode → fs'.nodes i = fs.nodes i
  modes : fs'.modes = fs.modes
  nextInode : fs'.nextInode = fs.nextInode
  rootInode : fs'.rootInode = fs.rootInode

variable {heap : HeapRoom} {fs : TmpFs} {inode : Inode} {old : List Byte}

theorem onlyFile_setNode (inode : Inode) (data : List Byte) :
    OnlyFile inode data fs (fs.setNode inode (some (.file data))) :=
  ⟨if_pos rfl, fun _ hi => if_neg hi, rfl, rfl, rfl⟩

section

variable (h : fs.nodes inode = some (.file old))
include h

theorem getData_returns : Returns (getData inode) fs old fs := by
  simp [getData, getNode, h]

theorem write_returns {offset : Nat} {data : List Byte}
    (hroom : heap.holds old.length offset data.length = true) :
    Returns (write heap inode offset data) fs data.length
      (fs.setNode inode (some (.file (overwrite old offset data)))) :=
  (getData_returns h).bind (by simp [failIf, hroom])

theorem write_panics {offset : Nat} {data : List Byte}
    (hfull : heap.holds old.length offset data.length = false) :
    Throws (write heap inode offset data) fs .panic fs := by
  refine throws_bind.mpr (.inr ⟨_, _, getData_returns h, ?_⟩)
  simp [failIf, hfull]

end

/-- What the operations on a file of the tmpfs are for. -/
structure KeepsContents (heap : HeapRoom) (fs : TmpFs) (inode : Inode)
    (old : List Byte) (offset : Nat) (data : List Byte) : Prop where
  write : ∃ fs' new, Returns (write heap inode offset data) fs data.length fs' ∧
    OnlyFile inode new fs fs' ∧ ∀ i, new[i]? = replaced old offset data i
  read : ∀ start count, ∃ bytes, fs.read inode start count = .ok bytes ∧
    ∀ i, bytes[i]? = if i < count then old[start + i]? else none
  truncate : ∃ fs', Returns (truncate inode) fs () fs' ∧ OnlyFile inode [] fs fs'

/-- Files of the tmpfs are written, read and truncated as byte strings exactly as long as
the heap has room for the result. -/
theorem tmpfs_contents_iff (h : fs.nodes inode = some (.file old))
    (offset : Nat) (data : List Byte) : KeepsContents heap fs inode old offset data ↔
      heap.holds old.length offset data.length = true := by
  constructor
  · intro hkeeps
    obtain ⟨fs', new, hrun, -⟩ := hkeeps.write
    by_contra hfull
    exact not_returns_of_throws (write_panics h (eq_false_of_ne_true hfull)) hrun
  · intro hroom
    refine ⟨⟨_, overwrite old offset data, write_returns h hroom, onlyFile_setNode inode _,
      getElem?_overwrite old offset data⟩, ?_, ?_⟩
    · intro start count
      refine ⟨slice old start count, by unfold read; rw [h], fun i => ?_⟩
      unfold slice
      rw [List.getElem?_take, List.getElem?_drop]
    · exact ⟨_, (getData_returns h).bind (modify_returns _ _), onlyFile_setNode inode []⟩

/-- A tmpfs with one file, of two bytes. -/
def twoBytes : TmpFs := new.setNode 2 (some (.file [1, 2]))

/-- A byte is written behind a gap. -/
theorem tmpfs_contents_gap : KeepsContents emptyHeap twoBytes 2 [1, 2] 4 [9] :=
  (tmpfs_contents_iff rfl 4 [9]).mpr (by decide)

/-- A byte at an offset past the size of the heap, though there is nothing else in it. -/
theorem tmpfs_write_panics : Throws (write emptyHeap 2 200000 [9]) twoBytes .panic twoBytes := by
  have hfile : twoBytes.nodes 2 = some (.file [1, 2]) := rfl
  exact write_panics hfile (emptyHeap.holds_eq_false (by decide) (by decide))

end TmpFs

/-! ## The memory file system -/

/-- When a write to a file with contents `old` does as if it were empty. -/
theorem replaced_nil_iff (old : List Byte) (offset : Nat) (data : List Byte) :
    (∀ i, replaced [] offset data i = replaced old offset data i) ↔
      old.length ≤ offset + data.length ∧ ∀ j < offset, old.getD j 0 = 0 := by
  unfold replaced
  constructor
  · intro h
    constructor
    · have hend := h (offset + data.length)
      rw [if_neg (by simp)] at hend
      by_contra hlong
      rw [if_pos (by omega)] at hend
      cases hend
    · intro j hj
      have hbyte := h j
      have hbefore : ¬(offset ≤ j ∧ j < offset + data.length) := by omega
      rw [if_pos (show j < max ([] : List Byte).length (offset + data.length) by omega),
        if_neg hbefore,
        if_pos (show j < max old.length (offset + data.length) by omega), if_neg hbefore] at hbyte
      exact (Option.some.inj hbyte).symm
  · rintro ⟨hlength, hzero⟩ i
    rw [Nat.max_eq_right hlength, List.length_nil, Nat.zero_max]
    split
    · split
      · rfl
      · rw [hzero i (by omega)]
        rfl
    · rfl

namespace Vfs

variable {v : Vfs} {index : Nat} {node : FileNode}

/-- A file that was never written to is as the table has it. -/
theorem memoryStat_size (hstatic : v.writableFiles index = none → staticFiles[index]? = some node) :
    (v.memoryStat index node).size = ((v.writableFiles index).getD node.data).length := by
  unfold memoryStat nodeStat
  cases hwritten : v.writableFiles index with
  | some data => rfl
  | none =>
    have hdir : ∀ file ∈ staticFiles, file.fileType = .directory → file.data = [] := by decide
    show (if node.fileType = .directory then 0 else node.data.length) = node.data.length
    split
    · rename_i htype
      rw [hdir node (List.mem_of_getElem? (hstatic hwritten)) htype]
      rfl
    · rfl

theorem memoryData_setWritable (data : List Byte) :
    (v.setWritable index data).memoryData index = .ok data := by
  unfold memoryData setWritable
  simp

end Vfs

namespace OpenEntry

variable {heap : HeapRoom} {v : Vfs} {f : OpenFile} {node : FileNode} {path : PathName}

/-- The write leaves the file as a write should: its contents, which are those of the table
if nothing was written yet, with the bytes replaced at the offset or, with `O_APPEND`, at the
size that `stat_path` reports. -/
def WritesOver (heap : HeapRoom) (v : Vfs) (pool : PipePool) (f : OpenFile) (node : FileNode)
    (path : PathName) (data : List Byte) : Prop :=
  ∃ stat s' new, v.statPath path = .ok stat ∧
    Returns (write heap data) ⟨.file f true, pool, v⟩ data.length s' ∧
    s'.vfs.memoryData f.nodeIndex = .ok new ∧
    ∀ i, new[i]? = replaced ((v.writableFiles f.nodeIndex).getD node.data)
      (writeOffset f.flags stat.size f.offset) data i

/-- What the code takes for the contents. -/
def current (v : Vfs) (f : OpenFile) : List Byte := (v.writableFiles f.nodeIndex).getD []

/-- There is room for the write: for its bytes, and for the entry that a first write makes. -/
def hasRoom (heap : HeapRoom) (v : Vfs) (f : OpenFile) (data : List Byte) : Bool :=
  ((v.writableFiles f.nodeIndex).isSome || heap.inserts) &&
    heap.holds (current v f).length (writeOffset f.flags (current v f).length f.offset) data.length

/-- The entry and the file after the write. -/
def afterWrite (v : Vfs) (pool : PipePool) (f : OpenFile) (data : List Byte) : OpenEntry :=
  let offset := writeOffset f.flags (current v f).length f.offset
  ⟨.file { f with offset := offset + data.length } true, pool,
    v.setWritable f.nodeIndex (TmpFs.overwrite (current v f) offset data)⟩

theorem ends_write_memory (pool : PipePool) (data : List Byte) {Q : Nat → OpenEntry → Prop}
    {E : FsFault → OpenEntry → Prop} : Ends (write heap data) ⟨.file f true, pool, v⟩ Q E ↔
      (hasRoom heap v f data = true → Q data.length (afterWrite v pool f data)) ∧
      (hasRoom heap v f data = false → E .panic ⟨.file f true, pool, v⟩) := by
  unfold write
  rw [ends_bind, ends_get]
  show Ends (writeMemory heap f data) _ Q E ↔ _
  unfold writeMemory
  rw [ends_bind, ends_get, ends_bind, ends_failIf_iff, Bool.not_eq_false', Bool.not_eq_true']
  exact .rfl

/-- A write to a file of the memory file system does so exactly if the heap has room for the
result and the file was written to before, or nothing of it would be left to see: it is empty,
or the write covers it and every byte before is zero. -/
theorem memory_write_iff (hmount : v.resolveMountPath path = none)
    (hlook : v.lookupNode path = some (f.nodeIndex, node))
    (hstatic : v.writableFiles f.nodeIndex = none → staticFiles[f.nodeIndex]? = some node)
    (pool : PipePool) (data : List Byte) :
    WritesOver heap v pool f node path data ↔
      hasRoom heap v f data = true ∧
        ((v.writableFiles f.nodeIndex).isSome ∨
          if hasFlag f.flags oAppend then node.data = []
          else node.data.length ≤ f.offset + data.length ∧
            ∀ j < f.offset, node.data.getD j 0 = 0) := by
  have hstat : v.statPath path = .ok (v.memoryStat f.nodeIndex node) := by
    unfold Vfs.statPath
    rw [hmount]
    dsimp only
    rw [hlook]
  -- the write returns if its result fits, and then the bytes are compared
  have hover : WritesOver heap v pool f node path data ↔ hasRoom heap v f data = true ∧
        ∀ i, replaced (current v f) (writeOffset f.flags (current v f).length f.offset) data i =
          replaced ((v.writableFiles f.nodeIndex).getD node.data)
            (writeOffset f.flags (v.memoryStat f.nodeIndex node).size f.offset) data i := by
    simp only [← TmpFs.getElem?_overwrite (current v f)]
    constructor
    · rintro ⟨stat, s', new, hstat', hrun, hnew, hbytes⟩
      cases Except.ok.inj (hstat.symm.trans hstat')
      obtain ⟨hroom, rfl⟩ := (ends_iff.mp ((ends_write_memory pool data (Q := fun _ s₁ =>
        hasRoom heap v f data = true ∧ s₁ = afterWrite v pool f data) (E := fun _ _ => True)).mpr
          ⟨fun hroom => ⟨hroom, rfl⟩, fun _ => trivial⟩)).1 _ _ hrun
      cases Except.ok.inj ((Vfs.memoryData_setWritable _).symm.trans hnew)
      exact ⟨hroom, hbytes⟩
    · rintro ⟨hroom, hbytes⟩
      refine ⟨_, afterWrite v pool f data, _, hstat, Ends.returns_eq ?_,
        Vfs.memoryData_setWritable _, hbytes⟩
      exact (ends_write_memory pool data).mpr ⟨fun _ => ⟨rfl, rfl⟩,
        fun hfull => by simp [hroom] at hfull⟩
  rw [hover, Vfs.memoryStat_size hstatic]
  refine and_congr_right fun _ => ?_
  unfold current
  cases hwritten : v.writableFiles f.nodeIndex with
  | some old => exact iff_of_true (fun _ => rfl) (Or.inl rfl)
  | none =>
    rw [or_iff_right (by simp)]
    unfold writeOffset
    dsimp only [Option.getD_none]
    split
    · -- at the end of the old contents, and not of the empty ones
      constructor
      · intro h
        have hend := h data.length
        unfold replaced at hend
        rw [if_neg (by simp)] at hend
        by_contra hne
        have hpos := List.length_pos_iff.mpr hne
        rw [if_pos (by omega)] at hend
        cases hend
      · intro hempty _
        rw [hempty]
    · exact replaced_nil_iff node.data f.offset data

/-- A new version of the same length. -/
theorem memory_write_covers : WritesOver emptyHeap Vfs.boot PipePool.new ⟨6, 0, oWronly⟩
    (fileNode "/etc/version" "PandaOS 0.1.0\r\n") "/etc/version".toList
    (ascii "PandaOS 0.2.0\r\n") :=
  (memory_write_iff rfl (by rfl) (fun _ => rfl) _ _).mpr ⟨by decide, .inr (by decide)⟩

/-- The first write to `/etc/version` leaves one byte of it. -/
theorem first_write_truncates : ∃ s',
    Returns (write emptyHeap [0x41]) ⟨.file ⟨6, 0, oWronly⟩ true, PipePool.new, Vfs.boot⟩ 1 s' ∧
      s'.vfs.memoryData 6 = .ok [0x41] ∧ Vfs.boot.memoryData 6 = .ok (ascii "PandaOS 0.1.0\r\n") :=
  ⟨_, rfl, rfl, rfl⟩

end OpenEntry

end PandaOS.Kernel
