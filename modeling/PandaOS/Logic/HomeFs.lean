import PandaOS.Kernel.HomeFs

/-!
# Records and sectors of the home file system

A record that fits its fields is read back as it was written, and a sector that is
not written stays as it is.
-/

namespace PandaOS.Kernel

open Lib

/-! ## Records -/

/-- Consecutive numbers of four bytes. -/
theorem Holds.fields {mem : Memory} {addr : Nat} {ws : List Nat}
    (h : Holds mem addr (ws.flatMap (fieldBytes 4))) (hw : ∀ w ∈ ws, w < 256 ^ 4) :
    ∀ i, i < ws.length → fieldAt mem (addr + 4 * i) 4 = ws.getD i 0 := by
  induction ws generalizing addr with
  | nil => simp
  | cons w ws ih =>
    rw [List.flatMap_cons] at h
    have htail := h.right
    rw [length_fieldBytes] at htail
    intro i hi
    cases i with
    | zero => simpa using h.left.fieldAt_eq (hw w (by simp))
    | succ i =>
      have hnext := ih htail (fun v hv => hw v (by simp [hv])) i (by simpa using hi)
      rw [show addr + 4 * (i + 1) = addr + 4 + 4 * i by omega, hnext]
      simp

variable {buf buf' : Memory} {offset i n : Nat} {e : DirEntry}

theorem Superblock.decode_of_holds {sb : Superblock} (hfits : ∀ w ∈ sb.fields, w < 256 ^ 4)
    (h : Holds buf 0 sb.encode) : Superblock.decode buf = sb := by
  have hfield : ∀ i < 12, fieldAt buf (4 * i) 4 = sb.fields.getD i 0 := by
    intro i hi
    have := Holds.fields h hfits i hi
    rwa [Nat.zero_add] at this
  unfold Superblock.decode
  rw [show fieldAt buf 0 4 = _ from hfield 0 (by decide),
    show fieldAt buf 4 4 = _ from hfield 1 (by decide),
    show fieldAt buf 8 4 = _ from hfield 2 (by decide),
    show fieldAt buf 12 4 = _ from hfield 3 (by decide),
    show fieldAt buf 16 4 = _ from hfield 4 (by decide),
    show fieldAt buf 20 4 = _ from hfield 5 (by decide),
    show fieldAt buf 24 4 = _ from hfield 6 (by decide),
    show fieldAt buf 28 4 = _ from hfield 7 (by decide),
    show fieldAt buf 32 4 = _ from hfield 8 (by decide),
    show fieldAt buf 36 4 = _ from hfield 9 (by decide),
    show fieldAt buf 40 4 = _ from hfield 10 (by decide),
    show fieldAt buf 44 4 = _ from hfield 11 (by decide)]
  rfl

/-- The record fits its fields. -/
structure HomeInode.Fits (i : HomeInode) : Prop where
  inodeNum : i.inodeNum < 256 ^ 4
  fileType : i.fileType < 256 ^ 4
  mode : i.mode < 256 ^ 2
  uid : i.uid < 256 ^ 2
  gid : i.gid < 256 ^ 2
  linkCount : i.linkCount < 256 ^ 2
  size : i.size < 256 ^ 4
  blocksUsed : i.blocksUsed < 256 ^ 4
  slots : i.directBlocks.length = maxDirectBlocks
  directBlocks : ∀ b ∈ i.directBlocks, b < 256 ^ 4

/-- What is read from a device fits. -/
theorem HomeInode.decode_fits (buf : Memory) (offset : Nat) :
    (HomeInode.decode buf offset).Fits where
  inodeNum := fieldAt_lt _ _ _
  fileType := fieldAt_lt _ _ _
  mode := fieldAt_lt _ _ _
  uid := fieldAt_lt _ _ _
  gid := fieldAt_lt _ _ _
  linkCount := fieldAt_lt _ _ _
  size := fieldAt_lt _ _ _
  blocksUsed := fieldAt_lt _ _ _
  slots := by simp [HomeInode.decode]
  directBlocks b hb := by
    obtain ⟨j, -, rfl⟩ := List.mem_map.mp hb
    exact fieldAt_lt _ _ _

theorem HomeFs.record_fits (fs : HomeFs) (i : Nat) : (fs.record i).Fits :=
  HomeInode.decode_fits _ _

theorem HomeInode.decode_of_holds {i : HomeInode} (hi : i.Fits)
    (h : Holds buf offset i.encode) : HomeInode.decode buf offset = i := by
  unfold HomeInode.encode at h
  have hblocks := h.left.right
  have h8 := h.left.left
  have h7 := h8.left
  have h6 := h7.left
  have h5 := h6.left
  have h4 := h5.left
  have h3 := h4.left
  have h2 := h3.left
  simp only [List.length_append, length_fieldBytes] at hblocks
  have hslots := Holds.fields hblocks hi.directBlocks
  have hlist : ((List.range maxDirectBlocks).map fun j => fieldAt buf (offset + 24 + 4 * j) 4) =
      i.directBlocks := by
    apply List.ext_getElem
    · simp [hi.slots]
    · intro j hj hj'
      have hslot := hslots j hj'
      simpa [List.getD_eq_getElem?_getD, hj'] using hslot
  have f2 := h2.right.fieldAt_eq hi.fileType
  have f3 := h3.right.fieldAt_eq hi.mode
  have f4 := h4.right.fieldAt_eq hi.uid
  have f5 := h5.right.fieldAt_eq hi.gid
  have f6 := h6.right.fieldAt_eq hi.linkCount
  have f7 := h7.right.fieldAt_eq hi.size
  have f8 := h8.right.fieldAt_eq hi.blocksUsed
  simp only [List.length_append, length_fieldBytes] at f2 f3 f4 f5 f6 f7 f8
  unfold HomeInode.decode
  rw [hlist, h2.left.fieldAt_eq hi.inodeNum, f2, f3, f4, f5, f6, f7, f8]

/-- The entry fits its fields. -/
structure DirEntry.Fits (e : DirEntry) : Prop where
  inode : e.inode < 256 ^ 4
  nameLen : e.nameLen < 256 ^ 1
  fileType : e.fileType < 256 ^ 1
  name : e.name.length = maxFilenameLen

/-- A name that can be read. -/
structure DirEntry.Readable (e : DirEntry) : Prop where
  short : e.nameLen ≤ maxFilenameLen
  valid : validUtf8 e.bytes = true

theorem DirEntry.encode_length (h : e.name.length = maxFilenameLen) :
    e.encode.length = dirEntrySize := by
  unfold DirEntry.encode
  simp only [List.length_append, length_fieldBytes, h]
  rfl

theorem DirEntry.decode_of_holds (he : e.Fits)
    (h : Holds buf offset e.encode) : DirEntry.decode buf offset = e := by
  unfold DirEntry.encode at h
  have hname := h.right
  have h3 := h.left.left
  have h2 := h3.left
  have f2 := h2.right.fieldAt_eq he.nameLen
  have f3 := h3.right.fieldAt_eq he.fileType
  simp only [List.length_append, length_fieldBytes] at hname f2 f3
  have hbytes : ((List.range maxFilenameLen).map fun j => buf (offset + 8 + j)) = e.name := by
    apply List.ext_getElem
    · simp [he.name]
    · intro j hj hj'
      simpa [List.getD_eq_getElem?_getD, hj'] using hname j hj'
  unfold DirEntry.decode
  rw [hbytes, h2.left.fieldAt_eq he.inode, f2, f3]

theorem DirEntry.decode_keep (h : ∀ a, offset ≤ a → a < offset + dirEntrySize →
    buf' a = buf a) : DirEntry.decode buf' offset = DirEntry.decode buf offset := by
  have hfield : ∀ o n, o + n ≤ dirEntrySize → fieldAt buf' (offset + o) n =
      fieldAt buf (offset + o) n := by
    intro o n hon
    exact fieldAt_keep fun a hlo hhi => h a (by omega) (by omega)
  have hname : ((List.range maxFilenameLen).map fun j => buf' (offset + 8 + j)) =
      (List.range maxFilenameLen).map fun j => buf (offset + 8 + j) := by
    apply List.map_congr_left
    intro j hj
    have hj := List.mem_range.mp hj
    exact h _ (by omega) (by unfold maxFilenameLen dirEntrySize at *; omega)
  unfold DirEntry.decode
  rw [hname, show fieldAt buf' offset 4 = fieldAt buf offset 4 from hfield 0 4 (by decide),
    hfield 4 1 (by decide), hfield 5 1 (by decide)]

/-- An entry for a name is read back. -/
theorem DirEntry.named_fits {inode fileType : Nat} {name : List Byte} (hinode : inode < 256 ^ 4)
    (hname : name.length ≤ maxFilenameLen) (htype : fileType < 256) :
    (DirEntry.named inode name fileType).Fits where
  inode := hinode
  nameLen := by
    show name.length < 256 ^ 1
    unfold maxFilenameLen at hname
    omega
  fileType := htype
  name := by
    show (name ++ List.replicate (maxFilenameLen - name.length) 0).length = maxFilenameLen
    rw [List.length_append, List.length_replicate]
    omega

theorem DirEntry.bytes_named (inode fileType : Nat) (name : List Byte) :
    (DirEntry.named inode name fileType).bytes = name := by
  show (name ++ List.replicate (maxFilenameLen - name.length) 0).take name.length = name
  rw [List.take_append_of_le_length (Nat.le_refl _), List.take_length]

theorem DirEntry.empty_fits : DirEntry.empty.Fits where
  inode := by decide
  nameLen := by decide
  fileType := by decide
  name := List.length_replicate

theorem DirEntry.decode_zero (offset : Nat) :
    DirEntry.decode HomeFs.zeroSector offset = DirEntry.empty := by
  have hname : ((List.range maxFilenameLen).map fun j => HomeFs.zeroSector (offset + 8 + j)) =
      List.replicate maxFilenameLen 0 := by
    simp [HomeFs.zeroSector]
  unfold DirEntry.decode
  rw [hname]
  rfl

namespace HomeFs

theorem HomeInode.encode_length {i : HomeInode} (h : i.directBlocks.length = maxDirectBlocks) :
    i.encode.length = inodeSize := by
  have hflat : ∀ ws : List Nat, (ws.flatMap (fieldBytes 4)).length = 4 * ws.length := by
    intro ws
    induction ws with
    | nil => rfl
    | cons w ws ih =>
      rw [List.flatMap_cons, List.length_append, length_fieldBytes, ih, List.length_cons]
      omega
  unfold HomeInode.encode
  simp only [List.length_append, length_fieldBytes, List.length_replicate, hflat, h]
  rfl

theorem decode_keep {offset : Nat} (h : ∀ a, offset ≤ a → a < offset + inodeSize → buf' a = buf a) :
    HomeInode.decode buf' offset = HomeInode.decode buf offset := by
  have hfield : ∀ o n, o + n ≤ inodeSize → fieldAt buf' (offset + o) n =
      fieldAt buf (offset + o) n := by
    intro o n hon
    exact fieldAt_keep fun a hlo hhi => h a (by omega) (by omega)
  have hslots : ((List.range maxDirectBlocks).map fun j => fieldAt buf' (offset + 24 + 4 * j) 4) =
      (List.range maxDirectBlocks).map fun j => fieldAt buf (offset + 24 + 4 * j) 4 := by
    apply List.map_congr_left
    intro j hj
    have hj := List.mem_range.mp hj
    rw [Nat.add_assoc]
    exact hfield _ _ (by unfold maxDirectBlocks inodeSize at *; omega)
  unfold HomeInode.decode
  rw [hslots, show fieldAt buf' offset 4 = fieldAt buf offset 4 from hfield 0 4 (by decide),
    hfield 4 4 (by decide), hfield 8 2 (by decide), hfield 10 2 (by decide),
      hfield 12 2 (by decide),
    hfield 14 2 (by decide), hfield 16 4 (by decide), hfield 20 4 (by decide)]

/-! ## Sectors -/

theorem putSector_disk_ne (fs : HomeFs) {sector : Nat} (h : i ≠ sector) (buf : Memory) :
    (fs.putSector sector buf).disk i = fs.disk i := if_neg h

theorem putSector_disk (fs : HomeFs) (sector : Nat) (buf : Memory) :
    (fs.putSector sector buf).disk sector = buf := if_pos rfl

theorem inodeSector_bounds (hi : i ≤ maxInodes) : 3 ≤ inodeSector i ∧ inodeSector i < 35 := by
  unfold inodeSector inodesPerSector maxInodes at *
  omega

section

variable {fs : HomeFs} {sector : Nat} {r : HomeInode}

theorem readSector_returns (h : sector < totalSectors) :
    Returns (readSector sector) fs (fs.disk sector) fs := by
  have hin : ¬totalSectors ≤ sector := by omega
  simp [readSector, failIf, hin]

theorem readSector_throws (hs : totalSectors ≤ sector) :
    Throws (readSector sector) fs (.err .ioError) fs := by
  unfold readSector
  rw [decide_eq_true hs]
  rfl

theorem readSector_ends (sector : Nat) : Ends (readSector sector) fs
    (fun buf fs' => sector < totalSectors ∧ buf = fs.disk sector ∧ fs' = fs)
    fun e fs' => e = .err .ioError ∧ fs' = fs := by
  by_cases hin : sector < totalSectors
  · exact (readSector_returns hin).ends ⟨hin, rfl, rfl⟩
  · exact (readSector_throws (Nat.not_lt.mp hin)).ends ⟨rfl, rfl⟩

theorem writeSector_returns (h : sector < totalSectors) (buf : Memory) :
    Returns (writeSector sector buf) fs () (fs.putSector sector buf) := by
  have hin : ¬totalSectors ≤ sector := by omega
  simp [writeSector, failIf, hin]

theorem writeSector_throws (hs : totalSectors ≤ sector) (buf : Memory) :
    Throws (writeSector sector buf) fs (.err .ioError) fs := by
  unfold writeSector
  rw [decide_eq_true hs]
  rfl

theorem inodeSector_lt (hi : i ≤ maxInodes) : inodeSector i < totalSectors := by
  have := (inodeSector_bounds hi).2
  unfold totalSectors
  omega

/-- Both `read_inode` and `write_inode` begin with a test of the number. -/
theorem ends_failIf_number {α : Type} {x : HomeM α} {Q : α → HomeFs → Prop}
    {E : HomeFault → HomeFs → Prop} (hx : 0 < i ∧ i ≤ maxInodes → Ends x fs Q E)
    (hE : ¬(0 < i ∧ i ≤ maxInodes) → E (.err .invalidArgument) fs) :
    Ends (do failIf (decide (i = 0) || decide (maxInodes < i)) (.err .invalidArgument); x)
      fs Q E := by
  rw [ends_bind, ends_failIf_iff]
  simp only [Bool.or_eq_false_iff, Bool.or_eq_true, decide_eq_false_iff_not, decide_eq_true_eq]
  exact ⟨fun hin => hx (by omega), fun hout => hE (by omega)⟩

theorem readInode_ends (i : Nat) : Ends (readInode i) fs
    (fun r fs' => (r = fs.record i ∧ fs' = fs) ∧ 0 < i ∧ i ≤ maxInodes)
    fun e fs' => (e = .err .invalidArgument ∧ fs' = fs) ∧ ¬(0 < i ∧ i ≤ maxInodes) := by
  refine ends_failIf_number (fun hi => ?_) fun hi => ⟨⟨rfl, rfl⟩, hi⟩
  exact (readSector_returns (inodeSector_lt hi.2)).seq ⟨⟨rfl, rfl⟩, hi⟩

/-- A record is read and its type tested. -/
theorem readTyped_ends (i fileType : Nat) (error : HomeFsError) : Ends (do
      let inode ← readInode i
      failIf (inode.fileType ≠ fileType) (.err error)
      pure inode) fs
    (fun r fs' => (r = fs.record i ∧ fs' = fs) ∧ (0 < i ∧ i ≤ maxInodes) ∧
      (fs.record i).fileType = fileType)
    fun e fs' => ((e = .err .invalidArgument ∨ e = .err error) ∧ fs' = fs) ∧
      ¬((0 < i ∧ i ≤ maxInodes) ∧ (fs.record i).fileType = fileType) := by
  refine (readInode_ends i).bind ?_ ?_
  · rintro r fs' ⟨⟨rfl, rfl⟩, hi⟩
    rw [ends_bind, ends_failIf_iff]
    refine ⟨fun htype => ⟨⟨rfl, rfl⟩, hi, by simpa using htype⟩,
      fun htype => ⟨⟨Or.inr rfl, rfl⟩, ?_⟩⟩
    rintro ⟨-, hsame⟩
    simp [hsame] at htype
  · rintro e fs' ⟨⟨rfl, rfl⟩, hi⟩
    exact ⟨⟨Or.inl rfl, rfl⟩, fun h => hi h.1⟩

/-- A record is read as a directory exactly if it is one. -/
theorem readDirectory_ends (i : Nat) : Ends (readDirectory i) fs
    (fun r fs' => (r = fs.record i ∧ fs' = fs) ∧ (0 < i ∧ i ≤ maxInodes) ∧
      (fs.record i).fileType = typeDirectory)
    fun e fs' => ((e = .err .invalidArgument ∨ e = .err .notDirectory) ∧ fs' = fs) ∧
      ¬((0 < i ∧ i ≤ maxInodes) ∧ (fs.record i).fileType = typeDirectory) :=
  readTyped_ends i typeDirectory .notDirectory

/-- The state after a record is written. -/
def putInode (fs : HomeFs) (r : HomeInode) : HomeFs :=
  fs.putSector (inodeSector r.inodeNum)
    (storeAt (fs.disk (inodeSector r.inodeNum)) (inodeOffset r.inodeNum) r.encode)

theorem writeInode_puts (r : HomeInode) : Ends (writeInode r) fs
    (fun _ fs' => (0 < r.inodeNum ∧ r.inodeNum ≤ maxInodes) ∧ fs' = fs.putInode r)
    fun e fs' => (e = .err .invalidArgument ∧ fs' = fs) ∧
      ¬(0 < r.inodeNum ∧ r.inodeNum ≤ maxInodes) := by
  refine ends_failIf_number (fun hnum => ?_) fun hnum => ⟨⟨rfl, rfl⟩, hnum⟩
  have hin := inodeSector_lt hnum.2
  exact (readSector_returns hin).seq ((writeSector_returns hin _).ends ⟨hnum, rfl⟩)

theorem writeInode_returns (hlo : 0 < r.inodeNum) (hhi : r.inodeNum ≤ maxInodes) :
    Returns (writeInode r) fs () (fs.putInode r) :=
  ((writeInode_puts r).mono (fun _ _ h => ⟨rfl, h.2⟩) fun _ _ h => h.2 ⟨hlo, hhi⟩).returns_eq

theorem writeInode_throws (h : ¬(0 < r.inodeNum ∧ r.inodeNum ≤ maxInodes)) :
    Throws (writeInode r) fs (.err .invalidArgument) fs := by
  obtain ⟨_, _, hrun, ⟨rfl, rfl⟩, -⟩ :=
    ((writeInode_puts r).imp (fun _ _ hput => h hput.1)).throws
  exact hrun

/-- Two records share a sector or not; in both cases the other one stays. -/
theorem record_putInode_of_ne (hslots : r.directBlocks.length = maxDirectBlocks)
    (hlo : 0 < r.inodeNum) (hi : 0 < i) (hne : i ≠ r.inodeNum) :
    (fs.putInode r).record i = fs.record i := by
  unfold record putInode
  by_cases hsame : inodeSector i = inodeSector r.inodeNum
  · -- another record of the same sector
    rw [hsame, putSector_disk]
    apply decode_keep
    intro a hlo' hhi'
    apply storeAt_outside
    rw [HomeInode.encode_length hslots]
    unfold inodeSector inodeOffset inodesPerSector inodeSize at *
    omega
  · rw [putSector_disk_ne fs hsame]

end

/-! ## Bitmaps -/

/-- The first number below `n` for which `f` returns something. -/
theorem findSome?_range {f : Nat → Option β} {b : β}
    (h : (List.range n).findSome? f = some b) : ∃ a < n, f a = some b ∧ ∀ x < a, f x = none := by
  induction n with
  | zero => cases h
  | succ n ih =>
    rw [List.range_succ, List.findSome?_append] at h
    cases hfirst : (List.range n).findSome? f with
    | some c =>
      rw [hfirst, Option.some_or] at h
      obtain ⟨a, ha, hfa, hnone⟩ := ih (hfirst.trans h)
      exact ⟨a, by omega, hfa, hnone⟩
    | none =>
      rw [hfirst, Option.none_or] at h
      refine ⟨n, by omega, by simpa using h, fun x hx => ?_⟩
      exact List.findSome?_eq_none_iff.mp hfirst x (List.mem_range.mpr hx)

/-- The scan returns the first accepted number whose bit is clear. -/
theorem firstFree_spec {bitmap : Memory} {bytes : Nat} {accepted : Nat → Bool}
    (h : firstFree bitmap bytes accepted = some n) :
    accepted n = true ∧ bitSet bitmap n = false ∧ ∀ m < n, accepted m = true →
      bitSet bitmap m = true := by
  unfold firstFree at h
  obtain ⟨byteIdx, -, hbyte, hbefore⟩ := findSome?_range h
  split at hbyte
  · cases hbyte
  · obtain ⟨bit, hbit8, hbit, hlower⟩ := findSome?_range hbyte
    have hn : accepted (byteIdx * 8 + bit) = true ∧ (bitmap byteIdx).getLsbD bit = false ∧
        byteIdx * 8 + bit = n := by
      grind
    obtain ⟨haccepted, hclear, rfl⟩ := hn
    refine ⟨haccepted, ?_, fun m hm hm' => ?_⟩
    · unfold bitSet
      rwa [show (byteIdx * 8 + bit) / 8 = byteIdx by omega, show (byteIdx * 8 + bit) % 8 =
        bit by omega]
    · -- the number is in an earlier byte, or an earlier bit of the same one
      have hsplit : m / 8 * 8 + m % 8 = m := by omega
      have hlt : m % 8 < 8 := Nat.mod_lt _ (by decide)
      unfold bitSet
      by_cases hsame : m / 8 = byteIdx
      · have hskip := hlower (m % 8) (by omega)
        rw [← hsame, hsplit] at hskip
        grind
      · have hskip := hbefore (m / 8) (by omega)
        split at hskip
        · rename_i hfull
          rw [hfull]
          exact (show ∀ k < 8, (0xFF : Byte).getLsbD k = true by decide) _ hlt
        · have hskip := List.findSome?_eq_none_iff.mp hskip (m % 8) (List.mem_range.mpr hlt)
          rw [hsplit] at hskip
          grind

/-- The name `a`. -/
def letterA : Str := ⟨[0x61], by decide⟩

end HomeFs

end PandaOS.Kernel
