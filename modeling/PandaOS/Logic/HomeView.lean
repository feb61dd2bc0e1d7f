import Mathlib.Data.List.TakeWhile
import PandaOS.Logic.HomeAlloc

/-!
# A view of the home file system

The directory operations depend on the bits of both bitmaps, on the inode records
and on the entries of the data blocks, and not on the counters of the superblock
nor on how sectors are laid out. Each primitive of the file system is described by
what it does to this view.
-/

namespace PandaOS.Kernel.HomeFs

open Lib Function

/-- What the directory operations depend on. -/
@[ext] structure View where
  firstDataBlock : Nat
  rootInode : Nat
  /-- The bits of the inode bitmap. -/
  used : Nat → Bool
  /-- The bits of the block bitmap. -/
  marked : Nat → Bool
  inode : Nat → HomeInode
  /-- The entries of a data block. -/
  entry : Nat → Nat → DirEntry

def view (fs : HomeFs) : View where
  firstDataBlock := fs.superblock.firstDataBlock
  rootInode := fs.superblock.rootInode
  used := bitSet fs.inodeBitmap
  marked := bitSet fs.blockBitmap
  inode i := if 0 < i ∧ i ≤ maxInodes then fs.record i else newRoot
  entry b j := DirEntry.decode (fs.disk (35 + b)) (j * dirEntrySize)

namespace View

/-- An entry is written at a place, an index in a block. -/
def put (v : View) (p : Nat × Nat) (e : DirEntry) : View :=
  { v with entry := update v.entry p.1 (update (v.entry p.1) p.2 e) }

/-- The entry at a place. -/
def at? (v : View) (p : Nat × Nat) : DirEntry := v.entry p.1 p.2

theorem at?_put (v : View) (p q : Nat × Nat) (e : DirEntry) :
    (v.put p e).at? q = if q = p then e else v.at? q := by
  obtain ⟨b, j⟩ := p
  obtain ⟨c, k⟩ := q
  by_cases hb : c = b
  · subst hb
    by_cases hj : k = j
    · subst hj
      simp [put, at?]
    · simp [put, at?, hj]
  · simp [put, at?, hb]

end View

variable {debug : Bool} {fs : HomeFs} {r : HomeInode} {b i j t d c : Nat}
  {E : HomeFault → HomeFs → Prop} {e : DirEntry} {p : Nat × Nat}

theorem view_inode (hlo : 0 < i) (hhi : i ≤ maxInodes) : (view fs).inode i = fs.record i :=
  if_pos ⟨hlo, hhi⟩

/-! ## Bitmaps -/

/-- Bitmaps, counters and the log change, the records and the data blocks do not. -/
theorem view_of_saved {fs' : HomeFs} (hdisk : ∀ i, 3 ≤ i → fs'.disk i = fs.disk i)
    (hfirst : fs'.superblock.firstDataBlock = fs.superblock.firstDataBlock)
    (hroot : fs'.superblock.rootInode = fs.superblock.rootInode) :
    view fs' = { view fs with
      used := bitSet fs'.inodeBitmap
      marked := bitSet fs'.blockBitmap } := by
  refine View.ext hfirst hroot rfl rfl ?_ ?_
  · funext i
    show (if 0 < i ∧ i ≤ maxInodes then fs'.record i else newRoot) = if _ then _ else _
    by_cases hi : 0 < i ∧ i ≤ maxInodes
    · rw [if_pos hi, if_pos hi]
      unfold record
      rw [hdisk _ (inodeSector_bounds hi.2).1]
    · rw [if_neg hi, if_neg hi]
  · funext b j
    show DirEntry.decode (fs'.disk (35 + b)) _ = DirEntry.decode (fs.disk (35 + b)) _
    rw [hdisk _ (by omega)]

theorem view_saveInodes (fs : HomeFs) (bitmap : Memory) (n : Nat) :
    view (fs.saveInodes bitmap n) = { view fs with used := bitSet bitmap } :=
  view_of_saved (fun _ hi => saveInodes_disk bitmap n hi) rfl rfl

theorem view_saveBlocks (fs : HomeFs) (bitmap : Memory) (n : Nat) :
    view (fs.saveBlocks bitmap n) = { view fs with marked := bitSet bitmap } :=
  view_of_saved (fun _ hi => saveBlocks_disk bitmap n hi) rfl rfl

theorem allocateInode_ends : Ends (allocateInode debug) fs
    (fun n fs' => (0 < n ∧ n < maxInodes) ∧ (view fs).used n = false ∧
      view fs' = { view fs with used := update (view fs).used n true })
    fun e fs' => e = .panic ∨ view fs' = view fs := by
  cases hnext : fs.nextInode with
  | none => exact (allocateInode_throws hnext).ends (.inr rfl)
  | some n =>
    obtain ⟨-, hbounds, hclear⟩ := nextInode_spec hnext
    refine (allocateInode_returns hnext).ends ⟨hbounds, hclear, ?_⟩
    exact (view_saveInodes fs _ _).trans (by rw [bitSet_setBit]; rfl)

theorem view_takeBlock (fs : HomeFs) (b : Nat) :
    view (fs.takeBlock b) = { view fs with marked := update (view fs).marked b true } :=
  (view_saveBlocks fs _ _).trans (by rw [bitSet_setBit]; rfl)

/-- The first clear block is handed out. -/
theorem allocateBlock_ends : Ends (allocateBlock debug) fs
    (fun b fs' => (b < maxDataBlocks ∧ (view fs).marked b = false ∧ ∀ c < b, (view fs).marked c =
      true) ∧ view fs' = { view fs with marked := update (view fs).marked b true })
    fun e fs' => e = .panic ∨ view fs' = view fs := by
  cases hnext : fs.nextBlock with
  | none => exact (allocateBlock_throws hnext).ends (.inr rfl)
  | some b =>
    exact (allocateBlock_returns hnext).ends ⟨(nextBlock_spec hnext).2, view_takeBlock fs b⟩

/-- An inode in use is freed, unless the counter overflows. -/
theorem freeInode_ends {n : Nat} (hlo : 0 < n) (hhi : n < maxInodes)
    (hused : (view fs).used n = true) :
    Ends (freeInode debug n) fs (fun _ fs' => view fs' =
      { view fs with used := update (view fs).used n false }) fun e _ => e = .panic := by
  refine (freeInode_exact n).mono ?_ ?_
  · rintro _ fs' ⟨-, rfl⟩
    exact (view_saveInodes fs _ _).trans (by rw [bitSet_clearBit]; rfl)
  · rintro e fs' (⟨-, hrefused⟩ | ⟨⟨rfl, -⟩, -⟩)
    · exact absurd ⟨hlo, hhi, hused⟩ hrefused
    · rfl

theorem freeBlock_ends (hb : b < maxDataBlocks) (hmarked : (view fs).marked b = true) :
    Ends (freeBlock debug b) fs (fun _ fs' => view fs' =
      { view fs with marked := update (view fs).marked b false }) fun e _ => e = .panic := by
  refine (freeBlock_exact b).mono ?_ ?_
  · rintro _ fs' ⟨-, rfl⟩
    exact (view_saveBlocks fs _ _).trans (by rw [bitSet_clearBit]; rfl)
  · rintro e fs' (⟨-, hrefused⟩ | ⟨⟨rfl, -⟩, -⟩)
    · exact absurd ⟨hb, hmarked⟩ hrefused
    · rfl

/-- The blocks of a directory are freed. -/
theorem freeBlocks_ends {slots : List Nat} (hnodup : slots.Nodup)
    (hslots : ∀ b ∈ slots, b < maxDataBlocks ∧ b ≠ 0 ∧ (view fs).marked b = true) :
    Ends (freeBlocks debug slots) fs (fun _ fs' => view fs' =
        { view fs with marked := fun b => (view fs).marked b && !decide (b ∈ slots) })
      fun e _ => e = .panic := by
  induction slots generalizing fs with
  | nil =>
    refine ends_pure.mpr (View.ext rfl rfl rfl ?_ rfl rfl)
    funext b
    simp
  | cons b rest ih =>
    obtain ⟨hb, hzero, hmarked⟩ := hslots b List.mem_cons_self
    obtain ⟨hout, hrest⟩ := List.nodup_cons.mp hnodup
    unfold freeBlocks
    rw [if_pos hzero]
    refine (freeBlock_ends hb hmarked).seq (fun _ fs' hview => ?_)
    have hne : ∀ c ∈ rest, c ≠ b := by
      rintro c hc rfl
      exact hout hc
    refine (ih hrest fun c hc => ?_).imp (fun _ fs'' hview' => ?_)
    · have hc' := hslots c (List.mem_cons_of_mem _ hc)
      rw [hview]
      exact ⟨hc'.1, hc'.2.1, (update_of_ne (hne c hc) _ _).trans hc'.2.2⟩
    · rw [hview', hview]
      refine View.ext rfl rfl rfl ?_ rfl rfl
      funext c
      by_cases hcb : c = b
      · subst hcb
        simp
      · simp [hcb]

/-! ## Records -/

theorem readInode_returns (hlo : 0 < i) (hhi : i ≤ maxInodes) :
    Returns (readInode i) fs ((view fs).inode i) fs := by
  rw [view_inode hlo hhi]
  exact ((readInode_ends i).mono (fun _ _ h => h.1) fun _ _ h => h.2 ⟨hlo, hhi⟩).returns_eq

theorem record_putInode (hr : r.Fits) : (fs.putInode r).record r.inodeNum = r := by
  unfold record putInode
  rw [putSector_disk]
  simpa using HomeInode.decode_of_holds hr (holds_storeAt _ _ r.encode)

theorem putInode_disk (hhi : r.inodeNum ≤ maxInodes) {sector : Nat} (hs : 35 ≤ sector) :
    (fs.putInode r).disk sector = fs.disk sector := by
  have hsector := inodeSector_bounds hhi
  exact putSector_disk_ne fs (by omega) _

theorem view_putInode (hr : r.Fits) (hlo : 0 < r.inodeNum) (hhi : r.inodeNum ≤ maxInodes) :
    view (fs.putInode r) = { view fs with inode := update (view fs).inode r.inodeNum r } := by
  refine View.ext rfl rfl rfl rfl ?_ ?_
  · funext i
    by_cases hi : 0 < i ∧ i ≤ maxInodes
    · rw [view_inode hi.1 hi.2]
      by_cases hnum : i = r.inodeNum
      · subst hnum
        rw [record_putInode hr]
        simp
      · show _ = update (view fs).inode r.inodeNum r i
        rw [update_of_ne hnum, view_inode hi.1 hi.2, record_putInode_of_ne hr.slots hlo hi.1 hnum]
    · have hnum : i ≠ r.inodeNum := by
        rintro rfl
        exact hi ⟨hlo, hhi⟩
      show (if 0 < i ∧ i ≤ maxInodes then _ else newRoot) = update (view fs).inode r.inodeNum r i
      rw [update_of_ne hnum, if_neg hi]
      exact (if_neg hi).symm
  · funext b j
    show DirEntry.decode ((fs.putInode r).disk (35 + b)) _ = DirEntry.decode (fs.disk (35 + b)) _
    rw [putInode_disk hhi (by omega)]

theorem writeInode_ends (hr : r.Fits) (hlo : 0 < r.inodeNum) (hhi : r.inodeNum ≤ maxInodes) :
    Ends (writeInode r) fs
      (fun _ fs' => view fs' = { view fs with inode := update (view fs).inode r.inodeNum r }) E :=
  (writeInode_returns hlo hhi).ends (view_putInode hr hlo hhi)

/-! ## Data blocks -/

theorem dataSector_lt (hb : b < maxDataBlocks) : 35 + b < totalSectors := by
  unfold maxDataBlocks totalSectors at *
  omega

theorem view_putData (b : Nat) (buf : Memory) : view (fs.putSector (35 + b) buf) =
      { view fs with
        entry := update (view fs).entry b fun j => DirEntry.decode buf (j * dirEntrySize) } := by
  refine View.ext rfl rfl rfl rfl ?_ ?_
  · funext i
    show (if 0 < i ∧ i ≤ maxInodes then _ else _) = if 0 < i ∧ i ≤ maxInodes then _ else _
    by_cases hi : 0 < i ∧ i ≤ maxInodes
    · rw [if_pos hi, if_pos hi]
      unfold record
      have hsector := inodeSector_bounds hi.2
      rw [putSector_disk_ne fs (by omega)]
    · rw [if_neg hi, if_neg hi]
  · funext c j
    show DirEntry.decode ((fs.putSector _ _).disk (35 + c)) _ = _
    by_cases hc : c = b
    · subst hc
      rw [putSector_disk]
      simp
    · rw [putSector_disk_ne fs (by omega)]
      show _ = update (view fs).entry b _ c j
      rw [update_of_ne hc]
      rfl

theorem blockSector_returns (hfirst : (view fs).firstDataBlock = 35) (hb : b < maxDataBlocks) :
    Returns (blockSector debug b) fs (35 + b) fs := by
  have hfirst : fs.superblock.firstDataBlock = 35 := hfirst
  have hlt : 35 + b < 2 ^ 32 := by
    have := dataSector_lt hb
    unfold totalSectors at this
    omega
  unfold blockSector
  refine (get_returns fs).bind ?_
  unfold addBits
  rw [hfirst, show (debug && decide (2 ^ 32 ≤ 35 + b)) = false by
    simp only [Bool.and_eq_false_iff, decide_eq_false_iff_not]; omega]
  refine (pure_returns () fs).bind ?_
  rw [Nat.mod_eq_of_lt hlt]
  exact pure_returns _ fs

theorem entryGuard (hj : j < entriesPerBlock) :
    decide (blockSize < j * dirEntrySize + dirEntrySize) = false := by
  unfold blockSize dirEntrySize entriesPerBlock at *
  simp only [decide_eq_false_iff_not]
  omega

theorem readDirEntry_returns (hb : b < maxDataBlocks) (hj : j < entriesPerBlock) :
    Returns (readDirEntry (35 + b) j) fs ((view fs).entry b j) fs := by
  unfold readDirEntry
  refine (readSector_returns (dataSector_lt hb)).bind ?_
  rw [entryGuard hj]
  exact (pure_returns () fs).bind (pure_returns _ fs)

theorem writeDirEntry_ends (hb : b < maxDataBlocks) (hj : j < entriesPerBlock) (he : e.Fits) :
    Ends (writeDirEntry (35 + b) j e) fs (fun _ fs' => view fs' = (view fs).put (b, j) e) E := by
  have hrun : Returns (writeDirEntry (35 + b) j e) fs () (fs.putSector (35 + b)
      (storeAt (fs.disk (35 + b)) (j * dirEntrySize) e.encode)) := by
    unfold writeDirEntry
    refine (readSector_returns (dataSector_lt hb)).bind ?_
    rw [entryGuard hj]
    exact (pure_returns () fs).bind (writeSector_returns (dataSector_lt hb) _)
  refine hrun.ends ?_
  rw [view_putData]
  refine View.ext rfl rfl rfl rfl rfl ?_
  show update _ b _ = update _ b _
  congr 1
  funext k
  by_cases hk : k = j
  · subst hk
    rw [update_self]
    exact DirEntry.decode_of_holds he (holds_storeAt _ _ e.encode)
  · rw [update_of_ne hk]
    apply DirEntry.decode_keep
    intro a hlo hhi
    apply storeAt_outside
    rw [DirEntry.encode_length he.name]
    unfold dirEntrySize at *
    omega

/-! ## Loops over a directory -/

/-- The places of a list of blocks, in the order the loops visit them. -/
def places (slots : List Nat) : List (Nat × Nat) :=
  slots.flatMap fun b => (List.range entriesPerBlock).map fun j => (b, j)

theorem mem_places {slots : List Nat} : p ∈ places slots ↔ p.1 ∈ slots ∧ p.2 < entriesPerBlock := by
  obtain ⟨b, j⟩ := p
  simp only [places, List.mem_flatMap, List.mem_map, List.mem_range, Prod.mk.injEq]
  constructor
  · rintro ⟨c, hc, k, hk, rfl, rfl⟩
    exact ⟨hc, hk⟩
  · rintro ⟨hb, hj⟩
    exact ⟨b, hb, j, hj, rfl, rfl⟩

theorem nodup_places {slots : List Nat} (h : slots.Nodup) : (places slots).Nodup := by
  refine List.nodup_flatMap.mpr ⟨fun b _ => ?_, h.imp fun {b c} hne => ?_⟩
  · exact List.nodup_range.map fun j k hjk => (Prod.mk.inj hjk).2
  · rw [Function.onFun, List.disjoint_left]
    rintro p hp hp'
    obtain ⟨j, -, rfl⟩ := List.mem_map.mp hp
    obtain ⟨k, -, heq⟩ := List.mem_map.mp hp'
    exact hne (Prod.mk.inj heq).1.symm

/-- A loop over places that leaves the state alone until it is done. -/
def Walk (fs : HomeFs) (f : Nat → Nat → DirEntry → β → HomeM (ForInStep β))
    (Q : ForInStep β → HomeFs → Prop) (E : HomeFault → HomeFs → Prop) : List (Nat × Nat) → β → Prop
  | [], acc => Q (.yield acc) fs
  | p :: rest, acc => Ends (f (35 + p.1) p.2 ((view fs).at? p) acc) fs (fun r fs' =>
      match r with
      | .done acc => Q (.done acc) fs'
      | .yield acc => fs' = fs ∧ Walk fs f Q E rest acc) E

section

variable {β : Type} {f : Nat → Nat → DirEntry → β → HomeM (ForInStep β)}
  {Q : ForInStep β → HomeFs → Prop} {E : HomeFault → HomeFs → Prop}

theorem ends_forEntries (hb : b < maxDataBlocks) {indices : List Nat}
    (hindices : ∀ j ∈ indices, j < entriesPerBlock) {l : List (Nat × Nat)} {acc : β}
    (h : Walk fs f Q E (indices.map (fun j => (b, j)) ++ l) acc) :
    Ends (forEntries (35 + b) f indices acc) fs (fun r fs' =>
      match r with
      | .done acc => Q (.done acc) fs'
      | .yield acc => fs' = fs ∧ Walk fs f Q E l acc) E := by
  induction indices generalizing acc with
  | nil => exact ⟨rfl, h⟩
  | cons j js ih =>
    unfold forEntries
    refine (readDirEntry_returns hb (hindices j List.mem_cons_self)).seq ?_
    refine .seq h (fun r fs' hr => ?_)
    cases r with
    | done acc => exact hr
    | yield acc =>
      obtain ⟨rfl, hrest⟩ := hr
      exact ih (fun k hk => hindices k (List.mem_cons_of_mem _ hk)) hrest

theorem ends_forBlocks {slots : List Nat} (hfirst : (view fs).firstDataBlock = 35)
    (hslots : ∀ b ∈ slots, b < maxDataBlocks ∧ b ≠ 0) (stopAtZero : Bool) {acc : β}
    (h : Walk fs f Q E (places slots) acc) :
    Ends (forBlocks debug stopAtZero f slots acc) fs Q E := by
  induction slots generalizing acc with
  | nil => exact h
  | cons b rest ih =>
    obtain ⟨hb, hzero⟩ := hslots b List.mem_cons_self
    unfold forBlocks
    rw [if_neg (fun hstop => hzero hstop.2)]
    refine (blockSector_returns hfirst hb).seq ?_
    rw [ends_bind]
    have hblock := ends_forEntries (l := places rest) hb
      (fun j hj => List.mem_range.mp hj) (by simpa [places] using h)
    refine hblock.imp (fun r fs' hr => ?_)
    cases r with
    | done acc => exact hr
    | yield acc =>
      obtain ⟨rfl, hrest⟩ := hr
      exact ih (fun c hc => hslots c (List.mem_cons_of_mem _ hc)) hrest

/-- A loop that looks for a place. -/
theorem walk_find {t : Nat × Nat → Bool} {ps : List (Nat × Nat)}
    {acc : β} (hskip : ∀ p ∈ ps, t p = false →
      Returns (f (35 + p.1) p.2 ((view fs).at? p) acc) fs (.yield acc) fs)
    (hstop : ∀ p, ps.find? t = some p → Ends (f (35 + p.1) p.2 ((view fs).at? p) acc) fs
      (fun r fs' => ∃ acc, r = .done acc ∧ Q r fs') E)
    (hnone : ps.find? t = none → Q (.yield acc) fs) : Walk fs f Q E ps acc := by
  induction ps with
  | nil => exact hnone rfl
  | cons p rest ih =>
    cases hp : t p with
    | true =>
      refine (hstop p (List.find?_cons_of_pos hp)).imp ?_
      rintro _ fs' ⟨acc, rfl, hQ⟩
      exact hQ
    | false =>
      have hnext : (p :: rest).find? t = rest.find? t :=
        List.find?_cons_of_neg (by simp [hp])
      rw [hnext] at hstop hnone
      exact (hskip p List.mem_cons_self hp).ends
        ⟨rfl, ih (fun q hq => hskip q (List.mem_cons_of_mem _ hq)) hstop hnone⟩

end

/-! ## Directories -/

theorem entryName_returns (he : e.Readable) : Returns (entryName e) fs e.bytes fs := by
  have hshort : ¬maxFilenameLen < e.nameLen := Nat.not_lt.mpr he.short
  unfold entryName
  simp only [hshort, decide_false]
  refine (pure_returns () fs).bind ?_
  have hvalid : validUtf8 (e.name.take e.nameLen) = true := he.valid
  rw [hvalid]
  exact (pure_returns () fs).bind (pure_returns _ fs)

/-- The record of a directory with one more block. -/
def grown (r : HomeInode) (b : Nat) : HomeInode :=
  { r with
    directBlocks := r.directBlocks.set r.blocksUsed b
    blocksUsed := r.blocksUsed + 1
    size := (r.blocksUsed + 1) * blockSize }

theorem grown_fits (hr : r.Fits) (hb : b < maxDataBlocks)
    (hfew : r.blocksUsed < maxDirectBlocks) : (grown r b).Fits := by
  unfold maxDirectBlocks at hfew
  refine { hr with size := ?_, blocksUsed := ?_, slots := ?_, directBlocks := ?_ }
  · show (r.blocksUsed + 1) * blockSize < 256 ^ 4
    unfold blockSize
    omega
  · show r.blocksUsed + 1 < 256 ^ 4
    omega
  · exact List.length_set.trans hr.slots
  · intro c hc
    rcases List.mem_or_eq_of_mem_set hc with hc | rfl
    · exact hr.directBlocks c hc
    · unfold maxDataBlocks totalSectors at hb
      omega

namespace View

variable (v : View) {name : List Byte} {p : Nat × Nat}

/-- The blocks of an inode. -/
def slots (d : Nat) : List Nat := usedSlots (v.inode d)

/-- The places of a directory. -/
def places (d : Nat) : List (Nat × Nat) := HomeFs.places (v.slots d)

/-- A directory its readers get through. -/
structure Directory (d : Nat) : Prop where
  pos : 0 < d
  le : d ≤ maxInodes
  fileType : (v.inode d).fileType = typeDirectory
  inodeNum : (v.inode d).inodeNum = d
  fits : (v.inode d).Fits
  few : (v.inode d).blocksUsed ≤ maxDirectBlocks
  slots : ∀ b ∈ v.slots d, b < maxDataBlocks ∧ b ≠ 0
  readable : ∀ p ∈ v.places d, (v.at? p).inode ≠ 0 → (v.at? p).Readable

/-- What the loops over a directory rely on. -/
structure Listing (d : Nat) : Prop where
  pos : 0 < d
  le : d ≤ maxInodes
  fileType : (v.inode d).fileType = typeDirectory
  inodeNum : (v.inode d).inodeNum = d
  fits : (v.inode d).Fits
  slots : ∀ b ∈ v.slots d, b < maxDataBlocks ∧ b ≠ 0
  readable : ∀ p ∈ v.places d, (v.at? p).inode ≠ 0 → (v.at? p).Readable

/-- A live entry with the name. -/
def isNamed (name : List Byte) (p : Nat × Nat) : Bool :=
  (v.at? p).inode ≠ 0 && (v.at? p).bytes = name

/-- The place of a name. -/
def find (d : Nat) (name : List Byte) : Option (Nat × Nat) := (v.places d).find? (v.isNamed name)

variable {v}

theorem isNamed_iff : v.isNamed name p = true ↔ (v.at? p).inode ≠ 0 ∧ (v.at? p).bytes = name := by
  unfold View.isNamed
  simp

theorem find_eq_some (h : v.find d name = some p) :
    p ∈ v.places d ∧ (v.at? p).inode ≠ 0 ∧ (v.at? p).bytes = name :=
  ⟨List.mem_of_find?_eq_some h, isNamed_iff.mp (List.find?_some h)⟩

theorem find_eq_none (h : v.find d name = none)
    (hp : p ∈ v.places d) (hlive : (v.at? p).inode ≠ 0) : (v.at? p).bytes ≠ name :=
  fun hname => List.find?_eq_none.mp h p hp (isNamed_iff.mpr ⟨hlive, hname⟩)

variable (v)

/-- A block is appended to a directory. -/
def grow (d b : Nat) : View :=
  { v with
    marked := update v.marked b true
    inode := update v.inode d (grown (v.inode d) b)
    entry := update v.entry b fun _ => DirEntry.empty }

/-- What `add_dir_entry` writes to: a free place of the directory, in one of its
blocks or in a new one. -/
inductive Room (d : Nat) : View → Nat × Nat → Prop
  | hole {p : Nat × Nat} : p ∈ v.places d → (v.at? p).inode = 0 → Room d v p
  | block {b : Nat} : b < maxDataBlocks → v.marked b = false → (∀ c < b, v.marked c = true) →
    (v.inode d).blocksUsed < maxDirectBlocks → Room d (v.grow d b) (b, 0)

end View

/-- The live entries are those at the directory's places. -/
theorem liveEntries_places (hfirst : (view fs).firstDataBlock = 35) (hlo : 0 < d)
    (hhi : d ≤ maxInodes) (hslots : ∀ b ∈ (view fs).slots d, b < maxDataBlocks ∧ b ≠ 0) :
    fs.liveEntries d = (((view fs).places d).filter fun p => ((view fs).at? p).inode ≠ 0).map
      (view fs).at? := by
  have hrecord : fs.record d = (view fs).inode d := (view_inode hlo hhi).symm
  have hfirst : fs.superblock.firstDataBlock = 35 := hfirst
  have htake : (usedSlots (fs.record d)).takeWhile (· ≠ 0) = (view fs).slots d := by
    rw [hrecord]
    refine List.takeWhile_eq_self_iff.mpr fun b hb => ?_
    simpa using (hslots b hb).2
  have hfilter : (((view fs).places d).filter fun p => ((view fs).at? p).inode ≠ 0).map
      (view fs).at? = (((view fs).places d).map (view fs).at?).filter (·.inode ≠ 0) := by
    rw [List.filter_map]
    rfl
  unfold liveEntries
  rw [htake, hfilter]
  unfold View.places places
  rw [List.map_flatMap, List.filter_flatMap]
  refine List.flatMap_congr fun b hb => ?_
  have hlt : 35 + b < 2 ^ 32 := by
    have := (hslots b hb).1
    unfold maxDataBlocks totalSectors at this
    omega
  rw [hfirst, Nat.mod_eq_of_lt hlt, List.map_map]
  rfl

theorem View.Directory.listing {v : View} (hd : v.Directory d) : v.Listing d :=
  { hd with }

section

variable {d : Nat} {name : Str} (hfirst : (view fs).firstDataBlock = 35) (hd : (view fs).Listing d)
include hfirst hd

omit hfirst in
theorem readDirectory_returns : Returns (readDirectory d) fs ((view fs).inode d) fs := by
  have htype : ¬((view fs).inode d).fileType ≠ typeDirectory := not_not.mpr hd.fileType
  unfold readDirectory
  refine (readInode_returns hd.pos hd.le).bind ?_
  simp only [htype, decide_false]
  exact (pure_returns () fs).bind (pure_returns _ fs)

/-- The loops that look for a name: entries without it are skipped. -/
theorem named_ends {β : Type} {k : Nat → Nat → DirEntry → β → HomeM (ForInStep β)}
    {Q : ForInStep β → HomeFs → Prop} {acc : β}
    (hstop : ∀ p, (view fs).find d name.bytes = some p →
      Ends (k (35 + p.1) p.2 ((view fs).at? p) acc) fs (fun r fs' => ∃ acc, r = .done acc ∧
        Q r fs') E)
    (hnone : (view fs).find d name.bytes = none → Q (.yield acc) fs) :
    Ends (forBlocks debug true (fun sector index entry acc => do
      if entry.inode = 0 then pure (.yield acc)
      else
        let entryName ← entryName entry
        if entryName = name.bytes then k sector index entry acc else pure (.yield acc))
      (usedSlots ((view fs).inode d)) acc) fs Q E := by
  refine ends_forBlocks hfirst hd.slots true
    (walk_find (t := (view fs).isNamed name.bytes) ?_ ?_ hnone)
  · intro p hp htest
    split
    · exact pure_returns _ fs
    · rename_i hlive
      refine (entryName_returns (hd.readable p hp hlive)).bind ?_
      rw [if_neg (by simpa [View.isNamed, hlive] using htest)]
      exact pure_returns _ fs
  · intro p hfind
    obtain ⟨hp, hlive, hbytes⟩ := View.find_eq_some hfind
    rw [if_neg hlive]
    refine (entryName_returns (hd.readable p hp hlive)).seq ?_
    rw [if_pos hbytes]
    exact hstop p hfind

/-- The first entry with the name is found. -/
theorem lookupInDir_listing : Ends (lookupInDir debug d name) fs
    (fun c fs' => fs' = fs ∧ name.bytes.length ≤ maxFilenameLen ∧
      ∃ p, (view fs).find d name.bytes = some p ∧ ((view fs).at? p).inode = c)
    fun e fs' => fs' = fs ∧ (e = .err .invalidArgument ∧ maxFilenameLen < name.bytes.length ∨
      e = .err .notFound ∧ (view fs).find d name.bytes = none) := by
  unfold lookupInDir
  rw [ends_bind, ends_failIf_iff]
  refine ⟨fun hlen => ?_, fun hlong => ⟨rfl, .inl ⟨rfl, by simpa using hlong⟩⟩⟩
  have hshort : name.bytes.length ≤ maxFilenameLen := by simpa using hlen
  refine (readDirectory_returns hd).seq ?_
  rw [ends_bind]
  refine named_ends hfirst hd (fun p hfind => ?_) fun hnone => ⟨rfl, .inr ⟨rfl, hnone⟩⟩
  exact ⟨_, rfl, rfl, hshort, p, hfind, rfl⟩

theorem isInDir_returns (hshort : name.bytes.length ≤ maxFilenameLen) :
    Returns (isInDir debug d name) fs ((view fs).find d name.bytes).isSome fs := by
  refine Ends.returns_eq ?_
  unfold isInDir
  rw [ends_tryCatch]
  refine (lookupInDir_listing hfirst hd).bind ?_ ?_
  · rintro c fs' ⟨rfl, -, p, hfind, -⟩
    rw [hfind]
    exact ⟨rfl, rfl⟩
  · rintro e fs' ⟨rfl, ⟨rfl, hlong⟩ | ⟨rfl, hnone⟩⟩
    · omega
    · rw [hnone]
      exact ⟨rfl, rfl⟩

/-- The first entry with the name is cleared. -/
theorem removeDirEntry_listing : Ends (removeDirEntry debug d name) fs
    (fun _ fs' => ∃ p, (view fs).find d name.bytes = some p ∧
      view fs' = (view fs).put p DirEntry.empty)
    fun e fs' => fs' = fs ∧ e = .err .notFound ∧ (view fs).find d name.bytes = none := by
  unfold removeDirEntry
  refine (readDirectory_returns hd).seq ?_
  rw [ends_bind]
  refine named_ends hfirst hd (fun p hfind => ?_) fun hnone => ⟨rfl, rfl, hnone⟩
  obtain ⟨hslot, hindex⟩ := mem_places.mp (View.find_eq_some hfind).1
  refine (writeDirEntry_ends (hd.slots _ hslot).1 hindex DirEntry.empty_fits).seq
    (fun _ fs' hview => ?_)
  exact ⟨_, rfl, p, hfind, hview⟩

/-- A new name gets a free place, or none can be made. -/
theorem addDirEntry_listing (hc : c < 256 ^ 4) (ht : t < 256) :
    Ends (addDirEntry debug d name c t) fs
      (fun _ fs' => (view fs).find d name.bytes = none ∧ name.bytes.length ≤ maxFilenameLen ∧
        ∃ w p, (view fs).Room d w p ∧ view fs' = w.put p (DirEntry.named c name.bytes t))
      fun e fs' => fs' = fs ∧ (e = .err .invalidArgument ∧
        (name.bytes = [] ∨ maxFilenameLen < name.bytes.length) ∨
          e = .err .alreadyExists ∧ (view fs).find d name.bytes ≠ none ∨
          e = .err .noSpace ∧ (view fs).find d name.bytes = none ∧
            (∀ p ∈ (view fs).places d, ((view fs).at? p).inode ≠ 0) ∧
            (maxDirectBlocks ≤ ((view fs).inode d).blocksUsed ∨ fs.nextBlock = none)) := by
  unfold addDirEntry
  rw [ends_bind, ends_failIf_iff]
  refine ⟨fun hlen => ?_, fun hbad => ⟨rfl, Or.inl ⟨rfl, by simpa using hbad⟩⟩⟩
  have hshort : name.bytes.length ≤ maxFilenameLen := by
    simp only [Bool.or_eq_false_iff, decide_eq_false_iff_not] at hlen
    omega
  have hfits := DirEntry.named_fits hc hshort ht
  refine (isInDir_returns hfirst hd hshort).seq ?_
  rw [ends_bind, ends_failIf_iff]
  refine ⟨fun hnot => ?_, fun hthere => ⟨rfl, Or.inr (Or.inl ⟨rfl, by
    simpa [Option.isSome_iff_ne_none] using hthere⟩)⟩⟩
  have hnone : (view fs).find d name.bytes = none := by simpa using hnot
  refine (readDirectory_returns hd).seq ?_
  dsimp only
  rw [ends_bind]
  refine ends_forBlocks hfirst hd.slots false
    (walk_find (t := fun p => decide (((view fs).at? p).inode = 0)) ?_ ?_ ?_)
  · intro p hp htest
    rw [if_neg (by simpa using htest)]
    exact pure_returns _ fs
  · intro p hfind
    have hp := List.mem_of_find?_eq_some hfind
    have hdead : ((view fs).at? p).inode = 0 := by simpa using List.find?_some hfind
    obtain ⟨hslot, hindex⟩ := mem_places.mp hp
    rw [if_pos hdead]
    refine (writeDirEntry_ends (hd.slots _ hslot).1 hindex hfits).seq (fun _ fs'' hview => ?_)
    exact ⟨_, rfl, hnone, hshort, _, p, .hole hp hdead, hview⟩
  · intro hfull
    -- no hole is left: the entry is the first of a new block
    have hfull : ∀ p ∈ (view fs).places d, ((view fs).at? p).inode ≠ 0 := fun p hp => by
      simpa using List.find?_eq_none.mp hfull p hp
    rw [ends_bind, ends_failIf_iff]
    refine ⟨fun hfew => ?_, fun hmany =>
      ⟨rfl, Or.inr (Or.inr ⟨rfl, hnone, hfull, Or.inl (by simpa using hmany)⟩)⟩⟩
    have hfew : ((view fs).inode d).blocksUsed < maxDirectBlocks := by simpa using hfew
    rw [ends_bind]
    cases hnext : fs.nextBlock with
    | none =>
      exact (allocateBlock_throws hnext).ends ⟨rfl, Or.inr (Or.inr ⟨rfl, hnone, hfull, Or.inr rfl⟩)⟩
    | some b =>
    obtain ⟨-, hb, hclear, hleast⟩ := nextBlock_spec hnext
    have hview1 := view_takeBlock fs b
    refine (allocateBlock_returns hnext).ends ?_
    refine (blockSector_returns (by rw [hview1]; exact hfirst) hb).seq ?_
    refine (writeSector_returns (dataSector_lt hb) zeroSector).seq ?_
    refine (writeDirEntry_ends hb (by decide) hfits).seq (fun _ fs2 hview2 => ?_)
    refine (writeInode_ends (grown_fits hd.fits hb hfew) ?_ ?_).imp (fun _ fs3 hview3 => ?_)
    · exact hd.inodeNum.symm ▸ hd.pos
    · exact hd.inodeNum.symm ▸ hd.le
    · refine ⟨hnone, hshort, _, _, .block hb hclear hleast hfew, ?_⟩
      rw [hview3, hview2, view_putData, hview1]
      refine View.ext rfl rfl rfl rfl ?_ ?_
      · show update (view fs).inode (grown ((view fs).inode d) b).inodeNum _ = update _ d _
        rw [show (grown ((view fs).inode d) b).inodeNum = d from hd.inodeNum]
      · simp only [View.put, View.grow, DirEntry.decode_zero]

/-- Every live entry is listed. -/
theorem readdir_returns (htypes : ∀ p ∈ (view fs).places d, ((view fs).at? p).inode ≠ 0 →
      ((view fs).at? p).fileType = typeFile ∨ ((view fs).at? p).fileType = typeDirectory) :
    Returns (readdir debug d) fs
      ((((view fs).places d).filter fun p => ((view fs).at? p).inode ≠ 0).map
      fun p => (((view fs).at? p).inode, ((view fs).at? p).bytes, ((view fs).at? p).fileType))
        fs := by
  refine Ends.returns_eq ?_
  unfold readdir
  refine (readDirectory_returns hd).seq ?_
  rw [ends_bind]
  -- the walk appends to what it has found so far
  have hwalk : ∀ (ps : List (Nat × Nat)) (acc : List (Nat × List Byte × Nat)),
      (∀ p ∈ ps, p ∈ (view fs).places d) → Walk fs (fun _ _ entry acc => do
        if entry.inode = 0 then pure (.yield acc)
        else
          let name ← entryName entry
          failIf (entry.fileType ≠ typeFile && entry.fileType ≠ typeDirectory) (.err .corrupted)
          pure (.yield (acc ++ [(entry.inode, name, entry.fileType)])))
        (fun r fs' => r = .yield (acc ++ (ps.filter fun p => ((view fs).at? p).inode ≠ 0).map
          fun p => (((view fs).at? p).inode, ((view fs).at? p).bytes, ((view fs).at? p).fileType)) ∧
          fs' = fs) (fun _ _ => False) ps acc := by
    intro ps
    induction ps with
    | nil =>
      intro acc _
      exact ⟨by simp, rfl⟩
    | cons p rest ih =>
      intro acc hps
      have hp := hps p List.mem_cons_self
      have hrest := fun acc => ih acc fun q hq => hps q (List.mem_cons_of_mem _ hq)
      unfold Walk
      split
      · rename_i hdead
        refine ends_pure.mpr ⟨rfl, ?_⟩
        simpa [hdead] using hrest acc
      · rename_i hlive
        have hguard : (decide (((view fs).at? p).fileType ≠ typeFile) &&
            decide (((view fs).at? p).fileType ≠ typeDirectory)) = false := by
          simpa [or_iff_not_imp_left] using htypes p hp hlive
        refine (entryName_returns (hd.readable p hp hlive)).seq ?_
        rw [hguard, ends_bind, ends_failIf_false]
        refine ends_pure.mpr ⟨rfl, ?_⟩
        have hnext :=
          hrest (acc ++
            [(((view fs).at? p).inode, ((view fs).at? p).bytes, ((view fs).at? p).fileType)])
        simpa [hlive] using hnext
  refine (ends_forBlocks hfirst hd.slots true (hwalk _ [] fun _ hp => hp)).imp ?_
  rintro r fs' ⟨rfl, rfl⟩
  exact ⟨rfl, rfl⟩

end

section

variable {d : Nat} {name : Str} (hfirst : (view fs).firstDataBlock = 35)
  (hd : (view fs).Directory d)
include hfirst hd

theorem lookupInDir_ends : Ends (lookupInDir debug d name) fs
    (fun c fs' => fs' = fs ∧ ∃ p, (view fs).find d name.bytes = some p ∧
      ((view fs).at? p).inode = c)
    fun e fs' => fs' = fs ∧ e ≠ .panic ∧
      (name.bytes.length ≤ maxFilenameLen → (view fs).find d name.bytes = none) := by
  refine (lookupInDir_listing hfirst hd.listing).mono
    (fun c fs' ⟨hfs, _, hfound⟩ => ⟨hfs, hfound⟩) ?_
  rintro e fs' ⟨hfs, ⟨rfl, hlong⟩ | ⟨rfl, hnone⟩⟩
  · exact ⟨hfs, by simp, fun hshort => by omega⟩
  · exact ⟨hfs, by simp, fun _ => hnone⟩

theorem isInDir_ends : Ends (isInDir debug d name) fs
    (fun found fs' => fs' = fs ∧ (found = false → name.bytes.length ≤ maxFilenameLen →
      (view fs).find d name.bytes = none))
    fun _ _ => False := by
  unfold isInDir
  rw [ends_tryCatch]
  refine (lookupInDir_ends hfirst hd).bind ?_ ?_
  · rintro c fs' ⟨rfl, -⟩
    exact ⟨rfl, fun h => by cases h⟩
  · rintro e fs' ⟨rfl, hpanic, hnone⟩
    cases e with
    | err e => exact ⟨rfl, fun _ => hnone⟩
    | panic => exact absurd rfl hpanic

variable {E : HomeFault → HomeFs → Prop}

theorem removeDirEntry_ends (hfind : (view fs).find d name.bytes = some p)
    : Ends (removeDirEntry debug d name) fs
      (fun _ fs' => view fs' = (view fs).put p DirEntry.empty) E := by
  refine (removeDirEntry_listing hfirst hd.listing).mono ?_ ?_
  · rintro _ fs' ⟨q, hq, hview⟩
    rw [hfind] at hq
    cases hq
    exact hview
  · rintro e fs' ⟨-, -, hnone⟩
    rw [hfind] at hnone
    cases hnone

/-- `rmdir` counts the live entries. -/
theorem count_ends : Ends (forBlocks debug true (fun _ _ entry acc =>
      if entry.inode = 0 then pure (.yield acc) else pure (.yield (acc + 1)))
      (usedSlots ((view fs).inode d)) 0) fs
      (fun r fs' => r = .yield (((view fs).places d).countP fun p => ((view fs).at? p).inode ≠ 0) ∧
        fs' = fs) E := by
  refine ends_forBlocks hfirst hd.slots true ?_
  have hwalk : ∀ (ps : List (Nat × Nat)) (n : Nat), Walk fs (fun _ _ entry acc =>
      if entry.inode = 0 then pure (.yield acc) else pure (.yield (acc + 1)))
      (fun r fs' => r = .yield (n + ps.countP fun p => ((view fs).at? p).inode ≠ 0) ∧
        fs' = fs) E ps n := by
    intro ps
    induction ps with
    | nil => exact fun n => ⟨rfl, rfl⟩
    | cons p rest ih =>
      intro n
      unfold Walk
      split
      · rename_i hdead
        refine ends_pure.mpr ⟨rfl, ?_⟩
        simpa [List.countP_cons, hdead] using ih n
      · rename_i hlive
        refine ends_pure.mpr ⟨rfl, ?_⟩
        simpa [List.countP_cons, hlive, Nat.add_assoc, Nat.add_comm] using ih (n + 1)
  have hall := hwalk ((view fs).places d) 0
  simp only [Nat.zero_add] at hall
  exact hall

theorem addDirEntry_ends (hc : c < 256 ^ 4) (ht : t < 256) : Ends (addDirEntry debug d name c t) fs
      (fun _ fs' => (view fs).find d name.bytes = none ∧ name.bytes.length ≤ maxFilenameLen ∧
        ∃ w p, (view fs).Room d w p ∧ view fs' = w.put p (DirEntry.named c name.bytes t))
      fun e fs' => e = .panic ∨ view fs' = view fs :=
  (addDirEntry_listing hfirst hd.listing hc ht).mono (fun _ _ h => h) fun _ _ h => .inr (h.1 ▸ rfl)

end

end PandaOS.Kernel.HomeFs
